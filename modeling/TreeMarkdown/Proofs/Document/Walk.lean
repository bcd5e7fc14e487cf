/-
The walk of a cursor through a whole document.

`Cursor.Visits` says which nodes a cursor still comes to before it is done. From the last
node of a subtree the walk goes on behind it, so a cursor that stands before some of the
children of a node visits their subtrees one after the other and then what comes behind
the node (`visits_of_standsBefore`). A cursor at the start therefore visits `belowRoot`,
and after `k` steps what is left of it (`visits_after`).

The climb from the end of a subtree has no bound in the document; `climb` counts its
rounds, and one more round than there are ancestors is enough (`climb_eq`). `Walker` keeps
the place of a walk in two fields, where a missing node stands for the start as well as
for the end; it goes through the same places as the cursor (`cursor_step`).
-/

import TreeMarkdown.Proofs.Document.Subtree

namespace TreeMarkdown

namespace Document

variable {d : Document} {i p : Nat}

/-- The nodes other than the root in document order. -/
def belowRoot (d : Document) : List Nat :=
  (d.children root).flatMap d.preorder

theorem preorder_root (d : Document) : d.preorder root = root :: d.belowRoot :=
  preorder_eq d root

theorem root_notMem_belowRoot (d : Document) : root ∉ d.belowRoot := by
  have hnodup := d.nodup_preorder root
  rw [preorder_root] at hnodup
  exact (List.nodup_cons.mp hnodup).1

theorem nodup_belowRoot (d : Document) : d.belowRoot.Nodup := by
  have hnodup := d.nodup_preorder root
  rw [preorder_root] at hnodup
  exact hnodup.of_cons

theorem mem_belowRoot_iff : i ∈ d.belowRoot ↔ i ≠ root ∧ i < d.size := by
  rw [← mem_preorder_root_iff, preorder_root, List.mem_cons]
  constructor
  · intro h
    exact ⟨fun heq => d.root_notMem_belowRoot (heq ▸ h), Or.inr h⟩
  · rintro ⟨hne, heq | h⟩
    · exact absurd heq hne
    · exact h

theorem length_belowRoot_le (d : Document) : d.belowRoot.length ≤ d.size :=
  length_le_of_nodup d.nodup_belowRoot fun _ hi => (mem_belowRoot_iff.mp hi).2

/-! ### What comes before what -/

/-- What comes in some order in a subtree does so among all nodes. -/
theorem sublist_belowRoot {nodes : List Nat} (hi : i < d.size)
    (h : nodes.Sublist (d.preorder i)) (hroot : root ∉ nodes) : nodes.Sublist d.belowRoot := by
  have hall := h.trans (isInfix_preorder (mem_preorder_root_iff.mpr hi)).sublist
  rw [preorder_root] at hall
  rcases List.sublist_cons_iff.mp hall with h | ⟨rest, rfl, -⟩
  · exact h
  · exact absurd List.mem_cons_self hroot

/-- A node comes before everything below it. -/
theorem ancestor_comes_before {a : Nat} (ha : a ∈ d.ancestors i) (hroot : a ≠ root) :
    [a, i].Sublist d.belowRoot := by
  have hlt := lt_of_mem_ancestors ha
  obtain ⟨q, hq, -⟩ := mem_ancestors_iff.mp ha
  have hi := lt_size_of_parent hq
  apply sublist_belowRoot (i := a) (Nat.lt_trans hlt hi)
  · have hmem : i ∈ d.preorder a := mem_preorder_iff.mpr (Or.inr ha)
    rw [preorder_eq] at hmem ⊢
    rcases List.mem_cons.mp hmem with rfl | hmem
    · exact absurd hlt (Nat.lt_irrefl _)
    · exact (List.singleton_sublist.mpr hmem).cons_cons a
  · simp only [List.mem_cons, List.not_mem_nil, or_false, not_or]
    exact ⟨Ne.symm hroot, Nat.ne_of_lt (Nat.zero_lt_of_lt hlt)⟩

/-- The subtree of a child comes before those of the children after it. -/
theorem sibling_comes_before {before after : List Nat} {s t x y : Nat}
    (hsplit : d.children p = before ++ s :: after) (ht : t ∈ after)
    (hx : x ∈ d.preorder s) (hy : y ∈ d.preorder t) : [x, y].Sublist d.belowRoot := by
  have hs : s ∈ d.children p := by simp [hsplit]
  have htp : t ∈ d.children p := by simp [hsplit, ht]
  have hp : p < d.size := Nat.lt_trans (lt_of_mem_children hs) (lt_size_of_mem_children hs)
  -- nodes below a child are not the root, which is nobody's child
  have below : ∀ {c z : Nat}, c ∈ d.children p → z ∈ d.preorder c → root ≠ z := by
    rintro c z hc hz rfl
    have hlt := lt_of_mem_children hc
    rcases mem_preorder_iff.mp hz with rfl | hanc
    · exact Nat.not_lt_zero _ hlt
    · exact Nat.not_lt_zero _ (lt_of_mem_ancestors hanc)
  apply sublist_belowRoot (i := p) hp
  · obtain ⟨between, rest, hafter⟩ := List.append_of_mem ht
    have hlist : d.preorder p = (p :: before.flatMap d.preorder) ++ d.preorder s ++
        (between.flatMap d.preorder ++ (d.preorder t ++ rest.flatMap d.preorder)) := by
      simp [preorder_eq d p, hsplit, hafter]
    rw [hlist]
    have hfirst : [x].Sublist ((p :: before.flatMap d.preorder) ++ d.preorder s) :=
      List.singleton_sublist.mpr (List.mem_append_right _ hx)
    have hsecond : [y].Sublist
        (between.flatMap d.preorder ++ (d.preorder t ++ rest.flatMap d.preorder)) :=
      List.singleton_sublist.mpr (List.mem_append_right _ (List.mem_append_left _ hy))
    exact hfirst.append hsecond
  · simp only [List.mem_cons, List.not_mem_nil, or_false, not_or]
    exact ⟨below hs hx, below htp hy⟩

/-! ### The climb, round by round -/

/-- At most `rounds` rounds of the search for a next sibling, from a node upwards. Nothing
if they were not enough. -/
def climb (d : Document) : Nat → Option Nat → Option (Option Nat)
  | _, none => some none
  | 0, some _ => none
  | rounds + 1, some i =>
    match d.nextSibling? i with
    | some s => some (some s)
    | none => d.climb rounds (d.parent? i)

/-- `following?` with a bound on the rounds of the climb. -/
def followingWithin (d : Document) (rounds i : Nat) : Option (Option Nat) :=
  match d.firstChild? i with
  | some c => some (some c)
  | none => d.climb rounds (some i)

/-- The climb from a node is over after one round for the node and each of its
ancestors. -/
theorem climb_eq {rounds : Nat} (h : (d.ancestors i).length < rounds) :
    d.climb rounds (some i) = some (d.nextAfterSubtree? i) := by
  induction i using d.parentInduction generalizing rounds with
  | step i ih =>
    cases rounds with
    | zero => exact absurd h (Nat.not_lt_zero _)
    | succ rounds =>
      rw [climb, nextAfterSubtree?_eq]
      cases d.nextSibling? i with
      | some s => rfl
      | none =>
        cases hp : d.parent? i with
        | none => cases rounds <;> rfl
        | some p =>
          rw [ancestors_of_parent hp, List.length_cons] at h
          exact ih p hp (Nat.lt_of_succ_lt_succ h)

theorem followingWithin_eq {rounds : Nat} (h : (d.ancestors i).length < rounds) :
    d.followingWithin rounds i = some (d.following? i) := by
  unfold followingWithin following?
  cases d.firstChild? i with
  | some c => rfl
  | none => exact climb_eq h

end Document

namespace Cursor

variable {d : Document} {p : Nat}

/-- From the cursor on, the walk comes to these nodes and is then done. -/
def Visits (d : Document) : Cursor → List Nat → Prop
  | c, [] => c.advance d = .done
  | c, i :: nodes => c.advance d = .on i ∧ Visits d (.on i) nodes

/-- Cursors whose next steps agree visit the same nodes. -/
theorem Visits.of_advance_eq {c c' : Cursor} {nodes : List Nat} (h : Visits d c nodes)
    (heq : c'.advance d = c.advance d) : Visits d c' nodes := by
  cases nodes with
  | nil => exact heq.trans h
  | cons i nodes => exact ⟨heq.trans h.1, h.2⟩

theorem Visits.advance {c : Cursor} {nodes : List Nat} (h : Visits d c nodes) :
    c.advance d = ofOption nodes.head? := by
  cases nodes with
  | nil => exact h
  | cons i nodes => exact h.1

/-- A step takes the first of the nodes. -/
theorem Visits.tail {c : Cursor} {nodes : List Nat} (h : Visits d c nodes) :
    Visits d (c.advance d) nodes.tail := by
  cases nodes with
  | nil =>
    rw [h.advance]
    rfl
  | cons i nodes =>
    rw [h.advance]
    exact h.2

/-- Subtrees that a cursor stands before are visited one after the other, and then what
comes behind their parent, if each of them is visited as a whole. -/
theorem visits_siblings {before rest behind : List Nat} {c : Cursor}
    (hsubtree : ∀ s ∈ d.children p, ∀ nodes, Visits d (.on (d.lastInSubtree s)) nodes →
      Visits d (.on s) ((d.children s).flatMap d.preorder ++ nodes))
    (hsplit : d.children p = before ++ rest) (hc : c.StandsBefore d p rest)
    (hbehind : Visits d (.on (d.lastInSubtree p)) behind) :
    Visits d c (rest.flatMap d.preorder ++ behind) := by
  induction rest generalizing before c with
  | nil =>
    apply hbehind.of_advance_eq
    show c.advance d = ofOption (d.following? (d.lastInSubtree p))
    rw [d.following?_lastInSubtree p]
    exact hc
  | cons s rest ih =>
    have hs : s ∈ d.children p := by simp [hsplit]
    have hsplit' : d.children p = (before ++ [s]) ++ rest := by simp [hsplit]
    have hrest := ih hsplit' (standsBefore_lastInSubtree hsplit)
    rw [List.flatMap_cons, Document.preorder_eq, List.append_assoc, List.cons_append]
    exact ⟨hc.advance_cons, hsubtree s hs _ hrest⟩

/-- From a node the walk comes to everything below it and then to what comes behind. -/
theorem visits_below {i : Nat} {behind : List Nat}
    (hbehind : Visits d (.on (d.lastInSubtree i)) behind) :
    Visits d (.on i) ((d.children i).flatMap d.preorder ++ behind) := by
  induction i using d.childrenInduction generalizing behind with
  | step i ih =>
    exact visits_siblings (fun s hs _ h => ih s hs h) (List.nil_append _).symm
      (standsBefore_children d i) hbehind

/-- A cursor that stands before some of the children of a node visits their subtrees and
then what comes behind the node. -/
theorem visits_of_standsBefore {before rest behind : List Nat} {c : Cursor}
    (hsplit : d.children p = before ++ rest) (hc : c.StandsBefore d p rest)
    (hbehind : Visits d (.on (d.lastInSubtree p)) behind) :
    Visits d c (rest.flatMap d.preorder ++ behind) :=
  visits_siblings (fun _ _ _ h => visits_below h) hsplit hc hbehind

/-- A fresh cursor visits every node below the root in document order. -/
theorem visits_start (d : Document) : Visits d .start d.belowRoot := by
  have hend : Visits d (.on (d.lastInSubtree Document.root)) [] := by
    show ofOption (d.following? _) = .done
    rw [d.following?_lastInSubtree, d.nextAfterSubtree?_root]
    rfl
  have hall := visits_of_standsBefore (List.nil_append _).symm (standsBefore_start d) hend
  rwa [List.append_nil] at hall

/-! ### After any number of steps -/

/-- The cursor after `k` steps from the start. -/
def after (d : Document) : Nat → Cursor
  | 0 => .start
  | k + 1 => (after d k).advance d

/-- After `k` steps the cursor has the rest of document order before it. -/
theorem visits_after (d : Document) (k : Nat) : Visits d (after d k) (d.belowRoot.drop k) := by
  induction k with
  | zero => exact visits_start d
  | succ k ih =>
    rw [← List.tail_drop]
    exact ih.tail

theorem current?_ofOption (found : Option Nat) : (ofOption found).current? = found := by
  cases found <;> rfl

theorem current?_after_succ (d : Document) (k : Nat) :
    (after d (k + 1)).current? = d.belowRoot[k]? := by
  rw [after, (visits_after d k).advance, current?_ofOption, List.head?_drop]

theorem Visits.upcoming_eq {c : Cursor} {nodes : List Nat} (h : Visits d c nodes) (n : Nat) :
    upcoming d n c = nodes.take n := by
  induction n generalizing c nodes with
  | zero => rfl
  | succ n ih =>
    rw [upcoming]
    cases nodes with
    | nil => rw [h.advance]; rfl
    | cons i nodes =>
      rw [h.1]
      simp only [List.take_succ_cons, ih h.2]

theorem rest_after (d : Document) (k : Nat) : (after d k).rest d = d.belowRoot.drop k := by
  rw [rest, (visits_after d k).upcoming_eq]
  apply List.take_of_length_le
  rw [List.length_drop]
  exact Nat.le_trans (Nat.sub_le _ _) d.length_belowRoot_le

end Cursor

/-! ### A walk in two fields -/

/-- The place of a walk: the node it is on, if it is on one, and whether it has begun. -/
structure Walker where
  node : Option Nat
  begun : Bool

namespace Walker

/-- A walk that has not begun. -/
def fresh : Walker := ⟨none, false⟩

/-- The node that the next step leads to. -/
def next? (d : Document) (w : Walker) : Option Nat :=
  match w.node with
  | some i => d.following? i
  | none => if w.begun then none else d.firstChild? Document.root

/-- One step further. -/
def step (d : Document) (w : Walker) : Walker := ⟨w.next? d, true⟩

/-- The walk after `k` steps. -/
def after (d : Document) : Nat → Walker
  | 0 => fresh
  | k + 1 => (after d k).step d

/-- The place as a cursor: without a node it is the start of the walk or its end. -/
def cursor : Walker → Cursor
  | ⟨some i, _⟩ => .on i
  | ⟨none, false⟩ => .start
  | ⟨none, true⟩ => .done

theorem current?_cursor (w : Walker) : w.cursor.current? = w.node := by
  rcases w with ⟨_ | i, _ | _⟩ <;> rfl

/-- A step of the walk is a step of its cursor. -/
theorem cursor_step (d : Document) (w : Walker) : (w.step d).cursor = w.cursor.advance d := by
  have hbegun : ∀ found, (⟨found, true⟩ : Walker).cursor = Cursor.ofOption found := by
    intro found
    cases found <;> rfl
  rw [step, hbegun]
  rcases w with ⟨_ | i, _ | _⟩ <;> rfl

theorem cursor_after (d : Document) (k : Nat) : (after d k).cursor = Cursor.after d k := by
  induction k with
  | zero => rfl
  | succ k ih => rw [after, cursor_step, ih, Cursor.after]

theorem node_after (d : Document) (k : Nat) :
    (after d k).node = (Cursor.after d k).current? := by
  rw [← cursor_after, current?_cursor]

/-- The step after `k` others leads to the node at position `k`. -/
theorem next?_after (d : Document) (k : Nat) : (after d k).next? d = d.belowRoot[k]? := by
  have hnode : (after d (k + 1)).node = d.belowRoot[k]? := by
    rw [node_after, Cursor.current?_after_succ]
  exact hnode

end Walker

/-- A cursor walks through a document in document order: `belowRoot` has every node but
the root, each once, nodes before those below them and the subtrees of earlier siblings
before those of later ones. The step after `k` others leads to the node at position `k`
and, behind the last one, to none; so there is no node under the cursor before the first
step, then the one that the last step led to, and none at the end. After `k` steps the
rest of the list is still to come. Keeping the place in two fields, of which the node is
missing at the start as well as at the end, makes no difference; and each step needs no
more rounds of the climb than its node has ancestors, and one. -/
theorem Cursor.walks_document_order (d : Document) :
    (∀ i, i ∈ d.belowRoot ↔ i ≠ Document.root ∧ i < d.size) ∧
      d.belowRoot.Nodup ∧
      (∀ i, ∀ a ∈ d.ancestors i, a ≠ Document.root → [a, i].Sublist d.belowRoot) ∧
      (∀ p before s after, d.children p = before ++ s :: after → ∀ t ∈ after,
        ∀ x ∈ d.preorder s, ∀ y ∈ d.preorder t, [x, y].Sublist d.belowRoot) ∧
      (Cursor.after d 0).current? = none ∧
      (∀ k, (Cursor.after d (k + 1)).current? = d.belowRoot[k]?) ∧
      (∀ k, (Cursor.after d k).rest d = d.belowRoot.drop k) ∧
      (∀ k, (Walker.after d k).next? d = d.belowRoot[k]? ∧
        (Walker.after d k).node = (Cursor.after d k).current?) ∧
      ∀ i rounds, (d.ancestors i).length < rounds →
        d.followingWithin rounds i = some (d.following? i) := by
  refine ⟨fun i => Document.mem_belowRoot_iff, d.nodup_belowRoot,
    fun i a ha => Document.ancestor_comes_before ha, ?_, rfl, Cursor.current?_after_succ d,
    Cursor.rest_after d, ?_, fun i rounds => Document.followingWithin_eq⟩
  · intro p before s after hsplit t ht x hx y hy
    exact Document.sibling_comes_before hsplit ht hx hy
  · exact fun k => ⟨Walker.next?_after d k, Walker.node_after d k⟩

end TreeMarkdown
