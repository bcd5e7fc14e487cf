/-
Document order and the cursor that follows it.

What each node inherits from its children holds of all nodes (`childrenInduction`).
A subtree is a block of document order: it begins with its node and ends with
`lastInSubtree`. A cursor that keeps no stack still leaves a subtree at the right place:
from the last node of a subtree it goes on to the node after the subtree
(`following?_lastInSubtree`), and the node after the subtree of a child is the next
child or, behind the last one, the node after the subtree of the parent
(`nextAfterSubtree?_of_children`). `StandsBefore` puts the two together: it says that a
cursor is about to step on the first of the remaining children of a node.
-/

import TreeMarkdown.Document.Cursor
import Mathlib.Data.List.Perm.Subperm

namespace TreeMarkdown

namespace Document

variable {d : Document} {i p k : Nat}

/-- To prove something of every node it is enough to prove it of a node whose children
have it. -/
@[elab_as_elim] theorem childrenInduction (d : Document) {motive : Nat → Prop}
    (step : ∀ i, (∀ c ∈ d.children i, motive c) → motive i) (i : Nat) : motive i := by
  -- children have larger numbers than their parent, up to the size of the document
  induction hn : d.size - i using Nat.strongRecOn generalizing i with
  | ind n ih =>
    apply step
    intro c hc
    have hlt := lt_of_mem_children hc
    have hsize := lt_size_of_mem_children hc
    exact ih (d.size - c) (by omega) c rfl

/-! ### Children by position -/

/-- The child at position `k` knows its parent and its position. -/
theorem parent?_index?_of_children_getElem? (h : (d.children p)[k]? = some i) :
    d.parent? i = some p ∧ d.index? i = some k := by
  unfold children childArray at h
  cases hp : d.cells[p]? with
  | none => simp [hp] at h
  | some above =>
    rw [hp, Option.elim_some, Array.getElem?_toList] at h
    obtain ⟨c, hc, hparent, hindex⟩ := d.isTree.of_child hp h
    constructor
    · simp [parent?, hc, hparent]
    · simp [index?, hc, hparent, hindex]

theorem childArray_getElem? (d : Document) (p k : Nat) :
    (d.childArray p)[k]? = (d.children p)[k]? := by
  rw [children, Array.getElem?_toList]

theorem firstChild?_eq_head? (d : Document) (p : Nat) :
    d.firstChild? p = (d.children p).head? := by
  rw [firstChild?, childArray_getElem?, List.head?_eq_getElem?]

/-- The sibling after a child is the one at the next position. -/
theorem nextSibling?_of_children_getElem? (h : (d.children p)[k]? = some i) :
    d.nextSibling? i = (d.children p)[k + 1]? := by
  obtain ⟨hparent, hindex⟩ := parent?_index?_of_children_getElem? h
  rw [← childArray_getElem?]
  simp [nextSibling?, hparent, hindex]

/-- The sibling after a child, by splitting the children. -/
theorem nextSibling?_of_split {before after : List Nat} {c : Nat}
    (h : d.children p = before ++ c :: after) : d.nextSibling? c = after.head? := by
  have hc : (d.children p)[before.length]? = some c := by simp [h]
  rw [nextSibling?_of_children_getElem? hc, h, List.getElem?_append_right (by omega)]
  simp [List.head?_eq_getElem?]

/-- The sibling before a child, by splitting the children. -/
theorem previousSibling?_of_split {before after : List Nat} {c : Nat}
    (h : d.children p = before ++ c :: after) : d.previousSibling? c = before.getLast? := by
  have hc : (d.children p)[before.length]? = some c := by simp [h]
  obtain ⟨hparent, hindex⟩ := parent?_index?_of_children_getElem? hc
  simp only [previousSibling?, hparent, hindex, childArray_getElem?, h, Option.bind_eq_bind,
    Option.bind_some]
  rcases List.eq_nil_or_concat before with rfl | ⟨init, s, rfl⟩
  · rfl
  · simp

/-- No node stands twice among the children of a node. -/
theorem nodup_children (d : Document) (p : Nat) : (d.children p).Nodup := by
  rw [List.Nodup, List.pairwise_iff_getElem]
  intro k l hk hl hkl heq
  have hfirst := (parent?_index?_of_children_getElem? (List.getElem?_eq_getElem hk)).2
  have hsecond := (parent?_index?_of_children_getElem? (List.getElem?_eq_getElem hl)).2
  rw [heq, hsecond] at hfirst
  cases hfirst
  exact Nat.lt_irrefl _ hkl

/-- There are no more different numbers below `n` than `n`. -/
theorem length_le_of_nodup {nodes : List Nat} {n : Nat} (h : nodes.Nodup)
    (hlt : ∀ i ∈ nodes, i < n) : nodes.length ≤ n := by
  have hsub : nodes ⊆ List.range n := fun i hi => List.mem_range.mpr (hlt i hi)
  simpa using (h.subperm hsub).length_le

/-- A node has no more children than the document has nodes. -/
theorem length_children_le_size (d : Document) (p : Nat) :
    (d.children p).length ≤ d.size :=
  length_le_of_nodup (d.nodup_children p) fun _ => lt_size_of_mem_children

theorem ne_root_of_mem_children (h : i ∈ d.children p) : i ≠ root :=
  Nat.ne_of_gt (Nat.lt_of_le_of_lt (Nat.zero_le p) (lt_of_mem_children h))

theorem parent?_root (d : Document) : d.parent? root = none := by
  unfold parent?
  cases h : d.cells[root]? with
  | none => rfl
  | some c => exact (d.isTree.parent_eq_none_iff h).mpr rfl

/-! ### The end of a subtree -/

theorem preorder_ne_nil (d : Document) (i : Nat) : d.preorder i ≠ [] := by
  rw [preorder_eq]
  exact List.cons_ne_nil _ _

/-- The last node of the subtree of node `i` in document order. -/
def lastInSubtree (d : Document) (i : Nat) : Nat :=
  (d.preorder i).getLast (d.preorder_ne_nil i)

theorem lastInSubtree_of_children_eq_nil (h : d.children i = []) : d.lastInSubtree i = i := by
  simp [lastInSubtree, preorder_eq, h]

/-- A subtree ends where the subtree of its last child ends. -/
theorem lastInSubtree_of_children_eq_concat {before : List Nat} {c : Nat}
    (h : d.children i = before ++ [c]) : d.lastInSubtree i = d.lastInSubtree c := by
  have hsplit : d.preorder i = (i :: before.flatMap d.preorder) ++ d.preorder c := by
    simp [preorder_eq d i, h]
  unfold lastInSubtree
  simp only [hsplit]
  exact List.getLast_append_of_ne_nil _ (d.preorder_ne_nil c)

/-! ### The node after a subtree -/

theorem nextAfterSubtree?_eq (d : Document) (i : Nat) :
    d.nextAfterSubtree? i =
      (d.nextSibling? i).or ((d.parent? i).bind d.nextAfterSubtree?) := by
  rw [nextAfterSubtree?]
  cases d.nextSibling? i with
  | some s => rfl
  | none =>
    simp only [Option.none_or]
    split
    · rename_i q hq
      rw [hq, Option.bind_some]
    · rename_i hq
      rw [hq, Option.bind_none]

theorem nextAfterSubtree?_root (d : Document) : d.nextAfterSubtree? root = none := by
  have hparent := d.parent?_root
  have hnext : d.nextSibling? root = none := by simp [nextSibling?, hparent]
  rw [nextAfterSubtree?_eq, hnext, hparent]
  rfl

/-- After the subtree of a child comes the next child or, behind the last child, the node
after the subtree of the parent. -/
theorem nextAfterSubtree?_of_children {before after : List Nat} {c : Nat}
    (h : d.children p = before ++ c :: after) :
    d.nextAfterSubtree? c = after.head?.or (d.nextAfterSubtree? p) := by
  have hparent : d.parent? c = some p := parent_of_mem_children (by simp [h])
  rw [nextAfterSubtree?_eq, nextSibling?_of_split h, hparent, Option.bind_some]

/-- From the last node of a subtree document order goes on to the node after it. -/
theorem following?_lastInSubtree (d : Document) (i : Nat) :
    d.following? (d.lastInSubtree i) = d.nextAfterSubtree? i := by
  induction i using d.childrenInduction with
  | step i ih =>
    rcases List.eq_nil_or_concat (d.children i) with hnil | ⟨before, c, hconcat⟩
    · rw [lastInSubtree_of_children_eq_nil hnil, following?, firstChild?_eq_head?, hnil]
      rfl
    · rw [List.concat_eq_append] at hconcat
      have hmem : c ∈ d.children i := by simp [hconcat]
      rw [lastInSubtree_of_children_eq_concat hconcat, ih c hmem,
        nextAfterSubtree?_of_children hconcat]
      rfl

end Document

namespace Cursor

/-- The cursor stands right before `rest`, the last of the children of node `p`: its next
step leads to the first of them or, if none is left, to the node after the subtree of
`p`. -/
def StandsBefore (d : Document) (p : Nat) (rest : List Nat) (c : Cursor) : Prop :=
  c.advance d = ofOption (rest.head?.or (d.nextAfterSubtree? p))

variable {d : Document} {p : Nat}

/-- On a node, the cursor stands before all its children. -/
theorem standsBefore_children (d : Document) (p : Nat) :
    StandsBefore d p (d.children p) (.on p) := by
  show ofOption (d.following? p) = _
  rw [Document.following?, Document.firstChild?_eq_head?]
  cases (d.children p).head? <;> rfl

/-- At the start, the cursor stands before the children of the root. -/
theorem standsBefore_start (d : Document) :
    StandsBefore d Document.root (d.children Document.root) .start := by
  show ofOption (d.firstChild? Document.root) = _
  rw [Document.firstChild?_eq_head?, Document.nextAfterSubtree?_root, Option.or_none]

/-- At the end of the subtree of a child, the cursor stands before the children after
it. -/
theorem standsBefore_lastInSubtree {before after : List Nat} {c : Nat}
    (h : d.children p = before ++ c :: after) :
    StandsBefore d p after (.on (d.lastInSubtree c)) := by
  show ofOption (d.following? (d.lastInSubtree c)) = _
  rw [Document.following?_lastInSubtree, Document.nextAfterSubtree?_of_children h]

theorem StandsBefore.advance_cons {c : Nat} {rest : List Nat} {cursor : Cursor}
    (h : StandsBefore d p (c :: rest) cursor) : cursor.advance d = .on c := h

/-- Before no child of the root, the cursor is at the end of its walk. -/
theorem StandsBefore.advance_nil_root {cursor : Cursor}
    (h : StandsBefore d Document.root [] cursor) : cursor.advance d = .done := by
  unfold StandsBefore at h
  rw [h, Document.nextAfterSubtree?_root]
  rfl

end Cursor

end TreeMarkdown
