/-
Texts put together from trimmed pieces, and the spaces at the seams.

Where two siblings meet there may be white space on either side (`seam`). A subtree whose
pieces are trimmed one by one, with a space back at every seam that has white space, has
the words of the text of the subtree (`spaceWords_subtreeText`): `bridged` is that text for
any choice of the seams that get their space. Choosing fewer of them loses spaces and
nothing else (`losesSpaces_bridged`).
-/

import TreeMarkdown.Proofs.Document.Flow
import TreeMarkdown.Proofs.Document.Growth
import TreeMarkdown.Proofs.Document.Naming
import TreeMarkdown.Proofs.Document.Subtree
import TreeMarkdown.Proofs.Text.Spacing

namespace TreeMarkdown.Document

open Text (Alike LosesSpaces gap spaceWords)

variable {d : Document} {i p c : Nat}

/-! ### The ends of a text -/

/-- Only nodes without children carry a text of their own. -/
def TextAtLeaves (d : Document) : Prop :=
  ∀ i, d.ownText i ≠ [] → d.children i = []

theorem TextAtLeaves.ownText_eq_nil (h : d.TextAtLeaves) (hi : d.children i ≠ []) :
    d.ownText i = [] := by
  by_contra hown
  exact hi (h i hown)

/-- Text nodes have no children, so it is enough that elements carry no text. -/
theorem Reachable.textAtLeaves (hd : d.Reachable)
    (h : ∀ i, d.isElement i = true → d.ownText i = []) : d.TextAtLeaves := by
  intro i hown
  cases hn : d.node? i with
  | none => exact absurd (by rw [ownText, hn, Option.elim_none]) hown
  | some n =>
    cases hkind : n.kind with
    | text =>
      exact hd.children_eq_nil_of_isText (by simp [isText, satisfies, hn, Node.isText, hkind])
    | element =>
      exact absurd (h i (by simp [isElement, satisfies, hn, Node.isElement, hkind])) hown
    | document =>
      have hroot : d.isRoot i = true := by
        simp [isRoot, satisfies, hn, Node.isDocument, hkind]
      rw [isRoot_iff.mp hroot, ownText, node?_root_of_reachable hd] at hown
      exact absurd rfl hown

theorem firstCharOf_eq (d : Document) (work : List Nat) :
    d.firstCharOf work = (work.flatMap d.subtreeText).head? := by
  fun_induction d.firstCharOf work with
  | case1 => rfl
  | case2 i work c hc =>
    rw [List.flatMap_cons, subtreeText_eq, List.append_assoc, List.head?_append, hc]
    rfl
  | case3 i work hnone ih =>
    have hown : d.ownText i = [] := List.head?_eq_none_iff.mp hnone
    rw [ih, List.flatMap_cons, List.flatMap_append, subtreeText_eq d i, hown, List.nil_append]

theorem firstTextChar?_eq (d : Document) (i : Nat) :
    d.firstTextChar? i = (d.subtreeText i).head? := by
  rw [firstTextChar?, firstCharOf_eq, List.flatMap_singleton]

/-- The text of a subtree, where a value that a node itself carries stands behind the texts of
its children. -/
def closingText (d : Document) (i : Nat) : Text :=
  ((d.children i).attach.flatMap fun ⟨c, _⟩ => d.closingText c) ++ d.ownText i
termination_by d.size - i
decreasing_by
  rename_i h
  have := lt_of_mem_children h
  have := lt_size_of_mem_children h
  omega

theorem closingText_eq (d : Document) (i : Nat) :
    d.closingText i = (d.children i).flatMap d.closingText ++ d.ownText i := by
  rw [closingText]
  simp [List.flatMap_def]

/-- The backward reading takes a node before its children. -/
theorem lastCharOf_eq (d : Document) (work : List Nat) :
    d.lastCharOf work = (work.reverse.flatMap d.closingText).getLast? := by
  fun_induction d.lastCharOf work with
  | case1 => rfl
  | case2 i work c hc =>
    rw [List.reverse_cons, List.flatMap_append, List.flatMap_singleton, closingText_eq d i,
      List.getLast?_append, List.getLast?_append, hc]
    rfl
  | case3 i work hnone ih =>
    have hown : d.ownText i = [] := List.getLast?_eq_none_iff.mp hnone
    rw [ih, List.reverse_append, List.reverse_reverse, List.reverse_cons, List.flatMap_append,
      List.flatMap_append, List.flatMap_singleton, closingText_eq d i, hown, List.append_nil]

theorem lastTextChar?_eq_closing (d : Document) (i : Nat) :
    d.lastTextChar? i = (d.closingText i).getLast? := by
  rw [lastTextChar?, lastCharOf_eq, List.reverse_singleton, List.flatMap_singleton]

/-- It makes a difference only if a node with children has a text of its own. -/
theorem TextAtLeaves.closingText_eq_subtreeText (h : d.TextAtLeaves) (i : Nat) :
    d.closingText i = d.subtreeText i := by
  induction i using d.childrenInduction with
  | step i ih =>
    rw [closingText_eq, subtreeText_eq, List.flatMap_congr ih]
    by_cases hown : d.ownText i = []
    · rw [hown, List.append_nil, List.nil_append]
    · rw [h i hown, List.flatMap_nil, List.append_nil, List.nil_append]

theorem lastTextChar?_eq (h : d.TextAtLeaves) (i : Nat) :
    d.lastTextChar? i = (d.subtreeText i).getLast? := by
  rw [lastTextChar?_eq_closing, h.closingText_eq_subtreeText]

/-! ### Bridged texts -/

/-- There is white space on either side of the boundary between two siblings. -/
def seam (d : Document) (p q : Nat) : Bool :=
  isSpaceEdge (d.subtreeText p).getLast? || isSpaceEdge (d.subtreeText q).head?

theorem spaceBefore_eq (h : d.TextAtLeaves) (i : Nat) :
    d.spaceBefore i = (d.previousSibling? i).any fun s => d.isInline s && d.seam s i := by
  simp only [spaceBefore, seam, firstTextChar?_eq, lastTextChar?_eq h]

theorem spaceAfter_eq (h : d.TextAtLeaves) (i : Nat) :
    d.spaceAfter i = (d.nextSibling? i).any fun s => d.isInline s && d.seam i s := by
  simp only [spaceAfter, seam, firstTextChar?_eq, lastTextChar?_eq h, Bool.or_comm]

/-- There is white space on either side of the boundary, and one of the siblings is a text
node. -/
def textSeam (d : Document) (p q : Nat) : Bool :=
  d.seam p q && (d.isText p || d.isText q)

/-- Pieces one after the other, with a space between neighbours that `bridge` calls
for. -/
def joined {α : Type} (bridge : α → α → Bool) (piece : α → Text) : List α → Text
  | [] => []
  | [a] => piece a
  | a :: b :: rest => piece a ++ gap (bridge a b) ++ joined bridge piece (b :: rest)

/-- The text of a subtree, folded and trimmed node by node, with a space back where
`bridge` says so of two siblings. -/
def bridged (d : Document) (bridge : Nat → Nat → Bool) (i : Nat) : Text :=
  Text.trim (Text.collapseSpaces (d.ownText i)) ++
    joined (fun a b => bridge a.1 b.1) (fun ⟨c, _⟩ => d.bridged bridge c) (d.children i).attach
termination_by d.size - i
decreasing_by
  rename_i h
  have := lt_of_mem_children h
  have := lt_size_of_mem_children h
  omega

theorem joined_map {α β : Type} (bridge : β → β → Bool) (piece : β → Text) (f : α → β)
    (l : List α) :
    joined (fun a b => bridge (f a) (f b)) (fun a => piece (f a)) l =
      joined bridge piece (l.map f) := by
  induction l with
  | nil => rfl
  | cons a l ih =>
    cases l with
    | nil => rfl
    | cons b l => exact congrArg _ ih

theorem bridged_eq (d : Document) (bridge : Nat → Nat → Bool) (i : Nat) :
    d.bridged bridge i = Text.trim (Text.collapseSpaces (d.ownText i)) ++
      joined bridge (d.bridged bridge) (d.children i) := by
  rw [bridged]
  have hmap := joined_map bridge (d.bridged bridge) Subtype.val (d.children i).attach
  rw [List.attach_map_subtype_val] at hmap
  rw [← hmap]

theorem bridged_of_ownText_eq_nil (h : d.ownText i = []) (bridge : Nat → Nat → Bool) :
    d.bridged bridge i = joined bridge (d.bridged bridge) (d.children i) := by
  rw [bridged_eq, h]
  rfl

/-- Siblings whose texts are bordered bridged texts have a bordered bridged text
together. -/
theorem exists_alike_joined {bridged : Nat → Text} {rest : List Nat}
    (h : ∀ s ∈ c :: rest, Alike (d.subtreeText s)
      (gap (isSpaceEdge (d.subtreeText s).head?) ++ bridged s ++
        gap (isSpaceEdge (d.subtreeText s).getLast?))) :
    ∃ b, Alike ((c :: rest).flatMap d.subtreeText)
      (gap (isSpaceEdge (d.subtreeText c).head?) ++ joined d.seam bridged (c :: rest) ++
        gap b) := by
  induction rest generalizing c with
  | nil =>
    rw [List.flatMap_singleton]
    exact ⟨_, h c List.mem_cons_self⟩
  | cons c' rest ih =>
    obtain ⟨b, hb⟩ := ih fun s hs => h s (List.mem_cons_of_mem c hs)
    -- the inner borders of the two make up the space at the seam
    rw [List.append_assoc] at hb
    have hboth := (h c List.mem_cons_self).append_at_gap hb
    refine ⟨b, ?_⟩
    rw [List.flatMap_cons, joined]
    simp only [seam, List.append_assoc] at hboth ⊢
    exact hboth

/-- Bridged at every seam, the text of a subtree differs in white space only, and at the
ends from the text itself. -/
theorem alike_subtreeText (h : d.TextAtLeaves) (i : Nat) :
    Alike (d.subtreeText i)
      (gap (isSpaceEdge (d.subtreeText i).head?) ++ d.bridged d.seam i ++
        gap (isSpaceEdge (d.subtreeText i).getLast?)) := by
  induction i using d.childrenInduction with
  | step i ih =>
    cases hchildren : d.children i with
    | nil =>
      obtain ⟨a, b, hab⟩ := Text.exists_bordered_trim (d.ownText i)
      have htext : d.subtreeText i = d.ownText i := by
        rw [subtreeText_eq, hchildren, List.flatMap_nil, List.append_nil]
      rw [htext, bridged_eq, hchildren, joined, List.append_nil]
      exact hab.bordered
    | cons c rest =>
      rw [hchildren] at ih
      have hown := h.ownText_eq_nil (i := i) (by simp [hchildren])
      have htext : d.subtreeText i = (c :: rest).flatMap d.subtreeText := by
        rw [subtreeText_eq, hchildren, hown, List.nil_append]
      obtain ⟨b, hb⟩ := exists_alike_joined ih
      rw [← htext, ← hchildren, ← bridged_of_ownText_eq_nil hown] at hb
      exact hb.bordered

/-- Bridged at every seam, the text of a subtree has the words of the text itself. -/
theorem spaceWords_subtreeText (h : d.TextAtLeaves) (i : Nat) :
    spaceWords (d.subtreeText i) = spaceWords (d.bridged d.seam i) := by
  rw [(alike_subtreeText h i).spaceWords_eq, Text.spaceWords_bordered]

theorem spaceWords_textContent (h : d.TextAtLeaves) (i : Nat) :
    spaceWords (d.textContent i) = spaceWords (d.bridged d.seam i) := by
  rw [textContent_eq, spaceWords_subtreeText h]

/-! ### Bridging less -/

theorem losesSpaces_joined {bridge bridge' : Nat → Nat → Bool} {piece piece' : Nat → Text}
    (hbridge : ∀ p q, bridge' p q = true → bridge p q = true) {l : List Nat}
    (hpiece : ∀ s ∈ l, LosesSpaces (piece s) (piece' s)) :
    LosesSpaces (joined bridge piece l) (joined bridge' piece' l) := by
  induction l with
  | nil => exact .nil
  | cons s l ih =>
    have hrest := ih fun t ht => hpiece t (List.mem_cons_of_mem s ht)
    cases l with
    | nil => exact hpiece s List.mem_cons_self
    | cons s' l =>
      exact ((hpiece s List.mem_cons_self).append (.gap (hbridge s s'))).append hrest

/-- Fewer bridges lose spaces and nothing else. -/
theorem losesSpaces_bridged {bridge bridge' : Nat → Nat → Bool}
    (hbridge : ∀ p q, bridge' p q = true → bridge p q = true) (i : Nat) :
    LosesSpaces (d.bridged bridge i) (d.bridged bridge' i) := by
  induction i using d.childrenInduction with
  | step i ih =>
    rw [bridged_eq, bridged_eq]
    exact (LosesSpaces.refl _).append (losesSpaces_joined hbridge ih)

theorem joined_congr {bridge bridge' : Nat → Nat → Bool} {piece piece' : Nat → Text}
    {l : List Nat} (hpiece : ∀ s ∈ l, piece s = piece' s)
    (hbridge : ∀ before s t after, l = before ++ s :: t :: after → bridge s t = bridge' s t) :
    joined bridge piece l = joined bridge' piece' l := by
  induction l with
  | nil => rfl
  | cons s l ih =>
    have hrest := ih (fun t ht => hpiece t (List.mem_cons_of_mem s ht))
      (fun before a b after hl => hbridge (s :: before) a b after (by rw [hl]; rfl))
    cases l with
    | nil => exact hpiece s List.mem_cons_self
    | cons t l =>
      rw [joined, joined, hrest, hpiece s List.mem_cons_self, hbridge [] s t l rfl]

/-- Only what is bridged between siblings that follow each other matters. -/
theorem bridged_congr {bridge bridge' : Nat → Nat → Bool}
    (hbridge : ∀ s t, d.nextSibling? s = some t → bridge s t = bridge' s t) (i : Nat) :
    d.bridged bridge i = d.bridged bridge' i := by
  induction i using d.childrenInduction with
  | step i ih =>
    rw [bridged_eq, bridged_eq]
    refine congrArg _ (joined_congr ih ?_)
    intro before s t after hsplit
    exact hbridge s t (nextSibling?_of_split hsplit)

/-- Bridged where a text node stands at the seam, a text has the words of the one bridged at
every seam, run together. -/
theorem runTogether_textSeam (d : Document) (i : Nat) :
    Text.RunTogether (spaceWords (d.bridged d.seam i)) (spaceWords (d.bridged d.textSeam i)) := by
  have hfewer : ∀ p q, d.textSeam p q = true → d.seam p q = true :=
    fun p q h => (Bool.and_eq_true_iff.mp h).1
  exact (losesSpaces_bridged hfewer i).runTogether

/-- If a text node stands at every seam with white space, none of them is left out. -/
theorem bridged_textSeam (h : ∀ a b, d.nextSibling? a = some b → d.seam a b = true →
    d.isText a = true ∨ d.isText b = true) (i : Nat) :
    d.bridged d.textSeam i = d.bridged d.seam i := by
  apply bridged_congr
  intro a b hnext
  cases hseam : d.seam a b with
  | false => rw [textSeam, hseam, Bool.false_and]
  | true => rw [textSeam, hseam, Bool.true_and, Bool.or_eq_true_iff.mpr (h a b hnext hseam)]

end TreeMarkdown.Document
