/-
The neighbours of a node agree with each other.

Parent, index and children are kept apart, and each step to a neighbour reads some of them. The
two directions between siblings undo each other, because both are the step between two nodes of
one parent whose indices follow each other (`nextSibling?_eq_some_iff`,
`previousSibling?_eq_some_iff`); and climbing from parent to parent goes through smaller and
smaller numbers down to that of the root (`isChain_ancestors`, `getLast?_ancestors`).

On bare cells (`Arena`) the same steps look up what they need without a check and climb without
a bound. On the cells of a document no look-up is out of range and the climb ends
(`Arena.previousSibling_cells`, `Arena.lineAbove_cells`).
-/

import Mathlib.Data.List.Chain
import TreeMarkdown.Proofs.Document.Construction

namespace TreeMarkdown

namespace Arena

/-- The sibling before node `i`. Nothing if a look-up is out of range. -/
def previousSibling (cells : Arena) (i : Nat) : Option (Option Nat) := do
  let cell ← cells[i]?
  match cell.parent with
  | none => some none
  | some p =>
    let above ← cells[p]?
    if cell.index = 0 then some none
    else
      let s ← above.children[cell.index - 1]?
      some (some s)

/-- The sibling after node `i`, which may be missing at the end of the children. Nothing if
another look-up is out of range. -/
def nextSibling (cells : Arena) (i : Nat) : Option (Option Nat) := do
  let cell ← cells[i]?
  match cell.parent with
  | none => some none
  | some p =>
    let above ← cells[p]?
    some above.children[cell.index + 1]?

/-- The ancestors that so many rounds of a climb from node `i` find. Nothing if they were not
enough, or a look-up is out of range. -/
def lineAbove (cells : Arena) : Nat → Nat → Option (List Nat)
  | 0, _ => none
  | rounds + 1, i => do
    let cell ← cells[i]?
    match cell.parent with
    | none => some []
    | some p =>
      let line ← lineAbove cells rounds p
      some (p :: line)

end Arena

namespace Document

variable {d : Document} {a b i k p : Nat}

/-! ### Siblings -/

/-- The next sibling has the same parent and the next index. -/
theorem nextSibling?_eq_some_iff : d.nextSibling? a = some b ↔
    ∃ p k, d.parent? a = some p ∧ d.parent? b = some p ∧ d.index? a = some k ∧
      d.index? b = some (k + 1) := by
  simp only [nextSibling?, Option.bind_eq_bind, Option.bind_eq_some_iff, childArray_getElem?,
    children_getElem?_iff]
  constructor
  · rintro ⟨p, hpa, k, hka, hpb, hkb⟩
    exact ⟨p, k, hpa, hpb, hka, hkb⟩
  · rintro ⟨p, k, hpa, hpb, hka, hkb⟩
    exact ⟨p, hpa, k, hka, hpb, hkb⟩

/-- The previous sibling has the same parent and the index before. -/
theorem previousSibling?_eq_some_iff : d.previousSibling? b = some a ↔
    ∃ p k, d.parent? a = some p ∧ d.parent? b = some p ∧ d.index? a = some k ∧
      d.index? b = some (k + 1) := by
  simp only [previousSibling?, Option.bind_eq_bind, Option.bind_eq_some_iff]
  constructor
  · rintro ⟨p, hpb, k, hkb, h⟩
    cases k with
    | zero => cases h
    | succ k =>
      have hchild : (d.children p)[k]? = some a := by simpa [childArray_getElem?] using h
      obtain ⟨hpa, hka⟩ := children_getElem?_iff.mp hchild
      exact ⟨p, k, hpa, hpb, hka, hkb⟩
  · rintro ⟨p, k, hpa, hpb, hka, hkb⟩
    refine ⟨p, hpb, k + 1, hkb, ?_⟩
    simpa [childArray_getElem?] using children_getElem?_iff.mpr ⟨hpa, hka⟩

/-- Every node but the first child of its parent has a sibling before it. -/
theorem isSome_previousSibling?_iff :
    (d.previousSibling? i).isSome ↔ ∃ k, d.index? i = some k ∧ 0 < k := by
  rw [Option.isSome_iff_exists]
  constructor
  · rintro ⟨s, hs⟩
    obtain ⟨p, k, -, -, -, hk⟩ := previousSibling?_eq_some_iff.mp hs
    exact ⟨k + 1, hk, Nat.succ_pos k⟩
  · rintro ⟨k, hk, hpos⟩
    obtain ⟨p, hp⟩ := Option.isSome_iff_exists.mp (isSome_index?_iff.mp (by rw [hk]; rfl))
    have hi := children_getElem?_iff.mpr ⟨hp, hk⟩
    obtain ⟨hlt, -⟩ := List.getElem?_eq_some_iff.mp hi
    have hbefore : k - 1 < (d.children p).length := by omega
    obtain ⟨hps, hks⟩ := children_getElem?_iff.mp (List.getElem?_eq_getElem hbefore)
    exact ⟨_, previousSibling?_eq_some_iff.mpr
      ⟨p, k - 1, hps, hp, hks, by rw [hk, Nat.sub_add_cancel hpos]⟩⟩

theorem siblings_root (d : Document) :
    d.index? root = none ∧ d.previousSibling? root = none ∧ d.nextSibling? root = none := by
  have hindex : d.index? root = none := by
    rw [← Option.not_isSome_iff_eq_none, isSome_index?_iff, parent?_root]
    simp
  refine ⟨hindex, ?_, ?_⟩
  · simp [previousSibling?, parent?_root]
  · simp [nextSibling?, parent?_root]

/-! ### Ancestors -/

theorem ancestors_decreasing (d : Document) (i : Nat) : (d.ancestors i).Pairwise (· > ·) :=
  (d.pairwise_ancestors i).imp lt_of_mem_ancestors

theorem nodup_ancestors (d : Document) (i : Nat) : (d.ancestors i).Nodup :=
  (d.ancestors_decreasing i).imp Nat.ne_of_gt

/-- The line of ancestors goes from each node to its parent. -/
theorem isChain_ancestors (d : Document) (i : Nat) :
    (i :: d.ancestors i).IsChain fun a b => d.parent? a = some b := by
  induction i using d.parentInduction with
  | step i ih =>
    cases hp : d.parent? i with
    | none => simp [ancestors_of_parent_eq_none hp]
    | some p =>
      rw [ancestors_of_parent hp, List.isChain_cons_cons]
      exact ⟨hp, ih p hp⟩

theorem getLast?_ancestors (hi : i < d.size) (hroot : i ≠ root) :
    (d.ancestors i).getLast? = some root := by
  obtain ⟨p, hp⟩ := exists_parent hi hroot
  rw [ancestors_eq_innerAncestors (mem_children_iff.mpr hp), List.getLast?_concat]

/-- A node has no more ancestors than there are numbers below its own. -/
theorem length_ancestors_le (d : Document) (i : Nat) : (d.ancestors i).length ≤ i :=
  length_le_of_nodup (d.nodup_ancestors i) fun _ => lt_of_mem_ancestors

end Document

open Document

namespace Arena

variable {d : Document} {i : Nat}

theorem previousSibling_cells (hi : i < d.size) :
    previousSibling d.cells i = some (d.previousSibling? i) := by
  obtain ⟨cell, hcell⟩ := exists_cell hi
  have hparent := parent?_of_cell hcell
  cases hp : cell.parent with
  | none => simp [previousSibling, Document.previousSibling?, hcell, hparent, hp]
  | some p =>
    obtain ⟨-, above, habove, hchild⟩ := d.isTree.of_parent hcell hp
    have hindex := index?_of_cell hcell
    have hlt : cell.index < above.children.size := (Array.getElem?_eq_some_iff.mp hchild).1
    by_cases hfirst : cell.index = 0
    · simp [previousSibling, Document.previousSibling?, hcell, hparent, hindex, hp, habove, hfirst]
    · have hbefore : cell.index - 1 < above.children.size := by omega
      simp [previousSibling, Document.previousSibling?, hcell, hparent, hindex, hp, habove, hfirst,
        childArray, hbefore]

theorem nextSibling_cells (hi : i < d.size) :
    nextSibling d.cells i = some (d.nextSibling? i) := by
  obtain ⟨cell, hcell⟩ := exists_cell hi
  have hparent := parent?_of_cell hcell
  cases hp : cell.parent with
  | none => simp [nextSibling, Document.nextSibling?, hcell, hparent, hp]
  | some p =>
    obtain ⟨-, above, habove, -⟩ := d.isTree.of_parent hcell hp
    have hindex := index?_of_cell hcell
    simp [nextSibling, Document.nextSibling?, hcell, hparent, hindex, hp, habove, childArray]

/-- A climb has come to the root after a round for the node and each of its ancestors. -/
theorem lineAbove_cells {rounds : Nat} (hi : i < d.size)
    (hrounds : (d.ancestors i).length < rounds) :
    lineAbove d.cells rounds i = some (d.ancestors i) := by
  induction rounds generalizing i with
  | zero => exact absurd hrounds (Nat.not_lt_zero _)
  | succ rounds ih =>
    obtain ⟨cell, hcell⟩ := exists_cell hi
    have hparent := parent?_of_cell hcell
    cases hp : cell.parent with
    | none =>
      rw [hp] at hparent
      simp [lineAbove, hcell, hp, ancestors_of_parent_eq_none hparent]
    | some p =>
      rw [hp] at hparent
      rw [ancestors_of_parent hparent] at hrounds ⊢
      have hline := ih (Nat.lt_trans (parent_lt hparent) hi) (Nat.lt_of_succ_lt_succ hrounds)
      simp [lineAbove, hcell, hp, hline]

end Arena

/-- One node comes right after another among siblings exactly if the other comes right before
it, which is to say that they have one parent and indices that follow each other. The child of
a node at some position has that node for its parent and that position for its index, and
siblings before it exactly if the index is positive; the root has neither parent nor index nor
siblings. Without any check, no look-up of a sibling is out of range. The ancestors of a node
have smaller and smaller numbers, each is the parent of the one before, and the last is the
root; a climb without a bound finds them all in no more rounds than there are numbers up to
that of the node. -/
theorem Document.navigation_agrees (d : Document) :
    (∀ a b, d.nextSibling? a = some b ↔ d.previousSibling? b = some a) ∧
      (∀ a b, d.nextSibling? a = some b ↔ ∃ p k, d.parent? a = some p ∧ d.parent? b = some p ∧
        d.index? a = some k ∧ d.index? b = some (k + 1)) ∧
      (∀ p k i, (d.children p)[k]? = some i ↔ d.parent? i = some p ∧ d.index? i = some k) ∧
      (∀ i, (d.previousSibling? i).isSome ↔ ∃ k, d.index? i = some k ∧ 0 < k) ∧
      (d.parent? root = none ∧ d.index? root = none ∧ d.previousSibling? root = none ∧
        d.nextSibling? root = none) ∧
      (∀ i < d.size, Arena.previousSibling d.cells i = some (d.previousSibling? i) ∧
        Arena.nextSibling d.cells i = some (d.nextSibling? i)) ∧
      (∀ i, (d.ancestors i).Pairwise (· > ·) ∧ (d.ancestors i).Nodup ∧
        (∀ a ∈ d.ancestors i, a < i) ∧
        (i :: d.ancestors i).IsChain fun a b => d.parent? a = some b) ∧
      d.ancestors root = [] ∧
      (∀ i < d.size, i ≠ root → (d.ancestors i).getLast? = some root) ∧
      ∀ i < d.size, ∀ rounds, i < rounds →
        Arena.lineAbove d.cells rounds i = some (d.ancestors i) := by
  refine ⟨?_, fun a b => nextSibling?_eq_some_iff, fun p k i => children_getElem?_iff,
    fun i => isSome_previousSibling?_iff, ⟨d.parent?_root, d.siblings_root⟩,
    fun i hi => ⟨Arena.previousSibling_cells hi, Arena.nextSibling_cells hi⟩, ?_,
    d.ancestors_root, fun i => getLast?_ancestors, ?_⟩
  · intro a b
    rw [nextSibling?_eq_some_iff, previousSibling?_eq_some_iff]
  · intro i
    exact ⟨d.ancestors_decreasing i, d.nodup_ancestors i, fun a => lt_of_mem_ancestors,
      d.isChain_ancestors i⟩
  · intro i hi rounds hrounds
    exact Arena.lineAbove_cells hi (Nat.lt_of_le_of_lt (d.length_ancestors_le i) hrounds)

end TreeMarkdown
