/-
Reading the text of a subtree with a stack.

A `StackReading` keeps the nodes still to be read on a stack: a round takes the top off, takes
in the value of that node and puts its children on the stack. It runs on bare cells, where a
number on the stack may have no cell and nothing says that the stack is ever empty. Every round
on the cells of a document has one node less before it and leaves the answer as it is
(`Follows.round`), so the reading of a subtree is over after as many rounds as the subtree has
nodes, and one, and its answer is that of the work list it follows (`Follows.run_eq`).

Children put on the stack backwards are read in document order, so the whole text and its first
character are those of the recursion over the tree (`textContent_is_recursion`). The last
character is looked for the other way round, but a node still comes before its children. Its
own value is therefore taken for the end of the text even if a value below it stands behind it
(`lastTextChar?_is_uppermost`).
-/

import TreeMarkdown.Proofs.Document.Construction
import TreeMarkdown.Proofs.Document.Seams

namespace TreeMarkdown

open Document

/-! ### Stacks -/

/-- A reading of values that keeps the nodes still to be read on a stack. -/
structure StackReading (σ ρ : Type) where
  /-- Takes in a value: the reading goes on in a new state, or it has its answer. -/
  takeIn : σ → Text → σ ⊕ ρ
  /-- The answer when no node is left. -/
  answer : σ → ρ
  /-- The children of a node in the order in which they go on the stack. -/
  stacked : List Nat → List Nat

namespace StackReading

/-- Puts all values together. -/
def wholeText : StackReading Text Text where
  takeIn soFar value := .inl (soFar ++ value)
  answer := id
  stacked := List.reverse

/-- Looks for the first value that has a character at this end. -/
def edgeChar (edge : Text → Option Char) (stacked : List Nat → List Nat) :
    StackReading Unit (Option Char) where
  takeIn _ value :=
    match edge value with
    | some c => .inr (some c)
    | none => .inl ()
  answer _ := none
  stacked := stacked

/-- Looks for the first character from the front. -/
def firstChar : StackReading Unit (Option Char) := edgeChar List.head? List.reverse

/-- Looks for the last character from the back. -/
def lastChar : StackReading Unit (Option Char) := edgeChar List.getLast? id

variable {σ ρ : Type}

/-- One round on bare cells: the stack and the state after it, or the answer. Nothing if the
node on top of the stack, which is its end, has no cell. -/
def round (r : StackReading σ ρ) (cells : Arena) (stack : List Nat) (s : σ) :
    Option ((List Nat × σ) ⊕ ρ) :=
  match stack.getLast? with
  | none => some (.inr (r.answer s))
  | some i => do
    let cell ← cells[i]?
    match r.takeIn s cell.node.ownText with
    | .inl s => some (.inl (stack.dropLast ++ r.stacked cell.children.toList, s))
    | .inr a => some (.inr a)

/-- The answer after at most that many rounds. Nothing if they were not enough. -/
def run (r : StackReading σ ρ) (cells : Arena) : Nat → List Nat → σ → Option ρ
  | 0, _, _ => none
  | rounds + 1, stack, s =>
    match r.round cells stack s with
    | none => none
    | some (.inl (stack, s)) => r.run cells rounds stack s
    | some (.inr a) => some a

/-- A reading from a work list of the nodes of a document, which the stack holds from its top
downwards. -/
structure Follows (r : StackReading σ ρ) (d : Document) (reading : σ → List Nat → ρ) : Prop where
  nil : ∀ s, reading s [] = r.answer s
  cons : ∀ s i work, reading s (i :: work) =
    (r.takeIn s (d.ownText i)).elim
      (fun s => reading s ((r.stacked (d.children i)).reverse ++ work)) id
  perm : ∀ nodes, (r.stacked nodes).Perm nodes

variable {r : StackReading σ ρ} {d : Document} {reading : σ → List Nat → ρ} {stack : List Nat}

/-- A node on the stack weighs more than its children. -/
theorem totalWeight_lt {nodes : List Nat} {i : Nat} (h : nodes.Perm (d.children i)) :
    d.totalWeight (stack ++ nodes) < d.totalWeight (stack ++ [i]) := by
  have hlength := (h.flatMap_right d.preorder).length_eq
  simp only [totalWeight, List.flatMap_append, List.length_append, hlength,
    List.flatMap_singleton, preorder_eq d i, List.length_cons]
  omega

/-- A round gives the answer, or it leaves a lighter stack with the same answer. -/
theorem Follows.round (h : r.Follows d reading) (hstack : ∀ i ∈ stack, i < d.size) (s : σ) :
    r.round d.cells stack s = some (.inr (reading s stack.reverse)) ∨
      ∃ stack' s', r.round d.cells stack s = some (.inl (stack', s')) ∧
        (∀ i ∈ stack', i < d.size) ∧ d.totalWeight stack' < d.totalWeight stack ∧
        reading s' stack'.reverse = reading s stack.reverse := by
  rcases List.eq_nil_or_concat stack with rfl | ⟨below, i, rfl⟩
  · exact Or.inl (by simp [StackReading.round, h.nil])
  · rw [List.concat_eq_append] at hstack ⊢
    obtain ⟨cell, hcell⟩ := exists_cell (hstack i (by simp))
    have hchildren := children_of_cell hcell
    have hreading := h.cons s i below.reverse
    rw [ownText_of_cell hcell, hchildren] at hreading
    simp only [StackReading.round, List.getLast?_concat, hcell, Option.bind_eq_bind,
      Option.bind_some, List.dropLast_concat, List.reverse_append, List.reverse_singleton,
      List.singleton_append, hreading]
    cases r.takeIn s cell.node.ownText with
    | inr a => exact Or.inl rfl
    | inl s' =>
      refine Or.inr ⟨below ++ r.stacked cell.children.toList, s', rfl, ?_, ?_, by simp⟩
      · intro j hj
        rcases List.mem_append.mp hj with hj | hj
        · exact hstack j (List.mem_append_left _ hj)
        · rw [(h.perm _).mem_iff, ← hchildren] at hj
          exact lt_size_of_mem_children hj
      · rw [← hchildren]
        exact totalWeight_lt (h.perm _)

/-- With one round more than the stack has nodes in its subtrees, a reading comes to its
answer. -/
theorem Follows.run_eq (h : r.Follows d reading) (hstack : ∀ i ∈ stack, i < d.size) {rounds : Nat}
    (hrounds : d.totalWeight stack < rounds) (s : σ) :
    r.run d.cells rounds stack s = some (reading s stack.reverse) := by
  induction rounds generalizing stack s with
  | zero => exact absurd hrounds (Nat.not_lt_zero _)
  | succ rounds ih =>
    rw [StackReading.run]
    rcases h.round hstack s with hanswer | ⟨stack', s', hround, hstack', hweight, hsame⟩
    · rw [hanswer]
    · rw [hround, ← hsame]
      exact ih hstack' (Nat.lt_of_lt_of_le hweight (Nat.le_of_lt_succ hrounds)) s'

/-- The reading of a subtree. -/
theorem Follows.run_subtree (h : r.Follows d reading) {i rounds : Nat} (hi : i < d.size)
    (hrounds : (d.preorder i).length < rounds) (s : σ) :
    r.run d.cells rounds [i] s = some (reading s [i]) :=
  h.run_eq (by simpa using hi) (by simpa [totalWeight] using hrounds) s

theorem follows_wholeText (d : Document) :
    wholeText.Follows d fun soFar work => soFar ++ d.textOf work where
  nil _ := by simp [textOf, wholeText]
  cons _ _ _ := by simp [textOf, wholeText]
  perm := List.reverse_perm

theorem follows_firstChar (d : Document) : firstChar.Follows d fun _ => d.firstCharOf where
  nil _ := by simp [firstCharOf, firstChar, edgeChar]
  cons _ i work := by
    rw [firstCharOf]
    cases hedge : (d.ownText i).head? <;> simp [firstChar, edgeChar, hedge]
  perm := List.reverse_perm

theorem follows_lastChar (d : Document) : lastChar.Follows d fun _ => d.lastCharOf where
  nil _ := by simp [lastCharOf, lastChar, edgeChar]
  cons _ i work := by
    rw [lastCharOf]
    cases hedge : (d.ownText i).getLast? <;> simp [lastChar, edgeChar, hedge]
  perm := List.Perm.refl

end StackReading

namespace Document

variable {d : Document} {i j a : Nat}

/-! ### The whole text -/

theorem length_preorder_le_size (hi : i < d.size) : (d.preorder i).length ≤ d.size := by
  refine length_le_of_nodup (d.nodup_preorder i) fun j hj => ?_
  exact mem_preorder_root_iff.mp ((isInfix_preorder (mem_preorder_root_iff.mpr hi)).subset hj)

/-- The text of a subtree has the values of its nodes in document order. -/
theorem subtreeText_eq_flatMap (d : Document) (i : Nat) :
    d.subtreeText i = (d.preorder i).flatMap d.ownText := by
  induction i using d.childrenInduction with
  | step i ih =>
    rw [subtreeText_eq, preorder_eq, List.flatMap_cons, List.flatMap_assoc,
      List.flatMap_congr ih]

theorem subtreeText_unique {text : Nat → Text}
    (h : ∀ i, text i = d.ownText i ++ (d.children i).flatMap text) (i : Nat) :
    text i = d.subtreeText i := by
  induction i using d.childrenInduction with
  | step i ih => rw [h, subtreeText_eq, List.flatMap_congr ih]

/-- The text of a node is its own value and then the texts of its children, which determines
it: the values in its subtree in document order. The first character is that of the text, and
there is none only if the text is empty. Read with a stack, text and character are the same,
after at most as many rounds as the subtree has nodes, and one; and no subtree has more nodes
than the document. -/
theorem textContent_is_recursion (d : Document) :
    (∀ i, d.textContent i = d.ownText i ++ (d.children i).flatMap d.textContent) ∧
      (∀ text : Nat → Text, (∀ i, text i = d.ownText i ++ (d.children i).flatMap text) →
        text = d.textContent) ∧
      (∀ i, d.textContent i = (d.preorder i).flatMap d.ownText) ∧
      (∀ i, d.firstTextChar? i = (d.textContent i).head? ∧
        (d.firstTextChar? i = none ↔ d.textContent i = [])) ∧
      ∀ i < d.size, (d.preorder i).length ≤ d.size ∧
        ∀ rounds, (d.preorder i).length < rounds →
          StackReading.wholeText.run d.cells rounds [i] [] = some (d.textContent i) ∧
            StackReading.firstChar.run d.cells rounds [i] () = some (d.firstTextChar? i) := by
  have htext : d.textContent = d.subtreeText := funext d.textContent_eq
  rw [htext]
  refine ⟨d.subtreeText_eq, fun text h => funext (subtreeText_unique h),
    d.subtreeText_eq_flatMap, ?_, ?_⟩
  · intro i
    rw [firstTextChar?_eq]
    exact ⟨rfl, List.head?_eq_none_iff⟩
  · intro i hi
    refine ⟨length_preorder_le_size hi, fun rounds hrounds => ⟨?_, ?_⟩⟩
    · rw [(StackReading.follows_wholeText d).run_subtree hi hrounds, ← htext]
      rfl
    · exact (StackReading.follows_firstChar d).run_subtree hi hrounds ()

/-! ### The last character -/

/-- The last node of the subtree of `i` in document order that has a value. -/
def lastValued? (d : Document) (i : Nat) : Option Nat :=
  ((d.preorder i).filter fun j => d.ownText j ≠ []).getLast?

/-- On the way from node `i` down to node `j`, node `a` is the first that has a value. -/
structure IsUppermost (d : Document) (i j a : Nat) : Prop where
  mem : a ∈ d.preorder i
  above : j ∈ d.preorder a
  valued : d.ownText a ≠ []
  uppermost : ∀ b ∈ d.ancestors a, b ∈ d.preorder i → d.ownText b = []

theorem closingText_eq_nil_iff : d.closingText i = [] ↔ d.subtreeText i = [] := by
  induction i using d.childrenInduction with
  | step i ih =>
    simp only [closingText_eq d i, subtreeText_eq d i, List.append_eq_nil_iff,
      List.flatMap_eq_nil_iff]
    rw [and_comm]
    exact and_congr_right fun _ => forall₂_congr ih

theorem lastTextChar?_eq_none_iff : d.lastTextChar? i = none ↔ d.textContent i = [] := by
  rw [lastTextChar?_eq_closing, List.getLast?_eq_none_iff, textContent_eq, closingText_eq_nil_iff]

theorem lastValued?_eq_none_iff : d.lastValued? i = none ↔ d.textContent i = [] := by
  simp [lastValued?, textContent_eq, subtreeText_eq_flatMap]

/-- The text of a subtree ends with the value of its last node that has one. -/
theorem getLast?_textContent (h : d.lastValued? i = some j) :
    (d.textContent i).getLast? = (d.ownText j).getLast? := by
  rw [lastValued?, List.getLast?_filter, List.find?_eq_some_iff_append] at h
  obtain ⟨hj, behind, before, hsplit, hbehind⟩ := h
  have hvalue : d.ownText j ≠ [] := by simpa using hj
  have hnone : behind.findSome? (fun k => (d.ownText k).getLast?) = none := by
    simpa using hbehind
  rw [textContent_eq, subtreeText_eq_flatMap, List.getLast?_flatMap, hsplit,
    List.findSome?_append, hnone, List.findSome?_cons, List.getLast?_eq_some_getLast hvalue]
  rfl

theorem lastValued?_of_ownText_eq_nil (h : d.ownText i = []) :
    d.lastValued? i = (d.children i).reverse.findSome? d.lastValued? := by
  have hself : (d.preorder i).filter (fun j => d.ownText j ≠ []) =
      (d.children i).flatMap fun c => (d.preorder c).filter fun j => d.ownText j ≠ [] := by
    rw [preorder_eq, List.filter_cons_of_neg (by simp [h]), List.filter_flatMap]
  rw [lastValued?, hself, List.getLast?_flatMap]
  rfl

theorem lastTextChar?_of_ownText_eq_nil (h : d.ownText i = []) :
    d.lastTextChar? i = (d.children i).reverse.findSome? d.lastTextChar? := by
  rw [lastTextChar?_eq_closing, closingText_eq, h, List.append_nil, List.getLast?_flatMap]
  simp only [← lastTextChar?_eq_closing]

theorem lastTextChar?_of_ownText_ne_nil (h : d.ownText i ≠ []) :
    d.lastTextChar? i = (d.ownText i).getLast? := by
  rw [lastTextChar?_eq_closing, closingText_eq, List.getLast?_append_of_ne_nil _ h]

/-- What is uppermost below a child is so below a parent without a value. -/
theorem IsUppermost.of_child {c : Nat} (hc : c ∈ d.children i) (h : d.IsUppermost c j a)
    (hown : d.ownText i = []) : d.IsUppermost i j a where
  mem := (isInfix_preorder (mem_preorder_iff.mpr
    (Or.inr (mem_ancestors_of_mem_children hc)))).subset h.mem
  above := h.above
  valued := h.valued
  uppermost := by
    intro b hb hbi
    rw [preorder_eq] at hbi
    rcases List.mem_cons.mp hbi with rfl | hbelow
    · exact hown
    · obtain ⟨c', hc', hbc'⟩ := List.mem_flatMap.mp hbelow
      have hac' : a ∈ d.preorder c' :=
        (isInfix_preorder hbc').subset (mem_preorder_iff.mpr (Or.inr hb))
      -- subtrees of different children have no node in common
      by_cases hsame : c' = c
      · subst hsame
        exact h.uppermost b hb hbc'
      · exact absurd h.mem (disjoint_preorder_of_siblings hc' hc hsame hac')

/-- The last character is that of the uppermost value above the end of the text. -/
theorem exists_isUppermost (h : d.lastValued? i = some j) :
    ∃ a, d.IsUppermost i j a ∧ d.lastTextChar? i = (d.ownText a).getLast? := by
  induction i using d.childrenInduction with
  | step i ih =>
    by_cases hown : d.ownText i = []
    · rw [lastValued?_of_ownText_eq_nil hown, List.findSome?_eq_some_iff] at h
      obtain ⟨behind, c, before, hsplit, hj, hbehind⟩ := h
      have hc : c ∈ d.children i := List.mem_reverse.mp (by simp [hsplit])
      obtain ⟨a, ha, hlast⟩ := ih c hc hj
      have hnone : behind.findSome? d.lastTextChar? = none := by
        rw [List.findSome?_eq_none_iff]
        intro x hx
        exact lastTextChar?_eq_none_iff.mpr (lastValued?_eq_none_iff.mp (hbehind x hx))
      refine ⟨a, ha.of_child hc hown, ?_⟩
      rw [lastTextChar?_of_ownText_eq_nil hown, hsplit, List.findSome?_append, hnone,
        List.findSome?_cons, hlast, List.getLast?_eq_some_getLast ha.valued]
      rfl
    · have hj : j ∈ d.preorder i := (List.mem_filter.mp (List.mem_of_getLast? h)).1
      refine ⟨i, ⟨d.self_mem_preorder i, hj, hown, ?_⟩, lastTextChar?_of_ownText_ne_nil hown⟩
      intro b hb hbi
      have hlt := lt_of_mem_ancestors hb
      rcases mem_preorder_iff.mp hbi with rfl | hib
      · exact absurd hlt (Nat.lt_irrefl _)
      · exact absurd hlt (Nat.lt_asymm (lt_of_mem_ancestors hib))

/-- The last character that is found is missing only if the text is empty. Otherwise the text
ends with the value of the last node that has one, and the character is the last one of the
first value on the way down to that node; so it is that of the text if no node on the way has
a value of its own. Read with a stack, the character is the same. -/
theorem lastTextChar?_is_uppermost (d : Document) (i : Nat) :
    (d.lastTextChar? i = none ↔ d.textContent i = []) ∧
      (d.lastValued? i = none ↔ d.textContent i = []) ∧
      (∀ j, d.lastValued? i = some j →
        (d.textContent i).getLast? = (d.ownText j).getLast? ∧
          ∃ a, d.IsUppermost i j a ∧ d.lastTextChar? i = (d.ownText a).getLast?) ∧
      ((∀ j, d.lastValued? i = some j →
          ∀ a ∈ d.ancestors j, a ∈ d.preorder i → d.ownText a = []) →
        d.lastTextChar? i = (d.textContent i).getLast?) ∧
      (i < d.size → ∀ rounds, (d.preorder i).length < rounds →
        StackReading.lastChar.run d.cells rounds [i] () = some (d.lastTextChar? i)) := by
  refine ⟨lastTextChar?_eq_none_iff, lastValued?_eq_none_iff,
    fun j h => ⟨getLast?_textContent h, exists_isUppermost h⟩, ?_,
    fun hi rounds hrounds => (StackReading.follows_lastChar d).run_subtree hi hrounds ()⟩
  intro hway
  cases hvalued : d.lastValued? i with
  | none =>
    have htext := lastValued?_eq_none_iff.mp hvalued
    rw [lastTextChar?_eq_none_iff.mpr htext, htext]
    rfl
  | some j =>
    obtain ⟨a, ha, hlast⟩ := exists_isUppermost hvalued
    have hself : j = a := by
      rcases mem_preorder_iff.mp ha.above with hself | habove
      · exact hself
      · exact absurd (hway j hvalued a habove ha.mem) ha.valued
    rw [hlast, getLast?_textContent hvalued, hself]

/-- An element with a value of its own above a text. -/
def valuedElement : Document :=
  grown [(0, ⟨.element, "P".toList, some "ab".toList, []⟩), (1, .text "c".toList)]

/-- The value of the element stands before the text below it, but its end is taken for that of
both. -/
theorem lastTextChar?_valuedElement :
    valuedElement.textContent 1 = "abc".toList ∧
      (valuedElement.textContent 1).getLast? = some 'c' ∧
      valuedElement.lastTextChar? 1 = some 'b' := by
  decide +kernel

end Document

end TreeMarkdown
