/-
The spaces that a text gets at its boundaries.

A spaced text is the text with at most one space in front and one behind (`spaced_eq`). There is
one in front if the boundary to an inline sibling before it shows ordinary white space, and the
text does not begin with a space already; the space in front counts when the end is looked at, so
an empty text gets one space and not two. On a side with white space at its boundary a spaced text
ends with a space (`head?_spaced`, `getLast?_spaced`), hence spacing it again does nothing
(`spaced_spaced`). Which boundaries show white space is said in terms of the whole texts of the
two siblings (`spaceBefore_iff`, `spaceAfter_iff`), although no more than two characters are
looked up; this takes a document in which no element carries a text of its own.
-/

import TreeMarkdown.Proofs.Document.Seams

namespace TreeMarkdown

open Text (gap ite_withSpaceBefore ite_withSpaceAfter)

namespace Document

variable {d : Document} {i p q : Nat} {t : Text}

/-- The space that comes in front of the text `t` of node `i`, if one does. -/
def leading (d : Document) (i : Nat) (t : Text) : Text :=
  gap (d.spaceBefore i && t.head? != some ' ')

/-- The space that comes behind the text `t` of node `i`, if one does. -/
def trailing (d : Document) (i : Nat) (t : Text) : Text :=
  gap (d.spaceAfter i && (d.leading i t ++ t).getLast? != some ' ')

theorem spaced_eq (d : Document) (i : Nat) (t : Text) :
    d.spaced i t = d.leading i t ++ t ++ d.trailing i t := by
  simp only [spaced, ite_withSpaceBefore, ite_withSpaceAfter]
  rfl

/-- A text that has a space wherever one is called for stays as it is. -/
theorem spaced_of_edges (hhead : d.spaceBefore i = true → t.head? = some ' ')
    (hlast : d.spaceAfter i = true → t.getLast? = some ' ') : d.spaced i t = t := by
  have hleading : d.leading i t = [] := by
    unfold leading
    cases hbefore : d.spaceBefore i with
    | false => rfl
    | true => rw [hhead hbefore]; rfl
  have htrailing : d.trailing i t = [] := by
    unfold trailing
    rw [hleading, List.nil_append]
    cases hafter : d.spaceAfter i with
    | false => rfl
    | true => rw [hlast hafter]; rfl
  rw [spaced_eq, hleading, htrailing, List.nil_append, List.append_nil]

theorem head?_leading_append (h : d.spaceBefore i = true) :
    (d.leading i t ++ t).head? = some ' ' := by
  rw [leading, h, Bool.true_and]
  by_cases hhead : t.head? = some ' '
  · rw [hhead]
    exact hhead
  · rw [bne_iff_ne.mpr hhead]
    rfl

theorem head?_spaced (h : d.spaceBefore i = true) : (d.spaced i t).head? = some ' ' := by
  rw [spaced_eq, List.head?_append, head?_leading_append h]
  rfl

theorem getLast?_spaced (h : d.spaceAfter i = true) : (d.spaced i t).getLast? = some ' ' := by
  rw [spaced_eq, trailing, h, Bool.true_and]
  by_cases hlast : (d.leading i t ++ t).getLast? = some ' '
  · rw [hlast, bne_self_eq_false, Text.gap_false, List.append_nil, hlast]
  · rw [bne_iff_ne.mpr hlast, Text.gap_true, List.getLast?_concat]

/-- Spacing a spaced text again does nothing. -/
theorem spaced_spaced (d : Document) (i : Nat) (t : Text) :
    d.spaced i (d.spaced i t) = d.spaced i t :=
  spaced_of_edges head?_spaced getLast?_spaced

/-- Spaces at the ends are all that comes with spacing. -/
theorem trim_spaced (d : Document) (i : Nat) (t : Text) :
    Text.trim (d.spaced i t) = Text.trim t := by
  rw [spaced_eq]
  exact Text.stripBy_around (fun c => Text.isSpace_of_mem_gap) (fun c => Text.isSpace_of_mem_gap) t

/-! ### White space at a boundary -/

/-- The characters on the two sides of the boundary between two siblings, where their texts have
any. -/
def boundary (d : Document) (s t : Nat) : List Char :=
  (d.textContent s).getLast?.toList ++ (d.textContent t).head?.toList

theorem isSpaceEdge_iff {c : Option Char} :
    isSpaceEdge c = true ↔ ∃ x ∈ c.toList, x ∈ [' ', '\t', '\r', '\n'] := by
  cases c with
  | none => simp [isSpaceEdge]
  | some c => simp [isSpaceEdge, Text.isSpace, or_assoc]

theorem seam_iff :
    d.seam p q = true ↔ ∃ c ∈ d.boundary p q, c ∈ [' ', '\t', '\r', '\n'] := by
  simp only [seam, boundary, textContent_eq, Bool.or_eq_true, isSpaceEdge_iff, List.mem_append,
    or_and_right, exists_or]

/-- A non-breaking space is no ordinary white space. -/
theorem seam_eq_false
    (h : ∀ c ∈ d.boundary p q, c = '\u00a0' ∨ c ∉ [' ', '\t', '\r', '\n']) :
    d.seam p q = false := by
  rw [← Bool.not_eq_true, seam_iff]
  rintro ⟨c, hc, hspace⟩
  rcases h c hc with rfl | hother
  · exact absurd hspace (by decide)
  · exact hother hspace

theorem spaceBefore_iff (h : d.TextAtLeaves) : d.spaceBefore i = true ↔
    ∃ s, d.previousSibling? i = some s ∧ d.isInline s = true ∧
      ∃ c ∈ d.boundary s i, c ∈ [' ', '\t', '\r', '\n'] := by
  simp only [spaceBefore_eq h, Option.any_eq_true, Bool.and_eq_true, seam_iff]

theorem spaceAfter_iff (h : d.TextAtLeaves) : d.spaceAfter i = true ↔
    ∃ s, d.nextSibling? i = some s ∧ d.isInline s = true ∧
      ∃ c ∈ d.boundary i s, c ∈ [' ', '\t', '\r', '\n'] := by
  simp only [spaceAfter_eq h, Option.any_eq_true, Bool.and_eq_true, seam_iff]

theorem leading_eq_space_iff (h : d.TextAtLeaves) : d.leading i t = [' '] ↔
    (∃ s, d.previousSibling? i = some s ∧ d.isInline s = true ∧
      ∃ c ∈ d.boundary s i, c ∈ [' ', '\t', '\r', '\n']) ∧ t.head? ≠ some ' ' := by
  rw [leading, Text.gap_eq_space_iff, Bool.and_eq_true, spaceBefore_iff h, bne_iff_ne]

theorem trailing_eq_space_iff (h : d.TextAtLeaves) : d.trailing i t = [' '] ↔
    (∃ s, d.nextSibling? i = some s ∧ d.isInline s = true ∧
      ∃ c ∈ d.boundary i s, c ∈ [' ', '\t', '\r', '\n']) ∧
        (d.leading i t ++ t).getLast? ≠ some ' ' := by
  rw [trailing, Text.gap_eq_space_iff, Bool.and_eq_true, spaceAfter_iff h, bne_iff_ne]

/-- In a document in which no element has a value of its own, spacing puts at most one space in
front of a text and at most one behind it. The one in front comes exactly if there is an inline
sibling before the node whose text ends with ordinary white space, or the text of the node begins
with it, and the text does not begin with a space; and likewise the one behind, where the space
in front counts for the text. A non-breaking space at a boundary calls for no space. Spacing a
second time does nothing, and the trimmed text is that of the text without the spaces. -/
theorem spaced_at_boundaries {d : Document} (hd : d.Reachable)
    (hvalues : ∀ i, d.isElement i = true → d.value? i = none) (i : Nat) :
    (∀ t, ∃ p q, d.spaced i t = p ++ t ++ q ∧
      (p = [' '] ∨ p = []) ∧
      (p = [' '] ↔ (∃ s, d.previousSibling? i = some s ∧ d.isInline s = true ∧
        ∃ c ∈ d.boundary s i, c ∈ [' ', '\t', '\r', '\n']) ∧ t.head? ≠ some ' ') ∧
      (q = [' '] ∨ q = []) ∧
      (q = [' '] ↔ (∃ s, d.nextSibling? i = some s ∧ d.isInline s = true ∧
        ∃ c ∈ d.boundary i s, c ∈ [' ', '\t', '\r', '\n']) ∧ (p ++ t).getLast? ≠ some ' ') ∧
      (∀ s, d.previousSibling? i = some s →
        (∀ c ∈ d.boundary s i, c = '\u00a0' ∨ c ∉ [' ', '\t', '\r', '\n']) → p = []) ∧
      ∀ s, d.nextSibling? i = some s →
        (∀ c ∈ d.boundary i s, c = '\u00a0' ∨ c ∉ [' ', '\t', '\r', '\n']) → q = []) ∧
      (∀ t, d.spaced i (d.spaced i t) = d.spaced i t) ∧
      ∀ t, Text.trim (d.spaced i t) = Text.trim t := by
  have hleaves : d.TextAtLeaves := hd.textAtLeaves fun j hj => by
    rw [← value?_getD, hvalues j hj, Option.getD_none]
  refine ⟨?_, d.spaced_spaced i, d.trim_spaced i⟩
  intro t
  refine ⟨d.leading i t, d.trailing i t, d.spaced_eq i t, Text.gap_eq_space_or_nil _,
    leading_eq_space_iff hleaves, Text.gap_eq_space_or_nil _, trailing_eq_space_iff hleaves,
    ?_, ?_⟩
  · intro s hs hnone
    rw [leading, spaceBefore_eq hleaves, hs, Option.any_some, seam_eq_false hnone, Bool.and_false,
      Bool.false_and, Text.gap_false]
  · intro s hs hnone
    rw [trailing, spaceAfter_eq hleaves, hs, Option.any_some, seam_eq_false hnone, Bool.and_false,
      Bool.false_and, Text.gap_false]

/-- Text and emphasis with a space between them, then a text that begins with a non-breaking
space. -/
def emphasisBetweenTexts : Document :=
  grown [(0, .element "p".toList []), (1, .text "Hello ".toList), (1, .element "em".toList []),
    (3, .text "world".toList), (1, .text "\u00a0!".toList)]

theorem spaced_at_boundaries_emphasisBetweenTexts :
    emphasisBetweenTexts.Reachable ∧
      (∀ i, emphasisBetweenTexts.isElement i = true → emphasisBetweenTexts.value? i = none) ∧
      emphasisBetweenTexts.spaced 3 "_world_".toList = " _world_".toList := by
  have hreachable : emphasisBetweenTexts.Reachable := reachable_grown _
  have hall : ∀ i < 6, emphasisBetweenTexts.isElement i = true →
      emphasisBetweenTexts.value? i = none := by
    decide +kernel
  have hvalues : ∀ i, emphasisBetweenTexts.isElement i = true →
      emphasisBetweenTexts.value? i = none :=
    fun i hi => hall i (lt_size_of_satisfies hi) hi
  refine ⟨hreachable, hvalues, ?_⟩
  obtain ⟨hspaced, -, -⟩ := spaced_at_boundaries hreachable hvalues 3
  obtain ⟨p, q, heq, -, hp, -, -, -, hq⟩ := hspaced "_world_".toList
  have hfront : p = [' '] :=
    hp.mpr ⟨⟨2, by decide +kernel, by decide +kernel, ' ', by decide +kernel, by decide⟩, by decide⟩
  have hboundary : emphasisBetweenTexts.boundary 3 5 = ['d', '\u00a0'] := by decide +kernel
  have hback : q = [] := by
    refine hq 5 (by decide +kernel) ?_
    rw [hboundary, List.forall_mem_cons, List.forall_mem_singleton]
    exact ⟨Or.inr (by decide), Or.inl rfl⟩
  rw [heq, hfront, hback]
  decide

end Document

end TreeMarkdown
