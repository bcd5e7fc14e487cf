/-
The form of what is written.

Tidy texts have no newline at either end and no three newlines in a row (`IsTidy`). Tidying makes
a text tidy by taking newlines away and nothing else (`Text.filter_tidy`), and it changes nothing in
a text that is tidy already (`tidy_eq_self_iff`). It is the last step of every conversion. So the
Markdown of a document is tidy whatever rules have been added, and whatever these write
(`Profile.isTidy_of_convert`).
-/

import TreeMarkdown.Profile
import TreeMarkdown.Proofs.Document.Growth
import TreeMarkdown.Proofs.Markdown.Delimiting
import TreeMarkdown.Proofs.Text.Folding

namespace TreeMarkdown

open Text
open Markdown (longestRun longestRunFrom replicate_infix_iff replicate_infix_iff_longestRunFrom)

variable {t : Text} {seen : Nat}

/-! ### At most two newlines in a row -/

theorem longestRunFrom_collapseNewlinesFrom_le (hseen : seen ≤ 2) (t : Text) :
    longestRunFrom '\n' seen (collapseNewlinesFrom seen t) ≤ 2 := by
  induction t generalizing seen with
  | nil => exact hseen
  | cons c t ih =>
    rw [collapseNewlinesFrom]
    split
    · split
      · rw [longestRunFrom, if_pos rfl]
        exact ih (by omega)
      · exact ih hseen
    · rename_i hc
      rw [longestRunFrom, if_neg hc]
      exact Nat.max_le.mpr ⟨hseen, ih (Nat.zero_le 2)⟩

theorem le_longestRunFrom (c : Char) (current : Nat) (t : Text) :
    current ≤ longestRunFrom c current t :=
  (replicate_infix_iff_longestRunFrom c current current t).mp (List.prefix_append _ t).isInfix

theorem collapseNewlinesFrom_eq_self (h : longestRunFrom '\n' seen t ≤ 2) :
    collapseNewlinesFrom seen t = t := by
  induction t generalizing seen with
  | nil => rfl
  | cons c t ih =>
    rw [longestRunFrom] at h
    rw [collapseNewlinesFrom]
    split
    · rename_i hc
      rw [if_pos hc] at h
      have hseen : seen < 2 := (le_longestRunFrom '\n' (seen + 1) t).trans h
      rw [if_pos hseen, ih h, hc]
    · rename_i hc
      rw [if_neg hc] at h
      rw [ih ((Nat.le_max_right _ _).trans h)]

theorem not_three_newlines_iff :
    ¬ List.replicate 3 '\n' <:+: t ↔ longestRun '\n' t ≤ 2 := by
  rw [replicate_infix_iff, Nat.not_le, Nat.lt_succ_iff]

/-- There is something to fold exactly if there are three newlines in a row. -/
theorem collapseNewlines_eq_self_iff :
    collapseNewlines t = t ↔ ¬ List.replicate 3 '\n' <:+: t := by
  rw [not_three_newlines_iff]
  constructor
  · intro h
    rw [← h]
    exact longestRunFrom_collapseNewlinesFrom_le (Nat.zero_le 2) t
  · exact collapseNewlinesFrom_eq_self

/-! ### Tidy texts -/

/-- A text without newlines at its ends and with at most one blank line in a row. -/
structure IsTidy (t : Text) : Prop where
  head : t.head? ≠ some '\n'
  last : t.getLast? ≠ some '\n'
  blank_line : ¬ List.replicate 3 '\n' <:+: t

theorem IsTidy.isBare (h : IsTidy t) : IsBare (· == '\n') t :=
  ⟨fun _ hc => beq_eq_false_iff_ne.mpr fun heq => h.head (heq ▸ hc),
    fun _ hc => beq_eq_false_iff_ne.mpr fun heq => h.last (heq ▸ hc)⟩

theorem isTidy_tidy (t : Text) : IsTidy (tidy t) := by
  have hbare : IsBare (· == '\n') (tidy t) := (isBare_stripBy _ t).collapseNewlines
  refine ⟨?_, ?_, ?_⟩
  · intro hhead
    cases hbare.head '\n' hhead
  · intro hlast
    cases hbare.last '\n' hlast
  · exact collapseNewlines_eq_self_iff.mp (collapseNewlines_collapseNewlines _)

theorem tidy_eq_self_iff : tidy t = t ↔ IsTidy t := by
  constructor
  · intro h
    rw [← h]
    exact isTidy_tidy t
  · intro h
    have hstrip : stripNewlines t = t := h.isBare.stripBy_eq
    rw [tidy, hstrip]
    exact collapseNewlines_eq_self_iff.mpr h.blank_line

theorem tidy_tidy (t : Text) : tidy (tidy t) = tidy t :=
  tidy_eq_self_iff.mpr (isTidy_tidy t)

/-- The Markdown of a document is tidy. -/
theorem Profile.isTidy_of_convert {p : Profile} {d : Document} {out : Text}
    (h : p.convert d = .ok out) : IsTidy out := by
  rw [Profile.convert, Renderer.convertDocument] at h
  cases hwritten : p.renderer.writeFrom d d.size .start with
  | error e =>
    rw [hwritten] at h
    cases h
  | ok written =>
    rw [hwritten] at h
    exact Except.ok.inj h ▸ isTidy_tidy written

/-- Folding puts a space for each stretch of white space and two newlines for each stretch of three
or more, from left to right and as long as they are. Of each run of newlines it leaves at most two;
tidying makes a text tidy, takes away nothing but newlines, and has nothing to do a second time; and
what any profile writes is tidy. Of a text in which white space is folded and trimmed, in either
order, the runs without white space are left, with single spaces between them. -/
theorem white_space_normal_forms (t : Text) (p : Profile) (d : Document) :
    (collapseSpaces t = replaceRuns isSpace 1 [' '] t ∧
      collapseNewlines t = replaceRuns (· == '\n') 3 ['\n', '\n'] t) ∧
    ((∀ rs, AreRuns (· == '\n') rs ∧ rs.flatten = t ↔ rs = runs (· == '\n') t) ∧
      collapseNewlines t = (runs (· == '\n') t).flatMap fun r =>
        if '\n' ∈ r then List.replicate (min r.length 2) '\n' else r) ∧
    (IsTidy (tidy t) ∧ (tidy t).filter (· != '\n') = t.filter (· != '\n') ∧
      tidy (tidy t) = tidy t) ∧
    (∀ out, p.convert d = .ok out → IsTidy out ∧ tidy out = out) ∧
    ((∀ rs, AreRuns isSpace rs ∧ rs.flatten = t ↔ rs = runs isSpace t) ∧
      trim (collapseSpaces t) =
        [' '].intercalate ((runs isSpace t).filter fun r => !r.any isSpace) ∧
      trim (collapseSpaces t) = collapseSpaces (trim t)) ∧
    collapseSpaces (collapseSpaces t) = collapseSpaces t ∧
    collapseNewlines (collapseNewlines t) = collapseNewlines t := by
  refine ⟨⟨collapseSpaces_eq_replaceRuns t, collapseNewlines_eq_replaceRuns t⟩,
    ⟨fun _ => areRuns_iff, collapseNewlines_eq_flatMap_runs t⟩,
    ⟨isTidy_tidy t, filter_tidy t, tidy_tidy t⟩, fun out hout => ?_,
    ⟨fun _ => areRuns_iff, ?_, trim_collapseSpaces t⟩,
    collapseSpaces_collapseSpaces t, collapseNewlines_collapseNewlines t⟩
  · have htidy := Profile.isTidy_of_convert hout
    exact ⟨htidy, tidy_eq_self_iff.mpr htidy⟩
  · rw [trim_collapseSpaces_eq_intercalate, spaceWords_eq_filter_runs]

/-- A profile whose paragraphs are further apart than they need to be. -/
def widelySpaced : Profile :=
  (Profile.ofFlavour .commonMark {}).addAll
    [("p".toList, .ofContent fun t => some ("\n\n\n".toList ++ t ++ "\n\n\n".toList))]

/-- Two paragraphs. -/
def twoParagraphs : Document :=
  Document.grown
    [(0, .element "p".toList []), (1, .text "a".toList),
     (0, .element "p".toList []), (3, .text "b".toList)]

theorem white_space_normal_forms_widelySpaced :
    widelySpaced.convert twoParagraphs = .ok "a\n\nb".toList ∧ IsTidy "a\n\nb".toList := by
  have hwritten : widelySpaced.convert twoParagraphs = .ok "a\n\nb".toList := by decide +kernel
  obtain ⟨-, -, -, htidy, -⟩ := white_space_normal_forms [] widelySpaced twoParagraphs
  exact ⟨hwritten, (htidy _ hwritten).1⟩

end TreeMarkdown
