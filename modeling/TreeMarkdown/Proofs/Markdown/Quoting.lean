/-
Quoting line by line.

A quote trims its content, cuts it into lines and puts a mark before each. Of a text that
trimming and tidying leave as it is (`IsSettled`), the lines of the quoted text are the quoted
lines of the text (`IsSettled.lines_quotedText`), and the quoted text is settled again. So
quotes inside each other mark every line once for each of them (`IsSettled.iterate`), and the
marks can be taken off again (`unquoteLine_quoteLine`).
-/

import Mathlib.Logic.Function.Iterate
import TreeMarkdown.Markdown.Layout
import TreeMarkdown.Proofs.Text.Lines

namespace TreeMarkdown.Markdown

open Text

/-- A text without carriage returns that is neither empty nor changed by trimming and
tidying. -/
structure IsSettled (t : Text) : Prop where
  ne_nil : t ≠ []
  isBare : IsBare isSpace t
  folded : collapseNewlines t = t
  return_notMem : '\r' ∉ t

/-- The quoted lines of a text. -/
def quotedText (t : Text) : Text :=
  ['\n'].intercalate ((lines t).map quoteLine)

/-- A line without its mark and the space behind the mark. -/
def unquoteLine : Text → Text
  | '>' :: ' ' :: line => line
  | '>' :: line => line
  | line => line

theorem unquoteLine_quoteLine (line : Text) : unquoteLine (quoteLine line) = line := by
  cases line <;> rfl

theorem head?_quoteLine (line : Text) : (quoteLine line).head? = some '>' := by
  cases line <;> rfl

theorem mem_quoteLine {c : Char} {line : Text} (h : c ∈ quoteLine line) :
    c = '>' ∨ c = ' ' ∨ c ∈ line := by
  unfold quoteLine at h
  split at h
  · exact Or.inl (List.mem_singleton.mp h)
  · simpa using h

/-- The quoted lines of any text are lines of which none is empty. -/
theorem areLines_quoteLine {t : Text} (ht : t ≠ []) : AreLines ((lines t).map quoteLine) := by
  refine ⟨fun hnil => lines_ne_nil ht (List.map_eq_nil_iff.mp hnil), ?_, ?_⟩
  · intro line hline hnil
    obtain ⟨l, -, rfl⟩ := List.mem_map.mp hline
    have hhead := head?_quoteLine l
    rw [hnil] at hhead
    cases hhead
  · intro line hline hmem
    obtain ⟨l, hl, rfl⟩ := List.mem_map.mp hline
    rcases mem_quoteLine hmem with hc | hc | hmem
    · cases hc
    · cases hc
    · exact newline_notMem_of_mem_lines hl hmem

/-- A quote is the quoted text of its content between blank lines. -/
theorem quote_of_ne_nil {content t : Text} (hcontent : collapseNewlines (trim content) = t)
    (ht : t ≠ []) : quote content = some ("\n\n".toList ++ quotedText t ++ "\n\n".toList) := by
  have hne : quotedText t ≠ [] := (areLines_quoteLine ht).intercalate_ne_nil
  rw [quote, hcontent]
  show block (quotedText t) = _
  rw [block, if_neg (by simpa using hne)]

/-- A quote that is the whole document has the quoted lines of its content. -/
theorem tidy_quotedText {t : Text} (ht : t ≠ []) :
    tidy ("\n\n".toList ++ quotedText t ++ "\n\n".toList) = quotedText t :=
  Text.tidy_block (areLines_quoteLine ht).isBare_newline
    (areLines_quoteLine ht).collapseNewlines_intercalate

/-- What is left of a tidied text when it is trimmed is settled, if there is anything. -/
theorem isSettled_trim_tidy {t : Text} (hne : trim (tidy t) ≠ []) (hreturn : '\r' ∉ tidy t) :
    IsSettled (trim (tidy t)) where
  ne_nil := hne
  isBare := isBare_stripBy isSpace _
  folded := by rw [trim_tidy, collapseNewlines_collapseNewlines]
  return_notMem := by
    obtain ⟨a, b, ht, -, -⟩ := exists_borders isSpace (tidy t)
    intro hmem
    apply hreturn
    rw [ht]
    exact List.mem_append_left _ (List.mem_append_right _ hmem)

namespace IsSettled

variable {t content : Text}

theorem getLast?_ne_newline (h : IsSettled t) : t.getLast? ≠ some '\n' := by
  intro hlast
  cases h.isBare.last '\n' hlast

theorem lines_eq (h : IsSettled t) : lines t = t.splitOn '\n' :=
  lines_eq_splitOn h.return_notMem h.ne_nil h.getLast?_ne_newline

theorem intercalate_lines (h : IsSettled t) : ['\n'].intercalate (lines t) = t := by
  rw [h.lines_eq, List.intercalate_splitOn]

theorem return_notMem_line (h : IsSettled t) : ∀ line ∈ lines t, '\r' ∉ line := by
  intro line hline hmem
  apply h.return_notMem
  rw [← h.intercalate_lines, mem_intercalate_iff (by decide)]
  exact ⟨line, hline, hmem⟩

/-- The last line of the text ends as the text does. -/
theorem exists_last (h : IsSettled t) : ∃ init last, lines t = init ++ [last] ∧ last ≠ [] ∧
    last.getLast? = t.getLast? := by
  rw [h.lines_eq]
  exact exists_last_line h.ne_nil h.getLast?_ne_newline

theorem areLines (h : IsSettled t) : AreLines ((lines t).map quoteLine) :=
  areLines_quoteLine h.ne_nil

theorem return_notMem_quotedText (h : IsSettled t) : '\r' ∉ quotedText t := by
  rw [quotedText, mem_intercalate_iff (by decide)]
  rintro ⟨line, hline, hmem⟩
  obtain ⟨l, hl, rfl⟩ := List.mem_map.mp hline
  rcases mem_quoteLine hmem with hc | hc | hmem
  · cases hc
  · cases hc
  · exact h.return_notMem_line l hl hmem

/-- A quoted text is settled like the text itself. -/
theorem quotedText (h : IsSettled t) : IsSettled (quotedText t) where
  ne_nil := h.areLines.intercalate_ne_nil
  isBare := by
    apply h.areLines.isBare_intercalate
    · intro line hline c hc
      obtain ⟨l, -, rfl⟩ := List.mem_map.mp (List.mem_of_head? hline)
      rw [head?_quoteLine] at hc
      cases hc
      rfl
    · intro line hline c hc
      obtain ⟨init, last, hlines, hne, hend⟩ := h.exists_last
      rw [hlines, List.map_append, List.map_singleton, List.getLast?_concat] at hline
      cases hline
      have hquoted : (quoteLine last).getLast? = t.getLast? := by
        obtain ⟨x, l, rfl⟩ := List.exists_cons_of_ne_nil hne
        show ('>' :: ' ' :: x :: l).getLast? = _
        rw [List.getLast?_cons_cons, List.getLast?_cons_cons, hend]
      rw [hquoted] at hc
      exact h.isBare.last c hc
  folded := h.areLines.collapseNewlines_intercalate
  return_notMem := h.return_notMem_quotedText

/-- The lines of a quoted text are the quoted lines. -/
theorem lines_quotedText (h : IsSettled t) :
    lines (Markdown.quotedText t) = (lines t).map quoteLine := by
  rw [h.quotedText.lines_eq, Markdown.quotedText, h.areLines.splitOn_eq]

/-- Quoting again marks every line again. -/
theorem iterate (h : IsSettled t) (n : Nat) :
    IsSettled (Markdown.quotedText^[n] t) ∧
      lines (Markdown.quotedText^[n] t) = (lines t).map quoteLine^[n] := by
  induction n with
  | zero =>
    refine ⟨h, ?_⟩
    rw [Function.iterate_zero, Function.iterate_zero, List.map_id, id]
  | succ n ih =>
    obtain ⟨hsettled, hlines⟩ := ih
    rw [Function.iterate_succ', Function.iterate_succ', Function.comp_apply]
    refine ⟨hsettled.quotedText, ?_⟩
    rw [hsettled.lines_quotedText, hlines, List.map_map]

/-- In another quote, a quote stands for its quoted text. -/
theorem collapseNewlines_trim_block (h : IsSettled t) :
    collapseNewlines (trim ("\n\n".toList ++ t ++ "\n\n".toList)) = t := by
  rw [trim_block h.isBare, h.folded]

theorem tidy_block (h : IsSettled t) : tidy ("\n\n".toList ++ t ++ "\n\n".toList) = t :=
  Text.tidy_block (h.isBare.mono isSpace_of_beq_newline) h.folded

end IsSettled

end TreeMarkdown.Markdown
