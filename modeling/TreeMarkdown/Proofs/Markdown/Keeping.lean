/-
Every Markdown construct keeps the visible text that it is given.

`Keeps t out?` says that of a construct that may write nothing: whatever it writes keeps
`t`. The constructs trim, cut into lines and add marks, and each of these steps keeps the
text (`Text.IsKept`).
-/

import TreeMarkdown.Markdown.Code
import TreeMarkdown.Markdown.Heading
import TreeMarkdown.Markdown.Item
import TreeMarkdown.Markdown.Link
import TreeMarkdown.Markdown.Table
import TreeMarkdown.Proofs.Text.Visible

namespace TreeMarkdown.Markdown

open Text (IsKept)

/-- What is written, if anything, keeps the text `t`. -/
def Keeps (t : Text) (written : Option Text) : Prop :=
  ∀ out, written = some out → IsKept t out

namespace Keeps

variable {s t out : Text} {written : Option Text}

theorem none (t : Text) : Keeps t .none := by
  intro out h
  cases h

theorem some (h : IsKept t out) : Keeps t (.some out) := by
  intro out' h'
  cases h'
  exact h

theorem ite {c : Prop} [Decidable c] {a b : Option Text} (ha : Keeps t a) (hb : Keeps t b) :
    Keeps t (if c then a else b) := by
  split
  · exact ha
  · exact hb

theorem of_isKept (hst : IsKept s t) (h : Keeps t written) : Keeps s written := by
  intro out hout
  exact hst.trans (h out hout)

theorem bind {f : Text → Option Text} (h : Keeps t written) (hf : ∀ u, Keeps u (f u)) :
    Keeps t (written.bind f) := by
  intro out hout
  obtain ⟨u, hu, hout⟩ := Option.bind_eq_some_iff.mp hout
  exact (h u hu).trans (hf u out hout)

end Keeps

variable (content : Text)

/-! ### Shapes -/

theorem isKept_trim : IsKept content (Text.trim content) :=
  .of_visible_eq (Text.visible_trim content).symm

theorem isKept_stripNewlines : IsKept content (Text.stripNewlines content) :=
  .of_visible_eq (Text.visible_stripNewlines content).symm

theorem keeps_block : Keeps content (block content) := by
  apply Keeps.ite
  · exact .none content
  · exact .some (((IsKept.refl content).append_left _).append_right _)

theorem keeps_span (delimiter : Text) : Keeps content (span delimiter content) := by
  apply Keeps.ite
  · exact .some (((IsKept.refl content).append_left _).append_right _)
  · exact .none content

theorem isKept_quoteLine (line : Text) : IsKept line (quoteLine line) := by
  unfold quoteLine
  split
  · rename_i hempty
    rw [List.isEmpty_iff.mp hempty]
    exact .of_visible_eq_nil rfl _
  · exact ((IsKept.refl line).cons ' ').cons '>'

theorem keeps_quote : Keeps content (quote content) := by
  refine .of_isKept (.joined ?_ isKept_quoteLine) (keeps_block _)
  rw [Text.flatMap_visible_lines, Text.visible_collapseNewlines, Text.visible_trim]

theorem keeps_heading (style : HeadingStyle) (level : Nat) :
    Keeps content (heading style level content) := by
  apply Keeps.ite
  · exact .none content
  · apply Keeps.ite
    · exact .of_isKept ((IsKept.refl content).append_right _) (keeps_block _)
    · exact .of_isKept (((IsKept.refl content).cons ' ').append_left _) (keeps_block _)

/-! ### Lists -/

theorem isKept_continuationLine (line : Text) : IsKept line (continuationLine line) := by
  unfold continuationLine
  split
  · rename_i hempty
    rw [List.isEmpty_iff.mp hempty]
    exact .refl []
  · exact (IsKept.refl line).append_left _

theorem isKept_hangingLines {pieces : List Text} {t : Text}
    (ht : Text.visible t = pieces.flatMap Text.visible) :
    IsKept t (['\n'].intercalate (hangingLines pieces)) := by
  rw [IsKept, Text.visible_intercalate_newline, ht]
  cases pieces with
  | nil => exact List.Sublist.refl _
  | cons first others =>
    rw [hangingLines, List.flatMap_cons, List.flatMap_cons, List.flatMap_map]
    apply List.Sublist.append (List.Sublist.refl _)
    apply List.Sublist.flatMap_right
    intro line _
    exact isKept_continuationLine line

theorem isKept_listItem (marker : Text) : IsKept content (listItem marker content) := by
  refine ((isKept_hangingLines ?_).append_left marker).append_right ['\n']
  rw [Text.flatMap_visible_splitOn, Text.visible_collapseNewlines, Text.visible_trim]

theorem keeps_nestedList : Keeps content (nestedList content) := by
  apply Keeps.ite
  · exact .none content
  · exact .some (((isKept_stripNewlines content).cons '\n').append_right _)

/-! ### Code -/

theorem keeps_codeText? : Keeps content (codeText? content) := by
  have hcode : Text.visible (Text.dropEndWhile (· == '\n') content) = Text.visible content :=
    Text.visible_dropEndWhile Text.isSpace_of_beq_newline content
  apply Keeps.ite
  · exact .none content
  · exact .some (.of_visible_eq hcode.symm)

theorem isKept_indentLines (lead : Text) : IsKept content (Text.indentLines lead content) := by
  apply IsKept.joined (Text.flatMap_visible_lines content).symm
  intro line
  exact (IsKept.refl line).append_left lead

theorem keeps_indentedCode : Keeps content (indentedCode content) := by
  apply Keeps.bind (keeps_codeText? content)
  intro code
  exact .of_isKept (isKept_indentLines code _) (keeps_block _)

theorem keeps_fencedCode (fence language : Text) :
    Keeps content (fencedCode fence language content) := by
  apply Keeps.bind (keeps_codeText? content)
  intro code
  have hfenced := (((IsKept.refl code).cons '\n').append_left (fence ++ language)).append_right
    ('\n' :: fence)
  exact .of_isKept hfenced (keeps_block _)

theorem keeps_codeSpan : Keeps content (codeSpan content) := by
  apply Keeps.ite
  · exact .none content
  · apply Keeps.ite
    · exact .some ((((IsKept.refl content).cons ' ').append_left _).append_right _)
    · exact .some (((IsKept.refl content).append_left _).append_right _)

/-! ### Links and tables -/

theorem isKept_reference (target : Text) (title : Option Text) :
    IsKept content (reference content target title) := by
  have hlabel := (IsKept.refl content).cons '['
  exact ((hlabel.append_right _).append_right _).append_right _

theorem keeps_link (target : Text) (title : Option Text) :
    Keeps content (link target title content) := by
  apply Keeps.ite
  · exact .none content
  · exact .some (isKept_reference content target title)

theorem isKept_cellChar (c : Char) : IsKept [c] (cellChar c) := by
  unfold cellChar
  split
  · rename_i hnewline
    rw [hnewline]
    exact .of_visible_eq rfl
  · split
    · rename_i hbar
      rw [hbar]
      exact (IsKept.refl ['|']).append_left ['\\']
    · exact .refl [c]

theorem isKept_cell : IsKept content (cell content) := by
  have hchars := (isKept_trim content).trans (.flatMap_chars isKept_cellChar _)
  exact (hchars.cons ' ').append_right [' ', '|']

theorem isKept_row : IsKept content (row content) :=
  ((IsKept.refl content).cons '|').append_right ['\n']

theorem isKept_tableRow (d : Document) (i : Nat) : IsKept content (tableRow d i content) :=
  (isKept_row content).append_right _

theorem keeps_table : Keeps content (table content) :=
  .of_isKept (isKept_stripNewlines content) (keeps_block _)

end TreeMarkdown.Markdown
