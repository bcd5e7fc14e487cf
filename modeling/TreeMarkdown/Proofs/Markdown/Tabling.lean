/-
Tables line by line.

A line of a table is read by cutting it at its bars (`cutAtBars`); a bar right behind a backslash
belongs to the text around it. Cells are written so that only the bars that close them cut the
line: every bar inside has a backslash in front, and a space stands before the closing one, so
that no backslash at the end of a cell hides it (`cutAtBars_barredLine`). Rows and separators are
lines of the same make, for the marks of a separator are cells as well (`separatorRow_eq`).
-/

import TreeMarkdown.Markdown.Table
import TreeMarkdown.Proofs.Markdown.Listing

namespace TreeMarkdown.Markdown

open Text

variable {c : Char} {content : Text} {contents : List Text} {d : Document} {i : Nat}

/-! ### Cutting a line at its bars -/

/-- `cutAtBars` inside a line: `escaped` says that the character before is a backslash. -/
def cutAtBarsFrom (escaped : Bool) : Text → List Text
  | [] => [[]]
  | c :: t =>
    if c = '|' ∧ escaped = false then [] :: cutAtBarsFrom false t
    else (cutAtBarsFrom (c == '\\') t).modifyHead (c :: ·)

/-- What stands between the bars of a line. A bar right behind a backslash does not count. -/
def cutAtBars (line : Text) : List Text :=
  cutAtBarsFrom false line

/-- The line begins and ends with a bar, and its bars enclose these cells. -/
structure IsTableLine (cells : List Text) (line : Text) : Prop where
  head : line.head? = some '|'
  last : line.getLast? = some '|'
  cut : cutAtBars line = [] :: cells ++ [[]]

/-! ### Lines of cells -/

/-- A cell as it stands between its bars. -/
def cellText (content : Text) : Text :=
  ' ' :: (trim content).flatMap cellChar ++ [' ']

/-- A bar and behind it cells, each closed by a bar. -/
def barredLine (contents : List Text) : Text :=
  '|' :: contents.flatMap cell

theorem cell_eq (content : Text) : cell content = cellText content ++ ['|'] := by
  rw [cell, cellText, List.append_assoc]
  rfl

theorem row_eq (contents : List Text) :
    row (contents.flatMap cell) = barredLine contents ++ ['\n'] :=
  rfl

/-- Inside a cell nothing cuts, whatever stands before it; the bar that closes it does. -/
theorem cutAtBarsFrom_cellChars (escaped : Bool) (t rest : Text) :
    cutAtBarsFrom escaped (t.flatMap cellChar ++ ' ' :: '|' :: rest) =
      (t.flatMap cellChar ++ [' ']) :: cutAtBarsFrom false rest := by
  induction t generalizing escaped with
  | nil => rfl
  | cons c t ih =>
    rw [List.flatMap_cons, cellChar]
    split
    · simp [cutAtBarsFrom, ih]
    · split
      · simp [cutAtBarsFrom, ih]
      · rename_i hbar
        simp [cutAtBarsFrom, ih, hbar]

theorem cutAtBarsFrom_cells (contents : List Text) :
    cutAtBarsFrom false (contents.flatMap cell) = contents.map cellText ++ [[]] := by
  induction contents with
  | nil => rfl
  | cons content contents ih =>
    have hcell : cutAtBarsFrom false (cell content ++ contents.flatMap cell) =
        cellText content :: cutAtBarsFrom false (contents.flatMap cell) := by
      have hinside := cutAtBarsFrom_cellChars false (trim content) (contents.flatMap cell)
      simp [cell, cellText, cutAtBarsFrom, hinside]
    rw [List.flatMap_cons, hcell, ih]
    rfl

/-- The bars of a line enclose its cells. -/
theorem cutAtBars_barredLine (contents : List Text) :
    cutAtBars (barredLine contents) = [] :: contents.map cellText ++ [[]] := by
  rw [cutAtBars, barredLine, cutAtBarsFrom, if_pos ⟨rfl, rfl⟩, cutAtBarsFrom_cells]
  rfl

example : cutAtBars (barredLine ["a|b\nc\\".toList, []]) =
    [[], " a\\|b c\\ ".toList, "  ".toList, []] := by
  rfl

theorem getLast?_barredLine (contents : List Text) :
    (barredLine contents).getLast? = some '|' := by
  rcases List.eq_nil_or_concat contents with rfl | ⟨init, content, rfl⟩
  · rfl
  · have hsplit : barredLine (init.concat content) =
        '|' :: (init.flatMap cell ++ cellText content) ++ ['|'] := by
      simp [barredLine, cell_eq]
    rw [hsplit, List.getLast?_concat]

theorem isTableLine_barredLine (contents : List Text) :
    IsTableLine (contents.map cellText) (barredLine contents) where
  head := rfl
  last := getLast?_barredLine contents
  cut := cutAtBars_barredLine contents

theorem newline_notMem_cellChar (c : Char) : '\n' ∉ cellChar c := by
  rw [cellChar]
  split
  · decide
  · split
    · decide
    · rename_i hc _
      simpa using Ne.symm hc

/-- However many lines its cells had, a row is one line. -/
theorem newline_notMem_barredLine (contents : List Text) : '\n' ∉ barredLine contents := by
  simp [barredLine, cell, newline_notMem_cellChar]

/-! ### Separators -/

/-- The mark of the column of cell `i`. -/
def columnMark (d : Document) (i : Nat) : Text :=
  alignmentMark (lower ((d.attribute? i "align".toList).getD []))

/-- The marks are cells that need no trimming or escaping. -/
theorem cell_alignmentMark (alignment : Text) :
    cell (alignmentMark alignment) = ' ' :: alignmentMark alignment ++ [' ', '|'] := by
  have hmarks : ∀ mark ∈ [":---".toList, "---:".toList, ":---:".toList, "---".toList],
      cell mark = ' ' :: mark ++ [' ', '|'] := by
    decide
  apply hmarks
  rw [alignmentMark]
  split
  · simp
  · split
    · simp
    · split <;> simp

/-- A separator is a line of cells that hold the marks of the columns. -/
theorem separatorRow_eq (d : Document) (i : Nat) :
    separatorRow d i =
      barredLine (((d.elementChildren i).filter (isCell d)).map (columnMark d)) ++ ['\n'] := by
  have hcells : separatorCell d = fun c => cell (columnMark d c) :=
    funext fun c => (cell_alignmentMark _).symm
  rw [separatorRow, hcells, ← row_eq, List.flatMap_map]

end TreeMarkdown.Markdown
