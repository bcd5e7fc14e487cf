/-
Tables.

A row is a line of cells, each closed by a bar; a bar inside a cell is escaped and a
newline inside it becomes a space. Below its header row a table has a separator, with
one mark per cell that shows the alignment.
-/

import TreeMarkdown.Document.Navigation
import TreeMarkdown.Markdown.Layout

namespace TreeMarkdown.Markdown

/-! ### Cells and rows -/

/-- A character inside a cell. -/
def cellChar (c : Char) : Text :=
  if c = '\n' then [' '] else if c = '|' then ['\\', '|'] else [c]

/-- A cell with the bar that closes it. -/
def cell (content : Text) : Text :=
  ' ' :: (Text.trim content).flatMap cellChar ++ [' ', '|']

/-- A row of closed cells. -/
def row (cells : Text) : Text :=
  '|' :: cells ++ ['\n']

/-- A table between blank lines. -/
def table (content : Text) : Option Text :=
  block (Text.stripNewlines content)

/-! ### The separator -/

/-- The mark of a column whose alignment is given in small letters. -/
def alignmentMark (alignment : Text) : Text :=
  if alignment = "left".toList then ":---".toList
  else if alignment = "right".toList then "---:".toList
  else if alignment = "center".toList then ":---:".toList
  else "---".toList

/-- Node `i` is a cell of a row. -/
def isCell (d : Document) (i : Nat) : Bool :=
  d.hasTag "th" i || d.hasTag "td" i

/-- The mark below cell `i`, with the bar that closes it. -/
def separatorCell (d : Document) (i : Nat) : Text :=
  let alignment := Text.lower ((d.attribute? i "align".toList).getD [])
  ' ' :: alignmentMark alignment ++ [' ', '|']

/-- The separator below row `i`. -/
def separatorRow (d : Document) (i : Nat) : Text :=
  row (((d.elementChildren i).filter (isCell d)).flatMap (separatorCell d))

/-! ### The header -/

/-- The rows that are children of node `i`. -/
def ownRows (d : Document) (i : Nat) : List Nat :=
  (d.elementChildren i).filter (d.hasTag "tr")

/-- Node `i` is a row group. -/
def isRowGroup (d : Document) (i : Nat) : Bool :=
  d.hasTag "thead" i || d.hasTag "tbody" i || d.hasTag "tfoot" i

/-- The rows of a table in order, those of its row groups among them. -/
def tableRows (d : Document) (table : Nat) : List Nat :=
  (d.elementChildren table).flatMap fun c =>
    if d.hasTag "tr" c then [c] else if isRowGroup d c then ownRows d c else []

/-- Row `i` is the header: the last row of a table head, or the first row of a table
without one. -/
def isHeaderRow (d : Document) (i : Nat) : Bool :=
  match d.parent? i with
  | none => false
  | some p =>
    if d.hasTag "thead" p then (ownRows d p).getLast? == some i
    else
      match (d.ancestors i).find? (d.hasTag "table") with
      | none => false
      | some table =>
        !(d.elementChildren table).any (d.hasTag "thead") && (tableRows d table).head? == some i

/-- Row `i` with the given cells, and the separator if it is the header. -/
def tableRow (d : Document) (i : Nat) (cells : Text) : Text :=
  row cells ++ if isHeaderRow d i then separatorRow d i else []

end TreeMarkdown.Markdown
