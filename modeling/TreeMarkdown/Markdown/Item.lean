/-
List items.

A marker is four characters wide, or wider if its number is, and ends in a space; the
lines of an item after the first are indented by four. The items of an ordered list
count up from its start and stay at the largest number that Markdown reads.
-/

import TreeMarkdown.Document.Navigation
import TreeMarkdown.Text.Numeral

namespace TreeMarkdown.Markdown

/-! ### Numbers -/

/-- The largest number of an item: nine digits. -/
def maxOrdinal : Nat := 999999999

/-- The start that a magnitude stands for. -/
def startOf : Text.Numeral → Option Nat
  | .value n => some (min n maxOrdinal)
  | .overflow => some maxOrdinal
  | .malformed => none

/-- The start that the negative of a magnitude stands for. -/
def negativeStartOf : Text.Numeral → Option Nat
  | .malformed => none
  | _ => some 0

/-- Reads the start of an ordered list, a signed number of 64 bits. Numbers below zero
and beyond the largest ordinal are taken to the nearest number that an item may have. -/
def parseStart (t : Text) : Option Nat :=
  match Text.strip t with
  | '-' :: digits => negativeStartOf (Text.readMagnitude (UInt64.size / 2) digits)
  | '+' :: digits => startOf (Text.readMagnitude (UInt64.size / 2 - 1) digits)
  | digits => startOf (Text.readMagnitude (UInt64.size / 2 - 1) digits)

/-- The number of the first item of the ordered list `list`. -/
def listStart (d : Document) (list : Nat) : Nat :=
  ((d.attribute? list "start".toList).bind parseStart).getD 1

/-- The number of items that stand before node `i` in `list`. -/
def itemsBefore (d : Document) (list i : Nat) : Nat :=
  (((d.elementChildren list).takeWhile (· != i)).filter (d.hasTag "li")).length

/-! ### Markers -/

/-- The marker of an item with a number. -/
def ordinalMarker (n : Nat) : Text :=
  let numeral := Text.decimal n ++ ['.']
  numeral.rightpad (max (numeral.length + 1) 4) ' '

/-- The marker of an item without a number. -/
def bulletMarker (bullet : Char) : Text :=
  bullet :: "   ".toList

/-- The marker of item `i`: a number if the parent is an ordered list. -/
def listMarker (d : Document) (bullet : Char) (i : Nat) : Text :=
  match (d.parent? i).filter (d.hasTag "ol") with
  | some list => ordinalMarker (min (listStart d list + itemsBefore d list i) maxOrdinal)
  | none => bulletMarker bullet

/-! ### Items -/

/-- A line of an item after the first. -/
def continuationLine (line : Text) : Text :=
  if line.isEmpty then [] else "    ".toList ++ line

/-- Indents the lines after the first. -/
def hangingLines : List Text → List Text
  | [] => []
  | first :: others => first :: others.map continuationLine

/-- An item behind its marker. -/
def listItem (marker content : Text) : Text :=
  let lines := (Text.collapseNewlines (Text.trim content)).splitOn '\n'
  marker ++ ['\n'].intercalate (hangingLines lines) ++ ['\n']

/-- A list inside an item, set off from the text before it by one newline. -/
def nestedList (content : Text) : Option Text :=
  let content := Text.stripNewlines content
  if (Text.trim content).isEmpty then none else some ('\n' :: content ++ ['\n'])

/-! ### Tasks -/

/-- A text node with nothing but ordinary white space. -/
def isBlankText (d : Document) (i : Nat) : Bool :=
  d.isText i && (Text.trim (d.ownText i)).isEmpty

/-- Node `i` is a check box. -/
def isCheckbox (d : Document) (i : Nat) : Bool :=
  d.hasTag "input" i &&
    (d.attribute? i "type".toList).any (Text.eqIgnoringCase · "checkbox".toList)

/-- Whether the task of item `i` is done; nothing if the item does not open with a check
box. -/
def taskState? (d : Document) (i : Nat) : Option Bool :=
  match ((d.children i).find? (!isBlankText d ·)).filter (isCheckbox d) with
  | some box => some (d.hasAttribute box "checked".toList)
  | none => none

/-- What a task has behind its marker. -/
def taskMark : Option Bool → Text
  | some true => "[x] ".toList
  | some false => "[ ] ".toList
  | none => []

end TreeMarkdown.Markdown
