/-
Ordinary white space: space, tab, carriage return and newline.

These four are what Markdown may lose at the ends of a text and what it folds
inside one. Every other character, the non-breaking space included, is content.
`collapseSpaces` and `collapseNewlines` shorten runs from left to right, each
keeping only what it has to know about the run it stands in.
-/

import TreeMarkdown.Text.Basic

namespace TreeMarkdown.Text

/-- Space, tab, carriage return or newline. -/
def isSpace (c : Char) : Bool :=
  c == ' ' || c == '\t' || c == '\r' || c == '\n'

/-- Drops ordinary white space from both ends. -/
def trim (t : Text) : Text :=
  stripBy isSpace t

/-- `collapseSpaces` inside a text: `inRun` says that the character before was
ordinary white space, so that its run has been written already. -/
def collapseSpacesFrom (inRun : Bool) : Text → Text
  | [] => []
  | c :: t =>
    if isSpace c then
      if inRun then collapseSpacesFrom true t else ' ' :: collapseSpacesFrom true t
    else c :: collapseSpacesFrom false t

/-- Replaces every run of ordinary white space by one space. -/
def collapseSpaces (t : Text) : Text :=
  collapseSpacesFrom false t

/-- `collapseNewlines` inside a text, after `seen` newlines in a row. -/
def collapseNewlinesFrom (seen : Nat) : Text → Text
  | [] => []
  | c :: t =>
    if c = '\n' then
      if seen < 2 then '\n' :: collapseNewlinesFrom (seen + 1) t
      else collapseNewlinesFrom seen t
    else c :: collapseNewlinesFrom 0 t

/-- Keeps at most two newlines of every run, that is at most one blank line in
a row. -/
def collapseNewlines (t : Text) : Text :=
  collapseNewlinesFrom 0 t

end TreeMarkdown.Text
