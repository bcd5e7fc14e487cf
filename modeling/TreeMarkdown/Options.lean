/-
What a reader of the Markdown may choose: the spellings between which Markdown leaves
the choice.
-/

import TreeMarkdown.Text.Basic

namespace TreeMarkdown

/-- How headings are written. -/
inductive HeadingStyle where
  /-- A run of `#` in front. -/
  | atx
  /-- An underline, for the first two levels; `#` for the others. -/
  | setext
deriving DecidableEq

/-- How blocks of code are written. -/
inductive CodeBlockStyle where
  /-- Four spaces in front of every line. -/
  | indented
  /-- A fence before and after. -/
  | fenced
deriving DecidableEq

/-- The chosen spellings. -/
structure Options where
  headingStyle : HeadingStyle := .atx
  codeBlockStyle : CodeBlockStyle := .indented
  /-- A thematic break. -/
  rule : Text := "- - -".toList
  /-- In front of the items of an unordered list. -/
  bullet : Char := '*'
  /-- The fence of a fenced code block. -/
  fence : Text := List.replicate 3 '\x60'
  emphasis : Char := '_'
  strong : Text := "**".toList
deriving DecidableEq

end TreeMarkdown
