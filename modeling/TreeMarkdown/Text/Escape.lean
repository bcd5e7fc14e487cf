/-
Backslash escapes for the characters that mean something in Markdown.

`escape` treats every character on its own, so escaping distributes over
concatenation. A backslash is not itself special and stays as it is.
-/

import TreeMarkdown.Text.Basic

namespace TreeMarkdown.Text

/-- The characters that Markdown could read as markup. -/
def specials : List Char :=
  ['*', '(', ')', '[', ']', '\x7b', '\x7d', '_', '#', '\x60', '+', '-', '.', '!']

/-- The character could be read as markup. -/
def isSpecial (c : Char) : Bool :=
  specials.contains c

/-- The escaped form of one character. -/
def escapeChar (c : Char) : Text :=
  if isSpecial c then ['\\', c] else [c]

/-- Puts a backslash before every special character. -/
def escape (t : Text) : Text :=
  t.flatMap escapeChar

theorem escape_cons (c : Char) (t : Text) : escape (c :: t) = escapeChar c ++ escape t :=
  List.flatMap_cons

theorem escape_append (s t : Text) : escape (s ++ t) = escape s ++ escape t :=
  List.flatMap_append

end TreeMarkdown.Text
