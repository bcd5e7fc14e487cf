/-
Code: blocks, which keep their lines, and spans, which keep their characters.

A span is delimited by one backtick more than the longest run inside it. A block loses
the newlines at its end, and there is none if only white space is left.
-/

import TreeMarkdown.Document.Navigation
import TreeMarkdown.Markdown.Layout

namespace TreeMarkdown.Markdown

/-! ### Blocks -/

/-- The lines of a code block as one text, if any of them shows. -/
def codeText? (content : Text) : Option Text :=
  let code := Text.dropEndWhile (· == '\n') content
  if (Text.strip code).isEmpty then none else some code

/-- A code block with four spaces in front of every line. -/
def indentedCode (content : Text) : Option Text := do
  let code ← codeText? content
  block (Text.indentLines "    ".toList code)

/-- A code block between two fences, the language behind the first. -/
def fencedCode (fence language content : Text) : Option Text := do
  let code ← codeText? content
  block (fence ++ language ++ '\n' :: code ++ '\n' :: fence)

/-- The language that one class of an element stands for. -/
def languageOfClass (name : Text) : Option Text :=
  List.isPrefixOf? "language-".toList name <|> List.isPrefixOf? "lang-".toList name

/-- The language of the code in node `i`: what `data-language` says or else the first
class that stands for one. -/
def codeLanguage (d : Document) (i : Nat) : Text :=
  match d.attribute? i "data-language".toList with
  | some language => Text.strip language
  | none =>
    let classes := Text.words ((d.attribute? i "class".toList).getD [])
    (classes.findSome? languageOfClass).getD []

/-- The language of the code in node `i` or, failing that, of its parent. -/
def inheritedLanguage (d : Document) (i : Nat) : Text :=
  let language := codeLanguage d i
  if language.isEmpty then (d.parent? i).elim [] (codeLanguage d) else language

/-- Preformatted text is written by the code element in it, if it has one. -/
def holdsCode (d : Document) (i : Nat) : Bool :=
  (d.elementChildren i).any (d.hasTag "code")

/-! ### Spans -/

/-- The length of the longest run of `c` in a text that follows `current` copies of it. -/
def longestRunFrom (c : Char) (current : Nat) : Text → Nat
  | [] => current
  | x :: t =>
    if x = c then longestRunFrom c (current + 1) t
    else max current (longestRunFrom c 0 t)

/-- The length of the longest run of `c`. -/
def longestRun (c : Char) (t : Text) : Nat :=
  longestRunFrom c 0 t

/-- A code span. If it has backticks of its own, spaces keep them from the delimiters. -/
def codeSpan (content : Text) : Option Text :=
  if content.isEmpty then none
  else
    let run := longestRun '\x60' content
    let ticks := List.replicate (run + 1) '\x60'
    if 0 < run then some (ticks ++ ' ' :: content ++ ' ' :: ticks)
    else some (ticks ++ content ++ ticks)

end TreeMarkdown.Markdown
