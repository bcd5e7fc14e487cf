/-
Headings.

The level of a heading stands in its tag behind the first character. `heading` writes
the text of a heading of any level, in either style; the tag decides only the level.
-/

import TreeMarkdown.Markdown.Layout
import TreeMarkdown.Options
import TreeMarkdown.Renderer
import TreeMarkdown.Text.Numeral

namespace TreeMarkdown.Markdown

/-- The number that a tag holds behind its first character, which takes one byte; 1 if
what stands there is not a number of at most 64 bits. -/
def headingLevel (tag : Text) : Except ConversionError Nat :=
  match tag with
  | [] => .error (.headingTag tag)
  | c :: digits =>
    if c.toNat < 128 then
      match Text.readUnsigned (UInt64.size - 1) digits with
      | .value n => .ok n
      | _ => .ok 1
    else .error (.headingTag tag)

/-- The underline of a heading, as long as its text. -/
def underline (level : Nat) (content : Text) : Text :=
  List.replicate content.length (if level = 1 then '=' else '-')

/-- A heading with the given trimmed text. -/
def heading (style : HeadingStyle) (level : Nat) (content : Text) : Option Text :=
  if content.isEmpty then none
  else if style = .setext ∧ level ≤ 2 then
    block (content ++ '\n' :: underline level content)
  else block (List.replicate level '#' ++ ' ' :: content)

end TreeMarkdown.Markdown
