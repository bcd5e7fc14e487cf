/-
The shapes that most Markdown has: a block between blank lines, a span between
delimiters, a quote with a mark before every line. None is written around nothing.
-/

import TreeMarkdown.Text.Space

namespace TreeMarkdown.Markdown

/-- Text that holds more than ordinary white space. -/
def isFilled (t : Text) : Bool :=
  !(Text.trim t).isEmpty

/-- A block between blank lines. -/
def block (content : Text) : Option Text :=
  if content.isEmpty then none else some ("\n\n".toList ++ content ++ "\n\n".toList)

/-- A span between two copies of a delimiter. -/
def span (delimiter content : Text) : Option Text :=
  if isFilled content then some (delimiter ++ content ++ delimiter) else none

/-- A hard line break. -/
def lineBreak : Text := "  \n".toList

/-- A line of a quoted text behind its mark. -/
def quoteLine (line : Text) : Text :=
  if line.isEmpty then ['>'] else '>' :: ' ' :: line

/-- A block quote. -/
def quote (content : Text) : Option Text :=
  block (['\n'].intercalate
    ((Text.lines (Text.collapseNewlines (Text.trim content))).map quoteLine))

end TreeMarkdown.Markdown
