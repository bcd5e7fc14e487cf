/-
Which nodes flow in a line, and the spaces between them.

Text is trimmed node by node, so a space between two words may be lost where two
inline nodes meet. `spaced` puts it back: one space on a side where an inline sibling
follows and the text has ordinary white space on either side of the boundary. Both
nodes at a boundary look at the same two characters.
-/

import TreeMarkdown.Document.Content

namespace TreeMarkdown

/-- The tags of elements that are blocks. -/
def blockTags : List Text :=
  ["address", "article", "aside", "audio", "blockquote", "body", "canvas", "center", "dd",
   "dir", "div", "dl", "dt", "fieldset", "figcaption", "figure", "footer", "form", "frameset",
   "h1", "h2", "h3", "h4", "h5", "h6", "header", "hgroup", "hr", "html", "isindex", "li",
   "main", "menu", "nav", "noframes", "noscript", "ol", "output", "p", "pre", "section",
   "table", "tbody", "td", "tfoot", "th", "thead", "tr", "ul"].map String.toList

/-- The tag, in either case, is that of a block. -/
def isBlockTag (tag : Text) : Bool :=
  blockTags.contains (Text.lower tag)

/-- There is a character, and it is ordinary white space. -/
def isSpaceEdge (c : Option Char) : Bool :=
  c.any Text.isSpace

namespace Document

/-- Text nodes are inline, and so are the elements that are not blocks. -/
def isInline (d : Document) (i : Nat) : Bool :=
  d.isText i || (d.isElement i && !isBlockTag (d.tagName i))

/-- Node `i` has white space on its boundary with an inline sibling before it. -/
def spaceBefore (d : Document) (i : Nat) : Bool :=
  (d.previousSibling? i).any fun p =>
    d.isInline p && (isSpaceEdge (d.lastTextChar? p) || isSpaceEdge (d.firstTextChar? i))

/-- Node `i` has white space on its boundary with an inline sibling after it. -/
def spaceAfter (d : Document) (i : Nat) : Bool :=
  (d.nextSibling? i).any fun n =>
    d.isInline n && (isSpaceEdge (d.firstTextChar? n) || isSpaceEdge (d.lastTextChar? i))

end Document

/-- Puts a space in front, unless there is one. -/
def withSpaceBefore (t : Text) : Text :=
  if t.head? = some ' ' then t else ' ' :: t

/-- Puts a space at the end, unless there is one. -/
def withSpaceAfter (t : Text) : Text :=
  if t.getLast? = some ' ' then t else t ++ [' ']

namespace Document

/-- The trimmed text `t` of node `i` with the spaces that its boundaries call for. -/
def spaced (d : Document) (i : Nat) (t : Text) : Text :=
  let t := if d.spaceBefore i then withSpaceBefore t else t
  if d.spaceAfter i then withSpaceAfter t else t

end Document

end TreeMarkdown
