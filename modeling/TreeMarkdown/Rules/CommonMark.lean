/-
The rules of CommonMark: which converter stands under which keys.
-/

import TreeMarkdown.Document.Inline
import TreeMarkdown.Markdown.Code
import TreeMarkdown.Markdown.Heading
import TreeMarkdown.Markdown.Item
import TreeMarkdown.Markdown.Link
import TreeMarkdown.Text.Escape

namespace TreeMarkdown.CommonMark

open Markdown

/-! ### Converters -/

/-- Text in the flow: folded, trimmed, escaped, and spaced against its neighbours. -/
def text : Converter :=
  .ofNode fun d i =>
    some (d.spaced i (Text.escape (Text.trim (Text.collapseSpaces (d.ownText i)))))

/-- Text in code, as it is. -/
def rawText : Converter :=
  .ofNode fun d i => d.value? i

/-- A paragraph. -/
def paragraph : Converter :=
  .ofContent fun content => block (Text.trim content)

/-- A line break. -/
def hardBreak : Converter :=
  .ofContent fun _ => some lineBreak

/-- A heading, of the level that the tag holds. -/
def heading (o : Options) : Converter := fun d i content => do
  let level ← headingLevel (d.tagName i)
  return Markdown.heading o.headingStyle level (Text.trim content)

/-- A block quote. -/
def blockquote : Converter :=
  .ofContent quote

/-- A list. -/
def list : Converter :=
  .ofContent fun content => block (Text.stripNewlines content)

/-- A list inside an item. -/
def innerList : Converter :=
  .ofContent nestedList

/-- An item of a list. -/
def item (o : Options) : Converter :=
  .total fun d i content => some (listItem (listMarker d o.bullet i) content)

/-- Code that is a block. -/
def codeBlock (o : Options) : Converter :=
  .total fun d i content =>
    match o.codeBlockStyle with
    | .indented => indentedCode content
    | .fenced => fencedCode o.fence (codeLanguage d i) content

/-- Preformatted text, unless a code element in it has been written as a block. -/
def preformatted : Converter :=
  .total fun d i content => if holdsCode d i then none else indentedCode content

/-- A thematic break. -/
def thematicBreak (o : Options) : Converter :=
  .ofContent fun _ => block o.rule

/-- A link. -/
def link : Converter :=
  .total fun d i content =>
    Markdown.link (cleanAttribute (d.attribute? i "href".toList))
      (d.attribute? i "title".toList) content

/-- Emphasis. -/
def emphasis (o : Options) : Converter :=
  .ofContent (span [o.emphasis])

/-- Strong emphasis. -/
def strong (o : Options) : Converter :=
  .ofContent (span o.strong)

/-- A code span. -/
def code : Converter :=
  .ofNode fun d i => codeSpan (d.textContent i)

/-- An image. -/
def image : Converter :=
  .ofNode fun d i =>
    Markdown.image (cleanAttribute (d.attribute? i "alt".toList))
      (cleanAttribute (d.attribute? i "src".toList)) (d.attribute? i "title".toList)

/-! ### The table -/

/-- The converters with their keys, in order. -/
def entries (o : Options) : List (Text × Converter) :=
  [("TEXT_NODE".toList, text),
   ("PRE TEXT_NODE, CODE TEXT_NODE".toList, rawText),
   ("P".toList, paragraph),
   ("BR".toList, hardBreak),
   ("H1, H2, H3, H4, H5, H6".toList, heading o),
   ("BLOCKQUOTE".toList, blockquote),
   ("UL, OL".toList, list),
   ("LI UL, LI OL".toList, innerList),
   ("UL LI, OL LI".toList, item o),
   ("PRE CODE".toList, codeBlock o),
   ("PRE".toList, preformatted),
   ("HR".toList, thematicBreak o),
   ("A".toList, link),
   ("EM, I".toList, emphasis o),
   ("STRONG, B".toList, strong o),
   ("CODE".toList, code),
   ("IMG".toList, image)]

/-- The renderer of CommonMark. -/
def renderer (o : Options) : Renderer :=
  Renderer.ofList (entries o)

end TreeMarkdown.CommonMark
