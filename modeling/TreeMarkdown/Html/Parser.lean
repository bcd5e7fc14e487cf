/-
From tokens to a fragment.

The elements that are open form a stack. A start tag opens an element, unless its kind
has no content; an end tag closes the nearest open element of its name and everything
inside it, or nothing if there is none. At the end all open elements are closed. A newline
directly behind the start tag of preformatted text is not part of the text.
-/

import TreeMarkdown.Html.Fragment
import TreeMarkdown.Html.Token

namespace TreeMarkdown.Html

/-- The tags of elements without content, which have no end tag. -/
def voidTags : List Text :=
  ["area", "base", "basefont", "bgsound", "br", "col", "embed", "hr", "img", "input",
   "keygen", "link", "meta", "param", "source", "track", "wbr"].map String.toList

/-- The tags of elements with preformatted text. -/
def preformattedTags : List Text :=
  ["listing", "pre", "textarea"].map String.toList

/-- An open element, with the nodes before it under the same parent, last one first. -/
structure OpenElement where
  tag : Text
  attributes : List (Text × Text)
  before : List Markup

/-- Closes an element whose children are given last one first. Gives the nodes under its
parent, last one first. -/
def OpenElement.close (e : OpenElement) (children : List Markup) : List Markup :=
  .element e.tag e.attributes children.reverse :: e.before

/-- Closes all open elements, the innermost of them first. -/
def closeAll (level : List Markup) : List OpenElement → List Markup
  | [] => level.reverse
  | e :: stack => closeAll (e.close level) stack

/-- Closes open elements up to the nearest one of a name; nothing if there is none. -/
def closeTo? (tag : Text) (level : List Markup) :
    List OpenElement → Option (List Markup × List OpenElement)
  | [] => none
  | e :: stack =>
    if e.tag = tag then some (e.close level, stack) else closeTo? tag (e.close level) stack

/-- The part of a text that counts behind the nodes of a level: a newline that begins
preformatted text does not. -/
def countedText (level : List Markup) (stack : List OpenElement) (content : Text) : Text :=
  match level, stack, content with
  | [], e :: _, '\n' :: rest => if preformattedTags.contains e.tag then rest else content
  | _, _, _ => content

/-- Adds text behind the nodes of a level, last one first. Neighbouring texts are one, and
an empty text is no node. -/
def addText (content : Text) (level : List Markup) : List Markup :=
  match content, level with
  | [], level => level
  | content, .text before :: level => .text (before ++ content) :: level
  | content, level => .text content :: level

/-- Builds the forest of the tokens, where `level` has the nodes that are under the
innermost open element so far, last one first. -/
def build (level : List Markup) (stack : List OpenElement) : List Token → List Markup
  | [] => closeAll level stack
  | .text content :: tokens =>
    build (addText (countedText level stack content) level) stack tokens
  | .comment :: tokens => build (.other [] :: level) stack tokens
  | .startTag tag attributes :: tokens =>
    if voidTags.contains tag then build (.element tag attributes [] :: level) stack tokens
    else build [] (⟨tag, attributes, level⟩ :: stack) tokens
  | .endTag tag :: tokens =>
    match closeTo? tag level stack with
    | some (level, stack) => build level stack tokens
    | none => build level stack tokens

/-- Reads a fragment. -/
def parse (t : Text) : List Markup :=
  build [] [] (tokens t)

/-- Reads a fragment as a document. -/
def parseDocument (t : Text) : Except AppendError Document :=
  toDocument (parse t)

end TreeMarkdown.Html
