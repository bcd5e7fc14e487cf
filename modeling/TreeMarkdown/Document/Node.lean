/-
Nodes on their own: what a node of a document says before it stands anywhere.

A node has a kind, a name, possibly a value, and attributes in the order in which
they were written. The constructors of elements write the name in capitals, but a
node may carry any name; `tagName` and `ruleName` are the two spellings that the
library reads. Names of elements and attributes are compared without regard to the
case of ASCII letters.
-/

import TreeMarkdown.Text.Case

namespace TreeMarkdown

/-- The kinds of node. A document node is only ever the root. -/
inductive NodeKind where
  | element
  | text
  | document
deriving DecidableEq

/-- A node, detached from any document. -/
structure Node where
  kind : NodeKind
  name : Text
  value : Option Text
  attributes : List (Text × Text)
deriving DecidableEq

/-- The name under which selectors find text nodes. -/
def textRuleName : Text := "TEXT_NODE".toList

namespace Node

/-! ### Construction -/

/-- An element; its name is written in capitals. -/
def element (tag : Text) (attributes : List (Text × Text)) : Node :=
  ⟨.element, Text.upper tag, none, attributes⟩

/-- A text node. -/
def text (content : Text) : Node :=
  ⟨.text, "#text".toList, some content, []⟩

/-- The root of a document. -/
def document : Node :=
  ⟨.document, "#document".toList, none, []⟩

/-! ### Observation -/

/-- The node is an element. -/
def isElement (n : Node) : Bool :=
  n.kind == .element

/-- The node is a text node. -/
def isText (n : Node) : Bool :=
  n.kind == .text

/-- The node is the root of a document. -/
def isDocument (n : Node) : Bool :=
  n.kind == .document

/-- The name in small letters. -/
def tagName (n : Node) : Text :=
  Text.lower n.name

/-- The name that stands for the node in reports of what matched: the name in
capitals, and one common name for all text nodes. -/
def ruleName (n : Node) : Text :=
  if n.isText then textRuleName else Text.upper n.name

/-- A selector token names the node. No token names a document. -/
def isNamed (n : Node) (token : Text) : Bool :=
  match n.kind with
  | .text => Text.eqIgnoringCase token textRuleName
  | .element => Text.eqIgnoringCase n.name token
  | .document => false

/-- The value of the first attribute of that name. -/
def attribute? (n : Node) (name : Text) : Option Text :=
  (n.attributes.find? fun entry => Text.eqIgnoringCase entry.1 name).map (·.2)

/-- The value, or nothing. -/
def ownText (n : Node) : Text :=
  n.value.getD []

end Node

end TreeMarkdown
