/-
HTML fragments as trees, and the documents they become.

A fragment is an ordered forest of text, elements and nodes of other kinds, such as
comments. The document holds the texts and the elements in the same order; the other
nodes go, with everything below them, but texts on both sides of one stay apart.
-/

import TreeMarkdown.Document.Basic

namespace TreeMarkdown.Html

/-- A node of a fragment. -/
inductive Markup where
  | text (content : Text)
  | element (tag : Text) (attributes : List (Text × Text)) (children : List Markup)
  /-- A node that is neither text nor element. -/
  | other (children : List Markup)

mutual

/-- Appends a node and what is below it to node `p` of a document. -/
def Markup.appendTo (d : Document) (p : Nat) : Markup → Except AppendError Document
  | .text content => do
    let (_, d) ← d.append p (Node.text content)
    return d
  | .element tag attributes children => do
    let (i, d) ← d.append p (Node.element tag attributes)
    appendForest d i children
  | .other _ => .ok d

/-- Appends the nodes of a forest, in order, to node `p` of a document. -/
def appendForest (d : Document) (p : Nat) : List Markup → Except AppendError Document
  | [] => .ok d
  | m :: forest => do
    let d ← m.appendTo d p
    appendForest d p forest

end

/-- The document of a fragment. -/
def toDocument (forest : List Markup) : Except AppendError Document :=
  appendForest Document.empty Document.root forest

end TreeMarkdown.Html
