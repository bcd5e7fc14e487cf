/-
A cursor that visits the nodes of a document below the root, each before its
children and earlier siblings before later ones.

The cursor holds nothing but its place. It goes on to the first child, or else climbs
until some node on the way has a next sibling. `preorder` is the same order by
recursion over the tree.
-/

import TreeMarkdown.Document.Navigation

namespace TreeMarkdown

/-- A place in a walk through a document. -/
inductive Cursor where
  /-- Before the first node. -/
  | start
  /-- On a node. -/
  | on (i : Nat)
  /-- Behind the last node. -/
  | done
deriving DecidableEq

namespace Document

/-- The next sibling of node `i` or, failing that, of the nearest ancestor that has
one. -/
def nextAfterSubtree? (d : Document) (i : Nat) : Option Nat :=
  match d.nextSibling? i with
  | some j => some j
  | none =>
    match _ : d.parent? i with
    | some p => d.nextAfterSubtree? p
    | none => none
termination_by i
decreasing_by exact parent_lt ‹_›

/-- The node after `i` in document order. -/
def following? (d : Document) (i : Nat) : Option Nat :=
  match d.firstChild? i with
  | some c => some c
  | none => d.nextAfterSubtree? i

end Document

namespace Cursor

/-- The node under the cursor. -/
def current? : Cursor → Option Nat
  | .on i => some i
  | _ => none

/-- On the given node, or behind the last one. -/
def ofOption : Option Nat → Cursor
  | some i => .on i
  | none => .done

/-- One step further. -/
def advance (d : Document) : Cursor → Cursor
  | .start => ofOption (d.firstChild? Document.root)
  | .on i => ofOption (d.following? i)
  | .done => .done

/-- The nodes that at most `n` further steps visit. -/
def upcoming (d : Document) : Nat → Cursor → List Nat
  | 0, _ => []
  | n + 1, c =>
    match c.advance d with
    | .on i => i :: upcoming d n (.on i)
    | _ => []

/-- The nodes still to be visited. A walk has no more steps than the document has
nodes. -/
def rest (d : Document) (c : Cursor) : List Nat :=
  upcoming d d.size c

end Cursor

namespace Document

/-- Node `i` and everything below it, in document order. -/
def preorder (d : Document) (i : Nat) : List Nat :=
  i :: (d.children i).attach.flatMap fun ⟨c, _⟩ => d.preorder c
termination_by d.size - i
decreasing_by
  rename_i h
  have := lt_of_mem_children h
  have := lt_size_of_mem_children h
  omega

theorem preorder_eq (d : Document) (i : Nat) :
    d.preorder i = i :: (d.children i).flatMap d.preorder := by
  rw [preorder]
  simp [List.flatMap_def]

end Document

end TreeMarkdown
