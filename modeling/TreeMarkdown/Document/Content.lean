/-
The text of a subtree: the values that its nodes carry, in document order.

The three readings use a work list of the nodes still to be read, so that they need
no recursion over the tree: `textOf` reads everything, `firstCharOf` and `lastCharOf`
stop at the first value that is not empty. Beside them stands `subtreeText`, the same
text by recursion over the tree. A work list shrinks in `totalWeight`, the number of nodes
in the subtrees of its members.
-/

import TreeMarkdown.Document.Cursor

namespace TreeMarkdown.Document

/-- The number of nodes in the subtrees of a work list. -/
def totalWeight (d : Document) (work : List Nat) : Nat :=
  (work.flatMap d.preorder).length

theorem totalWeight_expand (d : Document) (i : Nat) (work : List Nat) :
    d.totalWeight (d.children i ++ work) < d.totalWeight (i :: work) := by
  rw [totalWeight, totalWeight, List.flatMap_append, List.flatMap_cons, preorder_eq d i,
    List.cons_append]
  exact Nat.lt_succ_self _

theorem totalWeight_expand_reverse (d : Document) (i : Nat) (work : List Nat) :
    d.totalWeight ((d.children i).reverse ++ work) < d.totalWeight (i :: work) := by
  have hreverse : d.totalWeight ((d.children i).reverse ++ work) =
      d.totalWeight (d.children i ++ work) := by
    simp only [totalWeight, List.length_flatMap, List.map_append, List.map_reverse,
      List.sum_append, List.sum_reverse]
  rw [hreverse]
  exact totalWeight_expand d i work

/-! ### Reading from a work list -/

/-- The text of the subtrees of a work list, one after the other. -/
def textOf (d : Document) : List Nat → Text
  | [] => []
  | i :: work => d.ownText i ++ d.textOf (d.children i ++ work)
termination_by work => d.totalWeight work
decreasing_by exact totalWeight_expand d i work

/-- The first character found when the nodes are read in document order. -/
def firstCharOf (d : Document) : List Nat → Option Char
  | [] => none
  | i :: work =>
    match (d.ownText i).head? with
    | some c => some c
    | none => d.firstCharOf (d.children i ++ work)
termination_by work => d.totalWeight work
decreasing_by exact totalWeight_expand d i work

/-- The last character of the first value found when each node is read before its
children and later children before earlier ones. -/
def lastCharOf (d : Document) : List Nat → Option Char
  | [] => none
  | i :: work =>
    match (d.ownText i).getLast? with
    | some c => some c
    | none => d.lastCharOf ((d.children i).reverse ++ work)
termination_by work => d.totalWeight work
decreasing_by exact totalWeight_expand_reverse d i work

/-- All text in the subtree of node `i`. -/
def textContent (d : Document) (i : Nat) : Text :=
  d.textOf [i]

/-- The first character of the text in the subtree of node `i`. -/
def firstTextChar? (d : Document) (i : Nat) : Option Char :=
  d.firstCharOf [i]

/-- The character at the end of the text in the subtree of node `i`, where a value
that a node itself carries counts as standing behind its children. -/
def lastTextChar? (d : Document) (i : Nat) : Option Char :=
  d.lastCharOf [i]

/-! ### Recursion over the tree -/

/-- The text of node `i` itself, then that of its children's subtrees in order. -/
def subtreeText (d : Document) (i : Nat) : Text :=
  d.ownText i ++ (d.children i).attach.flatMap fun ⟨c, _⟩ => d.subtreeText c
termination_by d.size - i
decreasing_by
  rename_i h
  have := lt_of_mem_children h
  have := lt_size_of_mem_children h
  omega

theorem subtreeText_eq (d : Document) (i : Nat) :
    d.subtreeText i = d.ownText i ++ (d.children i).flatMap d.subtreeText := by
  rw [subtreeText]
  simp [List.flatMap_def]

end TreeMarkdown.Document
