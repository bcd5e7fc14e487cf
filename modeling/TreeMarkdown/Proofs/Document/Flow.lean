/-
The text that stands in a subtree.

`flowText` has the values of the text nodes in document order and nothing else;
`subtreeText`, which also has the values of other nodes, keeps it (`isKept_subtreeText`).
The reading from a work list gives the texts of the subtrees one after the other
(`textOf_eq`).
-/

import TreeMarkdown.Document.Content
import TreeMarkdown.Proofs.Document.Order
import TreeMarkdown.Proofs.Text.Visible

namespace TreeMarkdown.Document

variable (d : Document)

/-- The values of the text nodes in the subtree of node `i`, in document order. -/
def flowText (i : Nat) : Text :=
  ((d.preorder i).filter d.isText).flatMap d.ownText

/-- The value of node `i` if it is a text node. -/
def ownFlow (i : Nat) : Text :=
  if d.isText i then d.ownText i else []

variable {d}

theorem ownFlow_of_isText {i : Nat} (h : d.isText i = true) : d.ownFlow i = d.ownText i :=
  if_pos h

theorem ownFlow_of_not_isText {i : Nat} (h : d.isText i = false) : d.ownFlow i = [] := by
  rw [ownFlow, h]
  rfl

theorem flatMap_filter_isText (nodes : List Nat) :
    (nodes.filter d.isText).flatMap d.ownText = nodes.flatMap d.ownFlow := by
  induction nodes with
  | nil => rfl
  | cons i nodes ih =>
    rw [List.filter_cons, List.flatMap_cons, ← ih]
    by_cases h : d.isText i = true
    · rw [if_pos h, List.flatMap_cons, ownFlow_of_isText h]
    · rw [if_neg h, ownFlow_of_not_isText (by simpa using h)]
      rfl

theorem flowText_eq (d : Document) (i : Nat) :
    d.flowText i = d.ownFlow i ++ (d.children i).flatMap d.flowText := by
  unfold flowText
  simp only [flatMap_filter_isText]
  rw [preorder_eq, List.flatMap_cons, List.flatMap_assoc]

theorem isKept_ownFlow (d : Document) (i : Nat) : Text.IsKept (d.ownFlow i) (d.ownText i) := by
  unfold ownFlow
  split
  · exact .refl _
  · exact .of_visible_eq_nil rfl _

/-- The text of a subtree keeps the values of its text nodes. -/
theorem isKept_subtreeText (d : Document) (i : Nat) :
    Text.IsKept (d.flowText i) (d.subtreeText i) := by
  induction i using d.childrenInduction with
  | step i ih =>
    rw [flowText_eq, subtreeText_eq]
    exact (isKept_ownFlow d i).append (.flatMap ih)

theorem textOf_eq (d : Document) (work : List Nat) :
    d.textOf work = work.flatMap d.subtreeText := by
  fun_induction d.textOf work with
  | case1 => rfl
  | case2 i work ih =>
    rw [ih, List.flatMap_append, List.flatMap_cons, subtreeText_eq d i, List.append_assoc]

theorem textContent_eq (d : Document) (i : Nat) : d.textContent i = d.subtreeText i := by
  rw [textContent, textOf_eq, List.flatMap_singleton]

end TreeMarkdown.Document
