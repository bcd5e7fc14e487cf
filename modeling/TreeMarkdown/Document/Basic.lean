/-
Documents: trees of nodes that grow by appending.

The nodes of a document stand in cells, numbered in the order of their creation;
a node is referred to by its number, cell 0 is the root. A cell keeps the link up
(parent and position) and the links down (children), so that every step from a node
to a neighbour is a look-up. `IsTree` says that the two kinds of link agree; it is
part of the type, because every walk through a document rests on it: links up lead
to smaller numbers and links down to larger ones, so no walk goes on for ever.
`append` is the one way to grow a document, and `AppendError` has its refusals.
-/

import TreeMarkdown.Document.Node

namespace TreeMarkdown

/-- A node in its place. -/
structure Cell where
  node : Node
  parent : Option Nat
  /-- The position among the children of the parent. -/
  index : Nat
  children : Array Nat
deriving DecidableEq

/-- The cells are linked as one tree below cell 0, which alone holds a document node. -/
structure IsTree (cells : Array Cell) : Prop where
  size_pos : 0 < cells.size
  parent_eq_none_iff : ∀ {i : Nat} {c : Cell}, cells[i]? = some c → (c.parent = none ↔ i = 0)
  isDocument_iff : ∀ {i : Nat} {c : Cell}, cells[i]? = some c → (c.node.isDocument ↔ i = 0)
  /-- A node stands among the children of its parent, at its index. -/
  of_parent : ∀ {i p : Nat} {c : Cell}, cells[i]? = some c → c.parent = some p →
    p < i ∧ ∃ above, cells[p]? = some above ∧ above.children[c.index]? = some i
  /-- A child knows its parent and its index. -/
  of_child : ∀ {p k i : Nat} {above : Cell}, cells[p]? = some above →
    above.children[k]? = some i →
    ∃ c, cells[i]? = some c ∧ c.parent = some p ∧ c.index = k

/-- A document: cells that form a tree. -/
structure Document where
  cells : Array Cell
  isTree : IsTree cells

/-- Why a node was not appended. -/
inductive AppendError where
  /-- There is no node of that number to append to. -/
  | unknownNode (id : Nat)
  /-- The parent is a text node. -/
  | textParent (id : Nat)
  /-- The new node is a document node. -/
  | documentChild
deriving DecidableEq

/-- The wording of a refusal. -/
def AppendError.message : AppendError → String
  | .unknownNode id => s!"Unknown node: {id}"
  | .textParent id => s!"Invalid input: text node {id} cannot have children"
  | .documentChild => "Invalid input: a document node can only be the root"

namespace Document

/-- The number of the root. -/
def root : Nat := 0

/-- The document that holds only the root. -/
def empty : Document where
  cells := #[⟨Node.document, none, 0, #[]⟩]
  isTree := by
    have single : ∀ {i : Nat} {c : Cell},
        #[(⟨Node.document, none, 0, #[]⟩ : Cell)][i]? = some c →
        i = 0 ∧ c = ⟨Node.document, none, 0, #[]⟩ := by
      intro i c h
      rcases i with _ | i
      · exact ⟨rfl, by simpa using h.symm⟩
      · simp at h
    constructor
    · simp
    · intro i c h
      obtain ⟨rfl, rfl⟩ := single h
      simp
    · intro i c h
      obtain ⟨rfl, rfl⟩ := single h
      simp [Node.document, Node.isDocument]
    · intro i p c h hp
      obtain ⟨rfl, rfl⟩ := single h
      simp at hp
    · intro p k i above h hk
      obtain ⟨rfl, rfl⟩ := single h
      simp at hk

instance : Inhabited Document := ⟨empty⟩

/-- The number of nodes, the root included. -/
def size (d : Document) : Nat :=
  d.cells.size

/-- The document holds nothing but the root. -/
def isEmpty (d : Document) : Bool :=
  d.size == 1

/-- The document has a node of that number. -/
def contains (d : Document) (i : Nat) : Bool :=
  i < d.size

/-! ### Appending -/

/-- The cells after `n` has become the last child of `p`, a cell with `k` children. -/
def grownCells (cells : Array Cell) (p k : Nat) (n : Node) : Array Cell :=
  (cells.modify p fun c => { c with children := c.children.push cells.size }).push
    ⟨n, some p, k, #[]⟩

theorem getElem?_grownCells {cells : Array Cell} {p k : Nat} {n : Node} {above : Cell}
    (hp : cells[p]? = some above) (i : Nat) :
    (grownCells cells p k n)[i]? =
      if i = cells.size then some ⟨n, some p, k, #[]⟩
      else if i = p then some { above with children := above.children.push cells.size }
      else cells[i]? := by
  simp only [grownCells, Array.getElem?_push, Array.size_modify, Array.getElem?_modify]
  split
  · rfl
  · by_cases h : p = i
    · subst h
      simp [hp]
    · simp [h, Ne.symm h]

section Growth

variable {cells : Array Cell} {p k i : Nat} {n : Node} {above c old : Cell}

theorem getElem?_grownCells_size (hp : cells[p]? = some above) :
    (grownCells cells p k n)[cells.size]? = some ⟨n, some p, k, #[]⟩ := by
  rw [getElem?_grownCells hp, if_pos rfl]

/-- A cell keeps its node, its place and its children, and may get a new child behind them. -/
theorem exists_grown (hp : cells[p]? = some above) (hold : cells[i]? = some old) :
    ∃ c, (grownCells cells p k n)[i]? = some c ∧ c.node = old.node ∧ c.parent = old.parent ∧
      c.index = old.index ∧
        ∀ {l j : Nat}, old.children[l]? = some j → c.children[l]? = some j := by
  have hlt := (Array.getElem?_eq_some_iff.mp hold).1
  rw [getElem?_grownCells hp, if_neg (Nat.ne_of_lt hlt)]
  split
  · rename_i hi
    rw [hi, hp] at hold
    cases hold
    refine ⟨_, rfl, rfl, rfl, rfl, fun {l j} hchild => ?_⟩
    have hl := (Array.getElem?_eq_some_iff.mp hchild).1
    rw [Array.getElem?_push, if_neg (Nat.ne_of_lt hl)]
    exact hchild
  · exact ⟨old, hold, rfl, rfl, rfl, id⟩

/-- A cell after growing is the new one or one from before, and the only new child is the new cell
below its parent. -/
theorem grownCells_cases (hp : cells[p]? = some above)
    (hc : (grownCells cells p k n)[i]? = some c) :
    i = cells.size ∧ c = ⟨n, some p, k, #[]⟩ ∨
      ∃ old, cells[i]? = some old ∧ c.node = old.node ∧ c.parent = old.parent ∧
        c.index = old.index ∧ ∀ {l j : Nat}, c.children[l]? = some j →
          old.children[l]? = some j ∨ i = p ∧ l = above.children.size ∧ j = cells.size := by
  rw [getElem?_grownCells hp] at hc
  split at hc
  · cases hc
    exact Or.inl ⟨‹_›, rfl⟩
  · split at hc
    · rename_i hi
      cases hc
      refine Or.inr ⟨above, hi ▸ hp, rfl, rfl, rfl, fun {l j} hchild => ?_⟩
      rw [Array.getElem?_push] at hchild
      split at hchild
      · cases hchild
        exact Or.inr ⟨hi, ‹_›, rfl⟩
      · exact Or.inl hchild
    · exact Or.inr ⟨c, hc, rfl, rfl, rfl, Or.inl⟩

variable (h : IsTree cells) (hp : cells[p]? = some above)
include h hp

theorem parent_eq_none_iff_of_grown (hc : (grownCells cells p k n)[i]? = some c) :
    c.parent = none ↔ i = 0 := by
  rcases grownCells_cases hp hc with ⟨rfl, rfl⟩ | ⟨old, hold, -, hparent, -⟩
  · simp [Nat.ne_of_gt h.size_pos]
  · rw [hparent]
    exact h.parent_eq_none_iff hold

theorem isDocument_iff_of_grown (hn : n.isDocument = false)
    (hc : (grownCells cells p k n)[i]? = some c) : c.node.isDocument ↔ i = 0 := by
  rcases grownCells_cases hp hc with ⟨rfl, rfl⟩ | ⟨old, hold, hnode, -⟩
  · simp [hn, Nat.ne_of_gt h.size_pos]
  · rw [hnode]
    exact h.isDocument_iff hold

theorem exists_parent_of_grown {q : Nat}
    (hc : (grownCells cells p above.children.size n)[i]? = some c) (hq : c.parent = some q) :
    q < i ∧ ∃ b, (grownCells cells p above.children.size n)[q]? = some b ∧
      b.children[c.index]? = some i := by
  rcases grownCells_cases hp hc with ⟨rfl, rfl⟩ | ⟨old, hold, -, hparent, hindex, -⟩
  · -- the new cell stands behind the children that its parent had
    cases hq
    have hlt := (Array.getElem?_eq_some_iff.mp hp).1
    refine ⟨hlt, { above with children := above.children.push cells.size }, ?_, by simp⟩
    rw [getElem?_grownCells hp, if_neg (Nat.ne_of_lt hlt), if_pos rfl]
  · obtain ⟨hlt, b, hb, hchild⟩ := h.of_parent hold (hparent ▸ hq)
    obtain ⟨b', hb', -, -, -, hkept⟩ := exists_grown hp hb
    exact ⟨hlt, b', hb', hindex ▸ hkept hchild⟩

theorem exists_child_of_grown {q l : Nat}
    (hc : (grownCells cells p above.children.size n)[q]? = some c)
    (hchild : c.children[l]? = some i) :
    ∃ b, (grownCells cells p above.children.size n)[i]? = some b ∧ b.parent = some q ∧
      b.index = l := by
  rcases grownCells_cases hp hc with ⟨-, rfl⟩ | ⟨old, hold, -, -, -, hkept⟩
  · simp at hchild
  · rcases hkept hchild with hchild | ⟨rfl, rfl, rfl⟩
    · obtain ⟨b, hb, hparent, hindex⟩ := h.of_child hold hchild
      obtain ⟨b', hb', -, hparent', hindex', -⟩ := exists_grown hp hb
      exact ⟨b', hb', hparent'.trans hparent, hindex'.trans hindex⟩
    · exact ⟨_, getElem?_grownCells_size hp, rfl, rfl⟩

theorem isTree_grownCells (hn : n.isDocument = false) :
    IsTree (grownCells cells p above.children.size n) where
  size_pos := by simp [grownCells]
  parent_eq_none_iff := parent_eq_none_iff_of_grown h hp
  isDocument_iff := isDocument_iff_of_grown h hp hn
  of_parent := exists_parent_of_grown h hp
  of_child := exists_child_of_grown h hp

end Growth

/-- Appends a node as the last child of `p`. The new node gets the next free number. -/
def append (d : Document) (p : Nat) (n : Node) : Except AppendError (Nat × Document) :=
  match hp : d.cells[p]? with
  | none => .error (.unknownNode p)
  | some above =>
    if above.node.isText then .error (.textParent p)
    else if hn : n.isDocument then .error .documentChild
    else
      .ok (d.size,
        ⟨grownCells d.cells p above.children.size n,
          isTree_grownCells d.isTree hp (by simpa using hn)⟩)

/-- Appends a new element with the given tag and without attributes. -/
def appendElement (d : Document) (p : Nat) (tag : Text) : Except AppendError (Nat × Document) :=
  d.append p (Node.element tag [])

/-- Appends a new text node. -/
def appendText (d : Document) (p : Nat) (content : Text) : Except AppendError (Nat × Document) :=
  d.append p (Node.text content)

end Document

end TreeMarkdown
