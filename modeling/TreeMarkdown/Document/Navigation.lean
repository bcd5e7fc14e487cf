/-
Looking around in a document: a node's own data and its neighbours.

Every function is total: asked about a number that no node has, it answers like a
nameless node without data or neighbours. Climbing ends because a parent has a
smaller number than its children (`parent_lt`), and descending because a child has a
larger one (`lt_of_mem_children`).
-/

import TreeMarkdown.Document.Basic

namespace TreeMarkdown.Document

/-! ### The node itself -/

/-- The node of that number. -/
def node? (d : Document) (i : Nat) : Option Node :=
  d.cells[i]?.map (·.node)

/-- A property that the node of that number has. -/
def satisfies (d : Document) (p : Node → Bool) (i : Nat) : Bool :=
  (d.node? i).any p

/-- Node `i` is an element. -/
def isElement (d : Document) (i : Nat) : Bool :=
  d.satisfies Node.isElement i

/-- Node `i` is a text node. -/
def isText (d : Document) (i : Nat) : Bool :=
  d.satisfies Node.isText i

/-- Node `i` is the document node, which only the root is. -/
def isRoot (d : Document) (i : Nat) : Bool :=
  d.satisfies Node.isDocument i

/-- A selector token names node `i`. -/
def isNamed (d : Document) (i : Nat) (token : Text) : Bool :=
  d.satisfies (·.isNamed token) i

/-- The name of node `i` in small letters. -/
def tagName (d : Document) (i : Nat) : Text :=
  (d.node? i).elim [] Node.tagName

/-- The name that stands for node `i` in reports of what matched. -/
def ruleName (d : Document) (i : Nat) : Text :=
  (d.node? i).elim [] Node.ruleName

/-- Node `i` has this name in small letters. -/
def hasTag (d : Document) (tag : String) (i : Nat) : Bool :=
  d.tagName i == tag.toList

/-- The value that node `i` itself carries. -/
def value? (d : Document) (i : Nat) : Option Text :=
  (d.node? i).bind (·.value)

/-- The value that node `i` itself carries, or nothing. -/
def ownText (d : Document) (i : Nat) : Text :=
  (d.node? i).elim [] Node.ownText

/-- The value of an attribute of node `i`. -/
def attribute? (d : Document) (i : Nat) (name : Text) : Option Text :=
  (d.node? i).bind (·.attribute? name)

/-- Node `i` has an attribute of that name. -/
def hasAttribute (d : Document) (i : Nat) (name : Text) : Bool :=
  (d.attribute? i name).isSome

/-! ### Neighbours -/

/-- The parent of node `i`; the root has none. -/
def parent? (d : Document) (i : Nat) : Option Nat :=
  d.cells[i]?.bind (·.parent)

/-- The children of node `i` in order, as an array. -/
def childArray (d : Document) (i : Nat) : Array Nat :=
  d.cells[i]?.elim #[] (·.children)

/-- The children of node `i` in order. -/
def children (d : Document) (i : Nat) : List Nat :=
  (d.childArray i).toList

/-- The children of node `i` that are elements. -/
def elementChildren (d : Document) (i : Nat) : List Nat :=
  (d.children i).filter d.isElement

/-- The first child of node `i`. -/
def firstChild? (d : Document) (i : Nat) : Option Nat :=
  (d.childArray i)[0]?

/-- The position of node `i` among the children of its parent. -/
def index? (d : Document) (i : Nat) : Option Nat :=
  d.cells[i]?.bind fun c => c.parent.map fun _ => c.index

/-- The sibling right before node `i`. -/
def previousSibling? (d : Document) (i : Nat) : Option Nat := do
  let p ← d.parent? i
  let k ← d.index? i
  if k = 0 then none else (d.childArray p)[k - 1]?

/-- The sibling right after node `i`. -/
def nextSibling? (d : Document) (i : Nat) : Option Nat := do
  let p ← d.parent? i
  let k ← d.index? i
  (d.childArray p)[k + 1]?

/-! ### Reading a cell -/

theorem exists_cell {d : Document} {i : Nat} (h : i < d.size) : ∃ c, d.cells[i]? = some c :=
  ⟨_, Array.getElem?_eq_getElem h⟩

section Cell

variable {d : Document} {i : Nat} {c : Cell}

theorem node?_of_cell (h : d.cells[i]? = some c) : d.node? i = some c.node := by
  simp [node?, h]

theorem ownText_of_cell (h : d.cells[i]? = some c) : d.ownText i = c.node.ownText := by
  simp [ownText, node?_of_cell h]

theorem children_of_cell (h : d.cells[i]? = some c) : d.children i = c.children.toList := by
  simp [children, childArray, h]

theorem parent?_of_cell (h : d.cells[i]? = some c) : d.parent? i = c.parent := by
  simp [parent?, h]

theorem index?_of_cell (h : d.cells[i]? = some c) :
    d.index? i = c.parent.map fun _ => c.index := by
  simp [index?, h]

end Cell

/-! ### Links up and down -/

theorem parent_lt {d : Document} {i p : Nat} (h : d.parent? i = some p) : p < i := by
  obtain ⟨c, hc, hp⟩ := Option.bind_eq_some_iff.mp h
  exact (d.isTree.of_parent hc hp).1

theorem parent_of_mem_children {d : Document} {i p : Nat} (h : i ∈ d.children p) :
    d.parent? i = some p := by
  unfold children childArray at h
  cases hp : d.cells[p]? with
  | none => simp [hp] at h
  | some above =>
    rw [hp] at h
    obtain ⟨k, hk⟩ := Array.mem_iff_getElem?.mp (Array.mem_def.mpr h)
    obtain ⟨c, hc, hparent, _⟩ := d.isTree.of_child hp hk
    simp [parent?, hc, hparent]

theorem lt_of_mem_children {d : Document} {i p : Nat} (h : i ∈ d.children p) : p < i :=
  parent_lt (parent_of_mem_children h)

theorem lt_size_of_mem_children {d : Document} {i p : Nat} (h : i ∈ d.children p) :
    i < d.size := by
  obtain ⟨c, hc, _⟩ := Option.bind_eq_some_iff.mp (parent_of_mem_children h)
  exact (Array.getElem?_eq_some_iff.mp hc).1

/-- The ancestors of node `i`: parent, grandparent and so on up to the root. -/
def ancestors (d : Document) (i : Nat) : List Nat :=
  match _ : d.parent? i with
  | none => []
  | some p => p :: d.ancestors p
termination_by i
decreasing_by exact parent_lt ‹_›

/-- The ancestors of node `i` without the root. -/
def innerAncestors (d : Document) (i : Nat) : List Nat :=
  (d.ancestors i).takeWhile (!d.isRoot ·)

end TreeMarkdown.Document
