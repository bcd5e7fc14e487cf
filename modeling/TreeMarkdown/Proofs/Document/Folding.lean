/-
Documents with all names in small letters.

`Document.folded` writes the ASCII letters in the names of all nodes and attributes small and
leaves everything else as it is. Names are compared without regard to the case of these letters,
or after the full mapping to small letters, to which folding before it makes no difference. So
no look at a folded document shows that it has been folded: each observation is the same
function of the number of a node. The lemmas say this one observation after the other, from the
data of a node to lines of ancestors, the texts of subtrees and the white space between
siblings.
-/

import TreeMarkdown.Proofs.Document.Construction
import TreeMarkdown.Proofs.Document.Seams

namespace TreeMarkdown

open Text

/-! ### Nodes -/

namespace Node

/-- The node with the ASCII letters in its name and in the names of its attributes small. -/
def folded (n : Node) : Node :=
  { n with
    name := foldAscii n.name
    attributes := n.attributes.map fun entry => (foldAscii entry.1, entry.2) }

variable (n : Node)

@[simp] theorem isElement_folded : n.folded.isElement = n.isElement := rfl

@[simp] theorem isText_folded : n.folded.isText = n.isText := rfl

@[simp] theorem isDocument_folded : n.folded.isDocument = n.isDocument := rfl

@[simp] theorem tagName_folded : n.folded.tagName = n.tagName :=
  lower_foldAscii n.name

@[simp] theorem isNamed_folded (token : Text) : n.folded.isNamed token = n.isNamed token := by
  simp only [isNamed, folded, eqIgnoringCase_foldAscii]

@[simp] theorem attribute?_folded (name : Text) : n.folded.attribute? name = n.attribute? name := by
  simp only [attribute?, folded, List.find?_map, Option.map_map, Function.comp_def,
    eqIgnoringCase_foldAscii]

/-- Node `n'` is node `n` but for the case of the ASCII letters in its name and in the names of
its attributes. -/
structure IsRespelling (n n' : Node) : Prop where
  kind_eq : n'.kind = n.kind
  name : eqIgnoringCase n'.name n.name = true
  value_eq : n'.value = n.value
  attributes : List.Forall₂ (fun entry entry' => eqIgnoringCase entry'.1 entry.1 = true ∧
    entry'.2 = entry.2) n.attributes n'.attributes

instance (n n' : Node) : Decidable (n.IsRespelling n') :=
  decidable_of_iff
    (n'.kind = n.kind ∧ eqIgnoringCase n'.name n.name = true ∧ n'.value = n.value ∧
      List.Forall₂ (fun entry entry' => eqIgnoringCase entry'.1 entry.1 = true ∧
        entry'.2 = entry.2) n.attributes n'.attributes)
    ⟨fun ⟨hkind, hname, hvalue, hattributes⟩ => ⟨hkind, hname, hvalue, hattributes⟩,
      fun h => ⟨h.kind_eq, h.name, h.value_eq, h.attributes⟩⟩

variable {n} in
theorem IsRespelling.folded_eq {n' : Node} (h : n.IsRespelling n') : n'.folded = n.folded := by
  obtain ⟨hkind, hname, hvalue, hattributes⟩ := h
  have hentries : n'.attributes.map (fun entry => (foldAscii entry.1, entry.2)) =
      n.attributes.map fun entry => (foldAscii entry.1, entry.2) := by
    generalize n.attributes = entries, n'.attributes = entries' at hattributes
    induction hattributes with
    | nil => rfl
    | cons hentry _ ih =>
      rw [List.map_cons, List.map_cons, ih, eqIgnoringCase_iff.mp hentry.1, hentry.2]
  rw [folded, folded, hentries, eqIgnoringCase_iff.mp hname, hkind, hvalue]

end Node

/-! ### Cells -/

/-- The cell with its node folded. -/
def Cell.folded (c : Cell) : Cell :=
  { c with node := c.node.folded }

theorem isTree_folded {cells : Array Cell} (h : IsTree cells) :
    IsTree (cells.map Cell.folded) := by
  have lookup : ∀ {i : Nat} {c : Cell}, (cells.map Cell.folded)[i]? = some c →
      ∃ old, cells[i]? = some old ∧ old.folded = c := by
    intro i c hc
    rw [Array.getElem?_map] at hc
    exact Option.map_eq_some_iff.mp hc
  have found : ∀ {i : Nat} {c : Cell}, cells[i]? = some c →
      (cells.map Cell.folded)[i]? = some c.folded := by
    intro i c hc
    rw [Array.getElem?_map, hc]
    rfl
  constructor
  · rw [Array.size_map]
    exact h.size_pos
  · intro i c hc
    obtain ⟨old, hold, rfl⟩ := lookup hc
    have hlink := h.parent_eq_none_iff hold
    exact hlink
  · intro i c hc
    obtain ⟨old, hold, rfl⟩ := lookup hc
    have hkind := h.isDocument_iff hold
    exact hkind
  · intro i p c hc hp
    obtain ⟨old, hold, rfl⟩ := lookup hc
    obtain ⟨hlt, above, habove, hchild⟩ := h.of_parent hold hp
    exact ⟨hlt, above.folded, found habove, hchild⟩
  · intro p k i above habove hchild
    obtain ⟨old, hold, rfl⟩ := lookup habove
    obtain ⟨c, hc, hparent, hindex⟩ := h.of_child hold hchild
    exact ⟨c.folded, found hc, hparent, hindex⟩

/-! ### Documents -/

namespace Document

/-- The document with all its nodes folded. -/
def folded (d : Document) : Document :=
  ⟨d.cells.map Cell.folded, isTree_folded d.isTree⟩

section Observations

variable (d : Document)

theorem cells_folded (i : Nat) : d.folded.cells[i]? = d.cells[i]?.map Cell.folded :=
  Array.getElem?_map

@[simp] theorem size_folded : d.folded.size = d.size :=
  Array.size_map

@[simp] theorem node?_folded (i : Nat) : d.folded.node? i = (d.node? i).map Node.folded := by
  rw [node?, node?, cells_folded, Option.map_map, Option.map_map]
  rfl

@[simp] theorem parent?_folded : d.folded.parent? = d.parent? := by
  funext i
  rw [parent?, parent?, cells_folded, Option.bind_map]
  rfl

@[simp] theorem index?_folded : d.folded.index? = d.index? := by
  funext i
  rw [index?, index?, cells_folded, Option.bind_map]
  rfl

@[simp] theorem childArray_folded : d.folded.childArray = d.childArray := by
  funext i
  rw [childArray, childArray, cells_folded]
  cases d.cells[i]? <;> rfl

@[simp] theorem children_folded : d.folded.children = d.children := by
  funext i
  rw [children, children, childArray_folded]

/-! ### The data of a node -/

theorem satisfies_folded {p : Node → Bool} (hp : ∀ n : Node, p n.folded = p n) :
    d.folded.satisfies p = d.satisfies p := by
  funext i
  rw [satisfies, satisfies, node?_folded, Option.any_map]
  exact congrArg (fun q => (d.node? i).any q) (funext hp)

@[simp] theorem isElement_folded : d.folded.isElement = d.isElement :=
  d.satisfies_folded Node.isElement_folded

@[simp] theorem isText_folded : d.folded.isText = d.isText :=
  d.satisfies_folded Node.isText_folded

@[simp] theorem isRoot_folded : d.folded.isRoot = d.isRoot :=
  d.satisfies_folded Node.isDocument_folded

@[simp] theorem isNamed_folded : d.folded.isNamed = d.isNamed := by
  funext i token
  exact congrFun (d.satisfies_folded fun n => n.isNamed_folded token) i

@[simp] theorem tagName_folded : d.folded.tagName = d.tagName := by
  funext i
  rw [tagName, tagName, node?_folded]
  cases d.node? i with
  | none => rfl
  | some n => exact n.tagName_folded

@[simp] theorem hasTag_folded : d.folded.hasTag = d.hasTag := by
  funext tag i
  rw [hasTag, hasTag, tagName_folded]

@[simp] theorem value?_folded : d.folded.value? = d.value? := by
  funext i
  rw [value?, value?, node?_folded]
  cases d.node? i <;> rfl

@[simp] theorem ownText_folded : d.folded.ownText = d.ownText := by
  funext i
  rw [← value?_getD, ← value?_getD, value?_folded]

@[simp] theorem attribute?_folded : d.folded.attribute? = d.attribute? := by
  funext i name
  rw [attribute?, attribute?, node?_folded]
  cases d.node? i with
  | none => rfl
  | some n => exact n.attribute?_folded name

/-! ### The surroundings of a node -/

@[simp] theorem elementChildren_folded : d.folded.elementChildren = d.elementChildren := by
  funext i
  rw [elementChildren, elementChildren, children_folded, isElement_folded]

@[simp] theorem ancestors_folded : d.folded.ancestors = d.ancestors := by
  funext i
  induction i using d.parentInduction with
  | step i ih =>
    have hsame : d.folded.parent? i = d.parent? i := congrFun d.parent?_folded i
    cases hparent : d.parent? i with
    | none =>
      rw [ancestors_of_parent_eq_none hparent,
        ancestors_of_parent_eq_none (hsame.trans hparent)]
    | some p =>
      rw [ancestors_of_parent hparent, ancestors_of_parent (hsame.trans hparent), ih p hparent]

@[simp] theorem innerAncestors_folded : d.folded.innerAncestors = d.innerAncestors := by
  funext i
  rw [innerAncestors, innerAncestors, ancestors_folded, isRoot_folded]

@[simp] theorem isMatch_folded (s : Selector) : s.isMatch d.folded = s.isMatch d := by
  funext i
  have hunserved : ∀ sought ancestors,
      Selector.unserved d.folded sought ancestors = Selector.unserved d sought ancestors := by
    intro sought ancestors
    fun_induction Selector.unserved d sought ancestors with
    | case1 => exact Selector.unserved.eq_1 _ _
    | case2 => rfl
    | case3 token sought a ancestors ha ih =>
      rw [Selector.unserved, isNamed_folded, if_pos ha, ih]
    | case4 token sought a ancestors ha ih =>
      rw [Selector.unserved, isNamed_folded, if_neg ha, ih]
  rw [Selector.isMatch, Selector.isMatch, isNamed_folded, innerAncestors_folded, hunserved]

@[simp] theorem subtreeText_folded : d.folded.subtreeText = d.subtreeText := by
  funext i
  induction i using d.childrenInduction with
  | step i ih =>
    rw [subtreeText_eq, subtreeText_eq, ownText_folded, children_folded, List.flatMap_congr ih]

@[simp] theorem closingText_folded : d.folded.closingText = d.closingText := by
  funext i
  induction i using d.childrenInduction with
  | step i ih =>
    rw [closingText_eq, closingText_eq, ownText_folded, children_folded, List.flatMap_congr ih]

@[simp] theorem firstTextChar?_folded : d.folded.firstTextChar? = d.firstTextChar? := by
  funext i
  rw [firstTextChar?_eq, firstTextChar?_eq, subtreeText_folded]

@[simp] theorem lastTextChar?_folded : d.folded.lastTextChar? = d.lastTextChar? := by
  funext i
  rw [lastTextChar?_eq_closing, lastTextChar?_eq_closing, closingText_folded]

@[simp] theorem isInline_folded : d.folded.isInline = d.isInline := by
  funext i
  rw [isInline, isInline, isText_folded, isElement_folded, tagName_folded]

end Observations

/-! ### Growth -/

theorem eq_of_cells_eq {d d' : Document} (h : d.cells = d'.cells) : d = d' := by
  cases d
  cases d'
  cases h
  rfl

theorem append_folded {d d' : Document} {p i : Nat} {n : Node}
    (h : d.append p n = .ok (i, d')) : d.folded.append p n.folded = .ok (i, d'.folded) := by
  cases hfolded : d.folded.append p n.folded with
  | error e =>
    obtain ⟨above, habove, htext, hdocument, -, -⟩ := append_eq_ok h
    have hp := lt_size_of_append h
    rw [← isText_of_cell habove] at htext
    have herror := append_eq_error_iff.mp hfolded
    simp [htext, hdocument, hp, Nat.not_le.mpr hp] at herror
  | ok result =>
    obtain ⟨j, e⟩ := result
    obtain ⟨-, -, -, -, hi, -⟩ := append_eq_ok h
    obtain ⟨-, -, -, -, hj, -⟩ := append_eq_ok hfolded
    obtain ⟨above, habove, hcells⟩ := getElem?_of_append h
    obtain ⟨above', habove', hcells'⟩ := getElem?_of_append hfolded
    rw [cells_folded, habove] at habove'
    cases habove'
    have hsame : e.cells = d'.folded.cells := by
      apply Array.ext_getElem?
      intro k
      rw [hcells', d'.cells_folded, hcells, size_folded]
      split
      · rfl
      · split
        · rfl
        · exact d.cells_folded k
    rw [hj, hi, size_folded, eq_of_cells_eq hsame]

/-- Folding the nodes before they are appended gives the folded document. -/
theorem Reachable.folded {d : Document} (h : d.Reachable) : d.folded.Reachable := by
  refine Reachable.invariant (P := fun d => d.folded.Reachable) ?_ ?_ h
  · have hempty : Document.empty.folded = Document.empty := eq_of_cells_eq (by decide +kernel)
    rw [hempty]
    exact .empty
  · intro d d' p n i ih happend
    have hgrow : d'.folded = d.folded.grow (p, n.folded) := by
      rw [Document.grow, append_folded happend]
    rw [hgrow]
    exact .grow ih _

end Document

end TreeMarkdown
