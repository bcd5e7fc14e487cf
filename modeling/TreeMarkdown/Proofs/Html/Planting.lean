/-
The document of a fragment, as a tree.

`treeAt` reads a node and what is below it back as a tree, and `kept` is the tree that a fragment
is to become: its texts and elements in their order, without the other nodes and what is below
them. Copying a fragment into a document threads one growing document through a recursion, in
which every append might be refused. `IsPlanted d p trees d'` is what carries that recursion: to
the children of node `p`, `d'` adds nodes that read back as `trees`, and the new numbers are in
document order, without a gap. Nothing planted later changes what has been planted before, so
forests can be planted one behind the other (`IsPlanted.append`) and a node before what is below
it (`IsPlanted.node`). By recursion over the fragment, no append is refused and what is planted
is what is to be kept (`exists_appendForest`).
-/

import TreeMarkdown.Html.Fragment
import TreeMarkdown.Proofs.Document.Additions
import TreeMarkdown.Proofs.Document.Walk

namespace TreeMarkdown

/-- A node with the trees below it. -/
inductive NodeTree where
  | node (data : Node) (below : List NodeTree)

namespace Document

/-- Node `i` with everything below it. -/
def treeAt (d : Document) (i : Nat) : NodeTree :=
  .node ((d.node? i).getD .document) ((d.children i).attach.map fun ⟨c, _⟩ => d.treeAt c)
termination_by d.size - i
decreasing_by
  rename_i h
  have := lt_of_mem_children h
  have := lt_size_of_mem_children h
  omega

theorem treeAt_eq (d : Document) (i : Nat) :
    d.treeAt i = .node ((d.node? i).getD .document) ((d.children i).map d.treeAt) := by
  rw [treeAt]
  simp

theorem AddsBelow.treeAt_eq {d d' : Document} {p i : Nat} {new : List Nat}
    (h : d.AddsBelow d' p new) (hi : i < d.size) (hp : p ∉ d.preorder i) :
    d'.treeAt i = d.treeAt i :=
  h.bottomUp_eq (F := treeAt) (g := fun n _ below => .node (n.getD .document) below)
    Document.treeAt_eq hi hp

/-! ### Planting -/

/-- Document `d'` is `d` with these trees below node `p`, behind what is there. Their nodes have
the next free numbers in document order. -/
def IsPlanted (d : Document) (p : Nat) (trees : List NodeTree) (d' : Document) : Prop :=
  ∃ new, d.AddsBelow d' p new ∧ new.map d'.treeAt = trees ∧
    new.flatMap d'.preorder = List.range' d.size (d'.size - d.size)

namespace IsPlanted

variable {d d₁ d₂ d' : Document} {p i : Nat} {n : Node} {first second trees : List NodeTree}

theorem size_le (h : d.IsPlanted p trees d') : d.size ≤ d'.size := by
  obtain ⟨new, hadds, -, -⟩ := h
  exact hadds.size_le

theorem node?_eq (h : d.IsPlanted p trees d') (hi : i < d.size) : d'.node? i = d.node? i := by
  obtain ⟨new, hadds, -, -⟩ := h
  exact hadds.node?_eq i hi

theorem nil (d : Document) (p : Nat) : d.IsPlanted p [] d := by
  refine ⟨[], ⟨Nat.le_refl _, fun i _ => rfl, ?_, by simp⟩, rfl, by simp⟩
  intro i _
  split
  · rename_i hi
    rw [hi, List.append_nil]
  · rfl

/-- Trees are planted behind each other. -/
theorem append (hp : p < d.size) (hfirst : d.IsPlanted p first d₁)
    (hsecond : d₁.IsPlanted p second d₂) : d.IsPlanted p (first ++ second) d₂ := by
  obtain ⟨new₁, hadds₁, htrees₁, horder₁⟩ := hfirst
  obtain ⟨new₂, hadds₂, htrees₂, horder₂⟩ := hsecond
  have hsize₁ := hadds₁.size_le
  have hsize₂ := hadds₂.size_le
  have hp₁ : p < d₁.size := Nat.lt_of_lt_of_le hp hsize₁
  have hnew₁ : ∀ c ∈ new₁, c < d₁.size ∧ p ∉ d₁.preorder c := by
    intro c hc
    have hchild : c ∈ d₁.children p := by
      rw [hadds₁.children_parent hp]
      exact List.mem_append_right _ hc
    exact ⟨lt_size_of_mem_children hchild, notMem_preorder_of_mem_children hchild⟩
  refine ⟨new₁ ++ new₂, ⟨Nat.le_trans hsize₁ hsize₂, ?_, ?_, ?_⟩, ?_, ?_⟩
  · intro i hi
    rw [hadds₂.node?_eq i (Nat.lt_of_lt_of_le hi hsize₁), hadds₁.node?_eq i hi]
  · intro i hi
    rw [hadds₂.children_eq i (Nat.lt_of_lt_of_le hi hsize₁), hadds₁.children_parent hp,
      List.append_assoc]
    split
    · rfl
    · rename_i hne
      exact hadds₁.children_of_ne hi hne
  · intro c hc
    rcases List.mem_append.mp hc with hc | hc
    · exact hadds₁.size_le_of_mem c hc
    · exact Nat.le_trans hsize₁ (hadds₂.size_le_of_mem c hc)
  · rw [List.map_append, htrees₂, ← htrees₁]
    congr 1
    exact List.map_congr_left fun c hc => hadds₂.treeAt_eq (hnew₁ c hc).1 (hnew₁ c hc).2
  · have hsame : new₁.flatMap d₂.preorder = new₁.flatMap d₁.preorder :=
      List.flatMap_congr fun c hc => hadds₂.preorder_eq (hnew₁ c hc).1 (hnew₁ c hc).2
    have hrange := List.range'_append_1 (s := d.size) (m := d₁.size - d.size)
      (n := d₂.size - d₁.size)
    rw [Nat.add_sub_cancel' hsize₁, ← Nat.sub_add_comm hsize₁] at hrange
    rw [List.flatMap_append, hsame, horder₁, horder₂, hrange]
    congr 1
    omega

/-- A node is planted with the trees that are planted below it afterwards. -/
theorem node (hnode : d.append p n = .ok (i, d₁)) (hbelow : d₁.IsPlanted i trees d') :
    d.IsPlanted p [.node n trees] d' := by
  have hadds₁ := addsBelow_of_append hnode
  have hsize₁ := size_of_append hnode
  have hp := lt_size_of_append hnode
  obtain ⟨-, -, -, -, rfl, -⟩ := append_eq_ok hnode
  obtain ⟨new, hadds, htrees, horder⟩ := hbelow
  have hsize := hadds.size_le
  have hi : d.size < d₁.size := hsize₁ ▸ Nat.lt_succ_self _
  have hchildren : d'.children d.size = new := by
    rw [hadds.children_parent hi, children_of_append hnode, if_neg (Nat.ne_of_gt hp),
      children_size, List.nil_append]
  refine ⟨[d.size], ⟨by omega, ?_, ?_, by simp⟩, ?_, ?_⟩
  · intro j hj
    rw [hadds.node?_eq j (Nat.lt_trans hj hi), hadds₁.node?_eq j hj]
  · intro j hj
    rw [hadds.children_of_ne (Nat.lt_trans hj hi) (Nat.ne_of_lt hj), hadds₁.children_eq j hj]
  · have hdata : d'.node? d.size = some n := by
      rw [hadds.node?_eq _ hi, node?_of_append hnode, if_pos rfl]
    rw [List.map_singleton, treeAt_eq, hdata, hchildren, htrees, Option.getD_some]
  · rw [List.flatMap_singleton, preorder_eq, hchildren, horder, hsize₁, ← List.range'_succ]
    congr 1
    omega

end IsPlanted

end Document

open Document

namespace Html

/-! ### What is kept of a fragment -/

mutual

/-- What a document has of a node of a fragment: a text, or an element with its name in capitals,
its attributes and what is kept of its children. -/
def Markup.kept : Markup → List NodeTree
  | .text content => [.node ⟨.text, "#text".toList, some content, []⟩ []]
  | .element tag attributes children =>
    [.node ⟨.element, Text.upper tag, none, attributes⟩ (keptForest children)]
  | .other _ => []

/-- What a document has of a forest. -/
def keptForest : List Markup → List NodeTree
  | [] => []
  | m :: forest => m.kept ++ keptForest forest

end

/-! ### Copying -/

mutual

/-- A node and what is below it can be appended to any node that is not a text node. -/
theorem Markup.exists_appendTo (m : Markup) {d : Document} {p : Nat} (hp : p < d.size)
    (htext : d.isText p = false) :
    ∃ d', m.appendTo d p = .ok d' ∧ d.IsPlanted p m.kept d' := by
  cases m with
  | text content =>
    obtain ⟨d₁, hd₁⟩ := exists_append hp htext (n := .text content) rfl
    refine ⟨d₁, ?_, .node hd₁ (.nil d₁ _)⟩
    simp only [Markup.appendTo, hd₁]
    rfl
  | element tag attributes children =>
    obtain ⟨d₁, hd₁⟩ := exists_append hp htext (n := .element tag attributes) rfl
    have hi : d.size < d₁.size := size_of_append hd₁ ▸ Nat.lt_succ_self _
    have htext₁ : d₁.isText d.size = false := by
      rw [isText, satisfies, node?_of_append hd₁, if_pos rfl]
      rfl
    obtain ⟨d', hd', hplanted⟩ := exists_appendForest children hi htext₁
    refine ⟨d', ?_, .node hd₁ hplanted⟩
    simp only [Markup.appendTo, hd₁]
    exact hd'
  | other children => exact ⟨d, rfl, .nil d p⟩

theorem exists_appendForest (forest : List Markup) {d : Document} {p : Nat} (hp : p < d.size)
    (htext : d.isText p = false) :
    ∃ d', appendForest d p forest = .ok d' ∧ d.IsPlanted p (keptForest forest) d' := by
  cases forest with
  | nil => exact ⟨d, rfl, .nil d p⟩
  | cons m forest =>
    obtain ⟨d₁, hd₁, hfirst⟩ := m.exists_appendTo hp htext
    have hp₁ := Nat.lt_of_lt_of_le hp hfirst.size_le
    have htext₁ : d₁.isText p = false := by
      rw [isText, satisfies, hfirst.node?_eq hp]
      exact htext
    obtain ⟨d', hd', hsecond⟩ := exists_appendForest forest hp₁ htext₁
    refine ⟨d', ?_, hfirst.append hp hsecond⟩
    simp only [appendForest, hd₁]
    exact hd'

end

/-- Every fragment becomes a document; no append is refused. Below the root of the document stands
what is kept of the fragment: its texts and elements in their order, the elements with their names
in capitals, their attributes and what is kept of their children; nodes of other kinds are gone
with everything below them. The numbers from 1 on are document order, so a cursor comes to each of
them in turn, up to the last one, and is then done. -/
theorem toDocument_keeps_fragment (forest : List Markup) :
    ∃ d, toDocument forest = .ok d ∧
      d.node? root = some Node.document ∧
      (d.children root).map d.treeAt = keptForest forest ∧
      d.belowRoot = List.range' 1 (d.size - 1) ∧
      Cursor.start.rest d = List.range' 1 (d.size - 1) ∧
      (∀ k, (Cursor.after d (k + 1)).current? = if k + 1 < d.size then some (k + 1) else none) ∧
      ∀ k, (Walker.after d k).next? d = if k + 1 < d.size then some (k + 1) else none := by
  obtain ⟨d, hd, hplanted⟩ := exists_appendForest (d := .empty) (p := root) forest
    (by decide) (by decide)
  have hroot := hplanted.node?_eq (i := root) (by decide)
  obtain ⟨new, hadds, htrees, horder⟩ := hplanted
  have hchildren : d.children root = new := by
    rw [hadds.children_parent (by decide), children_empty, List.nil_append]
  have hbelow : d.belowRoot = List.range' 1 (d.size - 1) := by
    rw [belowRoot, hchildren]
    exact horder
  have hposition : ∀ k, d.belowRoot[k]? = if k + 1 < d.size then some (k + 1) else none := by
    intro k
    rw [hbelow]
    split
    · rename_i hk
      rw [List.getElem?_range' (by omega)]
      congr 1
      omega
    · rw [List.getElem?_eq_none_iff, List.length_range']
      omega
  refine ⟨d, hd, hroot, hchildren ▸ htrees, hbelow, ?_, ?_, ?_⟩
  · exact (Cursor.rest_after d 0).trans hbelow
  · intro k
    rw [Cursor.current?_after_succ, hposition]
  · intro k
    rw [Walker.next?_after, hposition]

end Html

end TreeMarkdown
