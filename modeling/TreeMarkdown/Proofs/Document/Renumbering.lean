/-
The same tree under other numbers.

Nodes are numbered in the order in which they are appended, so appending the nodes of a tree in
another order gives the tree under other numbers. `IsRenumbering d d' f` says that `d'` is the
tree of `d` with node `i` under the number `f i`. Then `f` carries everything over that is made
of links: parents, lines of ancestors (`IsRenumbering.ancestors_eq`) and the list of all nodes
in document order (`IsRenumbering.belowRoot_eq`). So walks through the two documents are at
corresponding nodes after each step (`IsRenumbering.walker_after`), and a selector matches a
node exactly if it matches the corresponding one (`IsRenumbering.isMatch_eq`).
-/

import Mathlib.Data.Set.Function
import TreeMarkdown.Proofs.Document.Growth
import TreeMarkdown.Proofs.Document.Walk
import TreeMarkdown.Proofs.Selector.Matching

namespace TreeMarkdown

namespace Document

/-- Document `d'` is document `d` with the number `f i` for node `i`: the root stays, the
children of corresponding nodes correspond in their order, and so do the nodes themselves. -/
structure IsRenumbering (d d' : Document) (f : Nat → Nat) : Prop where
  reachable : d.Reachable
  reachable' : d'.Reachable
  root_eq : f root = root
  children_eq : ∀ i < d.size, d'.children (f i) = (d.children i).map f
  node?_eq : ∀ i < d.size, d'.node? (f i) = d.node? i

namespace IsRenumbering

variable {d d' : Document} {f : Nat → Nat} {i : Nat}

theorem satisfies_eq (h : d.IsRenumbering d' f) (hi : i < d.size) (p : Node → Bool) :
    d'.satisfies p (f i) = d.satisfies p i := by
  rw [satisfies, satisfies, h.node?_eq i hi]

/-! ### Upwards -/

theorem parent?_eq (h : d.IsRenumbering d' f) (hi : i < d.size) :
    d'.parent? (f i) = (d.parent? i).map f := by
  cases hparent : d.parent? i with
  | none =>
    rw [(parent?_eq_none_iff hi).mp hparent, h.root_eq]
    exact d'.parent?_root
  | some p =>
    have hp : p < d.size := Nat.lt_trans (parent_lt hparent) hi
    apply parent_of_mem_children
    rw [h.children_eq p hp]
    exact List.mem_map_of_mem (mem_children_iff.mpr hparent)

theorem ancestors_eq (h : d.IsRenumbering d' f) (hi : i < d.size) :
    d'.ancestors (f i) = (d.ancestors i).map f := by
  induction i using d.parentInduction with
  | step i ih =>
    have hparent' := h.parent?_eq hi
    cases hparent : d.parent? i with
    | none =>
      rw [hparent] at hparent'
      rw [ancestors_of_parent_eq_none hparent, ancestors_of_parent_eq_none hparent']
      rfl
    | some p =>
      rw [hparent] at hparent'
      rw [ancestors_of_parent hparent, ancestors_of_parent hparent',
        ih p hparent (Nat.lt_trans (parent_lt hparent) hi)]
      rfl

theorem innerAncestors_eq (h : d.IsRenumbering d' f) (hi : i < d.size) :
    d'.innerAncestors (f i) = (d.innerAncestors i).map f := by
  have hsome : ∀ l : List Nat, (∀ a ∈ l, a < d.size) →
      (l.map f).takeWhile (!d'.isRoot ·) = (l.takeWhile (!d.isRoot ·)).map f := by
    intro l hl
    induction l with
    | nil => rfl
    | cons a l ih =>
      have hroot : d'.isRoot (f a) = d.isRoot a := h.satisfies_eq (hl a List.mem_cons_self) _
      have ih := ih fun b hb => hl b (List.mem_cons_of_mem a hb)
      rw [List.map_cons, List.takeWhile_cons, List.takeWhile_cons, hroot, ih]
      split <;> rfl
  rw [innerAncestors, innerAncestors, h.ancestors_eq hi]
  exact hsome _ fun a ha => Nat.lt_trans (lt_of_mem_ancestors ha) hi

/-- A selector matches a node exactly if it matches the corresponding one. -/
theorem isMatch_eq (h : d.IsRenumbering d' f) (hi : i < d.size) (s : Selector) :
    s.isMatch d' (f i) = s.isMatch d i := by
  apply Selector.isMatch_map (h.innerAncestors_eq hi) fun token => h.satisfies_eq hi _
  intro a ha token
  have hlt := lt_of_mem_ancestors (List.takeWhile_subset _ ha)
  exact h.satisfies_eq (Nat.lt_trans hlt hi) _

/-! ### Downwards -/

theorem preorder_map (h : d.IsRenumbering d' f) (hi : i < d.size) :
    d'.preorder (f i) = (d.preorder i).map f := by
  induction i using d.childrenInduction with
  | step i ih =>
    rw [preorder_eq, preorder_eq d, h.children_eq i hi, List.map_cons, List.flatMap_map,
      List.map_flatMap]
    congr 1
    exact List.flatMap_congr fun c hc => ih c hc (lt_size_of_mem_children hc)

theorem preorder_root_eq (h : d.IsRenumbering d' f) :
    d'.preorder root = (d.preorder root).map f := by
  have hpreorder := h.preorder_map (i := root) d.isTree.size_pos
  rwa [h.root_eq] at hpreorder

/-- Corresponding nodes stand at the same positions in document order. -/
theorem belowRoot_eq (h : d.IsRenumbering d' f) : d'.belowRoot = d.belowRoot.map f := by
  have hpreorder := h.preorder_root_eq
  rw [preorder_root, preorder_root, List.map_cons, List.cons.injEq] at hpreorder
  exact hpreorder.2

/-- The correspondence is one between all nodes of the two documents. -/
theorem bijOn (h : d.IsRenumbering d' f) : Set.BijOn f {i | i < d.size} {i | i < d'.size} := by
  have hnodup := d'.nodup_preorder root
  rw [h.preorder_root_eq] at hnodup
  refine ⟨?_, ?_, ?_⟩
  · intro i hi
    apply mem_preorder_root_iff.mp
    rw [h.preorder_root_eq]
    exact List.mem_map_of_mem (mem_preorder_root_iff.mpr hi)
  · intro i hi j hj heq
    exact List.inj_on_of_nodup_map hnodup (mem_preorder_root_iff.mpr hi)
      (mem_preorder_root_iff.mpr hj) heq
  · intro j hj
    have hmem := mem_preorder_root_iff.mpr hj
    rw [h.preorder_root_eq] at hmem
    obtain ⟨i, hi, rfl⟩ := List.mem_map.mp hmem
    exact ⟨i, mem_preorder_root_iff.mp hi, rfl⟩

/-! ### Walks -/

/-- After the same number of steps the cursors stand on corresponding nodes. -/
theorem current?_after (h : d.IsRenumbering d' f) (k : Nat) :
    (Cursor.after d' k).current? = (Cursor.after d k).current?.map f := by
  cases k with
  | zero => rfl
  | succ k =>
    rw [Cursor.current?_after_succ, Cursor.current?_after_succ, h.belowRoot_eq, List.getElem?_map]

/-- Walks that go on step by step are at corresponding places throughout, and the next step
leads both to corresponding nodes, or both to the end. -/
theorem walker_after (h : d.IsRenumbering d' f) (k : Nat) :
    (Walker.after d' k).node = (Walker.after d k).node.map f ∧
      (Walker.after d' k).next? d' = ((Walker.after d k).next? d).map f := by
  have hnode : ∀ k, (Walker.after d' k).node = (Walker.after d k).node.map f := by
    intro k
    rw [Walker.node_after, Walker.node_after, h.current?_after]
  exact ⟨hnode k, hnode (k + 1)⟩

end IsRenumbering

end Document

end TreeMarkdown
