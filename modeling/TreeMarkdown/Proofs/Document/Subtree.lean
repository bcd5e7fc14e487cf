/-
Subtrees and lines of ancestors.

The two ways to look at the tree say the same: a node stands in the preorder list of
another exactly if it is that node or has it among its ancestors (`mem_preorder_iff`).
Climbing from any node leads to the root, so the preorder list of the root holds every
node (`mem_preorder_root_iff`), and none twice (`nodup_preorder`), since subtrees of
different siblings have nothing in common (`disjoint_preorder_of_siblings`).
-/

import TreeMarkdown.Proofs.Document.Naming
import TreeMarkdown.Proofs.Document.Order
import Mathlib.Data.List.Nodup

namespace TreeMarkdown.Document

variable {d : Document} {i j k p : Nat}

/-! ### Lines of ancestors -/

theorem ancestors_of_parent (h : d.parent? i = some p) :
    d.ancestors i = p :: d.ancestors p := by
  rw [ancestors]
  split
  · rename_i hnone
    rw [h] at hnone
    cases hnone
  · rename_i q hq
    rw [h] at hq
    cases hq
    rfl

theorem ancestors_of_parent_eq_none (h : d.parent? i = none) : d.ancestors i = [] := by
  rw [ancestors]
  split
  · rfl
  · rename_i q hq
    rw [h] at hq
    cases hq

theorem ancestors_root (d : Document) : d.ancestors root = [] :=
  ancestors_of_parent_eq_none d.parent?_root

/-- A node with ancestors has its parent among them, and the others are those of the
parent. -/
theorem mem_ancestors_iff {a : Nat} :
    a ∈ d.ancestors i ↔ ∃ p, d.parent? i = some p ∧ (a = p ∨ a ∈ d.ancestors p) := by
  cases hp : d.parent? i with
  | none => simp [ancestors_of_parent_eq_none hp]
  | some p => simp [ancestors_of_parent hp]

theorem mem_ancestors_of_mem_children (h : i ∈ d.children p) : p ∈ d.ancestors i :=
  mem_ancestors_iff.mpr ⟨p, parent_of_mem_children h, Or.inl rfl⟩

/-- To prove something of every node it is enough to prove it of a node whose parent has
it. -/
@[elab_as_elim] theorem parentInduction (d : Document) {motive : Nat → Prop}
    (step : ∀ i, (∀ p, d.parent? i = some p → motive p) → motive i) (i : Nat) : motive i := by
  induction i using Nat.strongRecOn with
  | ind i ih => exact step i fun p hp => ih p (parent_lt hp)

theorem lt_of_mem_ancestors {a : Nat} (h : a ∈ d.ancestors i) : a < i := by
  induction i using d.parentInduction with
  | step i ih =>
    obtain ⟨p, hp, rfl | ha⟩ := mem_ancestors_iff.mp h
    · exact parent_lt hp
    · exact Nat.lt_trans (ih p hp ha) (parent_lt hp)

theorem mem_ancestors_trans {a b : Nat} (ha : a ∈ d.ancestors b) (hb : b ∈ d.ancestors i) :
    a ∈ d.ancestors i := by
  induction i using d.parentInduction with
  | step i ih =>
    obtain ⟨p, hp, rfl | hb⟩ := mem_ancestors_iff.mp hb
    · exact mem_ancestors_iff.mpr ⟨b, hp, Or.inr ha⟩
    · exact mem_ancestors_iff.mpr ⟨p, hp, Or.inr (ih p hp hb)⟩

/-- Of two ancestors in a line of ancestors the later one is above the earlier one. -/
theorem pairwise_ancestors (d : Document) (i : Nat) :
    (d.ancestors i).Pairwise fun b a => a ∈ d.ancestors b := by
  induction i using d.parentInduction with
  | step i ih =>
    cases hp : d.parent? i with
    | none =>
      rw [ancestors_of_parent_eq_none hp]
      exact List.Pairwise.nil
    | some p =>
      rw [ancestors_of_parent hp]
      exact List.Pairwise.cons (fun a ha => ha) (ih p hp)

/-- Of two ancestors of a node one is an ancestor of the other. -/
theorem ancestors_comparable {a b : Nat} (ha : a ∈ d.ancestors i) (hb : b ∈ d.ancestors i) :
    a = b ∨ a ∈ d.ancestors b ∨ b ∈ d.ancestors a := by
  induction i using d.parentInduction with
  | step i ih =>
    obtain ⟨p, hp, ha⟩ := mem_ancestors_iff.mp ha
    obtain ⟨q, hq, hb⟩ := mem_ancestors_iff.mp hb
    rw [hp] at hq
    cases hq
    rcases ha with rfl | ha
    · rcases hb with rfl | hb
      · exact Or.inl rfl
      · exact Or.inr (Or.inr hb)
    · rcases hb with rfl | hb
      · exact Or.inr (Or.inl ha)
      · exact ih p hp ha hb

/-! ### Parents and children -/

/-- A node stands in one place among all children: below its parent, at its index. -/
theorem children_getElem?_iff :
    (d.children p)[k]? = some i ↔ d.parent? i = some p ∧ d.index? i = some k := by
  refine ⟨parent?_index?_of_children_getElem?, ?_⟩
  rintro ⟨hp, hk⟩
  obtain ⟨c, hc, hparent⟩ := Option.bind_eq_some_iff.mp hp
  obtain ⟨-, above, habove, hchild⟩ := d.isTree.of_parent hc hparent
  have hindex : c.index = k := by simpa [index?, hc, hparent] using hk
  unfold children childArray
  rw [habove, Option.elim_some, Array.getElem?_toList, ← hindex]
  exact hchild

theorem isSome_index?_iff : (d.index? i).isSome ↔ (d.parent? i).isSome := by
  unfold index? parent?
  cases hc : d.cells[i]? with
  | none => simp
  | some c => simp

theorem mem_children_iff : i ∈ d.children p ↔ d.parent? i = some p := by
  refine ⟨parent_of_mem_children, ?_⟩
  intro hp
  obtain ⟨k, hk⟩ := Option.isSome_iff_exists.mp (isSome_index?_iff.mpr (by rw [hp]; rfl))
  exact List.mem_of_getElem? (children_getElem?_iff.mpr ⟨hp, hk⟩)

theorem lt_size_of_parent (h : d.parent? i = some p) : i < d.size :=
  lt_size_of_mem_children (mem_children_iff.mpr h)

theorem parent?_eq_none_iff (hi : i < d.size) : d.parent? i = none ↔ i = root := by
  obtain ⟨c, hc⟩ := exists_cell hi
  rw [parent?_of_cell hc]
  exact d.isTree.parent_eq_none_iff hc

/-- Every node but the root has a parent. -/
theorem exists_parent (hi : i < d.size) (hroot : i ≠ root) : ∃ p, d.parent? i = some p :=
  Option.ne_none_iff_exists'.mp (mt (parent?_eq_none_iff hi).mp hroot)

/-- The root is above every other node. -/
theorem root_mem_ancestors (hi : i < d.size) (hroot : i ≠ root) : root ∈ d.ancestors i := by
  induction i using d.parentInduction with
  | step i ih =>
    obtain ⟨p, hp⟩ := exists_parent hi hroot
    refine mem_ancestors_iff.mpr ⟨p, hp, ?_⟩
    by_cases h : p = root
    · exact Or.inl h.symm
    · exact Or.inr (ih p hp (Nat.lt_trans (parent_lt hp) hi) h)

/-! ### Ancestors below the root -/

theorem isRoot_iff : d.isRoot i = true ↔ i = root := by
  constructor
  · intro h
    obtain ⟨n, hn, hdocument⟩ := satisfies_eq_true_iff.mp h
    obtain ⟨c, hc, rfl⟩ := Option.map_eq_some_iff.mp hn
    exact (d.isTree.isDocument_iff hc).mp hdocument
  · rintro rfl
    obtain ⟨n, hn, hkind⟩ := d.exists_document_root
    simp [isRoot, satisfies, hn, Node.isDocument, hkind]

theorem innerAncestors_of_parent_root (h : d.parent? i = some root) : d.innerAncestors i = [] := by
  rw [innerAncestors, ancestors_of_parent h, ancestors_root,
    List.takeWhile_cons_of_neg]
  rw [isRoot_iff.mpr rfl]
  decide

theorem innerAncestors_of_parent (h : d.parent? i = some p) (hp : p ≠ root) :
    d.innerAncestors i = p :: d.innerAncestors p := by
  have hroot : (!d.isRoot p) = true := by
    cases hroot : d.isRoot p with
    | false => rfl
    | true => exact absurd (isRoot_iff.mp hroot) hp
  rw [innerAncestors, ancestors_of_parent h]
  exact List.takeWhile_cons_of_pos hroot

theorem innerAncestors_of_grandchild (hp : p ∈ d.children root) (hi : i ∈ d.children p) :
    d.innerAncestors i = [p] := by
  rw [innerAncestors_of_parent (parent_of_mem_children hi) (ne_root_of_mem_children hp),
    innerAncestors_of_parent_root (parent_of_mem_children hp)]

/-- The line of ancestors ends with the root. -/
theorem ancestors_eq_innerAncestors (h : i ∈ d.children p) :
    d.ancestors i = d.innerAncestors i ++ [root] := by
  induction i using d.parentInduction generalizing p with
  | step i ih =>
    have hparent := parent_of_mem_children h
    by_cases hp : p = root
    · subst hp
      rw [innerAncestors_of_parent_root hparent, ancestors_of_parent hparent,
        ancestors_root]
      rfl
    · obtain ⟨q, hq⟩ := exists_parent
        (Nat.lt_trans (lt_of_mem_children h) (lt_size_of_mem_children h)) hp
      rw [innerAncestors_of_parent hparent hp, ancestors_of_parent hparent,
        ih p hparent (mem_children_iff.mpr hq)]
      rfl

/-! ### Members of a subtree -/

theorem self_mem_preorder (d : Document) (i : Nat) : i ∈ d.preorder i := by
  rw [preorder_eq]
  exact List.mem_cons_self

/-- Subtrees are closed under children. -/
theorem mem_preorder_of_child (hp : p ∈ d.preorder i) (hj : j ∈ d.children p) :
    j ∈ d.preorder i := by
  induction i using d.childrenInduction with
  | step i ih =>
    rw [preorder_eq] at hp ⊢
    rcases List.mem_cons.mp hp with rfl | hp
    · exact List.mem_cons_of_mem _ (List.mem_flatMap.mpr ⟨j, hj, self_mem_preorder d j⟩)
    · obtain ⟨c, hc, hp⟩ := List.mem_flatMap.mp hp
      exact List.mem_cons_of_mem _ (List.mem_flatMap.mpr ⟨c, hc, ih c hc hp⟩)

/-- The subtree of a node holds the node and those that have it for an ancestor. -/
theorem mem_preorder_iff : j ∈ d.preorder i ↔ j = i ∨ i ∈ d.ancestors j := by
  constructor
  · intro h
    induction i using d.childrenInduction with
    | step i ih =>
      rw [preorder_eq] at h
      rcases List.mem_cons.mp h with rfl | h
      · exact Or.inl rfl
      · obtain ⟨c, hc, h⟩ := List.mem_flatMap.mp h
        have hparent : i ∈ d.ancestors c := mem_ancestors_of_mem_children hc
        rcases ih c hc h with rfl | hanc
        · exact Or.inr hparent
        · exact Or.inr (mem_ancestors_trans hparent hanc)
  · rintro (rfl | h)
    · exact self_mem_preorder d j
    · induction j using d.parentInduction with
      | step j ih =>
        obtain ⟨p, hp, h⟩ := mem_ancestors_iff.mp h
        have hmem : p ∈ d.preorder i := by
          rcases h with rfl | h
          · exact self_mem_preorder d i
          · exact ih p hp h
        exact mem_preorder_of_child hmem (mem_children_iff.mpr hp)

/-- A node is not in the subtree of one of its children. -/
theorem notMem_preorder_of_mem_children (h : j ∈ d.children i) : i ∉ d.preorder j := by
  intro hmem
  have hlt := lt_of_mem_children h
  rcases mem_preorder_iff.mp hmem with rfl | hanc
  · exact Nat.lt_irrefl _ hlt
  · exact Nat.lt_asymm hlt (lt_of_mem_ancestors hanc)

/-- Below the children of a node, as well as among them, are nodes that it is an ancestor of. -/
theorem mem_ancestors_of_mem_below (h : j ∈ (d.children i).flatMap d.preorder) :
    i ∈ d.ancestors j := by
  obtain ⟨c, hc, hj⟩ := List.mem_flatMap.mp h
  have hparent : i ∈ d.ancestors c := mem_ancestors_of_mem_children hc
  rcases mem_preorder_iff.mp hj with rfl | hanc
  · exact hparent
  · exact mem_ancestors_trans hparent hanc

theorem mem_preorder_root_iff : j ∈ d.preorder root ↔ j < d.size := by
  rw [mem_preorder_iff]
  constructor
  · rintro (rfl | h)
    · exact d.isTree.size_pos
    · obtain ⟨p, hp, -⟩ := mem_ancestors_iff.mp h
      exact lt_size_of_parent hp
  · intro h
    by_cases hroot : j = root
    · exact Or.inl hroot
    · exact Or.inr (root_mem_ancestors h hroot)

/-- Subtrees of different siblings have no node in common. -/
theorem disjoint_preorder_of_siblings {s t : Nat} (hs : s ∈ d.children p) (ht : t ∈ d.children p)
    (hne : s ≠ t) : List.Disjoint (d.preorder s) (d.preorder t) := by
  -- an ancestor of a child of `p` is `p` or above it, so no sibling
  have apart : ∀ {s t : Nat}, s ∈ d.children p → t ∈ d.children p → s ∉ d.ancestors t := by
    intro s t hs ht hanc
    obtain ⟨q, hq, h⟩ := mem_ancestors_iff.mp hanc
    rw [parent_of_mem_children ht] at hq
    cases hq
    have hlt := lt_of_mem_children hs
    rcases h with rfl | h
    · exact Nat.lt_irrefl _ hlt
    · exact Nat.lt_asymm hlt (lt_of_mem_ancestors h)
  intro x hxs hxt
  rcases mem_preorder_iff.mp hxs with rfl | hxs
  · rcases mem_preorder_iff.mp hxt with rfl | hxt
    · exact hne rfl
    · exact apart ht hs hxt
  · rcases mem_preorder_iff.mp hxt with rfl | hxt
    · exact apart hs ht hxs
    · rcases ancestors_comparable hxs hxt with rfl | h | h
      · exact hne rfl
      · exact apart hs ht h
      · exact apart ht hs h

/-- No node stands twice in a subtree. -/
theorem nodup_preorder (d : Document) (i : Nat) : (d.preorder i).Nodup := by
  induction i using d.childrenInduction with
  | step i ih =>
    rw [preorder_eq, List.nodup_cons, List.nodup_flatMap]
    refine ⟨?_, ih, ?_⟩
    · intro h
      exact Nat.lt_irrefl _ (lt_of_mem_ancestors (mem_ancestors_of_mem_below h))
    · refine (d.nodup_children i).imp_of_mem ?_
      intro s t hs ht hne
      exact disjoint_preorder_of_siblings hs ht hne

/-! ### Subtrees as pieces of document order -/

/-- The subtree of a node stands in one piece in every subtree that holds the node. -/
theorem isInfix_preorder (h : j ∈ d.preorder i) : d.preorder j <:+: d.preorder i := by
  induction i using d.childrenInduction with
  | step i ih =>
    rw [preorder_eq] at h
    rcases List.mem_cons.mp h with rfl | h
    · exact List.infix_refl _
    · obtain ⟨c, hc, h⟩ := List.mem_flatMap.mp h
      obtain ⟨before, after, hsplit⟩ := List.append_of_mem hc
      refine (ih c hc h).trans ⟨i :: before.flatMap d.preorder, after.flatMap d.preorder, ?_⟩
      rw [preorder_eq d i, hsplit]
      simp

end TreeMarkdown.Document
