/-
What stays when nodes are added.

`d.AddsBelow d' p new` says that `d'` is `d` with the nodes `new` behind the children of node
`p`, and with anything below these. A single append does so with one node
(`addsBelow_of_append`). The old nodes keep all that is made of links upwards: parent, index and
line of ancestors (`AddsBelow.ancestors_eq`), and with it the selectors that match them
(`AddsBelow.isMatch_eq`). Looking sideways, only the node that was the last child of `p` sees a
new one (`AddsBelow.nextSibling?_eq`). Looking down, whatever is computed from the nodes of a
subtree is the same unless `p` is in it (`AddsBelow.bottomUp_eq`); where it is, the text of what
is new stands in one piece between two pieces of the old text (`AddsBelow.exists_subtreeText_eq`).
-/

import TreeMarkdown.Proofs.Document.Flow
import TreeMarkdown.Proofs.Document.Neighbours
import TreeMarkdown.Proofs.RuleTable.Choice
import TreeMarkdown.Proofs.Selector.Matching

namespace TreeMarkdown.Document

/-- Document `d'` is `d` with the nodes `new` behind the children of node `p`, and with anything
below these. -/
structure AddsBelow (d d' : Document) (p : Nat) (new : List Nat) : Prop where
  size_le : d.size ≤ d'.size
  node?_eq : ∀ i < d.size, d'.node? i = d.node? i
  children_eq : ∀ i < d.size, d'.children i =
    if i = p then d.children p ++ new else d.children i
  /-- What is new has new numbers. -/
  size_le_of_mem : ∀ c ∈ new, d.size ≤ c

theorem addsBelow_of_append {d d' : Document} {p i : Nat} {n : Node}
    (h : d.append p n = .ok (i, d')) : d.AddsBelow d' p [d.size] where
  size_le := by
    rw [size_of_append h]
    exact Nat.le_succ _
  node?_eq := by
    intro j hj
    rw [node?_of_append h, if_neg (Nat.ne_of_lt hj)]
  children_eq := fun j _ => children_of_append h j
  size_le_of_mem := by simp

namespace AddsBelow

variable {d d' : Document} {p i : Nat} {new : List Nat}

theorem children_parent (h : d.AddsBelow d' p new) (hp : p < d.size) :
    d'.children p = d.children p ++ new := by
  rw [h.children_eq p hp, if_pos rfl]

theorem children_of_ne (h : d.AddsBelow d' p new) (hi : i < d.size) (hne : i ≠ p) :
    d'.children i = d.children i := by
  rw [h.children_eq i hi, if_neg hne]

/-- Further children stand behind the old ones. -/
theorem exists_children_eq (h : d.AddsBelow d' p new) (hi : i < d.size) :
    ∃ behind, d'.children i = d.children i ++ behind := by
  by_cases hp : i = p
  · subst hp
    exact ⟨new, h.children_parent hi⟩
  · exact ⟨[], by rw [h.children_of_ne hi hp, List.append_nil]⟩

/-! ### Upwards -/

theorem parent?_index?_eq (h : d.AddsBelow d' p new) (hi : i < d.size) :
    d'.parent? i = d.parent? i ∧ d'.index? i = d.index? i := by
  by_cases hroot : i = root
  · subst hroot
    exact ⟨d'.parent?_root.trans d.parent?_root.symm,
      d'.siblings_root.1.trans d.siblings_root.1.symm⟩
  · obtain ⟨q, hq⟩ := exists_parent hi hroot
    obtain ⟨k, hk⟩ := Option.isSome_iff_exists.mp (isSome_index?_iff.mpr (by rw [hq]; rfl))
    have hold := children_getElem?_iff.mpr ⟨hq, hk⟩
    obtain ⟨behind, hchildren⟩ := h.exists_children_eq (Nat.lt_trans (parent_lt hq) hi)
    have hnew : (d'.children q)[k]? = some i := by
      rw [hchildren, List.getElem?_append_left (List.getElem?_eq_some_iff.mp hold).1, hold]
    obtain ⟨hq', hk'⟩ := parent?_index?_of_children_getElem? hnew
    exact ⟨hq'.trans hq.symm, hk'.trans hk.symm⟩

theorem parent?_eq (h : d.AddsBelow d' p new) (hi : i < d.size) :
    d'.parent? i = d.parent? i :=
  (h.parent?_index?_eq hi).1

theorem ancestors_eq (h : d.AddsBelow d' p new) (hi : i < d.size) :
    d'.ancestors i = d.ancestors i := by
  induction i using d.parentInduction with
  | step i ih =>
    have hparent' := h.parent?_eq hi
    cases hparent : d.parent? i with
    | none =>
      rw [hparent] at hparent'
      rw [ancestors_of_parent_eq_none hparent, ancestors_of_parent_eq_none hparent']
    | some q =>
      rw [hparent] at hparent'
      rw [ancestors_of_parent hparent, ancestors_of_parent hparent',
        ih q hparent (Nat.lt_trans (parent_lt hparent) hi)]

theorem innerAncestors_eq (h : d.AddsBelow d' p new) (hi : i < d.size) :
    d'.innerAncestors i = d.innerAncestors i := by
  have hroot : ∀ a, d'.isRoot a = d.isRoot a := fun a =>
    Bool.eq_iff_iff.mpr (isRoot_iff.trans isRoot_iff.symm)
  simp only [innerAncestors, h.ancestors_eq hi, hroot]

theorem satisfies_eq (h : d.AddsBelow d' p new) (hi : i < d.size) (q : Node → Bool) :
    d'.satisfies q i = d.satisfies q i := by
  rw [satisfies, satisfies, h.node?_eq i hi]

theorem isMatch_eq (h : d.AddsBelow d' p new) (hi : i < d.size) (s : Selector) :
    s.isMatch d' i = s.isMatch d i := by
  apply Selector.isMatch_map (f := id)
  · rw [List.map_id]
    exact h.innerAncestors_eq hi
  · exact fun token => h.satisfies_eq hi _
  · intro a ha token
    have hlt := lt_of_mem_ancestors (List.takeWhile_subset _ ha)
    exact h.satisfies_eq (Nat.lt_trans hlt hi) _

/-- Every table has the same rule for an old node. -/
theorem best?_eq {α : Type} (h : d.AddsBelow d' p new) (t : RuleTable α) (hi : i < d.size) :
    t.best? d' i = t.best? d i :=
  RuleTable.best?_congr fun rule _ => h.isMatch_eq hi rule.selector

/-! ### Sideways -/

theorem previousSibling?_eq (h : d.AddsBelow d' p new) (hi : i < d.size) :
    d'.previousSibling? i = d.previousSibling? i := by
  by_cases hroot : i = root
  · subst hroot
    exact d'.siblings_root.2.1.trans d.siblings_root.2.1.symm
  · obtain ⟨q, hq⟩ := exists_parent hi hroot
    obtain ⟨before, after, hsplit⟩ := List.append_of_mem (mem_children_iff.mpr hq)
    obtain ⟨behind, hchildren⟩ := h.exists_children_eq (Nat.lt_trans (parent_lt hq) hi)
    rw [hsplit, List.append_assoc, List.cons_append] at hchildren
    rw [previousSibling?_of_split hsplit, previousSibling?_of_split hchildren]

/-- Only behind the last child of `p` there is a new sibling. -/
theorem nextSibling?_eq (h : d.AddsBelow d' p new) (hi : i < d.size) :
    d'.nextSibling? i =
      if (d.children p).getLast? = some i then new.head? else d.nextSibling? i := by
  by_cases hroot : i = root
  · have hlast : (d.children p).getLast? ≠ some i := fun hlast =>
      ne_root_of_mem_children (List.mem_of_getLast? hlast) hroot
    rw [if_neg hlast, hroot, d'.siblings_root.2.2, d.siblings_root.2.2]
  · obtain ⟨q, hq⟩ := exists_parent hi hroot
    have hqlt := Nat.lt_trans (parent_lt hq) hi
    obtain ⟨before, after, hsplit⟩ := List.append_of_mem (mem_children_iff.mpr hq)
    by_cases hqp : q = p
    · subst hqp
      have hsplit' : d'.children q = before ++ i :: (after ++ new) := by
        rw [h.children_parent hqlt, hsplit, List.append_assoc, List.cons_append]
      rw [nextSibling?_of_split hsplit', nextSibling?_of_split hsplit, hsplit]
      rcases List.eq_nil_or_concat after with rfl | ⟨init, s, rfl⟩
      · rw [List.getLast?_concat, if_pos rfl, List.nil_append]
      · -- the last child comes behind `i`, so it is another one
        have hnodup := d.nodup_children q
        rw [hsplit, List.concat_eq_append] at hnodup
        have hne : s ≠ i := by
          rintro rfl
          simp [List.nodup_append] at hnodup
        rw [List.concat_eq_append, ← List.cons_append, ← List.append_assoc, List.getLast?_concat,
          if_neg (by simpa using hne)]
        cases init <;> rfl
    · have hlast : (d.children p).getLast? ≠ some i := by
        intro hlast
        have hp := parent_of_mem_children (List.mem_of_getLast? hlast)
        rw [hq] at hp
        exact hqp (Option.some.inj hp)
      have hsplit' := (h.children_of_ne hqlt hqp).trans hsplit
      rw [if_neg hlast, nextSibling?_of_split hsplit, nextSibling?_of_split hsplit']

/-! ### Downwards -/

/-- What is computed from the bottom up, each node from its data and what its children give, is
the same for a subtree that `p` is not in. -/
theorem bottomUp_eq {β : Type} {F : Document → Nat → β} {g : Option Node → Nat → List β → β}
    (hF : ∀ d i, F d i = g (d.node? i) i ((d.children i).map (F d)))
    (h : d.AddsBelow d' p new) (hi : i < d.size) (hp : p ∉ d.preorder i) : F d' i = F d i := by
  induction i using d.childrenInduction with
  | step i ih =>
    rw [preorder_eq, List.mem_cons, not_or] at hp
    have hsame : (d.children i).map (F d') = (d.children i).map (F d) := by
      apply List.map_congr_left
      intro c hc
      exact ih c hc (lt_size_of_mem_children hc) fun hmem =>
        hp.2 (List.mem_flatMap.mpr ⟨c, hc, hmem⟩)
    rw [hF d', hF d, h.node?_eq i hi, h.children_of_ne hi (Ne.symm hp.1), hsame]

theorem preorder_eq (h : d.AddsBelow d' p new) (hi : i < d.size) (hp : p ∉ d.preorder i) :
    d'.preorder i = d.preorder i := by
  refine h.bottomUp_eq (F := preorder) (g := fun _ i below => i :: below.flatten) ?_ hi hp
  intro d i
  rw [Document.preorder_eq, List.flatMap_def]

theorem subtreeText_eq (h : d.AddsBelow d' p new) (hi : i < d.size) (hp : p ∉ d.preorder i) :
    d'.subtreeText i = d.subtreeText i := by
  refine h.bottomUp_eq (F := subtreeText)
    (g := fun n _ below => n.elim [] Node.ownText ++ below.flatten) ?_ hi hp
  intro d i
  rw [Document.subtreeText_eq, List.flatMap_def, ownText]

/-- The children that `p` had keep their subtrees. -/
theorem flatMap_subtreeText_children (h : d.AddsBelow d' p new) :
    (d.children p).flatMap d'.subtreeText = (d.children p).flatMap d.subtreeText := by
  apply List.flatMap_congr
  intro c hc
  exact h.subtreeText_eq (lt_size_of_mem_children hc) (notMem_preorder_of_mem_children hc)

/-- The texts of the new nodes come behind the text that `p` had. -/
theorem subtreeText_parent (h : d.AddsBelow d' p new) (hp : p < d.size) :
    d'.subtreeText p = d.subtreeText p ++ new.flatMap d'.subtreeText := by
  rw [Document.subtreeText_eq, Document.subtreeText_eq d, ownText, ownText, h.node?_eq p hp,
    h.children_parent hp, List.flatMap_append, h.flatMap_subtreeText_children, List.append_assoc]

/-- In a subtree that `p` is in, the texts of the new nodes stand together at one place. -/
theorem exists_subtreeText_eq (h : d.AddsBelow d' p new) (hi : i < d.size)
    (hp : p ∈ d.preorder i) : ∃ before after, d.subtreeText i = before ++ after ∧
      d'.subtreeText i = before ++ new.flatMap d'.subtreeText ++ after := by
  induction i using d.childrenInduction with
  | step i ih =>
    by_cases hip : i = p
    · subst hip
      exact ⟨d.subtreeText i, [], (List.append_nil _).symm,
        by rw [List.append_nil, h.subtreeText_parent hi]⟩
    · rw [Document.preorder_eq, List.mem_cons] at hp
      obtain ⟨c, hc, hpc⟩ := List.mem_flatMap.mp (hp.resolve_left (Ne.symm hip))
      obtain ⟨before, after, hold, hnew⟩ := ih c hc (lt_size_of_mem_children hc) hpc
      obtain ⟨left, right, hsplit⟩ := List.append_of_mem hc
      -- `p` is below `c`, so the subtrees of the siblings of `c` stay as they are
      have hsame : ∀ s ∈ d.children i, s ≠ c → d'.subtreeText s = d.subtreeText s := by
        intro s hs hne
        exact h.subtreeText_eq (lt_size_of_mem_children hs) fun hps =>
          disjoint_preorder_of_siblings hs hc hne hps hpc
      have hnodup := d.nodup_children i
      rw [hsplit, List.nodup_middle, List.nodup_cons, List.mem_append, not_or] at hnodup
      have hleft : left.flatMap d'.subtreeText = left.flatMap d.subtreeText :=
        List.flatMap_congr fun s hs => hsame s (by simp [hsplit, hs]) fun heq =>
          hnodup.1.1 (heq ▸ hs)
      have hright : right.flatMap d'.subtreeText = right.flatMap d.subtreeText :=
        List.flatMap_congr fun s hs => hsame s (by simp [hsplit, hs]) fun heq =>
          hnodup.1.2 (heq ▸ hs)
      refine ⟨d.ownText i ++ left.flatMap d.subtreeText ++ before,
        after ++ right.flatMap d.subtreeText, ?_, ?_⟩
      · rw [Document.subtreeText_eq, hsplit, List.flatMap_append, List.flatMap_cons, hold]
        simp only [List.append_assoc]
      · rw [Document.subtreeText_eq, ownText, h.node?_eq i hi, ← ownText,
          h.children_of_ne hi hip, hsplit, List.flatMap_append, List.flatMap_cons, hnew, hleft,
          hright]
        simp only [List.append_assoc]

end AddsBelow

/-- A new node has nothing below it. -/
theorem subtreeText_of_append {d d' : Document} {p i : Nat} {n : Node}
    (h : d.append p n = .ok (i, d')) : d'.subtreeText d.size = n.ownText := by
  have hp := lt_size_of_append h
  rw [subtreeText_eq, ownText, node?_of_append h, if_pos rfl, children_of_append h,
    if_neg (Nat.ne_of_gt hp), children_size, List.flatMap_nil, List.append_nil, Option.elim_some]

/-- A successful append changes nothing for the nodes that were there but what it has to. Each
keeps its data, its parent, its ancestors, its index and the sibling before it. The new node is
the last child of node `p`, and the next sibling of what was the last child before. The text of
`p` goes on with that of the new node, which stands at one place in the texts of the ancestors of
`p`, and no other text changes. Every table of rules has the same rule for an old node. -/
theorem append_only_adds {d d' : Document} {p new : Nat} {n : Node}
    (h : d.append p n = .ok (new, d')) :
    (∀ i < d.size, d'.node? i = d.node? i ∧ d'.parent? i = d.parent? i ∧
      d'.ancestors i = d.ancestors i ∧ d'.index? i = d.index? i ∧
      d'.previousSibling? i = d.previousSibling? i) ∧
      (∀ i < d.size, d'.children i =
        if i = p then d.children p ++ [new] else d.children i) ∧
      (∀ i < d.size, d'.nextSibling? i =
        if (d.children p).getLast? = some i then some new else d.nextSibling? i) ∧
      (∀ i < d.size, i ≠ p → i ∉ d.ancestors p → d'.textContent i = d.textContent i) ∧
      d'.textContent p = d.textContent p ++ n.ownText ∧
      (∀ i ∈ d.ancestors p, ∃ before after, d.textContent i = before ++ after ∧
        d'.textContent i = before ++ n.ownText ++ after) ∧
      ∀ (α : Type) (t : RuleTable α), ∀ i < d.size, t.best? d' i = t.best? d i := by
  have hadds := addsBelow_of_append h
  have hp := lt_size_of_append h
  have htext : [d.size].flatMap d'.subtreeText = n.ownText := by
    rw [List.flatMap_singleton, subtreeText_of_append h]
  obtain ⟨-, -, -, -, rfl, -⟩ := append_eq_ok h
  simp only [textContent_eq]
  refine ⟨?links, hadds.children_eq, fun i hi => hadds.nextSibling?_eq hi, ?others, ?parent, ?above,
    fun α t i hi => hadds.best?_eq t hi⟩
  case links =>
    intro i hi
    obtain ⟨hparent, hindex⟩ := hadds.parent?_index?_eq hi
    exact ⟨hadds.node?_eq i hi, hparent, hadds.ancestors_eq hi, hindex,
      hadds.previousSibling?_eq hi⟩
  case others =>
    intro i hi hne hanc
    refine hadds.subtreeText_eq hi fun hmem => ?_
    exact (mem_preorder_iff.mp hmem).elim (fun heq => hne heq.symm) hanc
  case parent => rw [hadds.subtreeText_parent hp, htext]
  case above =>
    intro i hi
    rw [← htext]
    exact hadds.exists_subtreeText_eq (Nat.lt_trans (lt_of_mem_ancestors hi) hp)
      (mem_preorder_iff.mpr (Or.inr hi))

/-- A paragraph that ends with emphasis, and an empty one. -/
def emphasisAtEnd : Document :=
  grown [(0, .element "p".toList []), (1, .text "a ".toList), (1, .element "em".toList []),
    (3, .text "b".toList), (0, .element "p".toList [])]

theorem append_only_adds_emphasisAtEnd :
    ∃ d', emphasisAtEnd.append 3 (.text "c".toList) = .ok (6, d') ∧
      d'.children 3 = [4, 6] ∧ d'.nextSibling? 4 = some 6 ∧ d'.nextSibling? 3 = none ∧
      d'.textContent 3 = "bc".toList ∧ d'.textContent 5 = [] ∧
      ∃ before after, "a b".toList = before ++ after ∧
        d'.textContent 1 = before ++ "c".toList ++ after := by
  obtain ⟨d', h⟩ : ∃ d', emphasisAtEnd.append 3 (.text "c".toList) = .ok (6, d') :=
    exists_append (d := emphasisAtEnd) (by decide +kernel) (by decide +kernel) rfl
  obtain ⟨-, hchildren, hnext, hothers, hparent, habove, -⟩ := append_only_adds h
  obtain ⟨before, after, hold, hnew⟩ := habove 1 (by decide +kernel)
  have htext : emphasisAtEnd.textContent 1 = "a b".toList := by decide +kernel
  refine ⟨d', h, (hchildren 3 (by decide +kernel)).trans (by decide +kernel),
    (hnext 4 (by decide +kernel)).trans (by decide +kernel),
    (hnext 3 (by decide +kernel)).trans (by decide +kernel),
    hparent.trans (by decide +kernel),
    (hothers 5 (by decide +kernel) (by decide) (by decide +kernel)).trans (by decide +kernel),
    before, after, htext.symm.trans hold, hnew⟩

end TreeMarkdown.Document
