/-
Which nodes are written as nothing.

A node that is given Markdown is never written as nothing, whatever its rule is: if the converter
abstains or writes an empty text, what was given stands (`ne_nil_of_convert`). So a node whose
child is written as something is written as something itself (`Writes.ne_nil_of_mem_children`),
and with it all ancestors (`Writes.ne_nil_of_mem_ancestors`). Seen from above, a node is written as
nothing only if everything below it is; all of them are then given nothing and write nothing of
their own (`Writes.eq_nil_iff`, `Writes.eq_nil_iff_convert`).
-/

import TreeMarkdown.Proofs.Conversion.Recursion
import TreeMarkdown.Proofs.Document.Subtree

namespace TreeMarkdown

theorem Rule.ne_nil_of_convert {rule : Rule Converter} {d : Document} {i : Nat}
    {content text : Text} (h : rule.convert d i content = .ok (some text)) : text ≠ [] := by
  unfold Rule.convert at h
  cases haction : rule.action d i content with
  | error e =>
    rw [haction] at h
    cases h
  | ok out =>
    rw [haction] at h
    have hfilter : out.filter (!·.isEmpty) = some text := Except.ok.inj h
    have hshown := (Option.filter_eq_some_iff.mp hfilter).2
    simpa using hshown

namespace Renderer

variable {r : Renderer} {d : Document} {i c : Nat} {content text : Text} {R : Nat → Text}

/-- A node that is given something is written as something. -/
theorem ne_nil_of_convert (h : r.convert d i content = .ok text) (hcontent : content ≠ []) :
    text ≠ [] := by
  unfold convert at h
  cases hbest : r.best? d i with
  | none =>
    rw [hbest] at h
    exact Except.ok.inj h ▸ hcontent
  | some rule =>
    rw [hbest] at h
    cases hrule : rule.convert d i content with
    | error e =>
      simp only [hrule] at h
      cases h
    | ok out =>
      simp only [hrule] at h
      have htext : out.getD content = text := Except.ok.inj h
      cases out with
      | none => exact htext ▸ hcontent
      | some written => exact htext ▸ rule.ne_nil_of_convert hrule

/-! ### Up and down the tree -/

theorem Writes.ne_nil_of_mem_children (hR : r.Writes d R) (hc : c ∈ d.children i)
    (h : R c ≠ []) : R i ≠ [] := by
  refine ne_nil_of_convert (hR i) fun hnil => h ?_
  exact List.flatMap_eq_nil_iff.mp hnil c hc

theorem Writes.ne_nil_of_mem_ancestors (hR : r.Writes d R) (h : R i ≠ []) :
    ∀ a ∈ d.ancestors i, R a ≠ [] := by
  induction i using d.parentInduction with
  | step i ih =>
    intro a ha
    obtain ⟨p, hp, ha⟩ := Document.mem_ancestors_iff.mp ha
    have hparent := hR.ne_nil_of_mem_children (Document.mem_children_iff.mpr hp) h
    rcases ha with rfl | ha
    · exact hparent
    · exact ih p hp hparent a ha

/-- A node is written as nothing exactly if everything in its subtree is. -/
theorem Writes.eq_nil_iff (hR : r.Writes d R) : R i = [] ↔ ∀ j ∈ d.preorder i, R j = [] := by
  constructor
  · intro hnil j hj
    by_contra hshown
    rcases Document.mem_preorder_iff.mp hj with rfl | hanc
    · exact hshown hnil
    · exact hR.ne_nil_of_mem_ancestors hshown i hanc hnil
  · exact fun h => h i (d.self_mem_preorder i)

/-- That is the case exactly if none of them writes anything of its own. -/
theorem Writes.eq_nil_iff_convert (hR : r.Writes d R) :
    R i = [] ↔ ∀ j ∈ d.preorder i, r.convert d j [] = .ok [] := by
  constructor
  · intro hnil j hj
    have hbelow : (d.children j).flatMap R = [] := by
      rw [List.flatMap_eq_nil_iff]
      exact fun c hc => hR.eq_nil_iff.mp hnil c (Document.mem_preorder_of_child hj hc)
    have hj' := hR j
    rwa [hbelow, hR.eq_nil_iff.mp hnil j hj] at hj'
  · intro h
    induction i using d.childrenInduction with
    | step i ih =>
      have hbelow : (d.children i).flatMap R = [] := by
        rw [List.flatMap_eq_nil_iff]
        intro c hc
        refine ih c hc fun j hj => h j ?_
        rw [Document.preorder_eq]
        exact List.mem_cons_of_mem _ (List.mem_flatMap.mpr ⟨c, hc, hj⟩)
      exact hR.eq_of_convert hbelow (h i (d.self_mem_preorder i))

/-- No rule can silence a subtree. Let `R i` be what node `i` is written as, its subtree
included. If that is not empty, neither is what any ancestor of the node is written as, whatever
the converters do with what they are given; and a node is written as nothing exactly if all nodes
in its subtree are, which is to say that each of them writes nothing when it is given nothing. -/
theorem silent_iff_silent_below (r : Renderer) (d : Document) (h : r.NeverFails d) :
    ∃ R : Nat → Text,
      (∀ i depth, i < d.size → d.size ≤ i + depth →
        r.writeNode d depth (.on i) = .ok (R i, .on (d.lastInSubtree i))) ∧
      (∀ i, R i ≠ [] → ∀ a ∈ d.ancestors i, R a ≠ []) ∧
      (∀ i, R i = [] ↔ ∀ j ∈ d.preorder i, R j = []) ∧
      ∀ i, R i = [] ↔ ∀ j ∈ d.preorder i, r.convert d j [] = .ok [] := by
  obtain ⟨R, hR⟩ := h.exists_render
  have hwrites : r.Writes d R := fun i => (hR i).2
  refine ⟨R, ?_, fun i => hwrites.ne_nil_of_mem_ancestors, fun i => hwrites.eq_nil_iff,
    fun i => hwrites.eq_nil_iff_convert⟩
  intro i depth hi hdepth
  have hnode := writeNode_eq r d hi hdepth
  rwa [WritesSubtree, (hR i).1] at hnode

/-- Text as it is. Paragraphs and emphasis ignore what they are given, and write nothing. -/
def muting : Renderer :=
  ofList
    [("TEXT_NODE".toList, .ofNode fun d i => d.value? i),
     ("P".toList, .ofContent fun _ => none),
     ("P EM".toList, .ofContent fun _ => some [])]

/-- A paragraph with a text in emphasis, and one with emphasis only. -/
def mutedParagraphs : Document :=
  Document.grown
    [(0, .element "p".toList []), (1, .element "em".toList []), (2, .text "a".toList),
     (0, .element "p".toList []), (4, .element "em".toList [])]

theorem silent_iff_silent_below_muting :
    muting.NeverFails mutedParagraphs ∧
      ∃ R : Nat → Text, muting.writeNode mutedParagraphs 6 (.on 3) = .ok (R 3, .on 3) ∧
        R 3 = "a".toList ∧ R 1 ≠ [] ∧ R 4 = [] := by
  have htotal : muting.NeverFails mutedParagraphs := by
    refine neverFails_ofList _ ?_
    simp only [List.forall_mem_cons]
    exact ⟨⟨_, rfl⟩, ⟨_, rfl⟩, ⟨_, rfl⟩, by simp⟩
  obtain ⟨R, hwritten, hshown, -, hsilent⟩ :=
    silent_iff_silent_below muting mutedParagraphs htotal
  have hthree := hwritten 3 6 (by decide +kernel) (by decide +kernel)
  have hlast : mutedParagraphs.lastInSubtree 3 = 3 := by decide +kernel
  have htext : muting.writeNode mutedParagraphs 6 (.on 3) = .ok ("a".toList, .on 3) := by
    decide +kernel
  rw [hlast] at hthree
  have hvalue : R 3 = "a".toList := by
    rw [htext] at hthree
    exact (congrArg Prod.fst (Except.ok.inj hthree)).symm
  refine ⟨htotal, R, hthree, hvalue, ?_, (hsilent 4).mpr (by decide +kernel)⟩
  exact hshown 3 (by rw [hvalue]; decide) 1 (by decide +kernel)

end Renderer

end TreeMarkdown
