/-
Matching as a choice of ancestors.

What a selector asks for leaves the choice open: its context names some line of ancestors, one
for each token, each above the next (`Document.IsLine`). A line of ancestors is a sublist of the
ancestors (`sublist_innerAncestors_iff`), and the pass over the ancestors succeeds wherever some
sublist of them has the names. So a selector matches exactly where there is a line
(`match_is_choice_of_ancestors`).
-/

import Mathlib.Data.List.Chain
import TreeMarkdown.Proofs.Document.Subtree
import TreeMarkdown.Proofs.Selector.Matching

namespace TreeMarkdown

namespace Document

variable {d : Document} {i : Nat} {served : List Nat}

/-- The nodes `line` are ancestors of node `i` below the root, outermost first, each of them
above the next, and each has the name that its token asks for. -/
structure IsLine (d : Document) (i : Nat) (tokens : List Text) (line : List Nat) : Prop where
  named : List.Forall₂ (fun token a => d.isNamed a token = true) tokens line
  above : ∀ a ∈ line, a ∈ d.ancestors i
  below_root : ∀ a ∈ line, a ≠ root
  nested : line.IsChain fun a b => a ∈ d.ancestors b

/-! ### Sublists of the ancestors -/

/-- Ancestors, each above the one before it, stand among the ancestors in that order. -/
theorem sublist_ancestors (habove : ∀ a ∈ served, a ∈ d.ancestors i)
    (hnested : served.Pairwise fun b a => a ∈ d.ancestors b) :
    served.Sublist (d.ancestors i) := by
  induction i using d.parentInduction generalizing served with
  | step i ih =>
    cases served with
    | nil => exact List.nil_sublist _
    | cons a rest =>
      obtain ⟨hfirst, hrest⟩ := List.pairwise_cons.mp hnested
      obtain ⟨p, hp, ha⟩ := mem_ancestors_iff.mp (habove a List.mem_cons_self)
      rw [ancestors_of_parent hp]
      rcases ha with rfl | ha
      · exact (ih a hp hfirst hrest).cons_cons a
      · refine (ih p hp ?_ hnested).cons p
        intro b hb
        rcases List.mem_cons.mp hb with rfl | hb
        · exact ha
        · exact mem_ancestors_trans (hfirst b hb) ha

theorem innerAncestors_eq_nil (h : d.parent? i = none) : d.innerAncestors i = [] := by
  rw [innerAncestors, ancestors_of_parent_eq_none h]
  rfl

/-- The ancestors below the root are the ancestors without the root. -/
theorem mem_innerAncestors_iff {a : Nat} :
    a ∈ d.innerAncestors i ↔ a ∈ d.ancestors i ∧ a ≠ root := by
  constructor
  · intro ha
    have hinner := List.all_eq_true.mp List.all_takeWhile a ha
    refine ⟨List.takeWhile_subset _ ha, ?_⟩
    rintro rfl
    rw [isRoot_iff.mpr rfl] at hinner
    cases hinner
  · rintro ⟨ha, hroot⟩
    obtain ⟨p, hp, -⟩ := mem_ancestors_iff.mp ha
    rw [ancestors_eq_innerAncestors (mem_children_iff.mpr hp)] at ha
    rcases List.mem_append.mp ha with ha | ha
    · exact ha
    · exact absurd (List.mem_singleton.mp ha) hroot

/-- A sublist of the ancestors below the root is a choice of such ancestors, each above the
one before it. -/
theorem sublist_innerAncestors_iff :
    served.Sublist (d.innerAncestors i) ↔
      (∀ a ∈ served, a ∈ d.ancestors i) ∧ (∀ a ∈ served, a ≠ root) ∧
        served.IsChain fun b a => a ∈ d.ancestors b := by
  constructor
  · intro h
    have hmem : ∀ a ∈ served, a ∈ d.ancestors i ∧ a ≠ root := fun a ha =>
      mem_innerAncestors_iff.mp (h.subset ha)
    have hall : served.Sublist (d.ancestors i) := h.trans (List.takeWhile_sublist _)
    exact ⟨fun a ha => (hmem a ha).1, fun a ha => (hmem a ha).2,
      ((d.pairwise_ancestors i).sublist hall).isChain⟩
  · rintro ⟨habove, hroot, hnested⟩
    have : Trans (fun b a => a ∈ d.ancestors b) (fun b a => a ∈ d.ancestors b)
        (fun b a => a ∈ d.ancestors b) := ⟨fun hb ha => mem_ancestors_trans ha hb⟩
    have hall := sublist_ancestors habove (List.isChain_iff_pairwise.mp hnested)
    cases hp : d.parent? i with
    | none =>
      rw [ancestors_of_parent_eq_none hp] at hall
      rw [innerAncestors_eq_nil hp]
      exact hall
    | some p =>
      rw [ancestors_eq_innerAncestors (mem_children_iff.mpr hp)] at hall
      obtain ⟨inner, last, rfl, hinner, hlast⟩ := List.sublist_append_iff.mp hall
      -- the root would be the last of a line that has it
      cases last with
      | nil => rwa [List.append_nil]
      | cons a last =>
        have ha : a = root := List.mem_singleton.mp (hlast.subset List.mem_cons_self)
        exact absurd ha (hroot a (List.mem_append_right _ List.mem_cons_self))

end Document

namespace Selector

variable {s : Selector} {d : Document} {i : Nat}

/-- The context of a selector finds its ancestors exactly if it names a line of them. -/
theorem unserved_context_eq_nil_iff :
    unserved d s.context.reverse (d.innerAncestors i) = [] ↔
      ∃ line, d.IsLine i s.context line := by
  rw [unserved_eq_nil_iff, List.sublistForall₂_iff]
  constructor
  · rintro ⟨served, hnamed, hsub⟩
    obtain ⟨habove, hroot, hnested⟩ := Document.sublist_innerAncestors_iff.mp hsub
    refine ⟨served.reverse, ?_, ?_, ?_, List.isChain_reverse.mpr hnested⟩
    · exact List.forall₂_reverse_iff.mp (by rwa [List.reverse_reverse])
    · exact fun a ha => habove a (List.mem_reverse.mp ha)
    · exact fun a ha => hroot a (List.mem_reverse.mp ha)
  · rintro ⟨line, hnamed, habove, hroot, hnested⟩
    refine ⟨line.reverse, List.forall₂_reverse_iff.mpr hnamed, ?_⟩
    refine Document.sublist_innerAncestors_iff.mpr ⟨?_, ?_, List.isChain_reverse.mpr hnested⟩
    · exact fun a ha => habove a (List.mem_reverse.mp ha)
    · exact fun a ha => hroot a (List.mem_reverse.mp ha)

theorem isMatch_iff : s.isMatch d i = true ↔
    d.isNamed i s.target = true ∧ ∃ line, d.IsLine i s.context line := by
  rw [isMatch, Bool.and_eq_true, List.isEmpty_iff, unserved_context_eq_nil_iff]

theorem tokens_eq (s : Selector) : s.tokens = s.context ++ [s.target] :=
  (List.dropLast_append_getLast s.tokens_ne_nil).symm

/-- A selector matches a node exactly if the last token names the node and the tokens before it
name a line of ancestors, whichever: below the root, in the order of the tokens, with any others
in between. Then the score is the number of tokens, and otherwise there is none. So the pass that
takes the first ancestor for each token finds a line wherever there is one, and the root is
neither matched nor part of a match. -/
theorem match_is_choice_of_ancestors (s : Selector) (d : Document) (i : Nat) :
    s.tokens = s.context ++ [s.target] ∧
      (s.score? d i = some s.tokens.length ↔
        d.isNamed i s.target = true ∧ ∃ line, d.IsLine i s.context line) ∧
      (s.score? d i = none ↔
        ¬ (d.isNamed i s.target = true ∧ ∃ line, d.IsLine i s.context line)) ∧
      s.score? d Document.root = none := by
  have hscore : ∀ j, s.score? d j = none ↔
      ¬ (d.isNamed j s.target = true ∧ ∃ line, d.IsLine j s.context line) := by
    intro j
    rw [← isMatch_iff, score?]
    split
    · rename_i hmatch
      simp [hmatch]
    · rename_i hmatch
      simp [hmatch]
  refine ⟨s.tokens_eq, ?_, hscore i, ?_⟩
  · rw [← isMatch_iff, score?]
    split
    · rename_i hmatch
      exact ⟨fun _ => hmatch, fun _ => rfl⟩
    · rename_i hmatch
      exact ⟨fun h => absurd h (by simp), fun h => absurd h hmatch⟩
  · refine (hscore Document.root).mpr ?_
    rintro ⟨hnamed, -⟩
    rw [Document.isNamed_root] at hnamed
    cases hnamed

end Selector

end TreeMarkdown
