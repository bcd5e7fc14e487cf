/-
What a match of a selector says about the node and its ancestors.

The target names the node, and every token of the context an ancestor of it. The pass over the
ancestors never looks back; it takes each token at the first ancestor that the token names. It
misses nothing: a choice of ancestors that leaves this one out can be exchanged for one that
begins with it, and the rest of the choice only has more ancestors left to choose from
(`unserved_eq_nil_iff`). A selector without context asks for nothing but the name, and one with
a single token in its context for one ancestor of that name (`isMatch_iff_of_context_eq`). A
match asks of the ancestors only which tokens name them, so it can be carried over to a line of
ancestors elsewhere (`unserved_map_append`).
-/

import Mathlib.Data.List.Forall2
import TreeMarkdown.Selector

namespace TreeMarkdown.Selector

variable {s : Selector} {d : Document} {i : Nat}

theorem getLast?_tokens (s : Selector) : s.tokens.getLast? = some s.target :=
  List.getLast?_eq_some_getLast s.tokens_ne_nil

/-- A selector that matches a node names it with its target. -/
theorem isNamed_of_isMatch (h : s.isMatch d i = true) : d.isNamed i s.target = true := by
  rw [isMatch, Bool.and_eq_true] at h
  exact h.1

theorem isMatch_of_context_eq_nil (hcontext : s.context = [])
    (hnamed : d.isNamed i s.target = true) : s.isMatch d i = true := by
  rw [isMatch, hnamed, hcontext, List.reverse_nil]
  cases d.innerAncestors i with
  | nil => rfl
  | cons a ancestors => rfl

/-- Every selector of the comma list has one of these names for its target. -/
def namesOnly (names : List String) (keys : Text) : Bool :=
  (parseList keys).all fun s => names.any fun name => s.target == name.toList

theorem exists_name_of_isMatch {names : List String} {keys : Text}
    (h : namesOnly names keys = true) (hs : s ∈ parseList keys) (hmatch : s.isMatch d i = true) :
    ∃ name ∈ names, d.isNamed i name.toList = true := by
  obtain ⟨name, hname, htarget⟩ := List.any_eq_true.mp (List.all_eq_true.mp h s hs)
  exact ⟨name, hname, beq_iff_eq.mp htarget ▸ isNamed_of_isMatch hmatch⟩

/-! ### The pass over the ancestors -/

/-- The pass serves all tokens exactly if some of the ancestors could serve them in order. -/
theorem unserved_eq_nil_iff {sought : List Text} {ancestors : List Nat} :
    unserved d sought ancestors = [] ↔
      List.SublistForall₂ (fun token a => d.isNamed a token = true) sought ancestors := by
  fun_induction unserved d sought ancestors with
  | case1 sought =>
    constructor
    · rintro rfl
      exact .nil
    · intro h
      cases h
      rfl
  | case2 a ancestors => exact ⟨fun _ => .nil, fun _ => rfl⟩
  | case3 token sought a ancestors hnamed ih =>
    constructor
    · intro h
      exact .cons hnamed (ih.mp h)
    · -- the rest of a choice that leaves `a` out, or takes it, chooses from what is behind `a`
      intro h
      cases h with
      | cons _ hrest => exact ih.mpr hrest
      | cons_right hskip =>
        obtain ⟨chosen, hchosen, hsub⟩ := List.sublistForall₂_iff.mp hskip
        cases hchosen with
        | cons _ hrest =>
          have hbehind := (List.sublist_cons_self _ _).trans hsub
          exact ih.mpr (List.sublistForall₂_iff.mpr ⟨_, hrest, hbehind⟩)
  | case4 token sought a ancestors hnamed ih =>
    constructor
    · intro h
      exact .cons_right (ih.mp h)
    · intro h
      cases h with
      | cons hname _ => exact absurd hname hnamed
      | cons_right hskip => exact ih.mpr hskip

/-- A pass that leaves no token unserved found an ancestor for each. -/
theorem exists_ancestor_of_unserved {sought : List Text} {ancestors : List Nat}
    (h : unserved d sought ancestors = []) :
    ∀ token ∈ sought, ∃ a ∈ ancestors, d.isNamed a token = true := by
  have hserved := unserved_eq_nil_iff.mp h
  clear h
  induction hserved with
  | nil => simp
  | cons hnamed _ ih =>
    intro token htoken
    rcases List.mem_cons.mp htoken with rfl | htoken
    · exact ⟨_, List.mem_cons_self, hnamed⟩
    · obtain ⟨a, ha, hanamed⟩ := ih token htoken
      exact ⟨a, List.mem_cons_of_mem _ ha, hanamed⟩
  | cons_right _ ih =>
    intro token htoken
    obtain ⟨a, ha, hnamed⟩ := ih token htoken
    exact ⟨a, List.mem_cons_of_mem _ ha, hnamed⟩

/-- Every token of the context of a match names an ancestor. -/
theorem exists_ancestor_of_isMatch (h : s.isMatch d i = true) {token : Text}
    (htoken : token ∈ s.context) : ∃ a ∈ d.ancestors i, d.isNamed a token = true := by
  rw [isMatch, Bool.and_eq_true, List.isEmpty_iff] at h
  obtain ⟨a, ha, hnamed⟩ := exists_ancestor_of_unserved h.2 token (List.mem_reverse.mpr htoken)
  exact ⟨a, List.takeWhile_subset _ ha, hnamed⟩

/-! ### Single tokens -/

theorem unserved_singleton_eq_nil_iff {token : Text} {ancestors : List Nat} :
    unserved d [token] ancestors = [] ↔ ∃ a ∈ ancestors, d.isNamed a token = true := by
  constructor
  · intro h
    exact exists_ancestor_of_unserved h token List.mem_cons_self
  · rintro ⟨a, ha, hnamed⟩
    refine unserved_eq_nil_iff.mpr (List.sublistForall₂_iff.mpr ⟨[a], ?_, ?_⟩)
    · exact .cons hnamed .nil
    · exact List.singleton_sublist.mpr ha

/-- With a single token for context, the node and one of its ancestors have to be named. -/
theorem isMatch_iff_of_context_eq {token : Text} (hcontext : s.context = [token]) :
    s.isMatch d i = true ↔
      d.isNamed i s.target = true ∧ ∃ a ∈ d.innerAncestors i, d.isNamed a token = true := by
  rw [isMatch, Bool.and_eq_true, List.isEmpty_iff, hcontext, List.reverse_singleton,
    unserved_singleton_eq_nil_iff]

/-! ### Other lines of ancestors -/

theorem unserved_of_not_isNamed {sought : List Text} {ancestors : List Nat}
    (h : ∀ a ∈ ancestors, ∀ token ∈ sought, d.isNamed a token = false) :
    unserved d sought ancestors = sought := by
  fun_induction unserved d sought ancestors with
  | case1 => rfl
  | case2 => rfl
  | case3 token sought a ancestors hnamed ih =>
    rw [h a List.mem_cons_self token List.mem_cons_self] at hnamed
    cases hnamed
  | case4 token sought a ancestors hnamed ih =>
    exact ih fun b hb => h b (List.mem_cons_of_mem a hb)

/-- A pass depends on which sought tokens name which ancestors. Further ancestors at the end
that none of them names make no difference. -/
theorem unserved_map_append {d' : Document} {f : Nat → Nat} {sought : List Text}
    {ancestors above : List Nat}
    (hnamed : ∀ a ∈ ancestors, ∀ token, d'.isNamed (f a) token = d.isNamed a token)
    (habove : ∀ a ∈ above, ∀ token ∈ sought, d'.isNamed a token = false) :
    unserved d' sought (ancestors.map f ++ above) = unserved d sought ancestors := by
  fun_induction unserved d sought ancestors with
  | case1 sought => exact unserved_of_not_isNamed habove
  | case2 => rfl
  | case3 token sought a ancestors ha ih =>
    rw [List.map_cons, List.cons_append, unserved, hnamed a List.mem_cons_self, if_pos ha]
    exact ih (fun b hb => hnamed b (List.mem_cons_of_mem a hb)) fun b hb t ht =>
      habove b hb t (List.mem_cons_of_mem token ht)
  | case4 token sought a ancestors ha ih =>
    rw [List.map_cons, List.cons_append, unserved, hnamed a List.mem_cons_self, if_neg ha]
    exact ih (fun b hb => hnamed b (List.mem_cons_of_mem a hb)) habove

/-- A selector matches alike where the same tokens name the node and each of its ancestors. -/
theorem isMatch_map {d' : Document} {f : Nat → Nat}
    (hinner : d'.innerAncestors (f i) = (d.innerAncestors i).map f)
    (hself : ∀ token, d'.isNamed (f i) token = d.isNamed i token)
    (hnamed : ∀ a ∈ d.innerAncestors i, ∀ token, d'.isNamed (f a) token = d.isNamed a token) :
    s.isMatch d' (f i) = s.isMatch d i := by
  have hunserved : unserved d' s.context.reverse ((d.innerAncestors i).map f ++ []) =
      unserved d s.context.reverse (d.innerAncestors i) :=
    unserved_map_append hnamed (by simp)
  rw [List.append_nil] at hunserved
  rw [isMatch, isMatch, hself, hinner, hunserved]

end TreeMarkdown.Selector
