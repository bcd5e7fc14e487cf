/-
The choice of a rule, said without the pass that makes it.

`mostSpecific?_eq_some_iff` pins the chosen rule down: none before it has a longer chain
and all behind it have shorter ones, so it is the newest of the longest. Lists of rules
are chosen from piece by piece: `mostSpecific?_append` says that the later piece prevails
unless its choice is less specific.
-/

import TreeMarkdown.RuleTable

namespace TreeMarkdown.RuleTable

variable {α : Type}

/-- The newer of two choices, unless it is less specific. -/
def prevailing : Option (Rule α) → Option (Rule α) → Option (Rule α)
  | older, none => older
  | none, some b => some b
  | some a, some b => if a.specificity ≤ b.specificity then some b else some a

@[simp] theorem prevailing_none_right (a : Option (Rule α)) : prevailing a none = a := by
  cases a <;> rfl

@[simp] theorem prevailing_none_left (b : Option (Rule α)) : prevailing none b = b := by
  cases b <;> rfl

theorem prevailing_of_le {a b : Rule α} (h : a.specificity ≤ b.specificity) :
    prevailing (some a) (some b) = some b := if_pos h

theorem prevailing_of_lt {a b : Rule α} (h : b.specificity < a.specificity) :
    prevailing (some a) (some b) = some a := if_neg (Nat.not_le.mpr h)

/-! ### The pass over a list -/

theorem mostSpecific?_cons (r : Rule α) (rules : List (Rule α)) :
    mostSpecific? (r :: rules) = prevailing (some r) (mostSpecific? rules) := by
  rw [mostSpecific?, mostSpecific?, List.foldr_cons]
  cases List.foldr _ none rules with
  | none => rfl
  | some b =>
    by_cases h : b.specificity < r.specificity
    · simp only [if_pos h, prevailing_of_lt h]
    · simp only [if_neg h, prevailing_of_le (Nat.not_lt.mp h)]

theorem prevailing_assoc (a b c : Option (Rule α)) :
    prevailing (prevailing a b) c = prevailing a (prevailing b c) := by
  cases a with
  | none => simp
  | some a =>
    cases b with
    | none => simp
    | some b =>
      cases c with
      | none => simp
      | some c =>
        unfold prevailing
        grind

/-- Of two pieces of a list the later one decides, unless its choice is less specific. -/
theorem mostSpecific?_append (older newer : List (Rule α)) :
    mostSpecific? (older ++ newer) = prevailing (mostSpecific? older) (mostSpecific? newer) := by
  induction older with
  | nil => exact (prevailing_none_left _).symm
  | cons r older ih =>
    rw [List.cons_append, mostSpecific?_cons, ih, mostSpecific?_cons, prevailing_assoc]

theorem mostSpecific?_eq_none_iff {rules : List (Rule α)} :
    mostSpecific? rules = none ↔ rules = [] := by
  cases rules with
  | nil => exact ⟨fun _ => rfl, fun _ => rfl⟩
  | cons r rules =>
    rw [mostSpecific?_cons]
    cases mostSpecific? rules with
    | none => simp
    | some b =>
      by_cases h : r.specificity ≤ b.specificity
      · simp [prevailing_of_le h]
      · simp [prevailing_of_lt (Nat.not_le.mp h)]

/-- In front of a list a rule is chosen if it is longer than the choice of the list. -/
theorem mostSpecific?_cons_eq_some_iff {r b : Rule α} {rules : List (Rule α)} :
    mostSpecific? (r :: rules) = some b ↔
      (mostSpecific? rules = some b ∧ r.specificity ≤ b.specificity) ∨
        (r = b ∧ ∀ c, mostSpecific? rules = some c → c.specificity < r.specificity) := by
  rw [mostSpecific?_cons]
  cases mostSpecific? rules with
  | none => simp
  | some c =>
    by_cases h : r.specificity ≤ c.specificity
    · rw [prevailing_of_le h]
      constructor
      · intro hb
        cases hb
        exact Or.inl ⟨rfl, h⟩
      · rintro (⟨hb, _⟩ | ⟨_, hlt⟩)
        · exact hb
        · exact absurd (hlt c rfl) (Nat.not_lt.mpr h)
    · have hlt := Nat.not_le.mp h
      rw [prevailing_of_lt hlt]
      constructor
      · intro hb
        cases hb
        refine Or.inr ⟨rfl, ?_⟩
        intro c' hc
        cases hc
        exact hlt
      · rintro (⟨hb, hle⟩ | ⟨hb, _⟩)
        · cases hb
          exact absurd hle h
        · rw [hb]

theorem mostSpecific?_mem {rules : List (Rule α)} {b : Rule α}
    (h : mostSpecific? rules = some b) : b ∈ rules := by
  induction rules with
  | nil => cases h
  | cons r rules ih =>
    rcases mostSpecific?_cons_eq_some_iff.mp h with ⟨hrest, _⟩ | ⟨rfl, _⟩
    · exact List.mem_cons_of_mem _ (ih hrest)
    · exact List.mem_cons_self

/-- The chosen rule is the last of those with the longest chains. -/
theorem mostSpecific?_eq_some_iff {rules : List (Rule α)} {b : Rule α} :
    mostSpecific? rules = some b ↔ ∃ before after, rules = before ++ b :: after ∧
      (∀ r ∈ before, r.specificity ≤ b.specificity) ∧
      ∀ r ∈ after, r.specificity < b.specificity := by
  constructor
  · intro h
    induction rules generalizing b with
    | nil => cases h
    | cons r rules ih =>
      rcases mostSpecific?_cons_eq_some_iff.mp h with ⟨hrest, hle⟩ | ⟨rfl, hlt⟩
      · obtain ⟨before, after, rfl, hbefore, hafter⟩ := ih hrest
        exact ⟨r :: before, after, rfl, List.forall_mem_cons.mpr ⟨hle, hbefore⟩, hafter⟩
      · refine ⟨[], rules, rfl, by simp, ?_⟩
        intro s hs
        cases hrest : mostSpecific? rules with
        | none =>
          rw [mostSpecific?_eq_none_iff.mp hrest] at hs
          cases hs
        | some c =>
          have hc := hlt c hrest
          obtain ⟨before, after, rfl, hbefore, hafter⟩ := ih hrest
          rcases List.mem_append.mp hs with hs | hs
          · exact Nat.lt_of_le_of_lt (hbefore s hs) hc
          · rcases List.mem_cons.mp hs with rfl | hs
            · exact hc
            · exact Nat.lt_trans (hafter s hs) hc
  · rintro ⟨before, after, rfl, hbefore, hafter⟩
    have hlast : mostSpecific? (b :: after) = some b :=
      mostSpecific?_cons_eq_some_iff.mpr
        (Or.inr ⟨rfl, fun c hc => hafter c (mostSpecific?_mem hc)⟩)
    rw [mostSpecific?_append, hlast]
    cases hfirst : mostSpecific? before with
    | none => rfl
    | some a => exact prevailing_of_le (hbefore a (mostSpecific?_mem hfirst))

/-- No rule of a list is more specific than the chosen one. -/
theorem specificity_le_of_mostSpecific? {rules : List (Rule α)} {b r : Rule α}
    (h : mostSpecific? rules = some b) (hr : r ∈ rules) : r.specificity ≤ b.specificity := by
  obtain ⟨before, after, rfl, hbefore, hafter⟩ := mostSpecific?_eq_some_iff.mp h
  rcases List.mem_append.mp hr with hr | hr
  · exact hbefore r hr
  · rcases List.mem_cons.mp hr with rfl | hr
    · exact Nat.le_refl _
    · exact Nat.le_of_lt (hafter r hr)

/-! ### The rule for a node -/

variable {t : RuleTable α} {d : Document} {i : Nat}

theorem mem_applicable {r : Rule α} :
    r ∈ t.applicable d i ↔ r ∈ t.rules ∧ r.selector.isMatch d i = true :=
  List.mem_filter

/-- The rule for a node stands in the table and matches the node. -/
theorem best?_mem {r : Rule α} (h : t.best? d i = some r) :
    r ∈ t.rules ∧ r.selector.isMatch d i = true :=
  mem_applicable.mp (mostSpecific?_mem h)

/-- No rule that matches the node is more specific than the one chosen for it. -/
theorem specificity_le_of_best? {b r : Rule α} (hb : t.best? d i = some b) (hr : r ∈ t.rules)
    (hmatch : r.selector.isMatch d i = true) : r.specificity ≤ b.specificity :=
  specificity_le_of_mostSpecific? hb (mem_applicable.mpr ⟨hr, hmatch⟩)

/-- Where a rule of the table matches, there is a rule. -/
theorem exists_best?_of_isMatch {r : Rule α} (hr : r ∈ t.rules)
    (hmatch : r.selector.isMatch d i = true) : ∃ b, t.best? d i = some b := by
  cases hbest : t.best? d i with
  | some b => exact ⟨b, rfl⟩
  | none =>
    have hmem := mem_applicable.mpr ⟨hr, hmatch⟩
    rw [mostSpecific?_eq_none_iff.mp hbest] at hmem
    cases hmem

/-- A table has the same rule for nodes that the same selectors match. -/
theorem best?_congr {d' : Document} {i' : Nat}
    (h : ∀ rule ∈ t.rules, rule.selector.isMatch d' i' = rule.selector.isMatch d i) :
    t.best? d' i' = t.best? d i := by
  rw [best?, best?, applicable, applicable, List.filter_congr h]

/-- The action for node `i`, that of its rule. -/
def action? (t : RuleTable α) (d : Document) (i : Nat) : Option α :=
  (t.best? d i).map Rule.action

theorem action?_of_best? {r : Rule α} (h : t.best? d i = some r) :
    t.action? d i = some r.action := by
  simp only [action?, h, Option.map_some]

theorem action?_eq_none_iff : t.action? d i = none ↔ t.best? d i = none :=
  Option.map_eq_none_iff

end TreeMarkdown.RuleTable
