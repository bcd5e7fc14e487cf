/-
Mixing, seen from one node.

Mixing writes keys, while the choice of a rule looks at matches and at the order of the
table. The two meet in `key_injective`: a rule that is overwritten has the selector of
the rule that overwrites it, so it matches the same nodes (`isMatch_eq_of_key_eq`). Hence
the rules that go are never missed where the other table has no match, and never better
than its choice where it has one. Main statement: the choice of a mixed table is the
choice of the table mixed in, unless that is none or less specific than the old one.
-/

import TreeMarkdown.Proofs.RuleTable.Choice
import TreeMarkdown.Proofs.RuleTable.LastWrites

namespace TreeMarkdown.RuleTable

variable {α : Type} {t u : RuleTable α} {d : Document} {i : Nat}

theorem isMatch_eq_of_key_eq {r s : Rule α} (h : r.key = s.key) :
    r.selector.isMatch d i = s.selector.isMatch d i := by
  rw [Selector.key_injective h]

theorem specificity_eq_of_key_eq {r s : Rule α} (h : r.key = s.key) :
    r.specificity = s.specificity := by
  unfold Rule.specificity
  rw [Selector.key_injective h]

/-- The rules of `t` for a node that survive mixing `u` in. -/
def surviving (t u : RuleTable α) (d : Document) (i : Nat) : List (Rule α) :=
  (t.applicable d i).filter fun r => !writes u.rules r.key

theorem applicable_extend (t u : RuleTable α) (d : Document) (i : Nat) :
    (t.extend u).applicable d i = surviving t u d i ++ u.applicable d i := by
  simp only [applicable, surviving, rules_extend, List.filter_append, List.filter_filter]
  congr 1
  exact List.filter_congr fun r _ => Bool.and_comm _ _

/-- An overwritten rule for a node has a rule of the other table for the node beside it,
as specific as itself. -/
theorem exists_applicable_of_writes {r : Rule α} (hr : r ∈ t.applicable d i)
    (h : writes u.rules r.key = true) :
    ∃ s ∈ u.applicable d i, s.specificity = r.specificity := by
  obtain ⟨s, hs, hkey⟩ := writes_eq_true_iff.mp h
  have hmatch := (mem_applicable.mp hr).2
  refine ⟨s, mem_applicable.mpr ⟨hs, ?_⟩, specificity_eq_of_key_eq hkey⟩
  rw [isMatch_eq_of_key_eq hkey]
  exact hmatch

/-- Where the other table has no rule, every rule survives. -/
theorem surviving_eq_applicable (h : u.best? d i = none) :
    surviving t u d i = t.applicable d i := by
  have hnil : u.applicable d i = [] := mostSpecific?_eq_none_iff.mp h
  apply List.filter_eq_self.mpr
  intro r hr
  cases hw : writes u.rules r.key with
  | false => rfl
  | true =>
    obtain ⟨s, hs, _⟩ := exists_applicable_of_writes hr hw
    rw [hnil] at hs
    cases hs

/-- A surviving choice is no more specific than the choice among all rules. -/
theorem specificity_le_of_surviving {a c : Rule α} (ha : t.best? d i = some a)
    (hc : mostSpecific? (surviving t u d i) = some c) : c.specificity ≤ a.specificity :=
  specificity_le_of_mostSpecific? ha (List.mem_filter.mp (mostSpecific?_mem hc)).1

/-- A choice that is more specific than that of the other table survives as the choice. -/
theorem mostSpecific?_surviving {a b : Rule α} (ha : t.best? d i = some a)
    (hb : u.best? d i = some b) (hlt : b.specificity < a.specificity) :
    mostSpecific? (surviving t u d i) = some a := by
  obtain ⟨before, after, hsplit, hbefore, hafter⟩ := mostSpecific?_eq_some_iff.mp ha
  have hkept : (!writes u.rules a.key) = true := by
    cases hw : writes u.rules a.key with
    | false => rfl
    | true =>
      obtain ⟨s, hs, hspec⟩ := exists_applicable_of_writes (mostSpecific?_mem ha) hw
      have hle := specificity_le_of_mostSpecific? hb hs
      omega
  apply mostSpecific?_eq_some_iff.mpr
  refine ⟨before.filter (fun r => !writes u.rules r.key),
    after.filter (fun r => !writes u.rules r.key), ?_, ?_, ?_⟩
  · rw [surviving, hsplit, List.filter_append, List.filter_cons_of_pos (by exact hkept)]
  · exact fun r hr => hbefore r (List.mem_filter.mp hr).1
  · exact fun r hr => hafter r (List.mem_filter.mp hr).1

/-- The choice for a node after mixing, from the two choices before. -/
theorem best?_extend (t u : RuleTable α) (d : Document) (i : Nat) :
    (t.extend u).best? d i = prevailing (t.best? d i) (u.best? d i) := by
  have hmixed : (t.extend u).best? d i =
      prevailing (mostSpecific? (surviving t u d i)) (u.best? d i) := by
    rw [best?, applicable_extend, mostSpecific?_append]
    rfl
  rw [hmixed]
  cases hb : u.best? d i with
  | none =>
    rw [surviving_eq_applicable hb]
    rfl
  | some b =>
    cases ha : t.best? d i with
    | none =>
      have hnil : t.applicable d i = [] := mostSpecific?_eq_none_iff.mp ha
      rw [surviving, hnil]
      rfl
    | some a =>
      by_cases hle : a.specificity ≤ b.specificity
      · rw [prevailing_of_le hle]
        cases hc : mostSpecific? (surviving t u d i) with
        | none => rfl
        | some c =>
          have hca := specificity_le_of_surviving ha hc
          exact prevailing_of_le (by omega)
      · rw [mostSpecific?_surviving ha hb (by omega)]

/-- Without a match the table has no choice. -/
theorem best?_eq_none_of_forall (h : ∀ r ∈ u.rules, r.selector.isMatch d i = false) :
    u.best? d i = none := by
  apply mostSpecific?_eq_none_iff.mpr
  apply List.filter_eq_nil_iff.mpr
  intro r hr
  rw [h r hr]
  exact Bool.false_ne_true

/-- Mixing resolves node by node: the choice of the table mixed in prevails, unless it is
none or less specific than the old choice. So where no rule of the table mixed in matches,
nothing changes, and nowhere does the choice become less specific. -/
theorem mixing_resolves_by_node (t u : RuleTable α) (d : Document) (i : Nat) :
    ((t.extend u).best? d i =
      match t.best? d i, u.best? d i with
      | a, none => a
      | none, some b => some b
      | some a, some b => if a.specificity ≤ b.specificity then some b else some a) ∧
    ((∀ r ∈ u.rules, r.selector.isMatch d i = false) →
      (t.extend u).best? d i = t.best? d i) ∧
    ∀ a r, t.best? d i = some a → (t.extend u).best? d i = some r →
      a.specificity ≤ r.specificity := by
  rw [best?_extend]
  refine ⟨?_, ?_, ?_⟩
  · cases t.best? d i with
    | none => cases u.best? d i <;> rfl
    | some a => cases u.best? d i <;> rfl
  · intro hno
    rw [best?_eq_none_of_forall hno, prevailing_none_right]
  · intro a r ha hr
    rw [ha] at hr
    cases hb : u.best? d i with
    | none =>
      rw [hb] at hr
      cases hr
      exact Nat.le_refl _
    | some b =>
      rw [hb] at hr
      by_cases hle : a.specificity ≤ b.specificity
      · rw [prevailing_of_le hle] at hr
        cases hr
        exact hle
      · rw [prevailing_of_lt (Nat.not_le.mp hle)] at hr
        cases hr
        exact Nat.le_refl _

end TreeMarkdown.RuleTable
