/-
Precedence: the newest of the longest.

`IsNewestLongest` says which rule of a list is meant for a node by where the rules stand: it
matches the node, none of the matching rules before it has a longer chain, and all behind it have
shorter ones. A table chooses that rule (`best?_eq_some_iff`). Its own rules are only the last
writes of its history, but the writes that were overwritten do not matter for the choice: the later
write of the same key matches the same nodes and is as long (`mostSpecific?_filter_lastWrites`),
so the choice can be read off the history itself. The order counts among the longest rules only;
where the longest matching key is unique, any order gives the same choice
(`best?_eq_some_of_unique`), and where those that tie have the same action, the same action
(`action?_eq_of_perm`).
-/

import Mathlib.Data.List.Nodup
import TreeMarkdown.Proofs.RuleTable.Lookup
import TreeMarkdown.Proofs.RuleTable.Mixing
import TreeMarkdown.Renderer

namespace TreeMarkdown

namespace RuleTable

variable {α : Type} {t u : RuleTable α} {d : Document} {i : Nat} {r : Rule α}

/-! ### By position -/

/-- Among the rules that match node `i`, rule `r` has a longest chain and stands behind all others
with a chain as long. -/
def IsNewestLongest (rules : List (Rule α)) (d : Document) (i : Nat) (r : Rule α) : Prop :=
  r.selector.isMatch d i = true ∧
    ∃ older newer, rules = older ++ r :: newer ∧
      (∀ s ∈ older, s.selector.isMatch d i = true → s.specificity ≤ r.specificity) ∧
      ∀ s ∈ newer, s.selector.isMatch d i = true → s.specificity < r.specificity

theorem mostSpecific?_filter_eq_some_iff {rules : List (Rule α)} :
    mostSpecific? (rules.filter fun s => s.selector.isMatch d i) = some r ↔
      IsNewestLongest rules d i r := by
  constructor
  · intro hchoice
    obtain ⟨before, after, hsplit, hbefore, hafter⟩ := mostSpecific?_eq_some_iff.mp hchoice
    obtain ⟨older, rest, rfl, rfl, hrest⟩ := List.filter_eq_append_iff.mp hsplit
    obtain ⟨skipped, newer, rfl, hskipped, hmatch, rfl⟩ := List.filter_eq_cons_iff.mp hrest
    refine ⟨hmatch, older ++ skipped, newer, (List.append_assoc ..).symm, ?_, ?_⟩
    · intro s hs hsmatch
      cases List.mem_append.mp hs with
      | inl holder => exact hbefore s (List.mem_filter.mpr ⟨holder, hsmatch⟩)
      | inr hskip => exact absurd hsmatch (hskipped s hskip)
    · exact fun s hs hsmatch => hafter s (List.mem_filter.mpr ⟨hs, hsmatch⟩)
  · rintro ⟨hmatch, older, newer, rfl, holder, hnewer⟩
    apply mostSpecific?_eq_some_iff.mpr
    refine ⟨older.filter fun s => s.selector.isMatch d i,
      newer.filter fun s => s.selector.isMatch d i, ?_, ?_, ?_⟩
    · rw [List.filter_append, List.filter_cons_of_pos (by exact hmatch)]
    · exact fun s hs => holder s (List.mem_filter.mp hs).1 (List.mem_filter.mp hs).2
    · exact fun s hs => hnewer s (List.mem_filter.mp hs).1 (List.mem_filter.mp hs).2

/-- A list without a matching rule gives no choice. -/
theorem mostSpecific?_filter_eq_none_iff {rules : List (Rule α)} :
    mostSpecific? (rules.filter fun s => s.selector.isMatch d i) = none ↔
      ∀ s ∈ rules, s.selector.score? d i = none := by
  rw [mostSpecific?_eq_none_iff, List.filter_eq_nil_iff]
  simp only [Selector.score?, ite_eq_right_iff, reduceCtorEq, imp_false]

theorem best?_eq_some_iff : t.best? d i = some r ↔ IsNewestLongest t.rules d i r :=
  mostSpecific?_filter_eq_some_iff

theorem best?_eq_none_iff : t.best? d i = none ↔ ∀ s ∈ t.rules, s.selector.score? d i = none :=
  mostSpecific?_filter_eq_none_iff

/-! ### By history -/

/-- Writes that are overwritten make no difference to a choice among rules that their keys single
out: the write that replaces them is singled out too, is newer and is as long. -/
theorem mostSpecific?_filter_lastWrites {p : Rule α → Bool}
    (hp : ∀ {r s : Rule α}, r.key = s.key → p r = p s) (ws : List (Rule α)) :
    mostSpecific? ((lastWrites ws).filter p) = mostSpecific? (ws.filter p) := by
  induction ws with
  | nil => rfl
  | cons w ws ih =>
    rw [lastWrites]
    cases hw : p w with
    | false =>
      rw [List.filter_cons_of_neg (by simp [hw])]
      split
      · exact ih
      · rw [List.filter_cons_of_neg (by simp [hw]), ih]
    | true =>
      rw [List.filter_cons_of_pos hw, mostSpecific?_cons, ← ih]
      split
      · rename_i hlater
        obtain ⟨v, hv, hkey⟩ := writes_eq_true_iff.mp ((writes_lastWrites ws w.key).trans hlater)
        have hmem : v ∈ (lastWrites ws).filter p :=
          List.mem_filter.mpr ⟨hv, (hp hkey).trans hw⟩
        cases hbest : mostSpecific? ((lastWrites ws).filter p) with
        | none =>
          rw [mostSpecific?_eq_none_iff.mp hbest] at hmem
          cases hmem
        | some b =>
          have hle := specificity_le_of_mostSpecific? hbest hmem
          rw [specificity_eq_of_key_eq hkey] at hle
          exact (prevailing_of_le hle).symm
      · rw [List.filter_cons_of_pos hw, mostSpecific?_cons]

/-- After a history the choice is the choice among all its matching writes. -/
theorem best?_table (h : History α) (d : Document) (i : Nat) :
    h.table.best? d i = mostSpecific? (h.log.filter fun s => s.selector.isMatch d i) := by
  rw [best?, applicable, h.rules_table]
  exact mostSpecific?_filter_lastWrites isMatch_eq_of_key_eq _

/-! ### In any order -/

/-- A matching rule that is longer than those of all other keys is chosen, wherever it stands. -/
theorem best?_eq_some_of_unique (hr : r ∈ t.rules) (hmatch : r.selector.isMatch d i = true)
    (hunique : ∀ s ∈ t.rules, s.selector.isMatch d i = true → s.key ≠ r.key →
      s.specificity < r.specificity) : t.best? d i = some r := by
  obtain ⟨b, hbest⟩ := exists_best?_of_isMatch hr hmatch
  obtain ⟨hb, hbmatch⟩ := best?_mem hbest
  have hle : r.specificity ≤ b.specificity :=
    specificity_le_of_mostSpecific? hbest (mem_applicable.mpr ⟨hr, hmatch⟩)
  have hkey : b.key = r.key :=
    Decidable.not_not.mp fun hne => Nat.not_lt.mpr hle (hunique b hb hbmatch hne)
  rw [hbest, eq_of_key_eq hb hr hkey]

/-- Where rules that tie for a node share their action, the order of the table does not decide. -/
theorem action?_eq_of_perm (hperm : t.rules.Perm u.rules)
    (htie : ∀ r ∈ t.rules, ∀ s ∈ t.rules, r.selector.isMatch d i = true →
      s.selector.isMatch d i = true → r.specificity = s.specificity → r.action = s.action) :
    t.action? d i = u.action? d i := by
  cases ht : t.best? d i with
  | none =>
    have hu : u.best? d i = none := best?_eq_none_iff.mpr fun s hs =>
      best?_eq_none_iff.mp ht s (hperm.mem_iff.mpr hs)
    rw [action?, action?, ht, hu]
  | some r =>
    obtain ⟨hr, hrmatch⟩ := best?_mem ht
    obtain ⟨s, hu⟩ := exists_best?_of_isMatch (hperm.mem_iff.mp hr) hrmatch
    obtain ⟨hs, hsmatch⟩ := best?_mem hu
    -- each of the two choices is at least as long as the other, which its table has as well
    have hle := specificity_le_of_best? ht (hperm.mem_iff.mpr hs) hsmatch
    have hge := specificity_le_of_best? hu (hperm.mem_iff.mp hr) hrmatch
    rw [action?_of_best? ht, action?_of_best? hu,
      htie r hr s (hperm.mem_iff.mpr hs) hrmatch hsmatch (Nat.le_antisymm hge hle)]

end RuleTable

namespace Renderer

open RuleTable

/-- The newest of the longest rules runs. A table has no choice for a node exactly if none of its
selectors matches, and else its choice is the matching rule that no matching rule exceeds in length
and all others of that length precede. So after any history either no write matches the node, and
the node is what its children are, or the newest of the longest matching writes has its converter
run; a choice whose key is longer than all other matching keys does not depend on the order of the
table. -/
theorem newest_longest_rule_runs (t : Renderer) (d : Document) (i : Nat) :
    (t.best? d i = none ↔ ∀ s ∈ t.rules, s.selector.score? d i = none) ∧
      (∀ r, t.best? d i = some r ↔ IsNewestLongest t.rules d i r) ∧
      (∀ (h : History Converter) (content : Text),
        ((∀ s ∈ h.log, s.selector.score? d i = none) ∧
            convert h.table d i content = .ok content) ∨
          ∃ r, IsNewestLongest h.log d i r ∧
            convert h.table d i content = (r.convert d i content).map (·.getD content)) ∧
      ∀ u : Renderer, t.rules.Perm u.rules →
        ∀ r ∈ t.rules, r.selector.isMatch d i = true →
          (∀ s ∈ t.rules, s.selector.isMatch d i = true → s.key ≠ r.key →
            s.specificity < r.specificity) →
          t.best? d i = some r ∧ u.best? d i = some r := by
  refine ⟨best?_eq_none_iff, fun r => best?_eq_some_iff, ?_, ?_⟩
  · intro h content
    cases hbest : h.table.best? d i with
    | none =>
      refine Or.inl ⟨mostSpecific?_filter_eq_none_iff.mp ((best?_table h d i).symm.trans hbest), ?_⟩
      rw [convert, hbest]
    | some r =>
      refine Or.inr
        ⟨r, mostSpecific?_filter_eq_some_iff.mp ((best?_table h d i).symm.trans hbest), ?_⟩
      rw [convert, hbest]
  · intro u hperm r hr hmatch hunique
    constructor
    · exact best?_eq_some_of_unique hr hmatch hunique
    · exact best?_eq_some_of_unique (hperm.mem_iff.mp hr) hmatch fun s hs =>
        hunique s (hperm.mem_iff.mpr hs)

end Renderer

end TreeMarkdown
