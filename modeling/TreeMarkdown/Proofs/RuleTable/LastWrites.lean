/-
What a run of writes leaves in a table.

`lastWrites` keeps of a list of writes those that no later write of the same key has
undone. A table is always the last writes of whatever was written to it
(`rules_insertAll`), and its own rules are their own last writes (`lastWrites_rules`);
mixing is the case in which the rules of another table are written (`rules_extend`).
-/

import TreeMarkdown.RuleTable

namespace TreeMarkdown.RuleTable

variable {α : Type}

/-- The list has a write under that key. -/
def writes (ws : List (Rule α)) (key : Text) : Bool :=
  ws.any (·.key == key)

/-- The writes that no later write of the same key follows. -/
def lastWrites : List (Rule α) → List (Rule α)
  | [] => []
  | w :: ws => if writes ws w.key then lastWrites ws else w :: lastWrites ws

theorem writes_eq_true_iff {ws : List (Rule α)} {key : Text} :
    writes ws key = true ↔ ∃ w ∈ ws, w.key = key := by
  simp [writes]

theorem writes_eq_false_iff {ws : List (Rule α)} {key : Text} :
    writes ws key = false ↔ ∀ w ∈ ws, w.key ≠ key := by
  simp [writes]

theorem writes_append (ws vs : List (Rule α)) (key : Text) :
    writes (ws ++ vs) key = (writes ws key || writes vs key) :=
  List.any_append

/-! ### Last writes -/

/-- Later writes undo the earlier ones of their keys and no others. -/
theorem lastWrites_append (ws vs : List (Rule α)) :
    lastWrites (ws ++ vs) =
      (lastWrites ws).filter (fun w => !writes vs w.key) ++ lastWrites vs := by
  induction ws with
  | nil => rfl
  | cons w ws ih =>
    rw [List.cons_append, lastWrites, lastWrites, writes_append, ih]
    cases hws : writes ws w.key with
    | true => simp
    | false =>
      cases hvs : writes vs w.key with
      | true => simp [hvs]
      | false => simp [hvs]

/-- A write is a last write if it stands in the list with no write of its key behind
it. -/
theorem mem_lastWrites_iff {ws : List (Rule α)} {r : Rule α} :
    r ∈ lastWrites ws ↔ ∃ before after, ws = before ++ r :: after ∧ ∀ w ∈ after, w.key ≠ r.key := by
  constructor
  · intro h
    induction ws with
    | nil => cases h
    | cons w ws ih =>
      have old : r ∈ lastWrites ws → ∃ before after, w :: ws = before ++ r :: after ∧
          ∀ v ∈ after, v.key ≠ r.key := by
        intro hr
        obtain ⟨before, after, rfl, hafter⟩ := ih hr
        exact ⟨w :: before, after, rfl, hafter⟩
      rw [lastWrites] at h
      split at h
      · exact old h
      · rename_i hw
        rcases List.mem_cons.mp h with rfl | h
        · exact ⟨[], ws, rfl, writes_eq_false_iff.mp (by simpa using hw)⟩
        · exact old h
  · rintro ⟨before, after, rfl, hafter⟩
    rw [lastWrites_append, lastWrites, if_neg (by simpa using writes_eq_false_iff.mpr hafter)]
    exact List.mem_append_right _ List.mem_cons_self

theorem lastWrites_sublist (ws : List (Rule α)) : (lastWrites ws).Sublist ws := by
  induction ws with
  | nil => exact List.Sublist.refl _
  | cons w ws ih =>
    rw [lastWrites]
    split
    · exact ih.cons w
    · exact ih.cons_cons w

/-- Writes under different keys all last. -/
theorem lastWrites_of_nodup {ws : List (Rule α)} (h : (ws.map Rule.key).Nodup) :
    lastWrites ws = ws := by
  induction ws with
  | nil => rfl
  | cons w ws ih =>
    rw [List.map_cons, List.nodup_cons] at h
    have hw : writes ws w.key = false :=
      writes_eq_false_iff.mpr fun v hv heq => h.1 (heq ▸ List.mem_map_of_mem hv)
    rw [lastWrites, hw, ih h.2]
    rfl

/-- Looking a key up among the last writes finds the last write of the key. -/
theorem find?_lastWrites (ws : List (Rule α)) (key : Text) :
    (lastWrites ws).find? (·.key == key) = ws.reverse.find? (·.key == key) := by
  induction ws with
  | nil => rfl
  | cons w ws ih =>
    rw [List.reverse_cons, List.find?_append, ← ih, lastWrites]
    by_cases hkey : w.key = key
    · cases hlater : writes ws w.key with
      | true =>
        obtain ⟨v, hv, hvkey⟩ := writes_eq_true_iff.mp hlater
        have hsome : (ws.reverse.find? (·.key == key)).isSome := by
          rw [List.find?_isSome]
          exact ⟨v, List.mem_reverse.mpr hv, by simp [hvkey, hkey]⟩
        rw [if_pos rfl, ih, Option.or_of_isSome hsome]
      | false =>
        have hnone : ws.reverse.find? (·.key == key) = none := by
          rw [List.find?_eq_none]
          intro v hv
          have := writes_eq_false_iff.mp hlater v (List.mem_reverse.mp hv)
          simpa [← hkey] using this
        rw [ih, hnone]
        simp [hkey]
    · have hnot : (w.key == key) = false := by simpa using hkey
      have hsingle : List.find? (·.key == key) [w] = none := by simp [hnot]
      rw [hsingle, Option.or_none]
      split
      · rfl
      · rw [List.find?_cons, hnot]

/-- The last writes have the keys of all writes. -/
theorem writes_lastWrites (ws : List (Rule α)) (key : Text) :
    writes (lastWrites ws) key = writes ws key := by
  induction ws with
  | nil => rfl
  | cons w ws ih =>
    rw [lastWrites]
    split
    · rename_i hlater
      rw [ih]
      by_cases hkey : w.key = key
      · rw [← hkey, hlater]
        simp [writes]
      · simp [writes, hkey]
    · simp only [writes, List.any_cons] at ih ⊢
      rw [ih]

/-! ### Tables -/

/-- One more write to a table of last writes. -/
theorem written_lastWrites (ws : List (Rule α)) (r : Rule α) :
    written (lastWrites ws) r = lastWrites (ws ++ [r]) := by
  rw [lastWrites_append, written]
  congr 1
  apply List.filter_congr
  intro w _
  simp only [writes, List.any_cons, List.any_nil, Bool.or_false, bne]
  rw [Bool.beq_comm]

theorem lastWrites_rules (t : RuleTable α) : lastWrites t.rules = t.rules :=
  lastWrites_of_nodup t.keys_nodup

/-- A run of writes to a table of last writes. -/
theorem rules_insertAll {t : RuleTable α} {log : List (Rule α)} (h : t.rules = lastWrites log)
    (ws : List (Rule α)) : (t.insertAll ws).rules = lastWrites (log ++ ws) := by
  induction ws generalizing t log with
  | nil => simpa [insertAll] using h
  | cons w ws ih =>
    have hstep : (t.insertRule w).rules = lastWrites (log ++ [w]) := by
      rw [← written_lastWrites, ← h]
      rfl
    have hrest := ih hstep
    rwa [List.append_assoc] at hrest

/-- Mixing keeps the rules whose keys the other table does not have, and puts the other
table behind them. -/
theorem rules_extend (t u : RuleTable α) :
    (t.extend u).rules = t.rules.filter (fun r => !writes u.rules r.key) ++ u.rules := by
  rw [extend, rules_insertAll t.lastWrites_rules.symm, lastWrites_append, lastWrites_rules,
    lastWrites_rules]

end TreeMarkdown.RuleTable
