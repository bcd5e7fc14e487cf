/-
The laws of mixing.

A table is the last writes of a log, and mixing puts the rules of the other table behind that
log: of two tables it makes the last writes of the one list followed by the other
(`rules_extend_eq_lastWrites`). Whether a piece of a log has been reduced to its last writes
before makes no difference to the last writes of the whole (`lastWrites_lastWrites_append`,
`lastWrites_append_lastWrites`), so mixing is associative as appending is; and a piece all of
whose keys are written again behind it leaves nothing (`lastWrites_append_of_rewritten`), so
what is mixed in once more counts only where it was mixed in last. The order of the rules is
part of all this: it is where the last writes stand.
-/

import TreeMarkdown.Proofs.RuleTable.History

namespace TreeMarkdown

namespace RuleTable

variable {α : Type}

/-! ### Logs in pieces -/

/-- The last writes have been their own last writes. -/
theorem lastWrites_lastWrites (ws : List (Rule α)) :
    lastWrites (lastWrites ws) = lastWrites ws := by
  induction ws with
  | nil => rfl
  | cons w ws ih =>
    rw [lastWrites]
    split
    · exact ih
    · rename_i hw
      rw [lastWrites, writes_lastWrites, if_neg hw, ih]

theorem lastWrites_lastWrites_append (ws vs : List (Rule α)) :
    lastWrites (lastWrites ws ++ vs) = lastWrites (ws ++ vs) := by
  simp only [lastWrites_append, lastWrites_lastWrites]

theorem lastWrites_append_lastWrites (ws vs : List (Rule α)) :
    lastWrites (ws ++ lastWrites vs) = lastWrites (ws ++ vs) := by
  simp only [lastWrites_append, lastWrites_lastWrites, writes_lastWrites]

/-- Nothing is left of writes whose keys are all written again. -/
theorem lastWrites_append_of_rewritten {ws vs : List (Rule α)}
    (h : ∀ w ∈ ws, writes vs w.key = true) : lastWrites (ws ++ vs) = lastWrites vs := by
  have hnone : (lastWrites ws).filter (fun w => !writes vs w.key) = [] := by
    refine List.filter_eq_nil_iff.mpr ?_
    intro w hw
    simp [h w ((lastWrites_sublist ws).subset hw)]
  rw [lastWrites_append, hnone, List.nil_append]

theorem writes_of_mem {ws : List (Rule α)} {w : Rule α} (h : w ∈ ws) : writes ws w.key = true :=
  writes_eq_true_iff.mpr ⟨w, h, rfl⟩

/-! ### Mixing tables -/

/-- Mixing leaves the last writes of the one table followed by the other. -/
theorem rules_extend_eq_lastWrites (t u : RuleTable α) :
    (t.extend u).rules = lastWrites (t.rules ++ u.rules) :=
  rules_insertAll t.lastWrites_rules.symm u.rules

theorem extend_assoc (t u v : RuleTable α) : (t.extend u).extend v = t.extend (u.extend v) := by
  apply ext
  calc ((t.extend u).extend v).rules
      = lastWrites (lastWrites (t.rules ++ u.rules) ++ v.rules) := by
        rw [rules_extend_eq_lastWrites, rules_extend_eq_lastWrites]
    _ = lastWrites (t.rules ++ (u.rules ++ v.rules)) := by
        rw [lastWrites_lastWrites_append, List.append_assoc]
    _ = lastWrites (t.rules ++ lastWrites (u.rules ++ v.rules)) :=
        (lastWrites_append_lastWrites _ _).symm
    _ = (t.extend (u.extend v)).rules := by
        rw [rules_extend_eq_lastWrites, rules_extend_eq_lastWrites]

/-- A table that is mixed in last leaves nothing of what was mixed in of it before. -/
theorem extend_extend_left (t u : RuleTable α) : (t.extend u).extend t = u.extend t := by
  apply ext
  calc ((t.extend u).extend t).rules
      = lastWrites (t.rules ++ (u.rules ++ t.rules)) := by
        rw [extend_assoc, rules_extend_eq_lastWrites, rules_extend_eq_lastWrites,
          lastWrites_append_lastWrites]
    _ = lastWrites (u.rules ++ t.rules) := by
        refine lastWrites_append_of_rewritten ?_
        intro w hw
        rw [writes_append, writes_of_mem hw, Bool.or_true]
    _ = (u.extend t).rules := (rules_extend_eq_lastWrites u t).symm

theorem extend_self (t : RuleTable α) : t.extend t = t := by
  apply ext
  rw [rules_extend_eq_lastWrites, lastWrites_append_of_rewritten fun _ => writes_of_mem,
    lastWrites_rules]

/-- Mixing the same table in again changes nothing. -/
theorem extend_extend_right (t u : RuleTable α) : (t.extend u).extend u = t.extend u := by
  rw [extend_assoc, extend_self]

theorem empty_extend (t : RuleTable α) : empty.extend t = t :=
  ext ((rules_extend_eq_lastWrites empty t).trans t.lastWrites_rules)

theorem extend_empty (t : RuleTable α) : t.extend empty = t := rfl

end RuleTable

namespace History

variable {α : Type}

/-- The histories lead to the same table, and to the same entries of an ordered map: the same
converters under the same keys in the same order. -/
def LeadsAs (a b : History α) : Prop :=
  a.table = b.table ∧ a.entries = b.entries

theorem leadsAs_of_table_eq {a b : History α} (h : a.table = b.table) : a.LeadsAs b :=
  ⟨h, by rw [entries_eq, entries_eq, h]⟩

/-- Mixing is overwriting in order. It is associative; of a table that is mixed in twice only
the last time counts, at either end; mixing a table with itself or with the empty table leaves
it as it is. In all of these the order of the entries is the same too, whichever keys the tables
share. -/
theorem mixing_overwrites (a b c : History α) :
    ((a.extend b).extend c).LeadsAs (a.extend (b.extend c)) ∧
      ((a.extend b).extend a).LeadsAs (b.extend a) ∧
      (a.extend a).LeadsAs a ∧
      ((a.extend b).extend b).LeadsAs (a.extend b) ∧
      (start.extend a).LeadsAs a ∧
      (a.extend start).LeadsAs a :=
  ⟨leadsAs_of_table_eq (RuleTable.extend_assoc _ _ _),
    leadsAs_of_table_eq (RuleTable.extend_extend_left _ _),
    leadsAs_of_table_eq (RuleTable.extend_self _),
    leadsAs_of_table_eq (RuleTable.extend_extend_right _ _),
    leadsAs_of_table_eq (RuleTable.empty_extend _),
    leadsAs_of_table_eq (RuleTable.extend_empty _)⟩

end History

end TreeMarkdown
