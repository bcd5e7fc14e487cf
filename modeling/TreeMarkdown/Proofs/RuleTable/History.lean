/-
Histories: how a table came about.

A `History` lists what was done to a table since it was empty; the tables mixed in have
histories of their own. Its `log` is the flat list of single writes. Two machines run a
history: `table` builds a rule table, and `entries` an ordered map in which each rule is
stored together with its key, and which removes and puts entries one by one. Main
statement: both hold the last writes of the log (`rules_table`, `entries_eq`), whatever
was overwritten, repeated or mixed in on the way.
-/

import TreeMarkdown.Proofs.RuleTable.LastWrites
import TreeMarkdown.Proofs.Selector.Reading

namespace TreeMarkdown

open RuleTable

/-! ### An ordered map -/

/-- Rules with the keys under which they are stored, in insertion order. -/
abbrev Entries (α : Type) := List (Text × Rule α)

namespace Entries

variable {α : Type}

/-- A rule with its key. -/
def keyed (r : Rule α) : Text × Rule α :=
  (r.key, r)

/-- Takes the entry under a key out; the entries behind it move up. -/
def shiftRemove (e : Entries α) (key : Text) : Entries α :=
  e.eraseP (·.1 == key)

/-- Puts a rule under a key: where the key stands or, if it is new, at the end. -/
def put (e : Entries α) (key : Text) (r : Rule α) : Entries α :=
  if e.any (·.1 == key) then e.map fun entry => if entry.1 == key then (key, r) else entry
  else e ++ [(key, r)]

/-- Writes one rule: takes the entry under its key out and puts the rule there. -/
def write (e : Entries α) (r : Rule α) : Entries α :=
  (e.shiftRemove r.key).put r.key r

/-- The rule stored under a key. -/
def get? (e : Entries α) (key : Text) : Option (Rule α) :=
  (e.find? (·.1 == key)).map (·.2)

/-- Among different keys, taking an entry out leaves those under the other keys. -/
theorem shiftRemove_map_keyed {rules : List (Rule α)} (h : (rules.map Rule.key).Nodup)
    (key : Text) :
    shiftRemove (rules.map keyed) key = (rules.filter (·.key != key)).map keyed := by
  induction rules with
  | nil => rfl
  | cons r rules ih =>
    rw [List.map_cons, List.nodup_cons] at h
    have ih := ih h.2
    unfold shiftRemove at ih ⊢
    by_cases hkey : r.key = key
    · have hothers : rules.filter (·.key != key) = rules := by
        rw [List.filter_eq_self]
        intro s hs
        have hne : s.key ≠ key := fun heq => h.1 (by
          rw [hkey, ← heq]
          exact List.mem_map_of_mem hs)
        simpa using hne
      rw [List.map_cons, List.eraseP_cons_of_pos (by simp [keyed, hkey]),
        List.filter_cons_of_neg (by simp [hkey]), hothers]
    · rw [List.map_cons, List.eraseP_cons_of_neg (by simp [keyed, hkey]),
        List.filter_cons_of_pos (by simp [hkey]), List.map_cons, ih]

/-- The ordered map and the table change alike under a write. -/
theorem write_map_keyed {rules : List (Rule α)} (h : (rules.map Rule.key).Nodup)
    (r : Rule α) : write (rules.map keyed) r = (written rules r).map keyed := by
  have hnew : ((rules.filter (·.key != r.key)).map keyed).any (·.1 == r.key) = false := by
    rw [List.any_eq_false]
    intro entry hentry
    obtain ⟨s, hs, rfl⟩ := List.mem_map.mp hentry
    simpa [keyed] using (List.mem_filter.mp hs).2
  rw [write, shiftRemove_map_keyed h, put, hnew, written, List.map_append]
  rfl

theorem foldl_write_map_keyed (t : RuleTable α) (ws : List (Rule α)) :
    ws.foldl write (t.rules.map keyed) = (t.insertAll ws).rules.map keyed := by
  induction ws generalizing t with
  | nil => rfl
  | cons w ws ih =>
    rw [List.foldl_cons, write_map_keyed t.keys_nodup]
    exact ih (t.insertRule w)

theorem get?_map_keyed (rules : List (Rule α)) (key : Text) :
    get? (rules.map keyed) key = rules.find? (·.key == key) := by
  have hkey : (fun entry : Text × Rule α => entry.1 == key) ∘ keyed = (·.key == key) := rfl
  have hrule : (fun entry : Text × Rule α => entry.2) ∘ keyed = id := rfl
  rw [get?, List.find?_map, hkey, Option.map_map, hrule, Option.map_id]
  rfl

end Entries

/-! ### Histories -/

/-- What was done to a table since it was empty. -/
inductive History (α : Type) where
  | start
  | insert (before : History α) (keys : Text) (action : α)
  | insertRule (before : History α) (rule : Rule α)
  | extend (before other : History α)

namespace History

variable {α : Type}

/-- The table after a history. -/
def table : History α → RuleTable α
  | start => RuleTable.empty
  | insert before keys action => (before.table.insert keys action).2
  | insertRule before rule => before.table.insertRule rule
  | extend before other => before.table.extend other.table

/-- The writes of a history in order: one for each chain of a comma list, one for a rule,
and one for each rule of a table mixed in. -/
def log : History α → List (Rule α)
  | start => []
  | insert before keys action => before.log ++ Rule.forKeys keys action
  | insertRule before rule => before.log ++ [rule]
  | extend before other => before.log ++ other.table.rules

/-- The ordered map after a history. -/
def entries : History α → Entries α
  | start => []
  | insert before keys action => (Rule.forKeys keys action).foldl Entries.write before.entries
  | insertRule before rule => before.entries.write rule
  | extend before other => (other.entries.map (·.2)).foldl Entries.write before.entries

/-- The table holds the last writes of the log. -/
theorem rules_table (h : History α) : h.table.rules = lastWrites h.log := by
  induction h with
  | start => rfl
  | insert before keys action ih => exact rules_insertAll ih _
  | insertRule before rule ih => exact rules_insertAll ih [rule]
  | extend before other ih _ => exact rules_insertAll ih other.table.rules

/-- The ordered map holds the rules of the table, each under its own key. -/
theorem entries_eq (h : History α) : h.entries = h.table.rules.map Entries.keyed := by
  induction h with
  | start => rfl
  | insert before keys action ih =>
    rw [entries, ih]
    exact Entries.foldl_write_map_keyed before.table _
  | insertRule before rule ih =>
    rw [entries, ih]
    exact Entries.write_map_keyed before.table.keys_nodup rule
  | extend before other ih ihother =>
    have hrules : other.entries.map (·.2) = other.table.rules := by
      rw [ihother, List.map_map]
      exact List.map_id _
    rw [entries, ih, hrules]
    exact Entries.foldl_write_map_keyed before.table _

/-- A key, however spelled, finds the last write under it. -/
theorem get?_table (h : History α) (key : Text) :
    h.table.get? key =
      (Selector.parse? key).bind fun s => h.log.reverse.find? (·.key == s.key) := by
  show ((Selector.parse? key).bind fun s => h.table.rules.find? (·.key == s.key)) = _
  simp only [rules_table, find?_lastWrites]

/-- A comma list writes what its parts write one after the other. -/
theorem forKeys_append_comma (s t : Text) (action : α) :
    Rule.forKeys (s ++ ',' :: t) action = Rule.forKeys s action ++ Rule.forKeys t action := by
  rw [Rule.forKeys, Selector.parseList_append_comma, List.map_append]
  rfl

/-- A comma list is inserted like its parts one after the other. -/
theorem insert_append_comma (u : RuleTable α) (s t : Text) (action : α) :
    u.insert (s ++ ',' :: t) action =
      ((u.insert s action).1 + ((u.insert s action).2.insert t action).1,
        ((u.insert s action).2.insert t action).2) := by
  simp only [RuleTable.insert, forKeys_append_comma, List.length_append, insertAll,
    List.foldl_append]

/-- After every history the table is the log without the writes that a later write of the
same key follows. So its keys are different; a rule stands in it exactly if it is the last
write of its key; the rules stand in the order of the log; an ordered map with stored keys
holds the same rules under the same keys; a look-up in any spelling finds the last write;
inserting a comma list writes once for each piece that is not blank, and is the same as
inserting the pieces one after the other. -/
theorem table_is_last_writes (h : History α) :
    h.table.rules = lastWrites h.log ∧
      h.table.keys.Nodup ∧
      (∀ r, r ∈ h.table.rules ↔
        ∃ before after, h.log = before ++ r :: after ∧ ∀ w ∈ after, w.key ≠ r.key) ∧
      h.table.rules.Sublist h.log ∧
      h.entries = h.table.rules.map (fun r => (r.selector.key, r)) ∧
      (∀ key, h.table.get? key =
        (Selector.parse? key).bind fun s => h.log.reverse.find? (·.selector.key == s.key)) ∧
      (∀ key, h.table.get? key = (Selector.parse? key).bind fun s => h.entries.get? s.key) ∧
      (∀ keys action, (h.table.insert keys action).1 = (Rule.forKeys keys action).length ∧
        (Rule.forKeys keys action).length =
          (keys.splitOn ',').countP fun piece => !Text.isBlank piece) ∧
      ∀ s t action, h.table.insert (s ++ ',' :: t) action =
        ((h.table.insert s action).1 + ((h.insert s action).table.insert t action).1,
          ((h.insert s action).insert t action).table) := by
  refine ⟨h.rules_table, h.table.keys_nodup, ?_, ?_, h.entries_eq, h.get?_table, ?_, ?_, ?_⟩
  · intro r
    rw [rules_table, mem_lastWrites_iff]
  · rw [rules_table]
    exact lastWrites_sublist _
  · intro key
    simp only [entries_eq, Entries.get?_map_keyed]
    rfl
  · intro keys action
    exact ⟨rfl, by rw [Rule.forKeys, List.length_map, Selector.length_parseList]⟩
  · exact insert_append_comma h.table

end History

end TreeMarkdown
