/-
Looking rules up by their keys.

A key has one normal form: it is read as a selector, and the key of that selector is read as the
same selector again. Selectors that are spelled alike in normal form have the same tokens, so the
keys of a table tell its rules apart by their chains (`eq_of_tokens_eq`). What a look-up finds is a
matter of the tokens, and not of the spelling, of the key that it is given (`get?_eq_some_iff`).

The tokens of a look-up are in capitals. A rule is therefore found under its own key only if its
selector is in capitals as well, that is, if it was read from some key. So it is with all rules of a
table if no others were written to it (`History.isRead_of_mem_table`).
-/

import Mathlib.Data.List.Nodup
import TreeMarkdown.Proofs.RuleTable.History

namespace TreeMarkdown

namespace RuleTable

variable {α : Type} {t : RuleTable α} {r s : Rule α} {key : Text}

/-- No two rules of a table have the same key. -/
theorem eq_of_key_eq (hr : r ∈ t.rules) (hs : s ∈ t.rules) (h : r.key = s.key) : r = s :=
  List.inj_on_of_nodup_map t.keys_nodup hr hs h

/-- No two rules of a table have the same chain. -/
theorem eq_of_tokens_eq (hr : r ∈ t.rules) (hs : s ∈ t.rules)
    (h : r.selector.tokens = s.selector.tokens) : r = s :=
  eq_of_key_eq hr hs (congrArg Selector.key (Selector.ext h))

/-- A look-up finds the rule whose tokens are those of the key. -/
theorem get?_eq_some_iff :
    t.get? key = some r ↔ r ∈ t.rules ∧ Selector.tokensOf key = r.selector.tokens := by
  show (Selector.parse? key).bind (fun s => t.rules.find? (·.key == s.key)) = some r ↔ _
  constructor
  · intro h
    obtain ⟨s, hs, hfind⟩ := Option.bind_eq_some_iff.mp h
    have hkey := List.find?_some hfind
    obtain rfl : r.selector = s := Selector.key_injective (beq_iff_eq.mp hkey)
    exact ⟨List.mem_of_find?_eq_some hfind, Selector.parse?_eq_some_iff.mp hs⟩
  · rintro ⟨hr, htokens⟩
    rw [Selector.parse?_eq_some_iff.mpr htokens, Option.bind_some]
    -- there is a rule under the key, and no other than `r`
    have hsome : (t.rules.find? (·.key == r.key)).isSome :=
      List.find?_isSome.mpr ⟨r, hr, beq_self_eq_true r.key⟩
    obtain ⟨s, hs⟩ := Option.isSome_iff_exists.mp hsome
    have hkey := List.find?_some hs
    obtain rfl : s = r := eq_of_key_eq (List.mem_of_find?_eq_some hs) hr (beq_iff_eq.mp hkey)
    exact hs

end RuleTable

namespace History

variable {α : Type} {h : History α}

/-- Every rule that was written on its own has a selector that was read from a key. -/
def IsRead : History α → Prop
  | start => True
  | insert before _ _ => before.IsRead
  | insertRule before rule => before.IsRead ∧ rule.selector.IsRead
  | extend before other => before.IsRead ∧ other.IsRead

theorem mem_log_of_mem_table {r : Rule α} (hr : r ∈ h.table.rules) : r ∈ h.log := by
  rw [rules_table] at hr
  exact (RuleTable.lastWrites_sublist h.log).subset hr

theorem isRead_of_mem_log (hread : h.IsRead) : ∀ r ∈ h.log, r.selector.IsRead := by
  induction h with
  | start => exact fun r hr => nomatch hr
  | insert before keys action ih =>
    intro r hr
    rcases List.mem_append.mp hr with hr | hr
    · exact ih hread r hr
    · obtain ⟨s, hs, rfl⟩ := List.mem_map.mp hr
      exact Selector.isRead_of_mem_parseList hs
  | insertRule before rule ih =>
    intro r hr
    rcases List.mem_append.mp hr with hr | hr
    · exact ih hread.1 r hr
    · rw [List.mem_singleton.mp hr]
      exact hread.2
  | extend before other ih ihother =>
    intro r hr
    rcases List.mem_append.mp hr with hr | hr
    · exact ih hread.1 r hr
    · exact ihother hread.2 r (mem_log_of_mem_table hr)

theorem isRead_of_mem_table (hread : h.IsRead) {r : Rule α} (hr : r ∈ h.table.rules) :
    r.selector.IsRead :=
  isRead_of_mem_log hread r (mem_log_of_mem_table hr)

end History

namespace RuleTable

open Selector

/-- Keys have a normal form. A key is read unless it is all white space; what it is read as has
tokens, which are not empty and hold no white space, and is read again from its own key. Two
selectors that are read have the same key exactly if they have the same tokens. So after any history
the rules of a table are told apart by their chains, and a look-up finds a rule exactly if the key
has the tokens of the rule. If all selectors were read from keys, these are the spellings with the
same tokens as the key of the rule, that key among them. -/
theorem key_is_normal_form (α : Type) :
    (∀ key, parse? key = none ↔ ∀ c ∈ key, Text.isWhite c = true) ∧
      (∀ key s, parse? key = some s →
        s.tokens ≠ [] ∧ (∀ w ∈ s.tokens, w ≠ [] ∧ ∀ c ∈ w, Text.isWhite c = false) ∧
          parse? s.key = some s) ∧
      (∀ key key' s s', parse? key = some s → parse? key' = some s' →
        (s.key = s'.key ↔ s.tokens = s'.tokens)) ∧
      ∀ h : History α,
        (∀ r ∈ h.table.rules, ∀ s ∈ h.table.rules,
          r.selector.tokens = s.selector.tokens → r = s) ∧
        (∀ key r, h.table.get? key = some r ↔
          r ∈ h.table.rules ∧ tokensOf key = r.selector.tokens) ∧
        (h.IsRead → ∀ r ∈ h.table.rules, ∀ key,
          h.table.get? key = some r ↔ tokensOf key = tokensOf r.key) := by
  refine ⟨fun key => ?_, fun key s hs => ?_, fun key key' s s' _ _ => ?_, fun h => ⟨?_, ?_, ?_⟩⟩
  · rw [parse?_eq_none_iff, Text.isBlank, List.all_eq_true]
  · exact ⟨s.tokens_ne_nil, s.isToken, IsRead.parse?_key ⟨key, hs⟩⟩
  · exact ⟨fun h => congrArg tokens (key_injective h), fun h => congrArg Selector.key (Selector.ext h)⟩
  · exact fun r hr s hs => eq_of_tokens_eq hr hs
  · exact fun key r => get?_eq_some_iff
  · intro hread r hr key
    have hown : tokensOf r.key = r.selector.tokens :=
      tokensOf_key (isRead_iff.mp (h.isRead_of_mem_table hread hr))
    rw [get?_eq_some_iff, hown]
    exact and_iff_right hr

end RuleTable

end TreeMarkdown
