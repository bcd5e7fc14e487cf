/-
Rule tables: actions under selector keys, in the order in which they were written.

A key stands in a table at most once. Writing it again takes the old rule out and puts
the new one at the end, so the order of the rules is the order of the last writes.
Every way to change a table is a run of writes: `insert` writes one rule per chain of a
comma list, `extend` writes the rules of another table. Among the rules that match a
node, `best?` takes one with the longest chain and, of those, the newest.
-/

import TreeMarkdown.Selector

namespace TreeMarkdown

/-- An action for the nodes that a selector matches. -/
structure Rule (α : Type) where
  selector : Selector
  action : α

namespace Rule

variable {α : Type}

/-- The key under which the rule stands in a table. -/
def key (r : Rule α) : Text :=
  r.selector.key

/-- The length of the chain. -/
def specificity (r : Rule α) : Nat :=
  r.selector.specificity

/-- The rules that share an action under the chains of a comma list. -/
def forKeys (keys : Text) (action : α) : List (Rule α) :=
  (Selector.parseList keys).map fun s => ⟨s, action⟩

end Rule

/-- Rules in the order of their last writes, no two under one key. -/
structure RuleTable (α : Type) where
  rules : List (Rule α)
  keys_nodup : (rules.map Rule.key).Nodup

namespace RuleTable

variable {α : Type}

@[ext] theorem ext {t u : RuleTable α} (h : t.rules = u.rules) : t = u := by
  cases t
  cases u
  cases h
  rfl

/-- The table without rules. -/
def empty : RuleTable α :=
  ⟨[], List.nodup_nil⟩

instance : Inhabited (RuleTable α) := ⟨empty⟩

/-! ### Observation -/

/-- The keys in the order of the rules. -/
def keys (t : RuleTable α) : List Text :=
  t.rules.map Rule.key

/-- The number of rules. -/
def size (t : RuleTable α) : Nat :=
  t.rules.length

/-- The table has no rules. -/
def isEmpty (t : RuleTable α) : Bool :=
  t.rules.isEmpty

/-- The rule under a key, in any spelling that has the same tokens. -/
def get? (t : RuleTable α) (key : Text) : Option (Rule α) := do
  let s ← Selector.parse? key
  t.rules.find? (·.key == s.key)

/-! ### Writing -/

/-- The rules after a write of `r`. -/
def written (rules : List (Rule α)) (r : Rule α) : List (Rule α) :=
  rules.filter (·.key != r.key) ++ [r]

theorem nodup_written {rules : List (Rule α)} (h : (rules.map Rule.key).Nodup) (r : Rule α) :
    ((written rules r).map Rule.key).Nodup := by
  rw [written, List.map_append, List.nodup_append]
  refine ⟨h.sublist (List.filter_sublist.map _), by simp, ?_⟩
  intro k hk l hl
  obtain ⟨s, hs, rfl⟩ := List.mem_map.mp hk
  have := (List.mem_filter.mp hs).2
  simp only [List.map_cons, List.map_nil, List.mem_singleton] at hl
  rw [hl]
  simpa using this

/-- Writes one rule: it replaces a rule of the same key and stands at the end. -/
def insertRule (t : RuleTable α) (r : Rule α) : RuleTable α :=
  ⟨written t.rules r, nodup_written t.keys_nodup r⟩

/-- Writes rules one after the other. -/
def insertAll (t : RuleTable α) (rules : List (Rule α)) : RuleTable α :=
  rules.foldl insertRule t

/-- Writes an action under every chain of a comma list. The number says how many rules
were written. -/
def insert (t : RuleTable α) (keys : Text) (action : α) : Nat × RuleTable α :=
  let rules := Rule.forKeys keys action
  (rules.length, t.insertAll rules)

/-- Writes the rules of `other` over those of `t`, in their order. -/
def extend (t other : RuleTable α) : RuleTable α :=
  t.insertAll other.rules

/-! ### Choice -/

/-- The rules that match node `i`, in table order. -/
def applicable (t : RuleTable α) (d : Document) (i : Nat) : List (Rule α) :=
  t.rules.filter fun r => r.selector.isMatch d i

/-- The last of the rules of greatest specificity. -/
def mostSpecific? (rules : List (Rule α)) : Option (Rule α) :=
  rules.foldr
    (fun r best =>
      match best with
      | none => some r
      | some b => if b.specificity < r.specificity then some r else some b)
    none

/-- The rule for node `i`: of those that match, the most specific, and the newest of
those. -/
def best? (t : RuleTable α) (d : Document) (i : Nat) : Option (Rule α) :=
  mostSpecific? (t.applicable d i)

end RuleTable

end TreeMarkdown
