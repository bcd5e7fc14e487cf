/-
Where the rules of a renderer come from.

Adding converters is one run of writes (`addAll_eq`), and mixing in a renderer made from
a list is adding the list (`mix_ofList`). So the renderer of a flavour is what the entries
of the flavour leave (`Flavour.renderer_eq`), and each of its rules is one of the chains
of an entry (`Flavour.exists_entry`).
-/

import TreeMarkdown.Profile
import TreeMarkdown.Proofs.RuleTable.Choice
import TreeMarkdown.Proofs.RuleTable.LastWrites
import TreeMarkdown.Proofs.Selector.Matching

namespace TreeMarkdown

open RuleTable

/-- The writes that entries make, in order. -/
def Rule.ofEntries (entries : List (Text × Converter)) : List (Rule Converter) :=
  entries.flatMap fun entry => Rule.forKeys entry.1 entry.2

theorem Rule.ofEntries_cons (entry : Text × Converter) (entries : List (Text × Converter)) :
    Rule.ofEntries (entry :: entries) =
      Rule.forKeys entry.1 entry.2 ++ Rule.ofEntries entries :=
  List.flatMap_cons

theorem Rule.mem_ofEntries {entries : List (Text × Converter)} {rule : Rule Converter} :
    rule ∈ Rule.ofEntries entries ↔
      ∃ entry ∈ entries, rule.selector ∈ Selector.parseList entry.1 ∧ rule.action = entry.2 := by
  unfold Rule.ofEntries Rule.forKeys
  constructor
  · intro h
    obtain ⟨entry, hentry, hrule⟩ := List.mem_flatMap.mp h
    obtain ⟨s, hs, rfl⟩ := List.mem_map.mp hrule
    exact ⟨entry, hentry, hs, rfl⟩
  · rintro ⟨entry, hentry, hs, haction⟩
    refine List.mem_flatMap.mpr ⟨entry, hentry, List.mem_map.mpr ⟨rule.selector, hs, ?_⟩⟩
    rw [← haction]

/-- A write that lasts is of the last entry with its chain. -/
theorem Rule.exists_last_of_mem_lastWrites {entries : List (Text × Converter)}
    {rule : Rule Converter} (h : rule ∈ lastWrites (Rule.ofEntries entries)) :
    ∃ before entry after, entries = before ++ entry :: after ∧
      rule.selector ∈ Selector.parseList entry.1 ∧ rule.action = entry.2 ∧
        ∀ later ∈ after, rule.selector ∉ Selector.parseList later.1 := by
  induction entries with
  | nil => cases h
  | cons entry entries ih =>
    rw [Rule.ofEntries_cons, lastWrites_append] at h
    rcases List.mem_append.mp h with h | h
    · obtain ⟨hmem, hlast⟩ := List.mem_filter.mp h
      obtain ⟨s, hs, rfl⟩ := List.mem_map.mp ((lastWrites_sublist _).subset hmem)
      have hnone := writes_eq_false_iff.mp (by simpa using hlast)
      refine ⟨[], entry, entries, rfl, hs, rfl, ?_⟩
      intro later hlater hselector
      exact hnone ⟨s, later.2⟩ (Rule.mem_ofEntries.mpr ⟨later, hlater, hselector, rfl⟩) rfl
    · obtain ⟨before, last, after, rfl, hlast⟩ := ih h
      exact ⟨entry :: before, last, after, rfl, hlast⟩

namespace Renderer

theorem addAll_eq (r : Renderer) (entries : List (Text × Converter)) :
    r.addAll entries = r.insertAll (Rule.ofEntries entries) := by
  induction entries generalizing r with
  | nil => rfl
  | cons entry entries ih =>
    have hrest : r.addAll (entry :: entries) = addAll (r.add entry.1 entry.2) entries := rfl
    rw [hrest, ih, Rule.ofEntries_cons, insertAll, insertAll, List.foldl_append]
    rfl

theorem rules_addAll (r : Renderer) (entries : List (Text × Converter)) :
    (r.addAll entries).rules = lastWrites (r.rules ++ Rule.ofEntries entries) := by
  rw [addAll_eq, rules_insertAll r.lastWrites_rules.symm]

theorem rules_ofList (entries : List (Text × Converter)) :
    (ofList entries).rules = lastWrites (Rule.ofEntries entries) :=
  rules_addAll RuleTable.empty entries

/-- Mixing in a renderer made from a list adds the list. -/
theorem mix_ofList (r : Renderer) (entries : List (Text × Converter)) :
    r.mix (ofList entries) = r.addAll entries := by
  apply RuleTable.ext
  rw [mix, rules_extend, rules_ofList, rules_addAll, lastWrites_append, lastWrites_rules]
  simp only [writes_lastWrites]

theorem addAll_ofList (older newer : List (Text × Converter)) :
    (ofList older).addAll newer = ofList (older ++ newer) :=
  (List.foldl_append ..).symm

end Renderer

namespace Flavour

variable {flavour : Flavour} {o : Options}

/-- The converters of a flavour with their keys, in the order in which they are added. -/
def entries (o : Options) : Flavour → List (Text × Converter)
  | .commonMark => CommonMark.entries o
  | .gitHub => CommonMark.entries o ++ GitHub.entries o

theorem mem_all_of_mem_entries {entry : Text × Converter} (h : entry ∈ flavour.entries o) :
    entry ∈ CommonMark.entries o ++ GitHub.entries o := by
  cases flavour with
  | commonMark => exact List.mem_append_left _ h
  | gitHub => exact h

/-- The renderer of a flavour has the entries of the flavour added in order. -/
theorem renderer_eq (o : Options) (flavour : Flavour) :
    flavour.renderer o = Renderer.ofList (flavour.entries o) := by
  cases flavour with
  | commonMark => rfl
  | gitHub =>
    rw [renderer, GitHub.renderer, CommonMark.renderer, Renderer.mix_ofList,
      Renderer.addAll_ofList]
    rfl

/-- Every rule of a flavour stands in its entries. -/
theorem exists_entry {rule : Rule Converter} (h : rule ∈ (flavour.renderer o).rules) :
    ∃ entry ∈ flavour.entries o,
      rule.selector ∈ Selector.parseList entry.1 ∧ rule.action = entry.2 := by
  rw [renderer_eq, Renderer.rules_ofList] at h
  exact Rule.mem_ofEntries.mp ((lastWrites_sublist _).subset h)

/-- The rule for a node stands in an entry, with a selector that matches the node. -/
theorem exists_entry_of_best? {rule : Rule Converter} {d : Document} {i : Nat}
    (h : (flavour.renderer o).best? d i = some rule) :
    ∃ entry ∈ flavour.entries o, rule.selector ∈ Selector.parseList entry.1 ∧
      rule.selector.isMatch d i = true ∧ rule.action = entry.2 := by
  obtain ⟨hmem, hmatch⟩ := best?_mem h
  obtain ⟨entry, hentry, hs, haction⟩ := exists_entry hmem
  exact ⟨entry, hentry, hs, hmatch, haction⟩

/-- Every selector in the entries of a flavour has a rule. -/
theorem exists_rule {entry : Text × Converter} {s : Selector}
    (hentry : entry ∈ flavour.entries o) (hs : s ∈ Selector.parseList entry.1) :
    ∃ rule ∈ (flavour.renderer o).rules, rule.selector = s := by
  have hwrite : (⟨s, entry.2⟩ : Rule Converter) ∈ Rule.ofEntries (flavour.entries o) :=
    Rule.mem_ofEntries.mpr ⟨entry, hentry, hs, rfl⟩
  have hwrites : writes (flavour.renderer o).rules s.key = true := by
    rw [renderer_eq, Renderer.rules_ofList, writes_lastWrites, writes_eq_true_iff]
    exact ⟨_, hwrite, rfl⟩
  obtain ⟨rule, hrule, hkey⟩ := writes_eq_true_iff.mp hwrites
  exact ⟨rule, hrule, Selector.key_injective hkey⟩

/-- Where a selector in the entries of a flavour matches, there is a rule. -/
theorem exists_best?_of_isMatch {entry : Text × Converter} {s : Selector} {d : Document} {i : Nat}
    (hentry : entry ∈ flavour.entries o) (hs : s ∈ Selector.parseList entry.1)
    (hmatch : s.isMatch d i = true) : ∃ rule, (flavour.renderer o).best? d i = some rule := by
  obtain ⟨rule, hrule, hselector⟩ := exists_rule hentry hs
  exact RuleTable.exists_best?_of_isMatch hrule (by rwa [hselector])

end Flavour

end TreeMarkdown
