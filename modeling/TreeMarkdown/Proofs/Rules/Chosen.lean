/-
Which converter is chosen for a node.

The keys of a flavour do not depend on the options, so the entries that can be chosen for a
node are looked up in the keys: if a chain of `n` tokens matches the node, then the chosen
rule stands in an entry with a chain at least as long for nodes of that name
(`Flavour.isChosenFrom_of_isMatch`). What the keys are read as is written down once
(`Flavour.map_tokens_keys`), and looking up takes place there. The converter is settled where all
of these entries but one are skipped (`Flavour.IsChosenFrom.action?_eq`): where `places` knows
only one (`Flavour.convert_of_name`, `Flavour.convert_of_pair`), or two, and no chain of the
second matches (`Flavour.convert_of_first`). Where the second has overwritten the first, it is the
second (`Flavour.convert_of_overwritten`). Text has two entries in both flavours; which of them is
chosen depends on whether the text is `isRaw`.
-/

import Mathlib.Data.List.Basic
import TreeMarkdown.Proofs.Conversion.Recursion
import TreeMarkdown.Proofs.Document.Naming
import TreeMarkdown.Proofs.Rules.Entries

namespace TreeMarkdown

/-- Node `i` stands in preformatted text or in code. -/
def Document.isRaw (d : Document) (i : Nat) : Bool :=
  (d.innerAncestors i).any fun a => d.isNamed a "PRE".toList || d.isNamed a "CODE".toList

namespace Flavour

variable {flavour : Flavour} {o : Options} {d : Document} {i k : Nat}

/-! ### Keys -/

/-- The keys of a flavour in the order of its entries. -/
def keys (flavour : Flavour) : List Text :=
  (flavour.entries {}).map Prod.fst

theorem map_fst_entries (flavour : Flavour) (o : Options) :
    (flavour.entries o).map Prod.fst = flavour.keys := by
  cases flavour <;> rfl

/-- The chains of the keys of CommonMark, entry by entry. -/
def commonMarkChains : List (List (List Text)) :=
  [[["TEXT_NODE"]], [["PRE", "TEXT_NODE"], ["CODE", "TEXT_NODE"]], [["P"]], [["BR"]],
   [["H1"], ["H2"], ["H3"], ["H4"], ["H5"], ["H6"]], [["BLOCKQUOTE"]], [["UL"], ["OL"]],
   [["LI", "UL"], ["LI", "OL"]], [["UL", "LI"], ["OL", "LI"]], [["PRE", "CODE"]], [["PRE"]],
   [["HR"]], [["A"]], [["EM"], ["I"]], [["STRONG"], ["B"]], [["CODE"]], [["IMG"]]].map
    fun row => row.map fun chain => chain.map String.toList

/-- The chains of the keys that GitHub flavour adds. -/
def gitHubChains : List (List (List Text)) :=
  [[["DEL"], ["S"], ["STRIKE"]], [["PRE", "CODE"]], [["UL", "LI"], ["OL", "LI"]], [["TABLE"]],
   [["TR"]], [["TH"], ["TD"]]].map fun row => row.map fun chain => chain.map String.toList

/-- The chains of a flavour in the order of its entries. -/
def chains : Flavour → List (List (List Text))
  | .commonMark => commonMarkChains
  | .gitHub => commonMarkChains ++ gitHubChains

/-- The keys of a flavour are read as its chains. They are read only here: what is looked up in
the keys is looked up in the chains. -/
theorem map_tokens_keys (flavour : Flavour) :
    (flavour.keys.map fun keys => (Selector.parseList keys).map Selector.tokens) =
      flavour.chains := by
  have hcommonMark : (commonMark.keys.map fun keys =>
      (Selector.parseList keys).map Selector.tokens) = commonMarkChains := by
    decide
  have hadded : (((GitHub.entries {}).map Prod.fst).map fun keys =>
      (Selector.parseList keys).map Selector.tokens) = gitHubChains := by
    decide
  cases flavour with
  | commonMark => exact hcommonMark
  | gitHub =>
    have hkeys : gitHub.keys = commonMark.keys ++ (GitHub.entries {}).map Prod.fst := rfl
    rw [hkeys, List.map_append, hcommonMark, hadded, chains]

theorem tokens_mem_chains {keys : Text} {s : Selector} (hkeys : keys ∈ flavour.keys)
    (hs : s ∈ Selector.parseList keys) : s.tokens ∈ flavour.chains.flatten := by
  rw [← map_tokens_keys]
  exact List.mem_flatten.mpr ⟨_, List.mem_map_of_mem hkeys, List.mem_map_of_mem hs⟩

/-- Some key of the flavour has the chain of these tokens. -/
def hasChain (flavour : Flavour) (tokens : List Text) : Bool :=
  flavour.keys.any fun keys => (Selector.parseList keys).any fun s => s.tokens == tokens

/-- The places of the entries with a chain of `n` tokens or more for nodes of that name. -/
def places (flavour : Flavour) (token : Text) (n : Nat) : List Nat :=
  (List.range flavour.keys.length).filter fun k =>
    flavour.keys[k]?.any fun keys => (Selector.parseList keys).any fun s =>
      Text.eqIgnoringCase s.target token && decide (n ≤ s.specificity)

theorem hasChain_eq (flavour : Flavour) (tokens : List Text) :
    flavour.hasChain tokens = flavour.chains.any fun row => row.any (· == tokens) := by
  simp only [← map_tokens_keys, hasChain, List.any_map, Function.comp_def]

theorem places_eq (flavour : Flavour) (token : Text) (n : Nat) :
    flavour.places token n = (List.range flavour.chains.length).filter fun k =>
      flavour.chains[k]?.any fun row => row.any fun chain =>
        chain.getLast?.any (Text.eqIgnoringCase · token) && decide (n ≤ chain.length) := by
  simp only [← map_tokens_keys, places, List.length_map, List.getElem?_map, Option.any_map,
    List.any_map, Function.comp_def, Selector.getLast?_tokens, Option.any_some]
  rfl

theorem exists_selector_of_hasChain {tokens : List Text} (h : flavour.hasChain tokens = true)
    (o : Options) : ∃ entry ∈ flavour.entries o, ∃ s ∈ Selector.parseList entry.1,
      s.tokens = tokens := by
  obtain ⟨keys, hkeys, h⟩ := List.any_eq_true.mp h
  obtain ⟨s, hs, htokens⟩ := List.any_eq_true.mp h
  rw [← map_fst_entries flavour o] at hkeys
  obtain ⟨entry, hentry, rfl⟩ := List.mem_map.mp hkeys
  exact ⟨entry, hentry, s, hs, beq_iff_eq.mp htokens⟩

theorem getElem?_keys {entry : Text × Converter} (hk : (flavour.entries o)[k]? = some entry) :
    flavour.keys[k]? = some entry.1 := by
  rw [← map_fst_entries flavour o, List.getElem?_map, hk]
  rfl

theorem mem_places {entry : Text × Converter} {s : Selector} {token : Text} {n : Nat}
    (hk : (flavour.entries o)[k]? = some entry) (hs : s ∈ Selector.parseList entry.1)
    (htarget : Text.eqIgnoringCase s.target token = true) (hn : n ≤ s.specificity) :
    k ∈ flavour.places token n := by
  have hkeys := getElem?_keys hk
  refine List.mem_filter.mpr ⟨List.mem_range.mpr (List.getElem?_eq_some_iff.mp hkeys).1, ?_⟩
  rw [hkeys]
  exact List.any_eq_true.mpr ⟨s, hs, by simp [htarget, hn]⟩

/-- No chain of the entry at place `k` matches node `i`. -/
def Skips (flavour : Flavour) (d : Document) (i k : Nat) : Prop :=
  ∀ keys, flavour.keys[k]? = some keys → ∀ s ∈ Selector.parseList keys, s.isMatch d i = false

/-! ### The chosen entry -/

/-- There is a rule for node `i`, and it stands in an entry at one of these places. -/
def IsChosenFrom (flavour : Flavour) (o : Options) (d : Document) (i : Nat) (ks : List Nat) :
    Prop :=
  ∃ rule, (flavour.renderer o).best? d i = some rule ∧ ∃ k ∈ ks, ∃ keys,
    (flavour.entries o)[k]? = some (keys, rule.action) ∧
      rule.selector ∈ Selector.parseList keys ∧ rule.selector.isMatch d i = true

/-- If a chain of a flavour matches a node, the rule for the node is from an entry with a chain
at least as long for nodes of that name. -/
theorem isChosenFrom_of_isMatch {entry : Text × Converter} {s : Selector}
    (hentry : entry ∈ flavour.entries o) (hs : s ∈ Selector.parseList entry.1)
    (hmatch : s.isMatch d i = true) :
    flavour.IsChosenFrom o d i (flavour.places s.target s.specificity) := by
  obtain ⟨rule, hrule⟩ := exists_best?_of_isMatch hentry hs hmatch
  obtain ⟨⟨keys, f⟩, hchosen, hselector, hmatches, haction⟩ := exists_entry_of_best? hrule
  obtain ⟨other, hother, rfl⟩ := exists_rule hentry hs
  obtain ⟨k, hk⟩ := List.getElem?_of_mem hchosen
  refine ⟨rule, hrule, k, ?_, keys, by rw [hk, haction], hselector, hmatches⟩
  exact mem_places hk hselector
    (Document.eqIgnoringCase_of_isNamed (Selector.isNamed_of_isMatch hmatches)
      (Selector.isNamed_of_isMatch hmatch))
    (RuleTable.specificity_le_of_best? hrule hother hmatch)

/-- The rule for a node with a name that a chain of one token is for. -/
theorem isChosenFrom_of_name {token : Text} (hchain : flavour.hasChain [token] = true)
    (hnamed : d.isNamed i token = true) :
    flavour.IsChosenFrom o d i (flavour.places token 1) := by
  obtain ⟨entry, hentry, s, hs, htokens⟩ := exists_selector_of_hasChain hchain o
  have htarget : s.target = token := by simp [Selector.target, htokens]
  have hmatch : s.isMatch d i = true :=
    Selector.isMatch_of_context_eq_nil (by simp [Selector.context, htokens])
      (by rw [htarget]; exact hnamed)
  have hchosen := isChosenFrom_of_isMatch hentry hs hmatch
  rwa [htarget, Selector.specificity, htokens] at hchosen

/-- The rule for a node with a name below another that a chain of two tokens is for. -/
theorem isChosenFrom_of_pair {above token : Text} {a : Nat}
    (hchain : flavour.hasChain [above, token] = true) (hnamed : d.isNamed i token = true)
    (ha : a ∈ d.innerAncestors i) (habove : d.isNamed a above = true) :
    flavour.IsChosenFrom o d i (flavour.places token 2) := by
  obtain ⟨entry, hentry, s, hs, htokens⟩ := exists_selector_of_hasChain hchain o
  have htarget : s.target = token := by simp [Selector.target, htokens]
  have hmatch : s.isMatch d i = true :=
    (Selector.isMatch_iff_of_context_eq (by simp [Selector.context, htokens])).mpr
      ⟨by rw [htarget]; exact hnamed, a, ha, habove⟩
  have hchosen := isChosenFrom_of_isMatch hentry hs hmatch
  rwa [htarget, Selector.specificity, htokens] at hchosen

/-- The Markdown that a converter writes, if it is chosen: an empty text counts as nothing, and
then what stands below is written. -/
def writtenBy (f : Converter) (d : Document) (i : Nat) (content : Text) :
    Except ConversionError Text :=
  (f d i content).map fun out => (out.filter (!·.isEmpty)).getD content

theorem writtenBy_some {f : Converter} {content out : Text}
    (hout : f d i content = .ok (some out)) (hne : out ≠ []) :
    writtenBy f d i content = .ok out := by
  have hfilled : (!out.isEmpty) = true := by simpa using hne
  simp only [writtenBy, hout, Except.map, Option.filter_some, hfilled, if_true, Option.getD_some]

theorem writtenBy_total {g : Document → Nat → Text → Option Text} {content out : Text}
    (hout : g d i content = some out) (hne : out ≠ []) :
    writtenBy (.total g) d i content = .ok out :=
  writtenBy_some (congrArg Except.ok hout) hne

theorem eq_of_writtenBy_total {g : Document → Nat → Text → Option Text} {content out text : Text}
    (hout : g d i content = some out) (hne : out ≠ [])
    (h : writtenBy (.total g) d i content = .ok text) : text = out := by
  rw [writtenBy_total hout hne] at h
  exact (Except.ok.inj h).symm

/-- What is written for a node whose converter is settled and does not abstain. -/
theorem eq_of_writes {R : Nat → Text} {g : Document → Nat → Text → Option Text} {out : Text}
    (hR : (flavour.renderer o).Writes d R)
    (hconvert : ∀ content,
      (flavour.renderer o).convert d i content = writtenBy (.total g) d i content)
    (hout : g d i ((d.children i).flatMap R) = some out) (hne : out ≠ []) : R i = out :=
  eq_of_writtenBy_total hout hne ((hconvert _).symm.trans (hR i))

/-- A node is written as what stands below it or as a converter writes it under whose keys it
falls. -/
theorem cases_of_convert {content text : Text}
    (h : (flavour.renderer o).convert d i content = .ok text) :
    text = content ∨ ∃ entry ∈ flavour.entries o, ∃ s ∈ Selector.parseList entry.1,
      s.isMatch d i = true ∧ entry.2 d i content = .ok (some text) := by
  unfold Renderer.convert at h
  cases hbest : (flavour.renderer o).best? d i with
  | none =>
    rw [hbest] at h
    exact Or.inl (Except.ok.inj h).symm
  | some rule =>
    obtain ⟨entry, hentry, hs, hmatch, haction⟩ := exists_entry_of_best? hbest
    rw [hbest] at h
    simp only [Rule.convert, haction] at h
    cases hout : entry.2 d i content with
    | error e =>
      rw [hout] at h
      cases h
    | ok out =>
      rw [hout] at h
      cases h
      rcases out with _ | _ | ⟨c, out⟩
      · exact Or.inl rfl
      · exact Or.inl rfl
      · exact Or.inr ⟨entry, hentry, _, hs, hmatch, hout⟩

theorem convert_of_action? {f : Converter} (h : (flavour.renderer o).action? d i = some f)
    (content : Text) :
    (flavour.renderer o).convert d i content = writtenBy f d i content := by
  obtain ⟨rule, hrule, rfl⟩ := Option.map_eq_some_iff.mp h
  rw [Renderer.convert, hrule]
  show (rule.convert d i content).map _ = _
  rw [Rule.convert, writtenBy]
  cases rule.action d i content <;> rfl

/-- The converter of the one entry that matches, of those that a node's rule can be from. -/
theorem IsChosenFrom.action?_eq {ks : List Nat} {keys : Text} {f : Converter}
    (h : flavour.IsChosenFrom o d i ks) (hk : (flavour.entries o)[k]? = some (keys, f))
    (hothers : ∀ l ∈ ks, l ≠ k → flavour.Skips d i l) :
    (flavour.renderer o).action? d i = some f := by
  obtain ⟨rule, hrule, l, hl, keys', hchosen, hselector, hmatches⟩ := h
  by_cases hlk : l = k
  · rw [hlk, hk] at hchosen
    cases hchosen
    exact RuleTable.action?_of_best? hrule
  · rw [hothers l hl hlk _ (getElem?_keys hchosen) _ hselector] at hmatches
    cases hmatches

/-- The converter of the only entry that a node's rule can be from. -/
theorem IsChosenFrom.convert_eq {keys : Text} {f : Converter}
    (h : flavour.IsChosenFrom o d i [k]) (hk : (flavour.entries o)[k]? = some (keys, f))
    (content : Text) :
    (flavour.renderer o).convert d i content = writtenBy f d i content :=
  convert_of_action? (h.action?_eq hk fun _ hl hne => absurd (List.mem_singleton.mp hl) hne) content

/-- The converter for a name that only one entry is for. -/
theorem convert_of_name {token keys : Text} {f : Converter}
    (hchain : flavour.hasChain [token] = true) (hplaces : flavour.places token 1 = [k])
    (hk : (flavour.entries o)[k]? = some (keys, f)) (hnamed : d.isNamed i token = true)
    (content : Text) :
    (flavour.renderer o).convert d i content = writtenBy f d i content := by
  have hchosen := isChosenFrom_of_name (o := o) hchain hnamed
  rw [hplaces] at hchosen
  exact hchosen.convert_eq hk content

/-- A node has no rule if no entry for its name matches. -/
theorem best?_eq_none_of_skips {token : Text} (hnamed : d.isNamed i token = true)
    (h : ∀ k ∈ flavour.places token 0, flavour.Skips d i k) :
    (flavour.renderer o).best? d i = none := by
  refine Option.eq_none_iff_forall_ne_some.mpr fun rule hbest => ?_
  obtain ⟨entry, hentry, hs, hmatch, -⟩ := exists_entry_of_best? hbest
  obtain ⟨k, hk⟩ := List.getElem?_of_mem hentry
  have hmem := mem_places hk hs
    (Document.eqIgnoringCase_of_isNamed (Selector.isNamed_of_isMatch hmatch) hnamed)
    (Nat.zero_le _)
  rw [h k hmem _ (getElem?_keys hk) _ hs] at hmatch
  cases hmatch

/-- A node with a name that no entry is for is written as its children are. -/
theorem convert_of_no_place {token : Text} (hplaces : flavour.places token 0 = [])
    (hnamed : d.isNamed i token = true) (content : Text) :
    (flavour.renderer o).convert d i content = .ok content := by
  rw [Renderer.convert, best?_eq_none_of_skips hnamed (by simp [hplaces])]

/-- The converter for a name below another, if only one entry is for such pairs. -/
theorem convert_of_pair {above token keys : Text} {f : Converter} {a : Nat}
    (hchain : flavour.hasChain [above, token] = true) (hplaces : flavour.places token 2 = [k])
    (hk : (flavour.entries o)[k]? = some (keys, f)) (hnamed : d.isNamed i token = true)
    (ha : a ∈ d.innerAncestors i) (habove : d.isNamed a above = true) (content : Text) :
    (flavour.renderer o).convert d i content = writtenBy f d i content := by
  have hchosen := isChosenFrom_of_pair (o := o) hchain hnamed ha habove
  rw [hplaces] at hchosen
  exact hchosen.convert_eq hk content

/-- The converter for a name that two entries are for, where no chain of the second matches. -/
theorem convert_of_first {token keys keys' : Text} {f f' : Converter} {l : Nat}
    (hchain : flavour.hasChain [token] = true) (hplaces : flavour.places token 1 = [k, l])
    (hk : (flavour.entries o)[k]? = some (keys, f))
    (hl : (flavour.entries o)[l]? = some (keys', f')) (hnamed : d.isNamed i token = true)
    (hnot : ∀ s ∈ Selector.parseList keys', s.isMatch d i = false) (content : Text) :
    (flavour.renderer o).convert d i content = writtenBy f d i content := by
  have hchosen := isChosenFrom_of_name (o := o) hchain hnamed
  rw [hplaces] at hchosen
  refine convert_of_action? (hchosen.action?_eq hk fun m hm hne keys'' hkeys => ?_) content
  rcases List.mem_pair.mp hm with rfl | rfl
  · exact absurd rfl hne
  · rw [getElem?_keys hl] at hkeys
    cases hkeys
    exact hnot

/-! ### Overwritten entries -/

/-- The chosen rule stands in the last entry with its chain. -/
theorem exists_last_place {rule : Rule Converter}
    (h : (flavour.renderer o).best? d i = some rule) :
    ∃ (k : Nat) (keys : Text), (flavour.entries o)[k]? = some (keys, rule.action) ∧
      rule.selector ∈ Selector.parseList keys ∧
        ∀ (l : Nat) (keys' : Text) (f : Converter), k < l →
          (flavour.entries o)[l]? = some (keys', f) →
            rule.selector ∉ Selector.parseList keys' := by
  have hrule := (RuleTable.best?_mem h).1
  rw [renderer_eq, Renderer.rules_ofList] at hrule
  obtain ⟨before, ⟨keys, f⟩, after, hsplit, hselector, rfl, hlater⟩ :=
    Rule.exists_last_of_mem_lastWrites hrule
  refine ⟨before.length, keys, by simp [hsplit], hselector, ?_⟩
  intro l keys' f' hlt hl
  rw [hsplit, List.getElem?_append_right (Nat.le_of_lt hlt)] at hl
  obtain ⟨m, hm⟩ := Nat.exists_eq_succ_of_ne_zero (Nat.sub_ne_zero_of_lt hlt)
  rw [hm, List.getElem?_cons_succ] at hl
  exact hlater _ (List.mem_of_getElem? hl)

/-- The converter for a name below another, if two entries are for such pairs and the second has
overwritten the first. -/
theorem convert_of_overwritten {above token keys : Text} {f f' : Converter} {a l : Nat}
    (hchain : flavour.hasChain [above, token] = true) (hplaces : flavour.places token 2 = [k, l])
    (hkl : k < l) (hk : (flavour.entries o)[k]? = some (keys, f))
    (hl : (flavour.entries o)[l]? = some (keys, f'))
    (hkeys : ∀ s ∈ Selector.parseList keys, s.specificity = 2)
    (hnamed : d.isNamed i token = true) (ha : a ∈ d.innerAncestors i)
    (habove : d.isNamed a above = true) (content : Text) :
    (flavour.renderer o).convert d i content = writtenBy f' d i content := by
  obtain ⟨rule, hrule, m, hm, keys', hchosen, hselector, hmatches⟩ :=
    isChosenFrom_of_pair (o := o) hchain hnamed ha habove
  have hsame : keys' = keys := by
    rw [hplaces, List.mem_pair] at hm
    rcases hm with rfl | rfl
    · rw [hk, Option.some_inj, Prod.mk.injEq] at hchosen
      exact hchosen.1.symm
    · rw [hl, Option.some_inj, Prod.mk.injEq] at hchosen
      exact hchosen.1.symm
  rw [hsame] at hselector
  obtain ⟨n, keys'', hlast, hselector', hlater⟩ := exists_last_place hrule
  have htarget := Document.eqIgnoringCase_of_isNamed (Selector.isNamed_of_isMatch hmatches) hnamed
  have hn := mem_places hlast hselector' htarget (Nat.le_of_eq (hkeys _ hselector).symm)
  rw [hplaces, List.mem_pair] at hn
  rcases hn with rfl | rfl
  · exact absurd hselector (hlater l keys f' hkl hl)
  · rw [hl, Option.some_inj, Prod.mk.injEq] at hlast
    rw [convert_of_action? (RuleTable.action?_of_best? hrule), hlast.2]

/-! ### Line breaks -/

theorem places_hardBreak (flavour : Flavour) :
    flavour.hasChain ["BR".toList] = true ∧ flavour.places "BR".toList 1 = [3] := by
  rw [hasChain_eq, places_eq]
  cases flavour <;> decide

theorem entry_hardBreak (flavour : Flavour) (o : Options) :
    (flavour.entries o)[3]? = some ("BR".toList, CommonMark.hardBreak) := by
  cases flavour <;> rfl

/-- A line break is always written. -/
theorem write_hardBreak {R : Nat → Text} (hR : (flavour.renderer o).Writes d R)
    (hnamed : d.isNamed i "BR".toList = true) : R i = Markdown.lineBreak := by
  obtain ⟨hchain, hplaces⟩ := places_hardBreak flavour
  exact eq_of_writes hR (convert_of_name hchain hplaces (entry_hardBreak flavour o) hnamed) rfl
    (by decide)

/-! ### Text -/

theorem hasChain_text (flavour : Flavour) : flavour.hasChain [textRuleName] = true := by
  rw [hasChain_eq]
  cases flavour <;> decide

theorem hasChain_rawText (flavour : Flavour) :
    flavour.hasChain ["PRE".toList, textRuleName] = true ∧
      flavour.hasChain ["CODE".toList, textRuleName] = true := by
  rw [hasChain_eq, hasChain_eq]
  cases flavour <;> decide

theorem places_text (flavour : Flavour) :
    flavour.places textRuleName 1 = [0, 1] ∧ flavour.places textRuleName 2 = [1] := by
  rw [places_eq, places_eq]
  cases flavour <;> decide

theorem entries_text (flavour : Flavour) (o : Options) :
    (flavour.entries o)[0]? = some ("TEXT_NODE".toList, CommonMark.text) ∧
      (flavour.entries o)[1]? =
        some ("PRE TEXT_NODE, CODE TEXT_NODE".toList, CommonMark.rawText) := by
  cases flavour <;> exact ⟨rfl, rfl⟩

theorem isChosenFrom_of_isRaw (flavour : Flavour) (o : Options)
    (hnamed : d.isNamed i textRuleName = true) (hraw : d.isRaw i = true) :
    flavour.IsChosenFrom o d i [1] := by
  obtain ⟨a, ha, habove⟩ := List.any_eq_true.mp hraw
  obtain ⟨hpre, hcode⟩ := hasChain_rawText flavour
  rw [← (places_text flavour).2]
  rcases Bool.or_eq_true_iff.mp habove with habove | habove
  · exact isChosenFrom_of_pair hpre hnamed ha habove
  · exact isChosenFrom_of_pair hcode hnamed ha habove

/-- Text below preformatted text or code is written as it is. -/
theorem convert_of_isRaw (flavour : Flavour) (o : Options)
    (hnamed : d.isNamed i textRuleName = true) (hraw : d.isRaw i = true) (content : Text) :
    (flavour.renderer o).convert d i content = writtenBy CommonMark.rawText d i content :=
  (isChosenFrom_of_isRaw flavour o hnamed hraw).convert_eq (entries_text flavour o).2 content

theorem context_of_rawText : ∀ s ∈ Selector.parseList "PRE TEXT_NODE, CODE TEXT_NODE".toList,
    s.context = ["PRE".toList] ∨ s.context = ["CODE".toList] := by
  decide

theorem isRaw_of_isMatch {s : Selector}
    (hs : s ∈ Selector.parseList "PRE TEXT_NODE, CODE TEXT_NODE".toList)
    (hmatch : s.isMatch d i = true) : d.isRaw i = true := by
  rcases context_of_rawText s hs with hcontext | hcontext
  · obtain ⟨-, a, ha, hnamed⟩ := (Selector.isMatch_iff_of_context_eq hcontext).mp hmatch
    exact List.any_eq_true.mpr ⟨a, ha, by rw [hnamed, Bool.true_or]⟩
  · obtain ⟨-, a, ha, hnamed⟩ := (Selector.isMatch_iff_of_context_eq hcontext).mp hmatch
    exact List.any_eq_true.mpr ⟨a, ha, by rw [hnamed, Bool.or_true]⟩

/-- Other text is written in the flow. -/
theorem convert_of_not_isRaw (flavour : Flavour) (o : Options)
    (hnamed : d.isNamed i textRuleName = true) (hraw : d.isRaw i = false) (content : Text) :
    (flavour.renderer o).convert d i content = writtenBy CommonMark.text d i content := by
  refine convert_of_first (hasChain_text flavour) (places_text flavour).1
    (entries_text flavour o).1 (entries_text flavour o).2 hnamed ?_ content
  intro s hs
  cases hmatch : s.isMatch d i with
  | false => rfl
  | true =>
    rw [isRaw_of_isMatch hs hmatch] at hraw
    cases hraw

theorem context_of_text : ∀ s ∈ Selector.parseList "TEXT_NODE".toList,
    s.context = [] ∧ s.target = textRuleName := by
  decide

/-- The rule for text in the flow is chosen for no node in preformatted text or code. -/
theorem isRaw_eq_false_of_best? {rule : Rule Converter}
    (h : (flavour.renderer o).best? d i = some rule)
    (hs : rule.selector ∈ Selector.parseList "TEXT_NODE".toList) : d.isRaw i = false := by
  obtain ⟨hcontext, htarget⟩ := context_of_text _ hs
  have hnamed := Selector.isNamed_of_isMatch (RuleTable.best?_mem h).2
  rw [htarget] at hnamed
  cases hraw : d.isRaw i with
  | false => rfl
  | true =>
    -- a chain of two tokens matches as well, and such a chain is in the other entry
    obtain ⟨rule', hrule', k, hk, keys, hchosen, hselector, -⟩ :=
      isChosenFrom_of_isRaw flavour o hnamed hraw
    rw [List.mem_singleton] at hk
    rw [hk, (entries_text flavour o).2, Option.some_inj, Prod.mk.injEq] at hchosen
    rw [hrule', Option.some_inj] at h
    rw [← hchosen.1, h] at hselector
    rcases context_of_rawText _ hselector with hother | hother
    · rw [hcontext] at hother
      cases hother
    · rw [hcontext] at hother
      cases hother

end Flavour

end TreeMarkdown
