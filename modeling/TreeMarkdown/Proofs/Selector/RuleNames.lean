/-
The name of a node in reports, and the selector of one token that matches it.

The two are spelled apart. In a report the name of a node is in capitals by the full mapping, and
so are the tokens of a selector; but a match compares a token with the name as it stands, where
only ASCII letters have two cases. What matches a node is its name in the report
(`match_of_single_token`). The converse is true of elements that were made as such, since these
have their names in capitals, and of text, but not of an element with a small letter beyond ASCII
in its name: the name in the report does not match it, and nothing else does
(`match_of_single_token_smallName`).
-/

import TreeMarkdown.Proofs.Document.Growth
import TreeMarkdown.Proofs.Document.Subtree
import TreeMarkdown.Proofs.Selector.Matching
import TreeMarkdown.Proofs.Selector.Reading

namespace TreeMarkdown

open Text

namespace Node

variable {n : Node} {token : Text}

/-- The name is in capitals, the case of ASCII letters apart. What text nodes are called does not
matter. -/
def hasCapitalName (n : Node) : Bool :=
  n.isText || eqIgnoringCase n.name (upper n.name)

theorem hasCapitalName_element (tag : Text) (attributes : List (Text × Text)) :
    (element tag attributes).hasCapitalName = true := by
  have hname : eqIgnoringCase (upper tag) (upper (upper tag)) = true := by
    rw [upper_upper, eqIgnoringCase_iff]
  rw [hasCapitalName, Bool.or_eq_true]
  exact Or.inr hname

theorem upper_ruleName (n : Node) : upper n.ruleName = n.ruleName := by
  rw [ruleName]
  split
  · decide
  · exact upper_upper n.name

/-- A token in capitals names a node exactly if it is the name in the report and the name of the
node is in capitals as well. -/
theorem isNamed_iff_ruleName (hkind : n.isDocument = false) (htoken : upper token = token) :
    n.isNamed token = true ↔ token = n.ruleName ∧ n.hasCapitalName = true := by
  unfold isNamed ruleName hasCapitalName isText
  cases hn : n.kind with
  | text =>
    have hname : upper textRuleName = textRuleName := by decide
    simp only [beq_self_eq_true, if_true, Bool.true_or, and_true]
    constructor
    · intro h
      rw [← htoken, upper_eq_of_eqIgnoringCase h, hname]
    · rintro rfl
      exact eqIgnoringCase_iff.mpr rfl
  | element =>
    have htext : (NodeKind.element == NodeKind.text) = false := rfl
    simp only [htext, Bool.false_eq_true, if_false, Bool.false_or]
    constructor
    · intro h
      have hsame : token = upper n.name := by rw [upper_eq_of_eqIgnoringCase h, htoken]
      exact ⟨hsame, hsame ▸ h⟩
    · rintro ⟨rfl, h⟩
      exact h
  | document => simp [isDocument, hn] at hkind

end Node

namespace Selector

variable {s : Selector} {d : Document} {i : Nat} {key token : Text} {n : Node}

theorem upper_target (h : parse? key = some s) : upper s.target = s.target :=
  isRead_iff.mp ⟨key, h⟩ s.target (List.getLast_mem s.tokens_ne_nil)

theorem context_eq_nil (h : s.specificity = 1) : s.context = [] := by
  obtain ⟨token, htokens⟩ := List.length_eq_one_iff.mp h
  rw [context, htokens]
  rfl

/-- A token in capitals is read as the selector of that token. -/
theorem exists_parse?_of_isToken (htoken : IsToken token) (hupper : upper token = token) :
    ∃ s, parse? token = some s ∧ s.specificity = 1 ∧ s.target = token := by
  let s : Selector := ⟨[token], List.cons_ne_nil _ _, fun t ht => List.mem_singleton.mp ht ▸ htoken⟩
  have hkey : s.key = token := List.intercalate_singleton
  have htokens : tokensOf token = s.tokens :=
    hkey ▸ tokensOf_key fun w hw => List.mem_singleton.mp hw ▸ hupper
  exact ⟨s, parse?_eq_some_iff.mpr htokens, rfl, rfl⟩

/-- A selector of one token matches the nodes that the token names. -/
theorem score?_eq_some_one_iff (hone : s.specificity = 1) :
    s.score? d i = some 1 ↔ d.isNamed i s.target = true := by
  rw [score?, hone]
  constructor
  · intro h
    split at h
    · exact isNamed_of_isMatch ‹_›
    · cases h
  · intro h
    rw [if_pos (isMatch_of_context_eq_nil (context_eq_nil hone) h)]

theorem score?_eq_some_one_iff_ruleName (hn : d.node? i = some n) (hroot : i ≠ Document.root)
    (hparse : parse? key = some s) (hone : s.specificity = 1) :
    s.score? d i = some 1 ↔ s.target = d.ruleName i ∧ n.hasCapitalName = true := by
  have hname : d.ruleName i = n.ruleName := by rw [Document.ruleName, hn]; rfl
  have hkind : n.isDocument = false := by
    refine Bool.eq_false_iff.mpr fun hdocument => hroot (d.isRoot_iff.mp ?_)
    exact Document.satisfies_eq_true_iff.mpr ⟨n, hn, hdocument⟩
  rw [score?_eq_some_one_iff hone, hname, ← Node.isNamed_iff_ruleName hkind (upper_target hparse),
    Document.isNamed, Document.satisfies, hn, Option.any_some]

/-- For any node but the root, whatever its name, and any selector of one token: it matches the
node exactly if its token is the name of the node in reports and the name that the node bears is
in capitals, the case of ASCII letters apart. So all such selectors that match have the name in
the report for their token; and that all selectors with this token match takes a name in
capitals, unless no selector has the token. Elements that were made as such have their names in
capitals. -/
theorem match_of_single_token (d : Document) (i : Nat) (n : Node) (hn : d.node? i = some n)
    (hroot : i ≠ Document.root) :
    (∀ key s, parse? key = some s → s.specificity = 1 →
        (s.score? d i = some 1 ↔ s.target = d.ruleName i ∧ n.hasCapitalName = true)) ∧
      ((∀ key s, parse? key = some s → s.specificity = 1 →
          (s.score? d i = some 1 ↔ s.target = d.ruleName i)) ↔
        n.hasCapitalName = true ∨ ¬ IsToken (d.ruleName i)) ∧
      ((∃ tag attributes, n = .element tag attributes) → n.hasCapitalName = true) := by
  have hmatch : ∀ key s, parse? key = some s → s.specificity = 1 →
      (s.score? d i = some 1 ↔ s.target = d.ruleName i ∧ n.hasCapitalName = true) :=
    fun key s => score?_eq_some_one_iff_ruleName hn hroot
  refine ⟨hmatch, ⟨fun h => ?_, fun h key s hparse hone => ?_⟩, ?_⟩
  · rw [or_iff_not_imp_right, not_not]
    intro htoken
    -- the name in the report is itself read as a selector, with nothing but this name in it
    have hupper : upper (d.ruleName i) = d.ruleName i := by
      rw [Document.ruleName, hn]
      exact n.upper_ruleName
    obtain ⟨s, hparse, hone, htarget⟩ := exists_parse?_of_isToken htoken hupper
    exact ((hmatch _ s hparse hone).mp ((h _ s hparse hone).mpr htarget)).2
  · rw [hmatch key s hparse hone]
    refine and_iff_left_of_imp fun htarget => h.resolve_right (not_not.mpr ?_)
    exact htarget ▸ s.isToken _ (List.getLast_mem s.tokens_ne_nil)
  · rintro ⟨tag, attributes, rfl⟩
    exact Node.hasCapitalName_element tag attributes

/-- Two elements of the same name in reports, the first with a small letter beyond ASCII in the
name that it bears. -/
def smallName : Document :=
  Document.grown [(0, ⟨.element, ['é'], none, []⟩), (0, .element ['é'] [])]

/-- The selector that has the name of both elements for its token matches the second of them. -/
theorem match_of_single_token_element :
    smallName.node? 2 = some (.element ['é'] []) ∧ 2 ≠ Document.root ∧
      ∀ key s, parse? key = some s → s.specificity = 1 →
        (s.score? smallName 2 = some 1 ↔ s.target = smallName.ruleName 2) := by
  have hn : smallName.node? 2 = some (.element ['é'] []) := by decide +kernel
  have hroot : 2 ≠ Document.root := by decide
  obtain ⟨-, hagree, hcapital⟩ := match_of_single_token smallName 2 _ hn hroot
  exact ⟨hn, hroot, hagree.mpr (Or.inl (hcapital ⟨_, _, rfl⟩))⟩

/-- But it does not match the first. -/
theorem match_of_single_token_smallName :
    smallName.Reachable ∧ smallName.node? 1 = some ⟨.element, ['é'], none, []⟩ ∧
      1 ≠ Document.root ∧ ∃ s, parse? ['é'] = some s ∧ s.specificity = 1 ∧
        s.target = smallName.ruleName 1 ∧ s.score? smallName 1 = none := by
  have hread : (parse? ['é']).map (fun s => (s.specificity, s.target, s.score? smallName 1)) =
      some (1, smallName.ruleName 1, none) := by
    decide +kernel
  obtain ⟨s, hparse, hseen⟩ := Option.map_eq_some_iff.mp hread
  simp only [Prod.mk.injEq] at hseen
  exact ⟨Document.reachable_grown _, by decide +kernel, by decide, s, hparse, hseen⟩

end Selector

end TreeMarkdown
