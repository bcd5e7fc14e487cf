/-
The name of text nodes on an element.

Selectors find text nodes under one name, which is meant for them alone, but nothing keeps an
element from bearing it. As long as none does, a selector with this name for its target matches
text nodes only, and the rules for text are run on nothing else (`text_rules_on_elements`). An
element of that name gets a rule for text: it has no text of its own to write, and what stands
below it is written instead, unless there is white space at its ends. Then the one space that is
put there counts as what the element writes, and what stands below it is lost
(`text_lost_in_reservedName`).
-/

import TreeMarkdown.Profile
import TreeMarkdown.Proofs.Document.Growth
import TreeMarkdown.Proofs.Rules.Chosen

namespace TreeMarkdown

theorem Document.spaced_nil (d : Document) (i : Nat) :
    d.spaced i [] = if d.spaceBefore i || d.spaceAfter i then [' '] else [] := by
  unfold spaced
  cases d.spaceBefore i <;> cases d.spaceAfter i <;> rfl

namespace Flavour

variable {d : Document} {i : Nat}

theorem target_of_rawText : ∀ s ∈ Selector.parseList "PRE TEXT_NODE, CODE TEXT_NODE".toList,
    s.target = textRuleName := by
  decide

/-- Under the name of text nodes only the rules for text are found. -/
theorem exists_text_rule (flavour : Flavour) (o : Options)
    (hnamed : d.isNamed i textRuleName = true) :
    ∃ rule, (flavour.renderer o).best? d i = some rule ∧ rule.selector.target = textRuleName := by
  obtain ⟨rule, hrule, k, hk, keys, hchosen, hselector, -⟩ :=
    isChosenFrom_of_name (o := o) (hasChain_text flavour) hnamed
  obtain ⟨htext, hraw⟩ := entries_text flavour o
  refine ⟨rule, hrule, ?_⟩
  rw [(places_text flavour).1, List.mem_pair] at hk
  rcases hk with rfl | rfl
  · rw [htext, Option.some_inj, Prod.mk.injEq] at hchosen
    exact (context_of_text _ (hchosen.1 ▸ hselector)).2
  · rw [hraw, Option.some_inj, Prod.mk.injEq] at hchosen
    exact target_of_rawText _ (hchosen.1 ▸ hselector)

/-- What is written for a node of that name. -/
theorem convert_of_isNamed_textRuleName (flavour : Flavour) (o : Options)
    (hnamed : d.isNamed i textRuleName = true) (content : Text) :
    (flavour.renderer o).convert d i content =
      writtenBy (if d.isRaw i then CommonMark.rawText else CommonMark.text) d i content := by
  split
  · exact convert_of_isRaw flavour o hnamed ‹_› content
  · exact convert_of_not_isRaw flavour o hnamed (Bool.eq_false_iff.mpr ‹_›) content

/-- The rules for text write nothing for a node without a value, but a space where white space
adjoins it in the flow. -/
theorem writtenBy_text_of_value?_eq_none (hvalue : d.value? i = none) (content : Text) :
    writtenBy (if d.isRaw i then CommonMark.rawText else CommonMark.text) d i content =
      .ok (if !d.isRaw i && (d.spaceBefore i || d.spaceAfter i) then [' '] else content) := by
  cases hraw : d.isRaw i with
  | true =>
    rw [if_pos rfl]
    show Except.ok (((d.value? i).filter (!·.isEmpty)).getD content) = _
    rw [hvalue]
    rfl
  | false =>
    have hown : d.ownText i = [] := by rw [← d.value?_getD, hvalue]; rfl
    have htext : Text.escape (Text.trim (Text.collapseSpaces [])) = [] := by decide
    rw [if_neg Bool.false_ne_true]
    show Except.ok (((some (d.spaced i (Text.escape (Text.trim (Text.collapseSpaces
      (d.ownText i)))))).filter (!·.isEmpty)).getD content) = _
    rw [hown, htext, d.spaced_nil]
    cases d.spaceBefore i || d.spaceAfter i <;> rfl

/-- The name of text nodes finds nothing but text exactly as long as no element bears it. An
element is given a rule for text exactly if it does, and then what stands below it is replaced by
what that rule writes for the element: its own value, which elements do not have, or otherwise a
single space if there is white space at its ends outside of preformatted text and code. -/
theorem text_rules_on_elements (flavour : Flavour) (o : Options) (d : Document) :
    ((∀ s : Selector, s.target = textRuleName → ∀ i, s.isMatch d i = true → d.isText i = true) ↔
        ∀ i, d.isElement i = true → d.isNamed i textRuleName = false) ∧
      (∀ i, d.isElement i = true →
        ((∃ rule, (flavour.renderer o).best? d i = some rule ∧
          rule.selector.target = textRuleName) ↔ d.isNamed i textRuleName = true)) ∧
      ∀ i, d.isElement i = true → d.isNamed i textRuleName = true → ∀ content,
        (flavour.renderer o).convert d i content =
            writtenBy (if d.isRaw i then CommonMark.rawText else CommonMark.text) d i content ∧
          (d.value? i = none → (flavour.renderer o).convert d i content =
            .ok (if !d.isRaw i && (d.spaceBefore i || d.spaceAfter i) then [' '] else content)) := by
  refine ⟨⟨fun h i helement => ?_, fun h s htarget i hmatch => ?_⟩, fun i _ => ⟨?_, ?_⟩, ?_⟩
  · refine Bool.eq_false_iff.mpr fun hnamed => ?_
    obtain ⟨rule, hrule, htarget⟩ := exists_text_rule flavour o hnamed
    have htext := h _ htarget i (RuleTable.best?_mem hrule).2
    exact Bool.noConfusion (helement.symm.trans (Document.isElement_eq_false_of_isText htext))
  · have hnamed := htarget ▸ Selector.isNamed_of_isMatch hmatch
    refine (Document.isText_or_isElement_of_isNamed hnamed).resolve_right fun helement => ?_
    exact Bool.noConfusion (hnamed.symm.trans (h i helement))
  · rintro ⟨rule, hrule, htarget⟩
    exact htarget ▸ Selector.isNamed_of_isMatch (RuleTable.best?_mem hrule).2
  · exact exists_text_rule flavour o
  · intro i _ hnamed content
    have hconvert := convert_of_isNamed_textRuleName flavour o hnamed content
    exact ⟨hconvert, fun hvalue => hconvert.trans (writtenBy_text_of_value?_eq_none hvalue content)⟩

/-- An element that bears the name of text nodes, behind a text that ends in a space. -/
def reservedName : Document :=
  Document.grown
    [(0, .text "a ".toList), (0, .element "text_node".toList []), (2, .text "b".toList)]

theorem text_rules_on_elements_reservedName :
    reservedName.isElement 2 = true ∧ reservedName.isNamed 2 textRuleName = true ∧
      ∀ content, (commonMark.renderer {}).convert reservedName 2 content = .ok [' '] := by
  have helement : reservedName.isElement 2 = true := by decide +kernel
  have hnamed : reservedName.isNamed 2 textRuleName = true := by decide +kernel
  have hvalue : reservedName.value? 2 = none := by decide +kernel
  have hspace : (!reservedName.isRaw 2 &&
      (reservedName.spaceBefore 2 || reservedName.spaceAfter 2)) = true := by
    decide +kernel
  refine ⟨helement, hnamed, fun content => ?_⟩
  have hrules := (text_rules_on_elements .commonMark {} reservedName).2.2
  rw [(hrules 2 helement hnamed content).2 hvalue, if_pos hspace]

/-- A selector for text matches the element, and the text below it is lost. -/
theorem text_lost_in_reservedName :
    reservedName.Reachable ∧ reservedName.isText 2 = false ∧
      (∃ s : Selector, s.target = textRuleName ∧ s.isMatch reservedName 2 = true) ∧
      reservedName.textContent Document.root = "a b".toList ∧
      (Profile.ofFlavour .commonMark {}).convert reservedName = .ok "a  ".toList := by
  have hnamed : reservedName.isNamed 2 textRuleName = true := by decide +kernel
  obtain ⟨rule, hrule, htarget⟩ := exists_text_rule .commonMark {} hnamed
  refine ⟨Document.reachable_grown _, by decide +kernel, ?_, by decide +kernel, by decide +kernel⟩
  exact ⟨rule.selector, htarget, (RuleTable.best?_mem hrule).2⟩

end Flavour

end TreeMarkdown
