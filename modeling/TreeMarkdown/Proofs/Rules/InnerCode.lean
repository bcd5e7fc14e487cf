/-
Code anywhere below preformatted text.

The rule for code in preformatted text looks for preformatted text among all ancestors. The rule
for preformatted text itself looks for code among the children only, and abstains if there is any
(`holdsCode_iff`). So code that is a child is laid out once. Code that stands deeper is laid out
where it stands, passed on by the elements around it (`isKept_above`), and then indented once more
with everything else in the preformatted text (`laidOutOnce_iff`). It only fails to get there if an
element around it writes nothing of what it holds, a line break for instance.
-/

import TreeMarkdown.Proofs.Rules.Dispatch
import TreeMarkdown.Proofs.Rules.IndentedCode
import TreeMarkdown.Proofs.Rules.KeptText

namespace TreeMarkdown

open Text Markdown

/-- The Markdown that is given is kept in what the converter writes, or is written as it is. -/
theorem KeepsContent.isKept_of_writtenBy {f : Converter} (h : KeepsContent f) {d : Document} {i : Nat}
    {content text : Text} (hwritten : Flavour.writtenBy f d i content = .ok text) :
    IsKept content text := by
  rw [Flavour.writtenBy] at hwritten
  cases hout : f d i content with
  | error e =>
    rw [hout] at hwritten
    cases hwritten
  | ok out =>
    rw [hout] at hwritten
    cases hwritten
    show IsKept content ((out.filter (!·.isEmpty)).getD content)
    cases hfilter : out.filter (!·.isEmpty) with
    | none => exact .refl content
    | some written => exact h d i content out hout written (Option.filter_eq_some_iff.mp hfilter).1

namespace CommonMark

variable {o : Options} {d : Document} {R : Nat → Text} {c i p : Nat}

/-! ### What is passed on -/

/-- The names whose converters write nothing of what stands below the node. -/
def leafNames : List String :=
  ["TEXT_NODE", "BR", "HR", "IMG"]

theorem keepsContent_of_plain : ∀ entry ∈ plain o,
    KeepsContent entry.2 ∨ ∀ name ∈ entry.1, name ∈ leafNames := by
  simp only [plain, List.forall_mem_cons]
  refine ⟨?paragraph, ?hardBreak, ?heading, ?blockquote, ?preformatted, ?thematicBreak, ?link,
    ?emphasis, ?strong, ?image, by simp⟩
  case paragraph => exact Or.inl (keepsContent_block isKept_trim)
  case hardBreak => exact Or.inr (by decide)
  case heading => exact Or.inl (keepsContent_heading o)
  case blockquote => exact Or.inl (.ofContent keeps_quote)
  case preformatted => exact Or.inl keepsContent_preformatted
  case thematicBreak => exact Or.inr (by decide)
  case link => exact Or.inl keepsContent_link
  case emphasis => exact Or.inl (keepsContent_span _)
  case strong => exact Or.inl (keepsContent_span _)
  case image => exact Or.inr (by decide)

/-- In preformatted text every other name has a converter that writes what it is given. -/
theorem keepsContent_of_dispatch {f : Converter} (h : dispatch o d i = some f)
    (hleaf : d.isOneOf i leafNames = false) (hpre : d.standsIn i ["PRE"] = true) :
    KeepsContent f := by
  unfold dispatch at h
  split at h
  · rename_i htext
    have hnamed : d.isOneOf i leafNames = true :=
      Document.isOneOf_iff.mpr ⟨"TEXT_NODE", by decide, Document.isNamed_textRuleName htext⟩
    exact Bool.noConfusion (hnamed.symm.trans hleaf)
  split at h
  · cases h
    exact keepsContent_codeBlock o
  split at h
  · cases h
    split
    · exact .ofContent keeps_nestedList
    · exact keepsContent_block isKept_stripNewlines
  split at h
  · split at h
    · cases h
      exact keepsContent_listItem _
    · cases h
  obtain ⟨entry, hentry, rfl⟩ := Option.map_eq_some_iff.mp h
  rcases keepsContent_of_plain entry (List.mem_of_find?_eq_some hentry) with hkeeps | hleaves
  · exact hkeeps
  · obtain ⟨name, hname, hnamed⟩ :=
      Document.isOneOf_iff.mp (List.find?_eq_some_iff_append.mp hentry).1
    have hany := Document.isOneOf_iff.mpr ⟨name, hleaves name hname, hnamed⟩
    exact Bool.noConfusion (hany.symm.trans hleaf)

/-- A node in preformatted text is written with all that is written for its children, unless it has
one of the names above. -/
theorem isKept_content (hR : (Flavour.commonMark.renderer o).Writes d R)
    (hleaf : d.isOneOf i leafNames = false) (hpre : d.standsIn i ["PRE"] = true) :
    IsKept ((d.children i).flatMap R) (R i) := by
  have hunnamed : d.isNamed i textRuleName = false := by
    simp only [leafNames, Document.isOneOf, List.any_cons, Bool.or_eq_false_iff] at hleaf
    exact hleaf.1
  have hdispatch := action?_eq_dispatch (o := o) (i := i) fun _ => hunnamed
  have hwritten := hR i
  cases haction : (Flavour.commonMark.renderer o).action? d i with
  | none =>
    rw [Renderer.convert, RuleTable.action?_eq_none_iff.mp haction] at hwritten
    exact Except.ok.inj hwritten ▸ .refl _
  | some f =>
    rw [Flavour.convert_of_action? haction] at hwritten
    have hkeeps := keepsContent_of_dispatch (hdispatch.symm.trans haction) hleaf hpre
    exact hkeeps.isKept_of_writtenBy hwritten

/-- What is written for a node comes up to preformatted text above it, if no node in between has
one of the names above. -/
theorem isKept_above (hR : (Flavour.commonMark.renderer o).Writes d R)
    (hp : d.isNamed p "PRE".toList = true) (hc : p ∈ d.ancestors c)
    (hbetween : ∀ q ∈ d.ancestors c, p ∈ d.ancestors q → d.isOneOf q leafNames = false) :
    IsKept (R c) ((d.children p).flatMap R) := by
  induction c using d.parentInduction with
  | step c ih =>
    obtain ⟨q, hq, hpq⟩ := Document.mem_ancestors_iff.mp hc
    have hchild : IsKept (R c) ((d.children q).flatMap R) := by
      obtain ⟨before, after, hsplit⟩ := List.append_of_mem (Document.mem_children_iff.mpr hq)
      rw [hsplit, List.flatMap_append, List.flatMap_cons]
      exact ((IsKept.refl (R c)).append_right _).append_left _
    rcases hpq with rfl | hpq
    · exact hchild
    · have hself : q ∈ d.ancestors c := Document.mem_ancestors_iff.mpr ⟨q, hq, Or.inl rfl⟩
      have hwhole := isKept_content hR (hbetween q hself hpq)
        (Document.standsIn_of_mem_ancestors hpq hp)
      refine (hchild.trans hwhole).trans (ih q hq hpq fun r hr => hbetween r ?_)
      exact Document.mem_ancestors_iff.mpr ⟨q, hq, Or.inr hr⟩

/-! ### Code in preformatted text -/

/-- A code block is written only for more than white space, and what is written is more than that as
well. -/
theorem strip_ne_nil_of_codeBlock {content block : Text}
    (h : codeBlock o d c content = .ok (some block)) : strip block ≠ [] := by
  have hcontent : strip content ≠ [] := by
    intro hblank
    have hnone : codeBlock o d c content = .ok none := by
      rw [codeBlock, Converter.total]
      cases o.codeBlockStyle with
      | indented => simp only [indentedCode, codeText?_eq_none hblank, bind, Option.bind_none]
      | fenced => simp only [fencedCode, codeText?_eq_none hblank, bind, Option.bind_none]
    rw [hnone] at h
    cases h
  exact (keepsContent_codeBlock o d c content _ h block rfl).strip_ne_nil hcontent

/-- The rule of preformatted text abstains for node `p`, where `R` gives what is written for its
children. -/
def Abstains (d : Document) (R : Nat → Text) (p : Nat) : Prop :=
  preformatted d p ((d.children p).flatMap R) = .ok none

/-- The rule abstains if there is a code element among the children, or nothing but white space is
written for them. -/
theorem abstains_iff : Abstains d R p ↔
    (∃ child ∈ d.children p, d.isNamed child "CODE".toList = true) ∨
      strip ((d.children p).flatMap R) = [] := by
  rw [← Document.holdsCode_iff, ← indentedCode_eq_none_iff, Abstains, preformatted,
    Converter.total]
  cases holdsCode d p <;> simp

/-- Preformatted text is written as its children are if its rule abstains, and otherwise as indented
code. -/
theorem write_of_abstains (hR : (Flavour.commonMark.renderer o).Writes d R)
    (hp : d.isNamed p "PRE".toList = true) :
    (Abstains d R p → R p = (d.children p).flatMap R) ∧
      (¬ Abstains d R p → indentedCode ((d.children p).flatMap R) = some (R p)) := by
  have hwritten := Flavour.write_preformatted hR hp
  rw [abstains_iff, ← Document.holdsCode_iff]
  constructor
  · rintro (hcode | hblank)
    · rw [hwritten, hcode]
      rfl
    · rw [hwritten, indentedCode_eq_none_iff.mpr hblank, ite_self]
      rfl
  · rw [not_or, Bool.not_eq_true]
    rintro ⟨hcode, hshown⟩
    rw [hwritten, hcode, indentedCode_of_shown hshown]
    rfl

/-- Whether code below preformatted text is laid out once. The code is a block, and so the rule of
the preformatted text has to abstain. It does if some code element is a child of the preformatted
text. If not, and unless the block is lost in an element that is written without its content, the
rule goes on to indent the lines of the block once more. -/
theorem laidOutOnce_iff (o : Options) (d : Document) (p c : Nat)
    (hp : d.isNamed p "PRE".toList = true) (hc : d.isNamed c "CODE".toList = true)
    (hbelow : p ∈ d.ancestors c) :
    ∃ R : Nat → Text, (∀ i, (Flavour.commonMark.renderer o).render d i = .ok (R i)) ∧
      (Flavour.commonMark.renderer o).action? d p = some preformatted ∧
      (Flavour.commonMark.renderer o).action? d c = some (codeBlock o) ∧
      (Abstains d R p → R p = (d.children p).flatMap R) ∧
      (¬ Abstains d R p → indentedCode ((d.children p).flatMap R) = some (R p)) ∧
      (Abstains d R p ↔ (∃ child ∈ d.children p, d.isNamed child "CODE".toList = true) ∨
        strip ((d.children p).flatMap R) = []) ∧
      ∀ block, codeBlock o d c ((d.children c).flatMap R) = .ok (some block) →
        R c = block ∧
          ((∀ q ∈ d.ancestors c, p ∈ d.ancestors q → d.isOneOf q leafNames = false) →
            (Abstains d R p ↔
              ∃ child ∈ d.children p, d.isNamed child "CODE".toList = true)) := by
  obtain ⟨R, hrender⟩ := (Flavour.commonMark.neverFails o d).exists_render
  have hR : (Flavour.commonMark.renderer o).Writes d R := fun i => (hrender i).2
  have hpre : (Flavour.commonMark.renderer o).action? d p = some preformatted := by
    have hentry : (["PRE"], preformatted) ∈ plain o := by simp [plain]
    exact action?_of_plain hentry ((Document.isOneOf_singleton "PRE").trans hp)
  have hcode : (Flavour.commonMark.renderer o).action? d c = some (codeBlock o) := by
    rw [action?_code hc, if_pos (Document.standsIn_of_mem_ancestors hbelow hp)]
  obtain ⟨hleft, hindented⟩ := write_of_abstains hR hp
  refine ⟨R, fun i => (hrender i).1, hpre, hcode, hleft, hindented, abstains_iff, ?_⟩
  intro block hblock
  have hshown := strip_ne_nil_of_codeBlock hblock
  have hne : block ≠ [] := by
    rintro rfl
    exact hshown rfl
  have hwritten : R c = block :=
    hR.eq_of_convert rfl
      ((Flavour.convert_of_action? hcode _).trans (Flavour.writtenBy_some hblock hne))
  refine ⟨hwritten, fun hbetween => ?_⟩
  have hkept := isKept_above hR hp hbelow hbetween
  rw [hwritten] at hkept
  rw [abstains_iff, or_iff_left (hkept.strip_ne_nil hshown)]

/-- Two pieces of code in preformatted text, the second inside another element. -/
def mixedCode : Document :=
  Document.grown
    [(0, .element "pre".toList []), (1, .element "code".toList []), (2, .text "a".toList),
     (1, .element "span".toList []), (4, .element "code".toList []), (5, .text "b".toList)]

theorem laidOutOnce_iff_mixedCode :
    mixedCode.isNamed 1 "PRE".toList = true ∧ mixedCode.isNamed 5 "CODE".toList = true ∧
      1 ∈ mixedCode.ancestors 5 ∧
      (∀ q ∈ mixedCode.ancestors 5, 1 ∈ mixedCode.ancestors q →
        mixedCode.isOneOf q leafNames = false) ∧
      ∃ R : Nat → Text,
        (∀ i, (Flavour.commonMark.renderer {}).render mixedCode i = .ok (R i)) ∧
          codeBlock {} mixedCode 5 ((mixedCode.children 5).flatMap R) =
            .ok (some "\n\n    b\n\n".toList) ∧
          R 5 = "\n\n    b\n\n".toList ∧ Abstains mixedCode R 1 ∧
          R 1 = (mixedCode.children 1).flatMap R := by
  have hp : mixedCode.isNamed 1 "PRE".toList = true := by decide +kernel
  have hc : mixedCode.isNamed 5 "CODE".toList = true := by decide +kernel
  have hbelow : 1 ∈ mixedCode.ancestors 5 := by decide +kernel
  have hbetween : ∀ q ∈ mixedCode.ancestors 5, 1 ∈ mixedCode.ancestors q →
      mixedCode.isOneOf q leafNames = false := by
    decide +kernel
  have hchild : ∃ child ∈ mixedCode.children 1, mixedCode.isNamed child "CODE".toList = true :=
    ⟨2, by decide +kernel, by decide +kernel⟩
  obtain ⟨R, hrender, -, -, hleft, -, -, hcode⟩ := laidOutOnce_iff {} mixedCode 1 5 hp hc hbelow
  have hb : R 6 = "b".toList := by
    have h : (Flavour.commonMark.renderer {}).render mixedCode 6 = .ok "b".toList := by
      decide +kernel
    exact Except.ok.inj ((hrender 6).symm.trans h)
  have hchildren : mixedCode.children 5 = [6] := by decide +kernel
  have hblock : codeBlock {} mixedCode 5 ((mixedCode.children 5).flatMap R) =
      .ok (some "\n\n    b\n\n".toList) := by
    rw [hchildren, List.flatMap_singleton, hb]
    decide +kernel
  obtain ⟨hwritten, habstains⟩ := hcode _ hblock
  have h := (habstains hbetween).mpr hchild
  exact ⟨hp, hc, hbelow, hbetween, R, hrender, hblock, hwritten, h, hleft h⟩

/-- Code in an element in preformatted text. -/
def deepCode : Document :=
  Document.grown
    [(0, .element "pre".toList []), (1, .element "span".toList []),
     (2, .element "code".toList []), (3, .text "x".toList)]

/-- Code that is no child of the preformatted text is laid out twice. -/
theorem laidOut_twice :
    deepCode.isNamed 1 "PRE".toList = true ∧ deepCode.isNamed 3 "CODE".toList = true ∧
      1 ∈ deepCode.ancestors 3 ∧
      (∀ R : Nat → Text, (Flavour.commonMark.renderer {}).Writes deepCode R →
        codeBlock {} deepCode 3 ((deepCode.children 3).flatMap R) =
            .ok (some "\n\n    x\n\n".toList) ∧
          ¬ Abstains deepCode R 1) ∧
      (Profile.ofFlavour .commonMark {}).convert deepCode =
        .ok "    \n    \n        x".toList := by
  have hp : deepCode.isNamed 1 "PRE".toList = true := by decide +kernel
  have hc : deepCode.isNamed 3 "CODE".toList = true := by decide +kernel
  have hbelow : 1 ∈ deepCode.ancestors 3 := by decide +kernel
  have hwhole : (Profile.ofFlavour .commonMark {}).convert deepCode =
      .ok "    \n    \n        x".toList := by
    decide +kernel
  refine ⟨hp, hc, hbelow, fun R hR => ?_, hwhole⟩
  obtain ⟨h1, h2, h3, h4⟩ : deepCode.children 1 = [2] ∧ deepCode.children 2 = [3] ∧
      deepCode.children 3 = [4] ∧ deepCode.children 4 = [] := by
    decide +kernel
  have hx : R 4 = "x".toList := hR.eq_of_convert (by rw [h4, List.flatMap_nil]) (by decide +kernel)
  have hblock : R 3 = "\n\n    x\n\n".toList :=
    hR.eq_of_convert (by rw [h3, List.flatMap_singleton, hx]) (by decide +kernel)
  have hpassed : R 2 = "\n\n    x\n\n".toList :=
    hR.eq_of_convert (by rw [h2, List.flatMap_singleton, hblock]) (by decide +kernel)
  rw [Abstains, h3, List.flatMap_singleton, hx, h1, List.flatMap_singleton, hpassed]
  decide +kernel

end CommonMark

end TreeMarkdown
