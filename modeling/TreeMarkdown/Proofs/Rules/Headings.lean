/-
Headings, the one construct that could fail.

A heading takes its level from the tag behind the first character, without a look at the tag
first. That is safe because of the rules: the converter of headings is chosen exactly for the
elements with the names `H1` to `H6` in any spelling (`Flavour.best?_heading_iff`), whatever
stands around them, and these have the level in their tag (`Document.headingLevel_of_isHeading`).
So every document is converted, and every heading has the number of marks that its tag says
(`Profile.convert_headings`).
-/

import TreeMarkdown.Proofs.Rules.Chosen
import TreeMarkdown.Proofs.Rules.Extension
import TreeMarkdown.Proofs.Rules.Totality

namespace TreeMarkdown

open Text Markdown

namespace Document

variable {d : Document} {i level : Nat}

/-- Node `i` has the name of a heading of this level. -/
def IsHeading (d : Document) (i level : Nat) : Prop :=
  1 ≤ level ∧ level ≤ 6 ∧ d.isNamed i ('H' :: decimal level) = true

theorem headingNames : ∀ level < 7, 1 ≤ level →
    namesText ('H' :: decimal level) = false ∧ isAscii ('H' :: decimal level) = true ∧
      foldAscii ('H' :: decimal level) = 'h' :: decimal level ∧
        headingLevel ('h' :: decimal level) = .ok level := by
  decide

/-- A heading is an element, and its tag holds the level. -/
theorem headingLevel_of_isHeading (h : d.IsHeading i level) :
    d.isElement i = true ∧ d.tagName i = 'h' :: decimal level ∧
      headingLevel (d.tagName i) = .ok level := by
  obtain ⟨hone, hsix, hnamed⟩ := h
  obtain ⟨htext, hascii, hfolded, hlevel⟩ := headingNames level (Nat.lt_succ_of_le hsix) hone
  have htag := tagName_of_isNamed hnamed htext hascii
  rw [hfolded] at htag
  exact ⟨isElement_of_isNamed hnamed htext, htag, by rw [htag, hlevel]⟩

end Document

namespace Flavour

variable {flavour : Flavour} {o : Options} {d : Document} {i level : Nat}

theorem places_heading (flavour : Flavour) : ∀ level < 7, 1 ≤ level →
    flavour.hasChain ['H' :: decimal level] = true ∧
      flavour.places ('H' :: decimal level) 1 = [4] := by
  simp only [hasChain_eq, places_eq]
  cases flavour <;> decide

theorem entry_heading (flavour : Flavour) (o : Options) :
    (flavour.entries o)[4]? = some (headingKeys, CommonMark.heading o) := by
  cases flavour <;> rfl

theorem targets_of_heading : ∀ s ∈ Selector.parseList headingKeys,
    ∃ level < 7, 1 ≤ level ∧ s.target = 'H' :: decimal level := by
  decide

/-- The converter of headings is none of those that never fail: it fails where there is no
node. -/
theorem heading_ne_total (o : Options) (f : Document → Nat → Text → Option Text) :
    CommonMark.heading o ≠ Converter.total f := by
  intro heq
  have hfails : CommonMark.heading o .empty 1 [] = .error (.headingTag []) := rfl
  rw [heq] at hfails
  cases hfails

/-- The converter of headings is chosen for headings and for nothing else. -/
theorem best?_heading_iff :
    (∃ rule, (flavour.renderer o).best? d i = some rule ∧ rule.action = CommonMark.heading o) ↔
      ∃ level, d.IsHeading i level := by
  constructor
  · rintro ⟨rule, hrule, haction⟩
    obtain ⟨entry, hentry, hselector, hmatch, hentryaction⟩ := exists_entry_of_best? hrule
    rcases heading_or_total hentry with rfl | ⟨f, hf⟩
    · obtain ⟨level, hlt, hone, htarget⟩ := targets_of_heading _ hselector
      refine ⟨level, hone, Nat.le_of_lt_succ hlt, ?_⟩
      rw [← htarget]
      exact Selector.isNamed_of_isMatch hmatch
    · exact absurd (haction.symm.trans (hentryaction.trans hf)) (heading_ne_total o f)
  · rintro ⟨level, hone, hsix, hnamed⟩
    obtain ⟨hchain, hplaces⟩ := places_heading flavour level (Nat.lt_succ_of_le hsix) hone
    obtain ⟨rule, hrule, k, hk, keys, hchosen, -, -⟩ :=
      isChosenFrom_of_name (o := o) hchain hnamed
    rw [hplaces, List.mem_singleton] at hk
    rw [hk, entry_heading, Option.some_inj, Prod.mk.injEq] at hchosen
    exact ⟨rule, hrule, hchosen.2.symm⟩

/-- What the converter of headings makes of something to be seen, if that is the style. -/
theorem heading_of_shown (ho : o.headingStyle = .atx) (h : d.IsHeading i level) {content : Text}
    (hshown : trim content ≠ []) :
    CommonMark.heading o d i content =
      .ok (some ("\n\n".toList ++ (List.replicate level '#' ++ ' ' :: trim content) ++
        "\n\n".toList)) := by
  obtain ⟨-, -, hlevel⟩ := Document.headingLevel_of_isHeading h
  have hwritten : Markdown.heading o.headingStyle level (trim content) =
      some ("\n\n".toList ++ (List.replicate level '#' ++ ' ' :: trim content) ++
        "\n\n".toList) := by
    rw [Markdown.heading, if_neg (by simpa using hshown), if_neg (by rw [ho]; simp), block,
      if_neg (by simp)]
  rw [← hwritten]
  simp only [CommonMark.heading, hlevel]
  rfl

/-- A heading is written with as many marks as its level says, if that is the style. -/
theorem convert_heading (ho : o.headingStyle = .atx) (h : d.IsHeading i level) {content : Text}
    (hshown : trim content ≠ []) :
    (flavour.renderer o).convert d i content =
      .ok ("\n\n".toList ++ (List.replicate level '#' ++ ' ' :: trim content) ++
        "\n\n".toList) := by
  have haction := heading_of_shown ho h hshown
  obtain ⟨hone, hsix, hnamed⟩ := h
  obtain ⟨hchain, hplaces⟩ := places_heading flavour level (Nat.lt_succ_of_le hsix) hone
  rw [convert_of_name hchain hplaces (entry_heading flavour o) hnamed]
  exact writtenBy_some haction (by simp)

end Flavour

/-- Nothing in a document makes a conversion fail. For every node there is the Markdown `R` that
its rule makes of the Markdown of its children, and the document is what the children of the root
give. The converter of headings, the one that fails on a tag without a level, is chosen for the
elements named `H1` to `H6` and for no other node; these have the tag and the level that their
name says. A heading of the ATX style with something in it has that many marks in front. -/
theorem Profile.convert_headings (flavour : Flavour) (o : Options) (d : Document) :
    ∃ R : Nat → Text,
      (Profile.ofFlavour flavour o).convert d =
        .ok (tidy ((d.children Document.root).flatMap R)) ∧
      (∀ i, (flavour.renderer o).convert d i ((d.children i).flatMap R) = .ok (R i)) ∧
      (∀ i, (∃ rule, (flavour.renderer o).best? d i = some rule ∧
        rule.action = CommonMark.heading o) ↔ ∃ level, d.IsHeading i level) ∧
      ∀ i level, d.IsHeading i level →
        d.isElement i = true ∧ d.tagName i = 'h' :: decimal level ∧
        headingLevel (d.tagName i) = .ok level ∧
        (o.headingStyle = .atx → trim ((d.children i).flatMap R) ≠ [] →
          R i = "\n\n".toList ++
            (List.replicate level '#' ++ ' ' :: trim ((d.children i).flatMap R)) ++
              "\n\n".toList) := by
  obtain ⟨R, hR⟩ := (flavour.neverFails o d).exists_render
  refine ⟨R, Renderer.convertDocument_of_render fun i => (hR i).1, fun i => (hR i).2,
    fun i => Flavour.best?_heading_iff, ?_⟩
  intro i level h
  obtain ⟨helement, htag, hlevel⟩ := Document.headingLevel_of_isHeading h
  refine ⟨helement, htag, hlevel, ?_⟩
  intro ho hshown
  have hwritten := (hR i).2
  rw [Flavour.convert_heading ho h hshown] at hwritten
  exact (Except.ok.inj hwritten).symm

/-- A heading with its name in small letters, an element without a name, and one whose name
begins with a character of two bytes. -/
def oddNames : Document :=
  Document.grown
    [(0, ⟨.element, "h3".toList, none, []⟩), (1, .text " a ".toList),
     (0, ⟨.element, [], none, []⟩), (3, .text "b".toList),
     (0, ⟨.element, "ĥ1".toList, none, []⟩), (5, .text "c".toList)]

theorem Profile.convert_headings_oddNames :
    ∃ R : Nat → Text,
      (Profile.ofFlavour .gitHub {}).convert oddNames =
        .ok (tidy ((oddNames.children Document.root).flatMap R)) ∧
      R 1 = "\n\n### a\n\n".toList ∧
      (¬ ∃ level, oddNames.IsHeading 3 level) ∧ ¬ ∃ level, oddNames.IsHeading 5 level := by
  obtain ⟨R, hconvert, hR, hchosen, hheading⟩ := Profile.convert_headings .gitHub {} oddNames
  have hcontent : (oddNames.children 1).flatMap R = "a".toList := by
    have hchildren : oddNames.children 1 = [2] := by decide +kernel
    have htext := hR 2
    have hleaf : oddNames.children 2 = [] := by decide +kernel
    have hwritten : (Flavour.gitHub.renderer {}).convert oddNames 2 [] = .ok "a".toList := by
      decide +kernel
    rw [hleaf, List.flatMap_nil, hwritten] at htext
    rw [hchildren, List.flatMap_singleton, ← Except.ok.inj htext]
  obtain ⟨-, -, -, hmarks⟩ := hheading 1 3 ⟨by decide, by decide, by decide +kernel⟩
  have hnone : ∀ i, ((Flavour.gitHub.renderer {}).best? oddNames i).isNone = true →
      ¬ ∃ level, oddNames.IsHeading i level := by
    intro i hnone hlevel
    obtain ⟨rule, hrule, -⟩ := (hchosen i).mpr hlevel
    rw [hrule] at hnone
    cases hnone
  refine ⟨R, hconvert, ?_, hnone 3 (by decide +kernel), hnone 5 (by decide +kernel)⟩
  rw [hcontent] at hmarks
  exact hmarks rfl (by decide)

end TreeMarkdown
