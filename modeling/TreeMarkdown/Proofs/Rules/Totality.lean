/-
The flavours never fail.

Only a heading can fail, on a tag that does not begin with an ASCII character. The nodes
that the keys of headings name are elements with the tags `h1` to `h6`, and these have
their level (`headingLevel_of_isNamed`); all other converters are total.
-/

import TreeMarkdown.Proofs.Conversion.Recursion
import TreeMarkdown.Proofs.Document.Naming
import TreeMarkdown.Proofs.Rules.Entries

namespace TreeMarkdown

open Markdown

/-- The keys under which headings stand. -/
def headingKeys : Text := "H1, H2, H3, H4, H5, H6".toList

/-- The level that a token gives a heading. -/
def headingLevelOf (token : Text) : Option Nat :=
  (headingLevel (Text.foldAscii token)).toOption

theorem headingKeys_have_levels :
    ∀ s ∈ Selector.parseList headingKeys, Document.namesText s.target = false ∧
      Text.isAscii s.target = true ∧ (headingLevelOf s.target).isSome = true := by
  decide

/-- An element that a heading is written for has a level. -/
theorem headingLevel_of_isNamed {d : Document} {i : Nat} {s : Selector}
    (hs : s ∈ Selector.parseList headingKeys) (h : d.isNamed i s.target = true) :
    ∃ level, headingLevel (d.tagName i) = .ok level := by
  obtain ⟨hname, hascii, hlevel⟩ := headingKeys_have_levels s hs
  rw [Document.tagName_of_isNamed h hname hascii]
  unfold headingLevelOf at hlevel
  cases hfold : headingLevel (Text.foldAscii s.target) with
  | ok level => exact ⟨level, rfl⟩
  | error e =>
    rw [hfold] at hlevel
    cases hlevel

namespace Flavour

variable {flavour : Flavour} {o : Options}

/-- All converters of a flavour are total, except for those of headings. -/
theorem heading_or_total {entry : Text × Converter} (h : entry ∈ flavour.entries o) :
    entry = (headingKeys, CommonMark.heading o) ∨ ∃ f, entry.2 = Converter.total f := by
  have hall : ∀ entry ∈ CommonMark.entries o ++ GitHub.entries o,
      entry = (headingKeys, CommonMark.heading o) ∨ ∃ f, entry.2 = Converter.total f := by
    simp only [CommonMark.entries, GitHub.entries, List.cons_append, List.nil_append,
      List.forall_mem_cons]
    and_intros
    all_goals first
      | exact Or.inr ⟨_, rfl⟩
      | exact Or.inl rfl
      | simp
  exact hall entry (mem_all_of_mem_entries h)

/-- No converter of a flavour fails on the nodes that it is chosen for. -/
theorem neverFails (flavour : Flavour) (o : Options) (d : Document) :
    (flavour.renderer o).NeverFails d := by
  intro rule hrule i hmatch content
  obtain ⟨entry, hentry, hs, haction⟩ := exists_entry hrule
  rcases heading_or_total hentry with rfl | ⟨f, hf⟩
  · obtain ⟨level, hlevel⟩ := headingLevel_of_isNamed hs (Selector.isNamed_of_isMatch hmatch)
    refine ⟨Markdown.heading o.headingStyle level (Text.trim content), ?_⟩
    simp only [haction, CommonMark.heading, hlevel]
    rfl
  · refine ⟨f d i content, ?_⟩
    rw [haction, hf]
    rfl

end Flavour

/-- A flavour has Markdown for every document. -/
theorem Profile.exists_convert_eq_ok (flavour : Flavour) (o : Options) (d : Document) :
    ∃ markdown, (Profile.ofFlavour flavour o).convert d = .ok markdown := by
  obtain ⟨R, hR⟩ := (flavour.neverFails o d).exists_render
  exact ⟨_, Renderer.convertDocument_of_render fun i => (hR i).1⟩

end TreeMarkdown
