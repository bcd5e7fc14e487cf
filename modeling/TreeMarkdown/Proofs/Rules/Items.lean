/-
Lists and their items in either flavour.

GitHub flavour has no rules of its own for lists, so both flavours write a list alike, inside an
item (`Flavour.convert_innerList`) or by itself (`Flavour.convert_outerList`). It overwrites the
rule for items, and all that the new rule does more is to put the mark of a task behind the marker
(`Flavour.itemMarker`); an item is written behind that in both flavours (`Flavour.convert_item`).
-/

import TreeMarkdown.Proofs.Markdown.Listing
import TreeMarkdown.Proofs.Rules.Dispatch
import TreeMarkdown.Proofs.Rules.Extension

namespace TreeMarkdown

open Markdown

theorem Markdown.taskMark_eq_nil_iff {state : Option Bool} :
    taskMark state = [] ↔ state = none := by
  rcases state with _ | _ | _ <;> decide

namespace Flavour

variable {flavour : Flavour} {o : Options} {d : Document} {i : Nat}

/-! ### Items -/

/-- What an item has between its marker and its text. -/
def itemMark (d : Document) (i : Nat) : Flavour → Text
  | .commonMark => []
  | .gitHub => taskMark (taskState? d i)

/-- What an item has in front of its text. -/
def itemMarker (flavour : Flavour) (o : Options) (d : Document) (i : Nat) : Text :=
  listMarker d o.bullet i ++ flavour.itemMark d i

theorem itemMark_eq_nil_iff :
    flavour.itemMark d i = [] ↔ flavour = .commonMark ∨ taskState? d i = none := by
  cases flavour with
  | commonMark => exact iff_of_true rfl (Or.inl rfl)
  | gitHub => exact taskMark_eq_nil_iff.trans (or_iff_right (by decide)).symm

theorem newline_notMem_itemMarker (h : o.bullet ≠ '\n') (flavour : Flavour) (d : Document)
    (i : Nat) : '\n' ∉ flavour.itemMarker o d i := by
  have hmark : '\n' ∉ flavour.itemMark d i := by
    cases flavour with
    | commonMark => exact List.not_mem_nil
    | gitHub =>
      rw [itemMark]
      rcases taskState? d i with _ | _ | _ <;> decide
  intro hmem
  rcases List.mem_append.mp hmem with hmem | hmem
  · exact newline_notMem_listMarker h d i hmem
  · exact hmark hmem

theorem places_item :
    (∀ above ∈ ["UL", "OL"], gitHub.hasChain [above.toList, "LI".toList] = true) ∧
      gitHub.places "LI".toList 2 = [8, 19] ∧
      ∀ s ∈ Selector.parseList itemKeys, s.specificity = 2 := by
  simp only [hasChain_eq, places_eq]
  decide

/-- An item of a list is written behind its marker. -/
theorem convert_item (hname : d.isNamed i "LI".toList = true)
    (hlist : d.standsIn i ["UL", "OL"] = true) (content : Text) :
    (flavour.renderer o).convert d i content =
      .ok (listItem (flavour.itemMarker o d i) content) := by
  cases flavour with
  | commonMark =>
    rw [CommonMark.convert_item hname hlist, itemMarker, itemMark, List.append_nil]
  | gitHub =>
    obtain ⟨hchain, hplaces, hspecificity⟩ := places_item
    obtain ⟨above, habove, a, ha, hanamed⟩ := Document.standsIn_iff.mp hlist
    have hfirst : (gitHub.entries o)[8]? = some (itemKeys, CommonMark.item o) := rfl
    have hsecond : (gitHub.entries o)[19]? = some (itemKeys, GitHub.item o) := rfl
    rw [convert_of_overwritten (hchain above habove) hplaces (by decide) hfirst hsecond
      hspecificity hname ha hanamed]
    exact writtenBy_total rfl (by simp [listItem])

/-! ### Lists -/

theorem places_list (flavour : Flavour) :
    flavour.isInnerPlace ["UL", "OL"] ["LI"] 7 = true ∧
      flavour.isOuterPlace ["UL", "OL"] ["LI"] 6 = true := by
  cases flavour with
  | commonMark => exact CommonMark.places_by_context.2.2.1
  | gitHub =>
    simp only [isInnerPlace, isOuterPlace, hasChain_eq, places_eq, asksFor_eq]
    decide

theorem entries_list (flavour : Flavour) (o : Options) :
    (flavour.entries o)[7]? = some ("LI UL, LI OL".toList, CommonMark.innerList) ∧
      (flavour.entries o)[6]? = some ("UL, OL".toList, CommonMark.list) := by
  cases flavour <;> exact ⟨rfl, rfl⟩

/-- A list inside an item. -/
theorem convert_innerList (hname : d.isOneOf i ["UL", "OL"] = true)
    (hitem : d.standsIn i ["LI"] = true) (content : Text) :
    (flavour.renderer o).convert d i content = writtenBy CommonMark.innerList d i content :=
  convert_of_action?
    (action?_inside (places_list flavour).1 (entries_list flavour o).1 hname hitem) content

/-- A list that stands in no item. -/
theorem convert_outerList (hname : d.isOneOf i ["UL", "OL"] = true)
    (hitem : d.standsIn i ["LI"] = false) (content : Text) :
    (flavour.renderer o).convert d i content = writtenBy CommonMark.list d i content :=
  convert_of_action?
    (action?_outside (places_list flavour).2 (entries_list flavour o).2 hname hitem) content

end Flavour

end TreeMarkdown
