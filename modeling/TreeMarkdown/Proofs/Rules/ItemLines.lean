/-
Whether the lines of an item stand under its marker.

An item has its text behind the marker and the lines below indented by four, whatever the marker.
Four is the width of a bullet and of a number below 100, and then all lines stand under the
marker (`lines_of_item`). A number with more digits makes a longer marker, and the indent does not
grow with it: the lines below the first, those of a list inside the item for instance, begin to
the left of the text and are no part of the item (`lines_of_hundredthItem`).
-/

import TreeMarkdown.Proofs.Markdown.Listing
import TreeMarkdown.Proofs.Rules.Dispatch

namespace TreeMarkdown

open Text Markdown

namespace CommonMark

/-- The text of an item of a list, line by line: the marker in front of the first line of the
content, and the other lines indented by four. So for all contents to stand under the marker it
takes a marker of four characters, which the item has unless its number has three digits or
more. -/
theorem lines_of_item (o : Options) (hbullet : o.bullet ≠ '\n') (d : Document) (i : Nat)
    (hname : d.isNamed i "LI".toList = true) (hlist : d.standsIn i ["UL", "OL"] = true) :
    (∀ content, ∃ first others text,
      (collapseNewlines (trim content)).splitOn '\n' = first :: others ∧
        (Flavour.commonMark.renderer o).convert d i content = .ok text ∧
        text.splitOn '\n' =
          (listMarker d o.bullet i ++ first) :: others.map continuationLine ++ [[]] ∧
        Hangs 4 text) ∧
      ((∀ content text, (Flavour.commonMark.renderer o).convert d i content = .ok text →
          Hangs (listMarker d o.bullet i).length text) ↔ HasShortNumber d i) := by
  have hmarker := newline_notMem_listMarker hbullet d i
  have hconvert := convert_item (o := o) hname hlist
  constructor
  · intro content
    obtain ⟨first, others, hsplit, hlines⟩ := splitOn_listItem hmarker content
    exact ⟨first, others, _, hsplit, hconvert content, hlines, hangs_listItem hmarker content⟩
  · rw [← length_listMarker_le_iff d o.bullet i, ← hangs_listItem_iff hmarker]
    constructor
    · exact fun h content => h content _ (hconvert content)
    · intro h content text htext
      rw [hconvert] at htext
      exact Except.ok.inj htext ▸ h content

/-- A list that begins with item 100, in which there is another list. -/
def hundredthItem : Document :=
  Document.grown
    [(0, .element "ol".toList [("start".toList, "100".toList)]), (1, .element "li".toList []),
     (2, .text "a".toList), (2, .element "ul".toList []), (4, .element "li".toList []),
     (5, .text "b".toList)]

theorem lines_of_item_innerItem :
    hundredthItem.isNamed 5 "LI".toList = true ∧ hundredthItem.standsIn 5 ["UL", "OL"] = true ∧
      ∀ content text,
        (Flavour.commonMark.renderer {}).convert hundredthItem 5 content = .ok text →
          Hangs (listMarker hundredthItem '*' 5).length text := by
  have hname : hundredthItem.isNamed 5 "LI".toList = true := by decide +kernel
  have hlist : hundredthItem.standsIn 5 ["UL", "OL"] = true := by decide +kernel
  have hparent : hundredthItem.parent? 5 = some 4 := by decide +kernel
  have hshort : HasShortNumber hundredthItem 5 := by
    intro list hp hordered
    rw [hparent] at hp
    cases hp
    have hnot : hundredthItem.hasTag "ol" 4 = false := by decide +kernel
    exact Bool.noConfusion (hordered.symm.trans hnot)
  exact ⟨hname, hlist, (lines_of_item {} (by decide) hundredthItem 5 hname hlist).2.mpr hshort⟩

/-- The list in item 100 has four spaces in front of it where the marker is five characters
long. -/
theorem lines_of_hundredthItem :
    hundredthItem.isNamed 2 "LI".toList = true ∧ hundredthItem.standsIn 2 ["UL", "OL"] = true ∧
      (listMarker hundredthItem '*' 2).length = 5 ∧
      (Profile.ofFlavour .commonMark {}).convert hundredthItem = .ok "100. a\n    *   b".toList ∧
      ∃ content text,
        (Flavour.commonMark.renderer {}).convert hundredthItem 2 content = .ok text ∧
          ¬ Hangs (listMarker hundredthItem '*' 2).length text := by
  have hname : hundredthItem.isNamed 2 "LI".toList = true := by decide +kernel
  have hlist : hundredthItem.standsIn 2 ["UL", "OL"] = true := by decide +kernel
  have hlength : (listMarker hundredthItem '*' 2).length = 5 := by decide +kernel
  have hwhole : (Profile.ofFlavour .commonMark {}).convert hundredthItem =
      .ok "100. a\n    *   b".toList := by
    decide +kernel
  refine ⟨hname, hlist, hlength, hwhole, "a\n*   b\n".toList, "100. a\n    *   b\n".toList, ?_, ?_⟩
  · rw [convert_item hname hlist]
    decide +kernel
  · intro hhangs
    have hline : "    *   b".toList ∈ ("100. a\n    *   b\n".toList.splitOn '\n').tail := by
      decide +kernel
    rw [hlength] at hhangs
    exact absurd (hhangs _ hline (by decide)) (by unfold IsIndented; decide)

end CommonMark

end TreeMarkdown
