/-
The markers of an ordered list.

The items of a list are numbered from its start, whatever stands between them, and each has its
number for a marker, in CommonMark and in GitHub flavour (`Flavour.numbering_of_list`).
-/

import TreeMarkdown.Proofs.Markdown.Ordinals
import TreeMarkdown.Proofs.Rules.Items

namespace TreeMarkdown

open Text Markdown

namespace Flavour

variable {flavour : Flavour} {o : Options} {d : Document} {list i : Nat}

/-- An item of an ordered list is written behind its marker. -/
theorem convert_orderedItem (hlist : d.isNamed list "OL".toList = true)
    (hi : i ∈ listItems d list) (content : Text) :
    (flavour.renderer o).convert d i content =
      .ok (listItem (listMarker d o.bullet i ++ flavour.itemMark d i) content) := by
  obtain ⟨hmem, hitem⟩ := List.mem_filter.mp hi
  have hany : d.isOneOf list ["UL", "OL"] = true :=
    Document.isOneOf_iff.mpr ⟨"OL", by decide, hlist⟩
  exact convert_item hitem (Document.standsIn_of_mem_children hmem hany) content

/-- How the items of an ordered list are marked. The list may have any start, and any text and
other elements between its items. The start is a number of nine digits at most, and 1 if none can be
read. Item `k` is written behind the numeral of the start plus `k`, or of nine nines if that is
less, with a dot and as many spaces as make four characters, but always one. So the numbers never
go down, and go up by one until they come to nine nines. In 64 bits they come out the same. -/
theorem numbering_of_list (flavour : Flavour) (o : Options) (d : Document) (list : Nat)
    (hlist : d.isNamed list "OL".toList = true) :
    (listStart d list = ((d.attribute? list "start".toList).bind parseStart).getD 1 ∧
        listStart d list ≤ 999999999) ∧
      (∀ (k i : Nat), (listItems d list)[k]? = some i →
        let number := min (listStart d list + k) 999999999
        let numeral := decimal number
        let width := max 4 (numeral.length + 2)
        itemNumber d list i = number ∧
          (machineOrdinal (listStart d list) (itemsBefore d list i)).toInt = number ∧
          listMarker d o.bullet i =
            numeral ++ '.' :: List.replicate (width - (numeral.length + 1)) ' ' ∧
          (listMarker d o.bullet i).length = width ∧
          (listMarker d o.bullet i).getLast? = some ' ' ∧
          ∀ content, (flavour.renderer o).convert d i content =
            .ok (listItem (listMarker d o.bullet i ++ flavour.itemMark d i) content)) ∧
      (itemNumbers d list).Pairwise (· ≤ ·) ∧
      (itemNumbers d list).IsChain fun m n =>
        n = if m < 999999999 then m + 1 else 999999999 := by
  have hstart := listStart_le d list
  refine ⟨⟨rfl, hstart⟩, fun k i hk => ?_, pairwise_itemNumbers d list, isChain_itemNumbers d list⟩
  have hi : i ∈ listItems d list := List.mem_of_getElem? hk
  have hnumber := itemNumber_of_getElem? hk
  have hmarker := listMarker_of_mem hlist (List.mem_of_mem_filter hi) o.bullet
  rw [hnumber] at hmarker
  refine ⟨hnumber, ?_, ?_, ?_, ?_, convert_orderedItem hlist hi⟩
  · rw [toInt_machineOrdinal hstart, itemsBefore_of_getElem? hk]
    rfl
  · rw [hmarker, ordinalMarker_eq]
    rfl
  · rw [hmarker, length_ordinalMarker]
    rfl
  · rw [hmarker, getLast?_ordinalMarker]

/-- A list that starts just below the largest number, with text and another element in it. -/
def lateList : Document :=
  Document.grown
    [(0, .element "ol".toList [("start".toList, " +999999998".toList)]), (1, .text "a".toList),
     (1, .element "li".toList []), (1, .element "b".toList []), (1, .element "li".toList []),
     (4, .element "li".toList []), (1, .element "li".toList [])]

theorem numbering_of_list_lateList :
    lateList.isNamed 1 "OL".toList = true ∧ (listItems lateList 1)[2]? = some 7 ∧
      itemNumbers lateList 1 = [999999998, 999999999, 999999999] ∧
      listMarker lateList '*' 7 = "999999999. ".toList ∧
      (Flavour.gitHub.renderer {}).convert lateList 7 "x".toList = .ok "999999999. x\n".toList := by
  have hlist : lateList.isNamed 1 "OL".toList = true := by decide +kernel
  have hitem : (listItems lateList 1)[2]? = some 7 := by decide +kernel
  obtain ⟨-, -, hmarker, -, -, hwritten⟩ :=
    (numbering_of_list .gitHub {} lateList 1 hlist).2.1 2 7 hitem
  have hmarker' : listMarker lateList '*' 7 = "999999999. ".toList :=
    hmarker.trans (by decide +kernel)
  refine ⟨hlist, hitem, by decide +kernel, hmarker', ?_⟩
  rw [hwritten]
  decide +kernel

end Flavour

end TreeMarkdown
