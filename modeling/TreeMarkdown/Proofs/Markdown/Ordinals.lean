/-
The numbers of an ordered list.

An item is numbered by how many items stand before it among the children of its list, which may have
text and other elements among them (`itemsBefore_eq`). The numbers count up from the start one by
one, and once they have come to nine nines they stay there. In 64 bits the sum of the start and the
count may go past the end of the range only if the number is nine nines anyway, so that adding up to
the end of the range and no further gives the same number (`toInt_machineOrdinal`).
-/

import Mathlib.Data.List.Range
import TreeMarkdown.Proofs.Document.Naming
import TreeMarkdown.Proofs.Document.Order
import TreeMarkdown.Proofs.Markdown.Starts

namespace TreeMarkdown.Markdown

open Text

variable {d : Document} {list i k : Nat}

/-! ### Items and their numbers -/

/-- The items of a list. -/
def listItems (d : Document) (list : Nat) : List Nat :=
  (d.children list).filter (d.isNamed · "LI".toList)

/-- The number of item `i` of an ordered list. -/
def itemNumber (d : Document) (list i : Nat) : Nat :=
  min (listStart d list + itemsBefore d list i) maxOrdinal

theorem isElement_and_hasTag_li (d : Document) (i : Nat) :
    (d.isElement i && d.hasTag "li" i) = d.isNamed i "LI".toList :=
  Document.isElement_and_hasTag (by decide) (by decide) (by decide) (by decide) i

theorem hasTag_ol (h : d.isNamed list "OL".toList = true) : d.hasTag "ol" list = true := by
  have htag : "ol".toList = Text.foldAscii "OL".toList := by decide
  rw [← Document.isElement_and_hasTag htag (by decide) (by decide) (by decide) list,
    Bool.and_eq_true] at h
  exact h.2

/-- What is counted are the items among the children before, whatever stands between them. -/
theorem itemsBefore_eq {before after : List Nat} (h : d.children list = before ++ i :: after)
    (hi : d.isElement i = true) :
    itemsBefore d list i = (before.filter (d.isNamed · "LI".toList)).length := by
  have hnodup := d.nodup_children list
  rw [h, List.nodup_append] at hnodup
  have hother : ∀ c ∈ before.filter d.isElement, (c != i) = true := fun c hc =>
    bne_iff_ne.mpr (hnodup.2.2 c (List.mem_of_mem_filter hc) i List.mem_cons_self)
  rw [itemsBefore, Document.elementChildren, h, List.filter_append, List.filter_cons_of_pos hi,
    List.takeWhile_append_of_pos hother, List.takeWhile_cons_of_neg (by simp), List.append_nil,
    List.filter_filter]
  simp only [← isElement_and_hasTag_li, Bool.and_comm]

/-- An item's place among the items is the number of items before it. -/
theorem itemsBefore_of_getElem? (h : (listItems d list)[k]? = some i) : itemsBefore d list i = k := by
  obtain ⟨hk, hget⟩ := List.getElem?_eq_some_iff.mp h
  have hsplit : listItems d list =
      (listItems d list).take k ++ i :: (listItems d list).drop (k + 1) := by
    rw [← hget, ← List.drop_eq_getElem_cons hk, List.take_append_drop]
  obtain ⟨front, back, hchildren, hfront, hback⟩ := List.filter_eq_append_iff.mp hsplit
  obtain ⟨between, after, rfl, hbetween, hnamed, -⟩ := List.filter_eq_cons_iff.mp hback
  have helement : d.isElement i = true := Document.isElement_of_isNamed hnamed (by decide)
  have hplace : d.children list = (front ++ between) ++ i :: after := by
    rw [hchildren, List.append_assoc]
  rw [itemsBefore_eq hplace helement, List.filter_append, hfront,
    List.filter_eq_nil_iff.mpr hbetween, List.append_nil,
    List.length_take_of_le (Nat.le_of_lt hk)]

theorem itemNumber_of_getElem? (h : (listItems d list)[k]? = some i) :
    itemNumber d list i = min (listStart d list + k) maxOrdinal := by
  rw [itemNumber, itemsBefore_of_getElem? h]

/-- An item of an ordered list is marked with its number. -/
theorem listMarker_of_mem (hlist : d.isNamed list "OL".toList = true) (hi : i ∈ d.children list)
    (bullet : Char) : listMarker d bullet i = ordinalMarker (itemNumber d list i) := by
  rw [listMarker, Document.parent_of_mem_children hi, Option.filter_some, if_pos (hasTag_ol hlist)]
  rfl

/-- The numbers of a list, in the order of its items. -/
def itemNumbers (d : Document) (list : Nat) : List Nat :=
  (listItems d list).map (itemNumber d list)

theorem itemNumbers_eq (d : Document) (list : Nat) :
    itemNumbers d list = (List.range (listItems d list).length).map fun k =>
      min (listStart d list + k) maxOrdinal := by
  refine List.ext_getElem? fun k => ?_
  rw [itemNumbers, List.getElem?_map, List.getElem?_map]
  cases hk : (listItems d list)[k]? with
  | none =>
    rw [List.getElem?_eq_none (by simpa using List.getElem?_eq_none_iff.mp hk)]
    rfl
  | some i =>
    have hlt := (List.getElem?_eq_some_iff.mp hk).1
    rw [List.getElem?_range hlt, Option.map_some, Option.map_some, itemNumber_of_getElem? hk]

theorem pairwise_itemNumbers (d : Document) (list : Nat) :
    (itemNumbers d list).Pairwise (· ≤ ·) := by
  rw [itemNumbers_eq, List.pairwise_map]
  exact List.pairwise_le_range.imp fun {a b} hab => by omega

/-- Each number is one more than the number before, up to nine nines. -/
theorem isChain_itemNumbers (d : Document) (list : Nat) :
    (itemNumbers d list).IsChain fun m n => n = if m < maxOrdinal then m + 1 else maxOrdinal := by
  rw [itemNumbers_eq, List.isChain_map, List.isChain_range]
  intro k _
  split <;> omega

/-! ### Numbers of 64 bits -/

/-- The sum of two integers of 64 bits, or the end of the range that it is past. -/
def saturatingSum (a b : Int64) : Int64 :=
  Int64.ofIntClamp (a.toInt + b.toInt)

/-- The number of an item, computed in 64 bits. -/
def machineOrdinal (start count : Nat) : Int64 :=
  min (saturatingSum (Int64.ofIntClamp start) (Int64.ofIntClamp count)) (Int64.ofIntClamp maxOrdinal)

theorem toInt_ofIntClamp (n : Int) :
    (Int64.ofIntClamp n).toInt =
      max Int64.minValue.toInt (min n Int64.maxValue.toInt) := by
  by_cases hlow : Int64.minValue.toInt ≤ n
  · by_cases hhigh : n ≤ Int64.maxValue.toInt
    · rw [Int64.toInt_ofIntClamp hlow hhigh]
      omega
    · rw [Int64.ofIntClamp, dif_pos hlow, dif_neg hhigh]
      have : Int64.minValue.toInt ≤ Int64.maxValue.toInt := by decide
      omega
  · rw [Int64.ofIntClamp, dif_neg hlow]
    omega

theorem toInt_min (a b : Int64) : (min a b).toInt = min a.toInt b.toInt := by
  show (if a ≤ b then a else b).toInt = _
  split
  · rename_i h
    have := Int64.le_iff_toInt_le.mp h
    omega
  · rename_i h
    have : ¬ a.toInt ≤ b.toInt := fun hle => h (Int64.le_iff_toInt_le.mpr hle)
    omega

/-- The sum is that of the start and the count, unless that is past the end of the range. -/
theorem toInt_saturatingSum {start : Nat} (hstart : start ≤ maxOrdinal) (count : Nat) :
    (saturatingSum (Int64.ofIntClamp start) (Int64.ofIntClamp count)).toInt =
      min (start + count : Int) Int64.maxValue.toInt := by
  have hrange : Int64.minValue.toInt = -9223372036854775808 ∧
      Int64.maxValue.toInt = 9223372036854775807 := by
    decide
  rw [saturatingSum]
  simp only [toInt_ofIntClamp, hrange, maxOrdinal] at hstart ⊢
  omega

/-- Computed in 64 bits, the number of an item is the same. -/
theorem toInt_machineOrdinal {start : Nat} (hstart : start ≤ maxOrdinal) (count : Nat) :
    (machineOrdinal start count).toInt = (min (start + count) maxOrdinal : Nat) := by
  have hmax : (Int64.ofIntClamp maxOrdinal).toInt = maxOrdinal := by decide
  have hrange : (maxOrdinal : Int) ≤ Int64.maxValue.toInt := by decide
  rw [machineOrdinal, toInt_min, toInt_saturatingSum hstart, hmax]
  omega

end TreeMarkdown.Markdown
