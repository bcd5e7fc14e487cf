/-
The start of an ordered list.

A start that is an integer, of whatever size, is taken to the nearest number that an item may have.
Any other start should count as none. But the reading ends at the first digit that takes the number
past 64 bits, and reports no more than that. So what stands behind such a digit is not looked at, and
a start may be taken for a large number that is not a number at all (`parseStart_iff_integer`).
-/

import TreeMarkdown.Profile
import TreeMarkdown.Proofs.Document.Growth
import TreeMarkdown.Proofs.Text.Numerals

namespace TreeMarkdown.Markdown

open Text

variable {v : Text}

/-- The number of an item that is nearest to an integer. -/
def nearestOrdinal (n : Int) : Nat :=
  (max 0 (min n maxOrdinal)).toNat

theorem nearestOrdinal_le (n : Int) : nearestOrdinal n ≤ maxOrdinal := by
  rw [nearestOrdinal]
  omega

/-- An integer takes at most 64 bits. -/
def IsInt64 (n : Int) : Prop :=
  Int64.minValue.toInt ≤ n ∧ n ≤ Int64.maxValue.toInt

instance (n : Int) : Decidable (IsInt64 n) :=
  inferInstanceAs (Decidable (_ ∧ _))

theorem isInt64_iff {n : Int} :
    IsInt64 n ↔ -(UInt64.size / 2 : Nat) ≤ n ∧ n ≤ (UInt64.size / 2 - 1 : Nat) :=
  Iff.rfl

theorem nearestOrdinal_of_not_isInt64 {n : Int} (h : ¬ IsInt64 n) :
    nearestOrdinal n = if n < 0 then 0 else maxOrdinal := by
  simp only [isInt64_iff, UInt64.size] at h
  simp only [nearestOrdinal, maxOrdinal]
  split <;> omega

/-- The sign of a start decides on the limit and on the way to the nearest ordinal. -/
theorem parseStart_eq_splitSign (v : Text) :
    parseStart v =
      if (splitSign (strip v)).1 then
        negativeStartOf (readMagnitude (UInt64.size / 2) (splitSign (strip v)).2)
      else startOf (readMagnitude (UInt64.size / 2 - 1) (splitSign (strip v)).2) := by
  rw [parseStart]
  generalize strip v = w
  cases w with
  | nil => rfl
  | cons c t =>
    by_cases hminus : c = '-'
    · rw [hminus]
      rfl
    by_cases hplus : c = '+'
    · rw [hplus]
      rfl
    simp [splitSign, hminus, hplus]

theorem startOf_readMagnitude (t : Text) :
    startOf (readMagnitude (UInt64.size / 2 - 1) t) =
      if IsInt64 (leadingMagnitude t) then (magnitude? t).map fun n : Nat => nearestOrdinal n
      else some (nearestOrdinal (leadingMagnitude t)) := by
  simp only [readMagnitude_eq, isInt64_iff]
  by_cases hlarge : UInt64.size / 2 - 1 < leadingMagnitude t
  · rw [if_pos hlarge, if_neg (by omega)]
    simp only [startOf, nearestOrdinal, maxOrdinal, UInt64.size] at hlarge ⊢
    congr 1
    omega
  · rw [if_neg hlarge, if_pos (by omega)]
    cases magnitude? t with
    | none => rfl
    | some n =>
      simp only [Option.elim_some, startOf, Option.map_some, nearestOrdinal]
      congr 1
      omega

theorem negativeStartOf_readMagnitude (t : Text) :
    negativeStartOf (readMagnitude (UInt64.size / 2) t) =
      if IsInt64 (-leadingMagnitude t) then (magnitude? t).map fun n : Nat => nearestOrdinal (-n)
      else some (nearestOrdinal (-leadingMagnitude t)) := by
  have hnearest : ∀ n : Nat, nearestOrdinal (-n) = 0 := by
    intro n
    simp only [nearestOrdinal]
    omega
  simp only [readMagnitude_eq, isInt64_iff, hnearest]
  by_cases hlarge : UInt64.size / 2 < leadingMagnitude t
  · rw [if_pos hlarge, if_neg (by omega)]
    rfl
  · rw [if_neg hlarge, if_pos (by omega)]
    cases magnitude? t <;> rfl

/-- A start is read as an integer, unless the digits that it opens with are beyond 64 bits. Then
they are all that counts. -/
theorem parseStart_eq (v : Text) :
    parseStart v =
      if IsInt64 (leadingInteger (strip v)) then (integer? (strip v)).map nearestOrdinal
      else some (nearestOrdinal (leadingInteger (strip v))) := by
  rw [parseStart_eq_splitSign, integer?, leadingInteger, Option.map_map]
  cases (splitSign (strip v)).1 with
  | true => exact negativeStartOf_readMagnitude _
  | false => exact startOf_readMagnitude _

theorem parseStart_le {n : Nat} (h : parseStart v = some n) : n ≤ maxOrdinal := by
  rw [parseStart_eq] at h
  split at h
  · obtain ⟨m, -, rfl⟩ := Option.map_eq_some_iff.mp h
    exact nearestOrdinal_le m
  · exact Option.some.inj h ▸ nearestOrdinal_le _

/-- Whatever its start says, a list starts with a number that an item may have. -/
theorem listStart_le (d : Document) (list : Nat) : listStart d list ≤ maxOrdinal := by
  rw [listStart]
  cases hstart : (d.attribute? list "start".toList).bind parseStart with
  | none => decide
  | some n =>
    obtain ⟨v, -, hv⟩ := Option.bind_eq_some_iff.mp hstart
    exact parseStart_le hv

/-- Whether a start is read as the integer that it denotes, or as none if it denotes none. An
integer always is. What is no integer is read as none, and the list starts at 1, unless the digits
that it opens with are beyond 64 bits already. Then it is read as the largest number of an item, or
as 0 behind a minus sign. -/
theorem parseStart_iff_integer (v : Text) :
    (∀ n, integer? (strip v) = some n → parseStart v = some (nearestOrdinal n)) ∧
      (integer? (strip v) = none →
        parseStart v =
          if IsInt64 (leadingInteger (strip v)) then none
          else some (if leadingInteger (strip v) < 0 then 0 else maxOrdinal)) ∧
      (parseStart v = (integer? (strip v)).map nearestOrdinal ↔
        integer? (strip v) ≠ none ∨ IsInt64 (leadingInteger (strip v))) ∧
      ∀ (d : Document) (list : Nat), d.attribute? list "start".toList = some v →
        integer? (strip v) = none → IsInt64 (leadingInteger (strip v)) → listStart d list = 1 := by
  have hinteger : ∀ n, integer? (strip v) = some n → parseStart v = some (nearestOrdinal n) := by
    intro n hn
    rw [parseStart_eq, leadingInteger_of_integer? hn, hn, Option.map_some, ite_self]
  have hother : integer? (strip v) = none →
      parseStart v =
        if IsInt64 (leadingInteger (strip v)) then none
        else some (if leadingInteger (strip v) < 0 then 0 else maxOrdinal) := by
    intro hnone
    rw [parseStart_eq, hnone, Option.map_none]
    split
    · rfl
    · rename_i hlarge
      rw [nearestOrdinal_of_not_isInt64 hlarge]
  refine ⟨hinteger, hother, ?_, fun d list hstart hnone hsmall => ?_⟩
  · cases hv : integer? (strip v) with
    | some n => simp [hinteger n hv]
    | none =>
      rw [hother hv]
      split <;> simp [*]
  · rw [listStart, hstart, Option.bind_some, hother hnone, if_pos hsmall]
    rfl

/-- A number beyond 64 bits behind a sign and in white space. -/
theorem parseStart_iff_integer_large :
    integer? (strip "\u00a0-99999999999999999999 ".toList) = some (-99999999999999999999) ∧
      parseStart "\u00a0-99999999999999999999 ".toList = some 0 := by
  have hinteger :
      integer? (strip "\u00a0-99999999999999999999 ".toList) = some (-99999999999999999999) := by
    decide +kernel
  exact ⟨hinteger, (parseStart_iff_integer _).1 _ hinteger⟩

/-- A list whose start is no number, but opens with digits beyond 64 bits. -/
def longStart : Document :=
  Document.grown
    [(0, .element "ol".toList [("start".toList, "99999999999999999999x".toList)]),
     (1, .element "li".toList []), (2, .text "a".toList)]

/-- Such a start is taken for the largest number of an item, where a shorter one counts as none. -/
theorem parseStart_longStart :
    longStart.attribute? 1 "start".toList = some "99999999999999999999x".toList ∧
      integer? (strip "99999999999999999999x".toList) = none ∧
      parseStart "99999999999999999999x".toList = some 999999999 ∧
      (Profile.ofFlavour .commonMark {}).convert longStart = .ok "999999999. a".toList ∧
      parseStart "9x".toList = none := by
  decide +kernel

end TreeMarkdown.Markdown
