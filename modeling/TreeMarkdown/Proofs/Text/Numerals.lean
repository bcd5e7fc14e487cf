/-
Numbers read from text.

A text denotes an integer, however large, if it is one or more digits behind a sign or no sign
(`integer?`). `readMagnitude` stops at the first digit that takes the value past the limit and does
not look at the rest. So it is not only the size of a number that it may report: a text that is no
number at all counts as too large if the digits that it opens with are (`readMagnitude_eq`).
-/

import Mathlib.Data.List.TakeWhile
import TreeMarkdown.Proofs.Text.Lines
import TreeMarkdown.Text.Numeral

namespace TreeMarkdown.Text

variable {t : Text} {limit acc n : Nat}

/-! ### Digits -/

/-- The number that a text denotes: one or more digits and nothing else. -/
def magnitude? (t : Text) : Option Nat :=
  if t ≠ [] ∧ t.all Char.isDigit = true then some (Nat.ofDigitChars 10 t 0) else none

/-- The number that the digits at the beginning of a text denote, 0 if there are none. -/
def leadingMagnitude (t : Text) : Nat :=
  Nat.ofDigitChars 10 (t.takeWhile Char.isDigit) 0

theorem leadingMagnitude_of_magnitude? (h : magnitude? t = some n) : leadingMagnitude t = n := by
  rw [magnitude?] at h
  split at h
  · rename_i hdigits
    rw [leadingMagnitude, List.takeWhile_eq_self_iff.mpr (List.all_eq_true.mp hdigits.2)]
    exact Option.some.inj h
  · cases h

/-! ### Reading up to a limit -/

/-- Further digits do not make a number smaller. -/
theorem le_ofDigitChars (t : Text) (acc : Nat) : acc ≤ Nat.ofDigitChars 10 t acc := by
  induction t generalizing acc with
  | nil => exact Nat.le_refl acc
  | cons c t ih =>
    rw [Nat.ofDigitChars_cons]
    exact Nat.le_trans (by omega) (ih _)

/-- The first digit past the limit ends the reading, and the digits behind it only take the value
further, so that the digits in a row decide. -/
theorem readDigits_eq (t : Text) (h : acc ≤ limit) :
    readDigits limit acc t =
      if limit < Nat.ofDigitChars 10 (t.takeWhile Char.isDigit) acc then .overflow
      else if t.all Char.isDigit = true then .value (Nat.ofDigitChars 10 t acc)
      else .malformed := by
  induction t generalizing acc with
  | nil =>
    rw [List.takeWhile_nil, Nat.ofDigitChars_nil, if_neg (Nat.not_lt.mpr h)]
    rfl
  | cons c t ih =>
    rw [readDigits]
    by_cases hc : c.isDigit = true
    · simp only [hc, if_true, Nat.mul_comm acc 10, List.takeWhile_cons_of_pos, List.all_cons,
        Bool.true_and, Nat.ofDigitChars_cons]
      by_cases hlarge : limit < 10 * acc + (c.toNat - '0'.toNat)
      · rw [if_pos hlarge, if_pos (Nat.lt_of_lt_of_le hlarge (le_ofDigitChars _ _))]
      · rw [if_neg hlarge]
        exact ih (Nat.not_lt.mp hlarge)
    · rw [if_neg hc, List.takeWhile_cons_of_neg hc, Nat.ofDigitChars_nil,
        if_neg (Nat.not_lt.mpr h), List.all_cons, Bool.eq_false_iff.mpr hc]
      rfl

/-- Digits are too large if those at the beginning are, and are otherwise read for what they
denote. -/
theorem readMagnitude_eq (limit : Nat) (t : Text) :
    readMagnitude limit t =
      if limit < leadingMagnitude t then .overflow
      else (magnitude? t).elim .malformed .value := by
  rw [readMagnitude]
  cases t with
  | nil => rfl
  | cons c t =>
    rw [List.isEmpty_cons, if_neg Bool.false_ne_true, readDigits_eq _ (Nat.zero_le limit)]
    congr 1
    by_cases hdigits : (c :: t).all Char.isDigit = true
    · rw [magnitude?, if_pos hdigits, if_pos ⟨List.cons_ne_nil c t, hdigits⟩]
      rfl
    · rw [magnitude?, if_neg hdigits, if_neg fun h => hdigits h.2]
      rfl

/-! ### Signs -/

/-- Whether a text opens with a minus sign, and what stands behind its sign. -/
def splitSign : Text → Bool × Text
  | '-' :: t => (true, t)
  | '+' :: t => (false, t)
  | t => (false, t)

/-- A number with a minus sign in front, or with none. -/
def signed (negative : Bool) (n : Nat) : Int :=
  if negative then -n else n

/-- The integer that a text denotes: one or more digits behind a sign or no sign. -/
def integer? (t : Text) : Option Int :=
  (magnitude? (splitSign t).2).map (signed (splitSign t).1)

/-- The integer that the sign and the digits at the beginning of a text denote. -/
def leadingInteger (t : Text) : Int :=
  signed (splitSign t).1 (leadingMagnitude (splitSign t).2)

theorem leadingInteger_of_integer? {n : Int} (h : integer? t = some n) : leadingInteger t = n := by
  obtain ⟨m, hm, rfl⟩ := Option.map_eq_some_iff.mp h
  rw [leadingInteger, leadingMagnitude_of_magnitude? hm]

end TreeMarkdown.Text
