/-
Decimal numerals of bounded size.

`decimal` writes a number. `readMagnitude` reads one from left to right and stops
at the first character that is not a digit or that takes the value past the
limit; which of the two comes first decides the answer. Only ASCII digits count.
-/

import TreeMarkdown.Text.Basic

namespace TreeMarkdown.Text

/-- What a text says when it is read as a number. -/
inductive Numeral where
  | value (n : Nat)
  | overflow
  | malformed
deriving DecidableEq

/-- The decimal numeral of a number. -/
def decimal (n : Nat) : Text :=
  Nat.toDigits 10 n

/-- Reads on from the value `acc` of the digits before. -/
def readDigits (limit : Nat) (acc : Nat) : Text → Numeral
  | [] => .value acc
  | c :: t =>
    if c.isDigit then
      let next := acc * 10 + (c.toNat - '0'.toNat)
      if limit < next then .overflow else readDigits limit next t
    else .malformed

/-- Reads one or more digits whose value must not be larger than `limit`. -/
def readMagnitude (limit : Nat) (t : Text) : Numeral :=
  if t.isEmpty then .malformed else readDigits limit 0 t

/-- Reads digits after an optional plus sign. -/
def readUnsigned (limit : Nat) : Text → Numeral
  | '+' :: t => readMagnitude limit t
  | t => readMagnitude limit t

end TreeMarkdown.Text
