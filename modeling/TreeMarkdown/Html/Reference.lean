/-
Character references in HTML text and attribute values.

A reference names a character or gives its number, in decimal or hexadecimal. Numbers
that stand for no character give the replacement character, and the numbers from 128 to
159 stand for the characters that Windows-1252 has there. An ampersand that begins no
reference is text.
-/

import TreeMarkdown.Text.Basic

namespace TreeMarkdown.Html

/-- The names of characters that are read. -/
def namedCharacters : List (Text × Char) :=
  [("amp;".toList, '&'), ("lt;".toList, '<'), ("gt;".toList, '>'), ("quot;".toList, '"'),
   ("nbsp;".toList, '\u00a0'), ("copy;".toList, '\u00a9')]

/-- The characters that the numbers from 128 to 159 stand for, where these are not the
characters of those numbers. -/
def windowsCharacters : List (Nat × Nat) :=
  [(0x80, 0x20AC), (0x82, 0x201A), (0x83, 0x0192), (0x84, 0x201E), (0x85, 0x2026),
   (0x86, 0x2020), (0x87, 0x2021), (0x88, 0x02C6), (0x89, 0x2030), (0x8A, 0x0160),
   (0x8B, 0x2039), (0x8C, 0x0152), (0x8E, 0x017D), (0x91, 0x2018), (0x92, 0x2019),
   (0x93, 0x201C), (0x94, 0x201D), (0x95, 0x2022), (0x96, 0x2013), (0x97, 0x2014),
   (0x98, 0x02DC), (0x99, 0x2122), (0x9A, 0x0161), (0x9B, 0x203A), (0x9C, 0x0153),
   (0x9E, 0x017E), (0x9F, 0x0178)]

/-- The character that stands for what is no character. -/
def replacement : Char := '\ufffd'

/-- The character of a number. -/
def numberedCharacter (n : Nat) : Char :=
  match windowsCharacters.lookup n with
  | some m => Char.ofNat m
  | none => if n = 0 ∨ ¬ n.isValidChar then replacement else Char.ofNat n

/-- The value of a hexadecimal digit. -/
def hexDigit? (c : Char) : Option Nat :=
  if c.isDigit then some (c.toNat - '0'.toNat)
  else if 'a' ≤ c ∧ c ≤ 'f' then some (c.toNat - 'a'.toNat + 10)
  else if 'A' ≤ c ∧ c ≤ 'F' then some (c.toNat - 'A'.toNat + 10)
  else none

/-- The value of a digit in base `base`, which is at most 16. -/
def digit? (base : Nat) (c : Char) : Option Nat :=
  (hexDigit? c).filter (· < base)

/-- The value of digits read on from `acc`. -/
def digitsValue (base acc : Nat) (digits : Text) : Nat :=
  digits.foldl (fun n c => n * base + (digit? base c).getD 0) acc

/-- Drops a semicolon. -/
def dropSemicolon : Text → Text
  | ';' :: t => t
  | t => t

/-- Reads the digits of a reference. Gives the character and the text behind it. -/
def numbered? (base : Nat) (t : Text) : Option (Char × Text) :=
  let digits := t.takeWhile fun c => (digit? base c).isSome
  if digits.isEmpty then none
  else
    some (numberedCharacter (digitsValue base 0 digits),
      dropSemicolon (t.dropWhile fun c => (digit? base c).isSome))

/-- Reads a name. Gives the character and the text behind it. -/
def named? (t : Text) : Option (Char × Text) :=
  namedCharacters.findSome? fun (name, c) => (List.isPrefixOf? name t).map fun rest => (c, rest)

/-- Reads a reference from behind its ampersand. -/
def reference? : Text → Option (Char × Text)
  | '#' :: 'x' :: t => numbered? 16 t
  | '#' :: 'X' :: t => numbered? 16 t
  | '#' :: t => numbered? 10 t
  | t => named? t

/-- A piece of text that stood behind an ampersand, the reference at its start replaced. A
reference has no ampersand inside, so every piece can be read on its own. -/
def decodePiece (t : Text) : Text :=
  match reference? t with
  | some (c, rest) => c :: rest
  | none => '&' :: t

/-- Replaces the references in a text. -/
def decode (t : Text) : Text :=
  match t.splitOn '&' with
  | [] => []
  | first :: pieces => first ++ pieces.flatMap decodePiece

end TreeMarkdown.Html
