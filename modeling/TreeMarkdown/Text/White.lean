/-
White space in the sense of Unicode: the characters with the property
`White_Space`.

Keys and attribute values are read with this wide class; it holds all of the
ordinary white space of `TreeMarkdown.Text.Space` and the non-breaking and
ideographic spaces besides.
-/

import TreeMarkdown.Text.Space

namespace TreeMarkdown.Text

/-- The code points with the property `White_Space`, as closed intervals. -/
def whiteRanges : List (Nat × Nat) :=
  [(0x09, 0x0D), (0x20, 0x20), (0x85, 0x85), (0xA0, 0xA0), (0x1680, 0x1680),
   (0x2000, 0x200A), (0x2028, 0x2029), (0x202F, 0x202F), (0x205F, 0x205F),
   (0x3000, 0x3000)]

/-- The character has the property `White_Space`. -/
def isWhite (c : Char) : Bool :=
  whiteRanges.any fun (first, last) => first ≤ c.toNat && c.toNat ≤ last

/-- Drops white space of every kind from both ends. -/
def strip (t : Text) : Text :=
  stripBy isWhite t

/-- The maximal pieces of a text that hold no white space. -/
def words (t : Text) : List Text :=
  (t.splitOnP isWhite).filter (!·.isEmpty)

/-- Ordinary white space is white space. -/
theorem isWhite_of_isSpace {c : Char} (h : isSpace c = true) : isWhite c = true := by
  simp only [isSpace, Bool.or_eq_true, beq_iff_eq] at h
  rcases h with ((rfl | rfl) | rfl) | rfl <;> decide

/-- A word is not empty. -/
theorem ne_nil_of_mem_words {t w : Text} (h : w ∈ words t) : w ≠ [] := by
  simpa using (List.mem_filter.mp h).2

/-- A word holds no white space. -/
theorem isWhite_eq_false_of_mem_words {t w : Text} (h : w ∈ words t) {c : Char}
    (hc : c ∈ w) : isWhite c = false :=
  eq_false_of_mem_splitOnP (List.mem_filter.mp h).1 hc

end TreeMarkdown.Text
