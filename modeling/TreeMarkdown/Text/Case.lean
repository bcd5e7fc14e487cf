/-
Letter case: the full Unicode mappings, and comparison that folds ASCII only.

`upper` maps character by character and may lengthen the text; `lower` also looks
around each capital sigma, which has a form of its own at the end of a word.
`eqIgnoringCase` is the comparison used for names, where only the ASCII letters
have two cases. Main statement: upper case keeps a word a word, so that neither
an empty text nor white space ever arises from one (`upper_ne_nil`,
`isWhite_eq_false_of_mem_upper`).
-/

import TreeMarkdown.Text.White
import TreeMarkdown.Text.CaseTable

namespace TreeMarkdown.Text

/-! ### Single characters -/

/-- Some interval of the list holds the character. -/
def inRanges (ranges : List (Nat × Nat)) (c : Char) : Bool :=
  ranges.any fun (first, last) => first ≤ c.toNat && c.toNat ≤ last

/-- The image of a character beyond ASCII under a table of single mappings and
a table of expansions. A character in neither table is its own image. -/
def mapCase (runs : List CaseRun) (expansions : List (Nat × List Nat)) (c : Char) : Text :=
  match expansions.find? (·.1 == c.toNat) with
  | some expansion => expansion.2.map Char.ofNat
  | none =>
    match runs.findSome? (·.imageOf? c.toNat) with
    | some code => [Char.ofNat code]
    | none => [c]

/-- The upper case form of a character. -/
def upperChar (c : Char) : Text :=
  if c.toNat < 128 then [c.toUpper] else mapCase upperRuns upperExpansions c

/-- The lower case form of a character, whatever stands around it. -/
def lowerChar (c : Char) : Text :=
  if c.toNat < 128 then [c.toLower] else mapCase lowerRuns lowerExpansions c

/-- The character has the property `Cased`. -/
def isCased (c : Char) : Bool :=
  inRanges casedRanges c

/-- The character has the property `Case_Ignorable`. -/
def isCaseIgnorable (c : Char) : Bool :=
  inRanges caseIgnorableRanges c

/-! ### Whole texts -/

/-- The upper case form of a text. -/
def upper (t : Text) : Text :=
  t.flatMap upperChar

/-- The first character that is not ignorable for case is a cased one. -/
def startsCased (t : Text) : Bool :=
  (t.dropWhile isCaseIgnorable).head?.any isCased

/-- `lower` inside a text, where `before` is what has been read, last character
first. A capital sigma ends a word if a cased character stands before it and
none after it, ignorable characters not counted. -/
def lowerFrom (before : Text) : Text → Text
  | [] => []
  | c :: t =>
    let image :=
      if c = 'Σ' then [if startsCased before && !startsCased t then 'ς' else 'σ']
      else lowerChar c
    image ++ lowerFrom (c :: before) t

/-- The lower case form of a text. -/
def lower (t : Text) : Text :=
  lowerFrom [] t

/-! ### Folding ASCII -/

/-- Maps the ASCII capitals to their small letters. -/
def foldAscii (t : Text) : Text :=
  t.map Char.toLower

/-- Equality up to the case of ASCII letters. -/
def eqIgnoringCase (s t : Text) : Bool :=
  foldAscii s == foldAscii t

theorem eqIgnoringCase_iff {s t : Text} :
    eqIgnoringCase s t = true ↔ foldAscii s = foldAscii t := by
  simp [eqIgnoringCase]

/-! ### Upper case and white space -/

theorem toNat_ofNat {n : Nat} (h : n.isValidChar) : (Char.ofNat n).toNat = n := by
  rw [Char.ofNat, dif_pos h]
  rfl

/-- The interval of code points `[first, last]` holds no white space. -/
def avoidsWhite (first last : Nat) : Bool :=
  whiteRanges.all fun (low, high) => last < low || high < first

theorem isWhite_ofNat_eq_false {first last n : Nat} (h : avoidsWhite first last = true)
    (hfirst : first ≤ n) (hlast : n ≤ last) : isWhite (Char.ofNat n) = false := by
  by_cases hvalid : n.isValidChar
  · simp only [isWhite, toNat_ofNat hvalid, List.any_eq_false]
    intro range hrange
    have := List.all_eq_true.mp h range hrange
    simp only [Bool.or_eq_true, decide_eq_true_eq] at this
    simp only [Bool.and_eq_true, decide_eq_true_eq]
    omega
  · have hn : Char.ofNat n = '\x00' := by
      rw [Char.ofNat, dif_neg hvalid]
      rfl
    rw [hn]
    decide

theorem avoidsWhite_upperRuns :
    upperRuns.all (fun r => avoidsWhite r.image (r.image + (r.last - r.first))) = true := by
  decide

theorem avoidsWhite_upperExpansions :
    upperExpansions.all (fun e => !e.2.isEmpty && e.2.all fun n => avoidsWhite n n) = true := by
  decide

theorem isWhite_toUpper {c : Char} (hascii : c.toNat < 128) (h : isWhite c = false) :
    isWhite c.toUpper = false := by
  have hall : ∀ n < 128, isWhite (Char.ofNat n) = false →
      isWhite (Char.ofNat n).toUpper = false := by decide
  have := hall c.toNat hascii
  rw [Char.ofNat_toNat] at this
  exact this h

theorem upperChar_ne_nil (c : Char) : upperChar c ≠ [] := by
  unfold upperChar mapCase
  split
  · simp
  · split
    · rename_i expansion hfind
      have := List.all_eq_true.mp avoidsWhite_upperExpansions _ (List.mem_of_find?_eq_some hfind)
      simp only [Bool.and_eq_true, Bool.not_eq_true', List.isEmpty_eq_false_iff] at this
      simpa using this.1
    · split <;> simp

/-- The upper case form of a character that is not white space holds none. -/
theorem isWhite_eq_false_of_mem_upperChar {c x : Char} (h : isWhite c = false)
    (hx : x ∈ upperChar c) : isWhite x = false := by
  unfold upperChar mapCase at hx
  split at hx
  · rename_i hascii
    rw [List.mem_singleton.mp hx]
    exact isWhite_toUpper hascii h
  · split at hx
    · rename_i expansion hfind
      obtain ⟨n, hn, rfl⟩ := List.mem_map.mp hx
      have := List.all_eq_true.mp avoidsWhite_upperExpansions _ (List.mem_of_find?_eq_some hfind)
      simp only [Bool.and_eq_true, List.all_eq_true] at this
      exact isWhite_ofNat_eq_false (this.2 n hn) (Nat.le_refl n) (Nat.le_refl n)
    · split at hx
      · rename_i code hcode
        obtain ⟨r, hr, hcode⟩ := List.exists_of_findSome?_eq_some hcode
        have hrange := List.all_eq_true.mp avoidsWhite_upperRuns r hr
        unfold CaseRun.imageOf? at hcode
        split at hcode
        · cases hcode
          rw [List.mem_singleton.mp hx]
          exact isWhite_ofNat_eq_false hrange (by omega) (by omega)
        · cases hcode
      · rw [List.mem_singleton.mp hx]
        exact h

theorem upper_ne_nil {t : Text} (h : t ≠ []) : upper t ≠ [] := by
  cases t with
  | nil => exact absurd rfl h
  | cons c t => simp [upper, upperChar_ne_nil c]

/-- Upper case keeps a word free of white space. -/
theorem isWhite_eq_false_of_mem_upper {t : Text} (h : ∀ c ∈ t, isWhite c = false) :
    ∀ x ∈ upper t, isWhite x = false := by
  intro x hx
  obtain ⟨c, hc, hx⟩ := List.mem_flatMap.mp hx
  exact isWhite_eq_false_of_mem_upperChar (h c hc) hx

end TreeMarkdown.Text
