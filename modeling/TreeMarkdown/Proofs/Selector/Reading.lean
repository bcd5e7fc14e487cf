/-
Which keys can be read, and how the lists of keys are read.

A key names something unless it is blank, that is, all white space (`parse?_eq_none_iff`), and what
it names is a matter of its words in capitals (`parse?_eq_some_iff`). The selectors that are read
from keys are those in capitals (`isRead_iff`), and each is read from its own key
(`IsRead.parse?_key`), so that the key is the spelling in normal form.
A comma list is read piece by piece: it has as many chains as pieces that are not blank
(`length_parseList`), and joining two lists by a comma joins what they name
(`parseList_append_comma`).
-/

import TreeMarkdown.Proofs.Text.Capitals
import TreeMarkdown.Selector

namespace TreeMarkdown

namespace Text

/-- A text with nothing but white space. -/
def isBlank (t : Text) : Bool :=
  t.all isWhite

theorem words_cons_of_isWhite {c : Char} (h : isWhite c = true) (t : Text) :
    words (c :: t) = words t := by
  simp [words, List.splitOnP_cons_eq_if_modifyHead, h]

theorem words_cons_ne_nil {c : Char} (h : isWhite c = false) (t : Text) :
    words (c :: t) ≠ [] := by
  obtain ⟨first, others, hsplit⟩ := List.exists_cons_of_ne_nil (List.splitOnP_ne_nil isWhite t)
  simp [words, List.splitOnP_cons_eq_if_modifyHead, h, hsplit]

/-- A text has no words exactly if it is blank. -/
theorem words_eq_nil_iff {t : Text} : words t = [] ↔ isBlank t = true := by
  induction t with
  | nil => simp [words, isBlank]
  | cons c t ih =>
    cases h : isWhite c with
    | true => rw [words_cons_of_isWhite h, ih, isBlank, isBlank, List.all_cons, h, Bool.true_and]
    | false => simp [words_cons_ne_nil h, isBlank, h]

end Text

namespace Selector

/-- Only a blank key names nothing. -/
theorem parse?_eq_none_iff {key : Text} : parse? key = none ↔ Text.isBlank key = true := by
  rw [← Text.words_eq_nil_iff]
  unfold parse? tokensOf
  by_cases h : Text.words key = []
  · simp [h]
  · simp [h]

theorem isSome_parse? (key : Text) : (parse? key).isSome = !Text.isBlank key := by
  cases h : Text.isBlank key with
  | true => rw [parse?_eq_none_iff.mpr h]; rfl
  | false =>
    have hne : parse? key ≠ none := fun hnone => by
      rw [parse?_eq_none_iff.mp hnone] at h
      cases h
    exact Option.isSome_iff_ne_none.mpr hne

/-! ### Selectors that are read -/

section Read

variable {s : Selector} {key : Text}

/-- A key is read as the selector that its words in capitals are the tokens of. -/
theorem parse?_eq_some_iff : parse? key = some s ↔ tokensOf key = s.tokens := by
  unfold parse?
  split
  · rename_i hnil
    rw [hnil]
    exact iff_of_false nofun (Ne.symm s.tokens_ne_nil)
  · rw [Option.some.injEq]
    exact ⟨fun h => h ▸ rfl, fun h => ext h⟩

/-- The selector is what some key is read as. -/
def IsRead (s : Selector) : Prop :=
  ∃ key, parse? key = some s

/-- The tokens of a selector in capitals are those of its key. -/
theorem tokensOf_key (h : ∀ w ∈ s.tokens, Text.upper w = w) : tokensOf s.key = s.tokens := by
  rw [tokensOf, words_key, List.map_congr_left h, List.map_id']

/-- Keys are read as the selectors that are in capitals. -/
theorem isRead_iff : s.IsRead ↔ ∀ w ∈ s.tokens, Text.upper w = w := by
  constructor
  · rintro ⟨key, hkey⟩ w hw
    rw [← parse?_eq_some_iff.mp hkey] at hw
    obtain ⟨word, -, rfl⟩ := List.mem_map.mp hw
    exact Text.upper_upper word
  · exact fun h => ⟨s.key, parse?_eq_some_iff.mpr (tokensOf_key h)⟩

/-- A selector that is read is read from its own key. -/
theorem IsRead.parse?_key (h : s.IsRead) : parse? s.key = some s :=
  parse?_eq_some_iff.mpr (tokensOf_key (isRead_iff.mp h))

end Read

/-! ### Lists -/

theorem isRead_of_mem_parseList {keys : Text} {s : Selector} (h : s ∈ parseList keys) :
    s.IsRead := by
  obtain ⟨piece, -, hpiece⟩ := List.mem_filterMap.mp h
  exact ⟨piece, hpiece⟩

/-- A comma list names as many chains as it has pieces that are not blank. -/
theorem length_parseList (keys : Text) :
    (parseList keys).length = (keys.splitOn ',').countP fun piece => !Text.isBlank piece := by
  unfold parseList
  induction keys.splitOn ',' with
  | nil => rfl
  | cons piece pieces ih =>
    rw [List.countP_cons, ← ih, ← isSome_parse?]
    cases h : parse? piece <;> simp [h]

/-- Lists joined by a comma name what they name one after the other. -/
theorem parseList_append_comma (s t : Text) :
    parseList (s ++ ',' :: t) = parseList s ++ parseList t := by
  rw [parseList, List.splitOn_append_cons_self, List.filterMap_append]
  rfl

end Selector

end TreeMarkdown
