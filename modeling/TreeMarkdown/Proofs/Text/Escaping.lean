/-
Which special characters of a text are escaped.

A reader of Markdown goes through a text from the left, and a backslash that is not escaped
itself escapes the character behind it (`readSpecialsFrom`). How many backslashes stand right
before a character decides whether it is escaped: it is if their number is odd
(`escapesNext_iff`, `mem_readSpecials_iff`).

Escaping puts one backslash before every special character and none before a backslash. The
run before a special character thus becomes one longer (`exists_of_escape_eq`), and its parity
changes: what was markup is escaped afterwards, and what the text had escaped by itself is
markup (`readSpecials_escape`). A text whose special characters stand behind even runs, such
as any text without backslashes, is the one that has no markup left.
-/

import Mathlib.Algebra.Ring.Parity
import Mathlib.Data.List.Induction
import TreeMarkdown.Text.Escape

namespace TreeMarkdown.Text

variable {c : Char} {s t u : Text}

/-! ### Reading escapes -/

/-- The number of backslashes at the end of a text. -/
def closingBackslashes (t : Text) : Nat :=
  (t.reverse.takeWhile (· == '\\')).length

/-- Whether the character behind a text is escaped, given whether the first one of the text
is. -/
def escapesNext (escaped : Bool) (t : Text) : Bool :=
  t.foldl (fun escaped c => !escaped && c == '\\') escaped

/-- The special characters of a text in order, each with whether it is escaped, given whether
the first character is. -/
def readSpecialsFrom (escaped : Bool) : Text → List (Char × Bool)
  | [] => []
  | c :: t =>
    (if isSpecial c then [(c, escaped)] else []) ++ readSpecialsFrom (!escaped && c == '\\') t

/-- The special characters of a text in order, each with whether it is escaped. -/
def readSpecials (t : Text) : List (Char × Bool) :=
  readSpecialsFrom false t

/-- The special characters that are read as markup. -/
def activeSpecials (t : Text) : List Char :=
  ((readSpecials t).filter (!·.2)).map (·.1)

/-- The special characters that are read as themselves. -/
def escapedSpecials (t : Text) : List Char :=
  ((readSpecials t).filter (·.2)).map (·.1)

@[simp] theorem isSpecial_backslash : isSpecial '\\' = false := rfl

theorem ne_backslash_of_isSpecial (h : isSpecial c = true) : c ≠ '\\' := by
  rintro rfl
  simp at h

/-! ### The parity of a run -/

@[simp] theorem closingBackslashes_nil : closingBackslashes [] = 0 := rfl

@[simp] theorem closingBackslashes_concat_backslash (t : Text) :
    closingBackslashes (t ++ ['\\']) = closingBackslashes t + 1 := by
  simp [closingBackslashes]

theorem closingBackslashes_concat (h : c ≠ '\\') (t : Text) :
    closingBackslashes (t ++ [c]) = 0 := by
  simp [closingBackslashes, h]

theorem closingBackslashes_eq_zero (h : '\\' ∉ t) : closingBackslashes t = 0 := by
  rcases List.eq_nil_or_concat t with rfl | ⟨t, c, rfl⟩
  · rfl
  · have hc : c ≠ '\\' := by
      rintro rfl
      exact h (by simp)
    rw [List.concat_eq_append, closingBackslashes_concat hc]

theorem escapesNext_concat (escaped : Bool) (t : Text) (c : Char) :
    escapesNext escaped (t ++ [c]) = (!escapesNext escaped t && c == '\\') := by
  simp [escapesNext]

/-- Behind an odd number of backslashes a character is escaped. -/
theorem escapesNext_iff : escapesNext false t = true ↔ Odd (closingBackslashes t) := by
  induction t using List.reverseRecOn with
  | nil => simp [escapesNext]
  | append_singleton t c ih =>
    by_cases hc : c = '\\'
    · subst hc
      simp only [escapesNext_concat, closingBackslashes_concat_backslash, Nat.odd_add_one, ← ih]
      simp
    · simp [escapesNext_concat, closingBackslashes_concat hc, hc]

theorem mem_readSpecialsFrom_iff {first escaped : Bool} :
    (c, escaped) ∈ readSpecialsFrom first t ↔
      isSpecial c = true ∧ ∃ u v, t = u ++ c :: v ∧ escaped = escapesNext first u := by
  induction t generalizing first with
  | nil => simp [readSpecialsFrom]
  | cons x t ih =>
    simp only [readSpecialsFrom, List.mem_append, ih]
    constructor
    · rintro (hhere | ⟨hc, u, v, rfl, hescaped⟩)
      · by_cases hx : isSpecial x = true
        · obtain ⟨rfl, rfl⟩ : c = x ∧ escaped = first := by simpa [hx] using hhere
          exact ⟨hx, [], t, rfl, rfl⟩
        · simp [hx] at hhere
      · exact ⟨hc, x :: u, v, rfl, hescaped⟩
    · rintro ⟨hc, u, v, hsplit, hescaped⟩
      cases u with
      | nil =>
        obtain ⟨rfl, rfl⟩ := List.cons.inj hsplit
        exact Or.inl (by simp [hc, hescaped, escapesNext])
      | cons y u =>
        obtain ⟨rfl, rfl⟩ := List.cons.inj hsplit
        exact Or.inr ⟨hc, u, v, rfl, hescaped⟩

/-- A special character is read as escaped if an odd number of backslashes stands before
it. -/
theorem mem_readSpecials_iff {escaped : Bool} : (c, escaped) ∈ readSpecials t ↔
    isSpecial c = true ∧
      ∃ u v, t = u ++ c :: v ∧ (escaped = true ↔ Odd (closingBackslashes u)) := by
  simp only [readSpecials, mem_readSpecialsFrom_iff, ← escapesNext_iff, ← Bool.eq_iff_iff]

/-- No special character of a text is markup if each stands behind an odd number of
backslashes. -/
theorem activeSpecials_eq_nil_iff : activeSpecials t = [] ↔
    ∀ u c v, t = u ++ c :: v → isSpecial c = true → Odd (closingBackslashes u) := by
  have hactive : activeSpecials t = [] ↔ ∀ c, (c, false) ∉ readSpecials t := by
    simp [activeSpecials]
  rw [hactive]
  simp only [mem_readSpecials_iff, not_and, not_exists, Bool.false_eq_true, false_iff, not_not]
  exact ⟨fun h u c v ht hc => h c hc u v ht, fun h c hc u v ht => h u c v ht hc⟩

/-! ### Escaped texts -/

/-- Escaping leaves the end of a text as it is. -/
theorem closingBackslashes_escape (t : Text) :
    closingBackslashes (escape t) = closingBackslashes t := by
  induction t using List.reverseRecOn with
  | nil => rfl
  | append_singleton t c ih =>
    rw [escape_append]
    by_cases hc : c = '\\'
    · subst hc
      have hself : escape ['\\'] = ['\\'] := rfl
      simp only [hself, closingBackslashes_concat_backslash, ih]
    · have hend : ∃ s, escape [c] = s ++ [c] := by
        cases hspecial : isSpecial c with
        | true => exact ⟨['\\'], by simp [escape, escapeChar, hspecial]⟩
        | false => exact ⟨[], by simp [escape, escapeChar, hspecial]⟩
      obtain ⟨s, hs⟩ := hend
      rw [hs, ← List.append_assoc, closingBackslashes_concat hc, closingBackslashes_concat hc]

theorem escape_append_special (hc : isSpecial c = true) (u v : Text) :
    escape (u ++ c :: v) = (escape u ++ ['\\']) ++ c :: escape v := by
  simp [escape, escapeChar, hc]

/-- The run of backslashes before a special character becomes one longer. -/
theorem closingBackslashes_escape_append (u : Text) :
    closingBackslashes (escape u ++ ['\\']) = closingBackslashes u + 1 := by
  rw [closingBackslashes_concat_backslash, closingBackslashes_escape]

/-- A special character of an escaped text is one of the text, behind the backslash that was
put before it. -/
theorem exists_of_escape_eq {before after : Text} (hc : isSpecial c = true)
    (h : escape t = before ++ c :: after) :
    ∃ u v, t = u ++ c :: v ∧ before = escape u ++ ['\\'] ∧ after = escape v := by
  induction t generalizing before with
  | nil => simp [escape] at h
  | cons x t ih =>
    by_cases hx : isSpecial x = true
    · have hcons : '\\' :: x :: escape t = before ++ c :: after := by
        simpa [escape, escapeChar, hx] using h
      rcases before with _ | ⟨b, _ | ⟨b', before⟩⟩
      · cases hcons
        cases hc
      · cases hcons
        exact ⟨[], t, rfl, rfl, rfl⟩
      · simp only [List.cons_append, List.cons.injEq] at hcons
        obtain ⟨rfl, rfl, htail⟩ := hcons
        obtain ⟨u, v, rfl, rfl, rfl⟩ := ih htail
        exact ⟨x :: u, v, rfl, by simp [escape, escapeChar, hx], rfl⟩
    · have hcons : x :: escape t = before ++ c :: after := by
        simpa [escape, escapeChar, hx] using h
      cases before with
      | nil =>
        cases hcons
        exact absurd hc hx
      | cons b before =>
        simp only [List.cons_append, List.cons.injEq] at hcons
        obtain ⟨rfl, htail⟩ := hcons
        obtain ⟨u, v, rfl, rfl, rfl⟩ := ih htail
        exact ⟨x :: u, v, rfl, by simp [escape, escapeChar, hx], rfl⟩

theorem readSpecialsFrom_escape (escaped : Bool) (t : Text) :
    readSpecialsFrom escaped (escape t) =
      (readSpecialsFrom escaped t).map fun (c, escaped) => (c, !escaped) := by
  induction t generalizing escaped with
  | nil => rfl
  | cons x t ih =>
    show readSpecialsFrom escaped (escapeChar x ++ escape t) = _
    by_cases hx : isSpecial x = true
    · -- the new backslash turns the state round, and behind `x` both readers begin anew
      have hne : (x == '\\') = false := beq_eq_false_iff_ne.mpr (ne_backslash_of_isSpecial hx)
      simp [escapeChar, readSpecialsFrom, hx, hne, ih]
    · simp [escapeChar, readSpecialsFrom, hx, ih]

/-- Escaping a text exchanges its escaped special characters and those that are markup. -/
theorem readSpecials_escape (t : Text) :
    readSpecials (escape t) = (readSpecials t).map fun (c, escaped) => (c, !escaped) :=
  readSpecialsFrom_escape false t

theorem activeSpecials_escape (t : Text) : activeSpecials (escape t) = escapedSpecials t := by
  simp [activeSpecials, escapedSpecials, readSpecials_escape, List.filter_map, Function.comp_def]

theorem escapedSpecials_escape (t : Text) : escapedSpecials (escape t) = activeSpecials t := by
  simp [activeSpecials, escapedSpecials, readSpecials_escape, List.filter_map, Function.comp_def]

/-- Nothing of an escaped text is markup if every special character of the text itself stands
behind an even number of backslashes. -/
theorem activeSpecials_escape_eq_nil_iff : activeSpecials (escape t) = [] ↔
    ∀ u c v, t = u ++ c :: v → isSpecial c = true → Even (closingBackslashes u) := by
  rw [activeSpecials_eq_nil_iff]
  constructor
  · rintro hodd u c v rfl hc
    have hrun := hodd _ c _ (escape_append_special hc u v) hc
    rwa [closingBackslashes_escape_append, Nat.odd_add_one, Nat.not_odd_iff_even] at hrun
  · intro heven before c after h hc
    obtain ⟨u, v, hsplit, rfl, -⟩ := exists_of_escape_eq hc h
    rw [closingBackslashes_escape_append, Nat.odd_add_one, Nat.not_odd_iff_even]
    exact heven u c v hsplit hc

/-- The run of backslashes before a special character of an escaped text is one longer than
the run before that character in the text itself. Whoever reads the escaped text finds the
special characters escaped that are markup in the text itself, and those for markup that the
text has escaped already. So all of them are escaped, which is to say that each stands behind
an odd run, exactly if each stands behind an even run in the text itself; in a text without
backslashes each does. -/
theorem escape_exchanges_specials (t : Text) :
    (∀ before c after, isSpecial c = true → escape t = before ++ c :: after →
      ∃ u v, t = u ++ c :: v ∧ before = escape u ++ ['\\'] ∧ after = escape v ∧
        closingBackslashes before = closingBackslashes u + 1) ∧
      activeSpecials (escape t) = escapedSpecials t ∧
      escapedSpecials (escape t) = activeSpecials t ∧
      (activeSpecials (escape t) = [] ↔ ∀ before c after, escape t = before ++ c :: after →
        isSpecial c = true → Odd (closingBackslashes before)) ∧
      (activeSpecials (escape t) = [] ↔ ∀ u c v, t = u ++ c :: v →
        isSpecial c = true → Even (closingBackslashes u)) ∧
      ('\\' ∉ t → activeSpecials (escape t) = []) := by
  refine ⟨?_, activeSpecials_escape t, escapedSpecials_escape t, activeSpecials_eq_nil_iff,
    activeSpecials_escape_eq_nil_iff, ?_⟩
  · intro before c after hc h
    obtain ⟨u, v, hsplit, rfl, hafter⟩ := exists_of_escape_eq hc h
    exact ⟨u, v, hsplit, rfl, hafter, closingBackslashes_escape_append u⟩
  · intro hnone
    refine activeSpecials_escape_eq_nil_iff.mpr fun u c v hsplit _ => ?_
    have hu : '\\' ∉ u := fun hmem => hnone (by simp [hsplit, hmem])
    rw [closingBackslashes_eq_zero hu]
    exact Even.zero

/-- A backslash before a star takes away what escaping puts between them: the star, escaped
in the text itself, is markup in the escaped text. -/
theorem escape_escapedStar :
    escape "\\*".toList = "\\\\".toList ++ '*' :: [] ∧ isSpecial '*' = true ∧
      closingBackslashes "\\\\".toList = 2 ∧ ¬ Odd (closingBackslashes "\\\\".toList) ∧
      activeSpecials "\\*".toList = [] ∧ activeSpecials (escape "\\*".toList) = ['*'] := by
  decide

end TreeMarkdown.Text
