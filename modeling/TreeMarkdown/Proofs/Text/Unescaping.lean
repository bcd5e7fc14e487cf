/-
Taking escapes out of a text again.

`unescape` takes out the backslash that stands right before a special character, one for each such
character. In an escaped text these are the backslashes that escaping put there, and a backslash of
the text itself is never one of them, since it is followed by the inserted one or by a character
that is not special. So nothing is lost (`unescape_escape`), and different texts are escaped
differently (`escape_injective`). The texts that escaping gives are known by the backslash before
each of their special characters (`escape_unescape_eq_iff`).
-/

import Mathlib.Data.List.Basic
import TreeMarkdown.Proofs.Text.Escaping

namespace TreeMarkdown.Text

variable {c : Char} {s t : Text}

/-! ### Escaped texts -/

/-- A backslash stands right before each special character. -/
def IsEscaped (s : Text) : Prop :=
  ∀ u c v, s = u ++ c :: v → isSpecial c = true → u.getLast? = some '\\'

theorem isEscaped_escape (t : Text) : IsEscaped (escape t) := by
  intro before c after h hc
  obtain ⟨u, -, -, rfl, -⟩ := exists_of_escape_eq hc h
  exact List.getLast?_concat

/-- No special character stands at the beginning. -/
theorem IsEscaped.head (h : IsEscaped (c :: s)) : isSpecial c = false := by
  refine Bool.eq_false_iff.mpr fun hc => ?_
  have hnone := h [] c s rfl hc
  cases hnone

/-- What follows another text is escaped on its own, unless a backslash before it belongs to its
first character. -/
theorem IsEscaped.of_append (h : IsEscaped (t ++ s))
    (hs : t.getLast? = some '\\' → ∀ x ∈ s.head?, isSpecial x = false) : IsEscaped s := by
  rintro u x v rfl hx
  have hlast := h (t ++ u) x v (List.append_assoc t u _).symm hx
  by_cases hu : u = []
  · subst hu
    rw [List.append_nil] at hlast
    have hnot := hs hlast x rfl
    rw [hx] at hnot
    cases hnot
  · rwa [List.getLast?_append_of_ne_nil _ hu] at hlast

/-! ### Without the escapes -/

/-- Takes the backslashes out again that stand before special characters. -/
def unescape : Text → Text
  | [] => []
  | [c] => [c]
  | c :: x :: t =>
    if c = '\\' ∧ isSpecial x = true then x :: unescape t else c :: unescape (x :: t)

theorem unescape_escape (t : Text) : unescape (escape t) = t := by
  induction t with
  | nil => rfl
  | cons c t ih =>
    rw [escape_cons, escapeChar]
    cases hc : isSpecial c with
    | true =>
      show unescape ('\\' :: c :: escape t) = c :: t
      rw [unescape, if_pos ⟨rfl, hc⟩, ih]
    | false =>
      show unescape (c :: escape t) = c :: t
      cases h : escape t with
      | nil =>
        rw [h] at ih
        rw [← ih]
        rfl
      | cons x u =>
        -- a backslash of the text itself is not followed by a special character
        have hx : isSpecial x = false := IsEscaped.head (h ▸ isEscaped_escape t)
        rw [unescape, if_neg (by simp [hx]), ← h, ih]

theorem escape_injective : Function.Injective escape :=
  Function.LeftInverse.injective unescape_escape

theorem escape_unescape (h : IsEscaped s) : escape (unescape s) = s := by
  fun_induction unescape s with
  | case1 => rfl
  | case2 c => simp [escape, escapeChar, h.head]
  | case3 c x s hpair ih =>
    have hs : IsEscaped s := IsEscaped.of_append (t := [c, x]) h fun hlast =>
      absurd (Option.some.inj hlast) (ne_backslash_of_isSpecial hpair.2)
    rw [escape_cons, escapeChar, if_pos hpair.2, ih hs, hpair.1]
    rfl
  | case4 c x s hpair ih =>
    have hs : IsEscaped (x :: s) := IsEscaped.of_append (t := [c]) h fun hlast y hy => by
      cases hy
      exact Bool.eq_false_iff.mpr fun hx => hpair ⟨Option.some.inj hlast, hx⟩
    rw [escape_cons, escapeChar, h.head, ih hs]
    rfl

/-- Escaping puts the backslashes back into the escaped texts, and into no others. -/
theorem escape_unescape_eq_iff : escape (unescape s) = s ↔ IsEscaped s :=
  ⟨fun h => h ▸ isEscaped_escape _, escape_unescape⟩

/-- One character is inserted for each that is special. -/
theorem length_escape (t : Text) : (escape t).length = t.length + t.countP isSpecial := by
  induction t with
  | nil => rfl
  | cons c t ih =>
    rw [escape_cons, escapeChar, List.length_append, ih, List.length_cons, List.countP_cons]
    cases isSpecial c <;> simp <;> omega

/-- Escaping loses nothing. The one backslash right before each special character of an escaped
text is the one that was inserted, and without them it is the text itself, whatever backslashes
that had; so different texts are escaped differently. Pieces are escaped as they are within the
whole. Each special character of an escaped text has its backslash, one has been inserted for each,
and the texts of this kind are those that are escaped again to what they were. -/
theorem escape_loses_nothing :
    (∀ t, unescape (escape t) = t) ∧ Function.Injective escape ∧
      (∀ s t, escape (s ++ t) = escape s ++ escape t) ∧
      (∀ t, IsEscaped (escape t) ∧ (escape t).length = t.length + t.countP isSpecial) ∧
      ∀ s, escape (unescape s) = s ↔ IsEscaped s :=
  ⟨unescape_escape, escape_injective, escape_append,
    fun t => ⟨isEscaped_escape t, length_escape t⟩, fun _ => escape_unescape_eq_iff⟩

end TreeMarkdown.Text
