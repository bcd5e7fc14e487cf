/-
The visible part of a text: its characters other than ordinary white space, in order.

Trimming, folding and cutting into lines change nothing visible, and escaping only adds
to it. `IsKept s t` says that the visible part of `s` stands in `t`, possibly with other
characters in between; it is a preorder that concatenation respects, so that a text made
from pieces keeps what its pieces keep.
-/

import Mathlib.Data.List.Flatten
import TreeMarkdown.Text.Escape
import TreeMarkdown.Text.Space

namespace TreeMarkdown.Text

/-- The characters that are not ordinary white space. -/
def visible (t : Text) : Text :=
  t.filter (!isSpace ·)

@[simp] theorem visible_nil : visible [] = [] := rfl

@[simp] theorem visible_append (s t : Text) : visible (s ++ t) = visible s ++ visible t :=
  List.filter_append _ _

theorem visible_cons (c : Char) (t : Text) : visible (c :: t) = visible [c] ++ visible t :=
  visible_append [c] t

theorem visible_cons_of_isSpace {c : Char} (h : isSpace c = true) (t : Text) :
    visible (c :: t) = visible t := by
  simp [visible, h]

@[simp] theorem visible_cons_newline (t : Text) : visible ('\n' :: t) = visible t :=
  visible_cons_of_isSpace rfl t

@[simp] theorem visible_cons_space (t : Text) : visible (' ' :: t) = visible t :=
  visible_cons_of_isSpace rfl t

theorem visible_flatMap {α : Type} (l : List α) (f : α → Text) :
    visible (l.flatMap f) = l.flatMap fun x => visible (f x) :=
  List.filter_flatMap

/-! ### Trimming -/

section Trimming

variable {p : Char → Bool}

theorem visible_dropWhile (hp : ∀ c, p c = true → isSpace c = true) (t : Text) :
    visible (t.dropWhile p) = visible t := by
  induction t with
  | nil => rfl
  | cons c t ih =>
    by_cases h : p c = true
    · rw [List.dropWhile_cons_of_pos h, ih, visible_cons_of_isSpace (hp c h)]
    · rw [List.dropWhile_cons_of_neg h]

theorem visible_reverse (t : Text) : visible t.reverse = (visible t).reverse :=
  List.filter_reverse

theorem visible_dropEndWhile (hp : ∀ c, p c = true → isSpace c = true) (t : Text) :
    visible (dropEndWhile p t) = visible t := by
  rw [dropEndWhile, visible_reverse, visible_dropWhile hp, visible_reverse, List.reverse_reverse]

theorem visible_stripBy (hp : ∀ c, p c = true → isSpace c = true) (t : Text) :
    visible (stripBy p t) = visible t := by
  rw [stripBy, visible_dropEndWhile hp, visible_dropWhile hp]

end Trimming

theorem isSpace_of_beq_newline (c : Char) (h : (c == '\n') = true) : isSpace c = true := by
  rw [beq_iff_eq.mp h]
  rfl

@[simp] theorem visible_trim (t : Text) : visible (trim t) = visible t :=
  visible_stripBy (fun _ h => h) t

@[simp] theorem visible_stripNewlines (t : Text) : visible (stripNewlines t) = visible t :=
  visible_stripBy isSpace_of_beq_newline t

/-! ### Folding -/

theorem visible_collapseSpacesFrom (inRun : Bool) (t : Text) :
    visible (collapseSpacesFrom inRun t) = visible t := by
  induction t generalizing inRun with
  | nil => rfl
  | cons c t ih =>
    rw [collapseSpacesFrom]
    by_cases h : isSpace c = true
    · rw [if_pos h, visible_cons_of_isSpace h]
      cases inRun with
      | true => exact ih true
      | false => rw [if_neg (by decide), visible_cons_space, ih]
    · rw [if_neg h, visible_cons, ih, ← visible_cons]

@[simp] theorem visible_collapseSpaces (t : Text) : visible (collapseSpaces t) = visible t :=
  visible_collapseSpacesFrom false t

theorem visible_collapseNewlinesFrom (seen : Nat) (t : Text) :
    visible (collapseNewlinesFrom seen t) = visible t := by
  induction t generalizing seen with
  | nil => rfl
  | cons c t ih =>
    rw [collapseNewlinesFrom]
    by_cases h : c = '\n'
    · subst h
      rw [if_pos rfl, visible_cons_newline]
      by_cases hseen : seen < 2
      · rw [if_pos hseen, visible_cons_newline, ih]
      · rw [if_neg hseen, ih]
    · rw [if_neg h, visible_cons, ih, ← visible_cons]

@[simp] theorem visible_collapseNewlines (t : Text) :
    visible (collapseNewlines t) = visible t :=
  visible_collapseNewlinesFrom 0 t

/-! ### Lines -/

theorem visible_intercalate_newline (pieces : List Text) :
    visible (['\n'].intercalate pieces) = pieces.flatMap visible := by
  induction pieces with
  | nil => rfl
  | cons piece pieces ih =>
    cases pieces with
    | nil => simp
    | cons next others =>
      rw [List.intercalate_cons_cons, visible_append, visible_append, ih, List.flatMap_cons]
      simp

theorem flatMap_visible_splitOn (t : Text) : (t.splitOn '\n').flatMap visible = visible t := by
  rw [← visible_intercalate_newline, List.intercalate_splitOn]

theorem flatMap_visible_lines (t : Text) : (lines t).flatMap visible = visible t := by
  fun_induction lines t with
  | case1 => rfl
  | case2 t ih => simpa using ih
  | case3 t ih =>
    rw [visible_cons_of_isSpace (by rfl), visible_cons_newline]
    simpa using ih
  | case4 c t _ _ hlines ih =>
    rw [hlines, List.flatMap_nil] at ih
    rw [visible_cons c t, ← ih]
    simp
  | case5 c t _ _ line rest hlines ih =>
    rw [hlines, List.flatMap_cons] at ih
    rw [visible_cons c t, ← ih, List.flatMap_cons, visible_cons c line, List.append_assoc]

/-! ### Keeping -/

/-- The visible part of `s` stands in `t`. -/
def IsKept (s t : Text) : Prop :=
  (visible s).Sublist (visible t)

namespace IsKept

variable {s s' t t' u : Text}

theorem refl (t : Text) : IsKept t t :=
  List.Sublist.refl _

theorem trans (hst : IsKept s t) (htu : IsKept t u) : IsKept s u :=
  List.Sublist.trans hst htu

theorem of_visible_eq (h : visible s = visible t) : IsKept s t := by
  simp [IsKept, h]

theorem of_visible_eq_nil (h : visible s = []) (t : Text) : IsKept s t := by
  rw [IsKept, h]
  exact List.nil_sublist _

theorem append (hs : IsKept s s') (ht : IsKept t t') : IsKept (s ++ t) (s' ++ t') := by
  rw [IsKept, visible_append, visible_append]
  exact List.Sublist.append hs ht

theorem append_left (h : IsKept s t) (u : Text) : IsKept s (u ++ t) := by
  rw [IsKept, visible_append]
  exact List.Sublist.trans h (List.sublist_append_right _ _)

theorem append_right (h : IsKept s t) (u : Text) : IsKept s (t ++ u) := by
  rw [IsKept, visible_append]
  exact List.Sublist.trans h (List.sublist_append_left _ _)

theorem cons (h : IsKept s t) (c : Char) : IsKept s (c :: t) :=
  h.append_left [c]

/-- A step that may be left out keeps the text if it does so when it is taken. -/
theorem ite (h : IsKept t u) (c : Prop) [Decidable c] : IsKept t (if c then u else t) := by
  split
  · exact h
  · exact .refl t

/-- What is kept is a subsequence. -/
theorem sublist (h : IsKept s t) : (visible s).Sublist t :=
  List.Sublist.trans h List.filter_sublist

theorem flatMap {α : Type} {f g : α → Text} {l : List α} (h : ∀ x ∈ l, IsKept (f x) (g x)) :
    IsKept (l.flatMap f) (l.flatMap g) := by
  rw [IsKept, visible_flatMap, visible_flatMap]
  exact List.Sublist.flatMap_right l h

/-- A text is kept if each of its characters is. -/
theorem flatMap_chars {f : Char → Text} (h : ∀ c, IsKept [c] (f c)) (t : Text) :
    IsKept t (t.flatMap f) := by
  have hchars : IsKept (t.flatMap fun c => [c]) (t.flatMap f) := flatMap fun c _ => h c
  rwa [List.flatMap_singleton'] at hchars

/-- Pieces are kept in lines, if each is kept in its line. -/
theorem joined {f : Text → Text} {pieces : List Text}
    (hs : visible s = pieces.flatMap visible) (h : ∀ piece, IsKept piece (f piece)) :
    IsKept s (['\n'].intercalate (pieces.map f)) := by
  rw [IsKept, visible_intercalate_newline, List.flatMap_map, hs]
  exact List.Sublist.flatMap_right pieces fun piece _ => h piece

end IsKept

theorem isKept_escape (t : Text) : IsKept t (escape t) := by
  apply IsKept.flatMap_chars
  intro c
  unfold escapeChar
  split
  · exact (IsKept.refl [c]).append_left ['\\']
  · exact IsKept.refl [c]

end TreeMarkdown.Text
