/-
Fenced code line by line.

A fence is a fixed text, and the code between two fences stays as it is until the document is
tidied. Tidying folds newlines wherever they stand: of blank lines in a row one is left
(`singleBlanks`), in code as elsewhere (`tidy_fenced`). A reader takes for the code what stands
before the first line that is the fence alone (`readFenced`). So the code is read as it was
written exactly if it has no such line and no two blank lines in a row (`readFenced_eq_iff`).
-/

import TreeMarkdown.Markdown.Code
import TreeMarkdown.Proofs.Markdown.Listing
import TreeMarkdown.Proofs.Text.Lines

namespace TreeMarkdown.Markdown

open Text

variable {fence language opening last line : Text} {ls code after : List Text}

/-! ### Blank lines in a row -/

/-- The lines of which no two in a row are blank, behind a line that is blank or not: of blank
lines in a row the first is left. -/
def singleBlanks (behindBlank : Bool) : List Text → List Text
  | [] => []
  | line :: ls =>
    if line = [] then
      if behindBlank then singleBlanks true ls else [] :: singleBlanks true ls
    else line :: singleBlanks false ls

theorem singleBlanks_sublist (behindBlank : Bool) (ls : List Text) :
    (singleBlanks behindBlank ls).Sublist ls := by
  induction ls generalizing behindBlank with
  | nil => exact List.Sublist.refl []
  | cons line ls ih =>
    rw [singleBlanks]
    split
    · rename_i hblank
      split
      · exact (ih true).cons line
      · rw [hblank]
        exact (ih true).cons_cons []
    · exact (ih false).cons_cons line

/-- Only blank lines are lost. -/
theorem mem_singleBlanks_iff (hline : line ≠ []) (behindBlank : Bool) :
    line ∈ singleBlanks behindBlank ls ↔ line ∈ ls := by
  induction ls generalizing behindBlank with
  | nil => exact Iff.rfl
  | cons l ls ih =>
    rw [singleBlanks]
    split
    · rename_i hblank
      have hne : line ≠ l := fun heq => hline (heq.trans hblank)
      split
      · rw [ih, List.mem_cons, or_iff_right hne]
      · rw [List.mem_cons, ih, List.mem_cons, or_iff_right hline, or_iff_right hne]
    · rw [List.mem_cons, ih, List.mem_cons]

/-- No line is lost exactly if no two in a row are blank. -/
theorem singleBlanks_eq_self_iff (ls : List Text) :
    singleBlanks false ls = ls ↔ ¬ [[], []] <:+: ls := by
  suffices h : (singleBlanks false ls = ls ↔ ¬ [[], []] <:+: ls) ∧
      (singleBlanks true ls = ls ↔ ls.head? ≠ some [] ∧ ¬ [[], []] <:+: ls) from h.1
  induction ls with
  | nil => simp [singleBlanks]
  | cons line ls ih =>
    obtain ⟨ihfalse, ihtrue⟩ := ih
    rw [singleBlanks, singleBlanks, List.infix_cons_iff, List.head?_cons]
    by_cases hblank : line = []
    · subst hblank
      -- behind a blank line the next one must not be blank
      have hpair : [[], []] <+: [] :: ls ↔ ls.head? = some [] := by
        cases ls with
        | nil => simp
        | cons next ls => simp [List.cons_prefix_cons, eq_comm]
      have hshort : singleBlanks true ls ≠ [] :: ls := by
        intro heq
        have hlength := (singleBlanks_sublist true ls).length_le
        rw [heq, List.length_cons] at hlength
        exact Nat.not_succ_le_self _ hlength
      rw [if_pos rfl, if_pos rfl, hpair]
      simp only [Bool.false_eq_true, if_false, if_true]
      constructor
      · rw [List.cons.injEq, ihtrue, not_or]
        simp
      · simp [hshort]
    · have hpair : ¬ [[], []] <+: line :: ls := by
        rw [List.cons_prefix_cons]
        exact fun h => hblank h.1.symm
      rw [if_neg hblank, if_neg hblank, List.cons.injEq, ihfalse]
      simp [hpair, hblank]

/-- Folding newlines leaves single blank lines. -/
theorem collapseNewlinesFrom_terminated (hls : ∀ line ∈ ls, '\n' ∉ line) (hlast : '\n' ∉ last)
    (behindBlank : Bool) :
    collapseNewlinesFrom (if behindBlank then 2 else 1) (terminated ls ++ last) =
      terminated (singleBlanks behindBlank ls) ++ last := by
  induction ls generalizing behindBlank with
  | nil =>
    by_cases hnil : last = []
    · rw [hnil]
      rfl
    · have hwhole := collapseNewlinesFrom_append_of_notMem hnil hlast
        (if behindBlank then 2 else 1) []
      rw [List.append_nil] at hwhole
      exact hwhole.trans (List.append_nil last)
  | cons line ls ih =>
    have ih := ih fun l hl => hls l (List.mem_cons_of_mem line hl)
    have htail : terminated (line :: ls) ++ last = line ++ '\n' :: (terminated ls ++ last) := by
      simp [terminated]
    rw [htail, singleBlanks]
    by_cases hblank : line = []
    · have ihtrue := ih true
      simp only [if_true] at ihtrue
      rw [if_pos hblank, hblank, List.nil_append, collapseNewlinesFrom, if_pos rfl]
      cases behindBlank with
      | true => simpa using ihtrue
      | false =>
        simp only [Bool.false_eq_true, if_false]
        rw [if_pos (by decide), ihtrue]
        rfl
    · have ihfalse := ih false
      simp only [Bool.false_eq_true, if_false] at ihfalse
      rw [if_neg hblank, collapseNewlinesFrom_append_of_notMem hblank (hls line List.mem_cons_self),
        collapseNewlinesFrom, if_pos rfl, if_pos (by decide), ihfalse]
      simp [terminated]

/-! ### Between the fences -/

/-- A block of lines, the last of which is not blank, is left with single blank lines. -/
theorem tidy_fenced (hopening : opening ≠ []) (hopeningline : '\n' ∉ opening)
    (hlast : last ≠ []) (hlastline : '\n' ∉ last) (hls : ∀ line ∈ ls, '\n' ∉ line) :
    tidy ("\n\n".toList ++ (opening ++ '\n' :: (terminated ls ++ last)) ++ "\n\n".toList) =
      opening ++ '\n' :: (terminated (singleBlanks false ls) ++ last) := by
  have hbare : IsBare (· == '\n') (opening ++ '\n' :: (terminated ls ++ last)) := by
    constructor
    · intro c hc
      rw [List.head?_append_of_ne_nil _ hopening] at hc
      rw [beq_eq_false_iff_ne]
      rintro rfl
      exact hopeningline (List.mem_of_head? hc)
    · intro c hc
      rw [List.getLast?_append_of_ne_nil _ (List.cons_ne_nil _ _), List.getLast?_cons,
        List.getLast?_append_of_ne_nil _ hlast] at hc
      have hmem : c ∈ last := by
        rw [List.getLast?_eq_some_getLast hlast] at hc
        simp only [Option.getD_some, Option.mem_def, Option.some_inj] at hc
        exact hc ▸ List.getLast_mem hlast
      rw [beq_eq_false_iff_ne]
      rintro rfl
      exact hlastline hmem
  have hfolded := collapseNewlinesFrom_terminated hls hlastline false
  simp only [Bool.false_eq_true, if_false] at hfolded
  rw [tidy, stripNewlines, stripBy_borders isBlank_border isBlank_border hbare, collapseNewlines,
    collapseNewlinesFrom_append_of_notMem hopening hopeningline, collapseNewlinesFrom,
    if_pos rfl, if_pos (by decide), hfolded]

/-- The lines of such a text. -/
theorem splitOn_fenced (hopeningline : '\n' ∉ opening) (hlastline : '\n' ∉ last)
    (hls : ∀ line ∈ ls, '\n' ∉ line) :
    (opening ++ '\n' :: (terminated ls ++ last)).splitOn '\n' = opening :: (ls ++ [last]) := by
  have hjoin : opening ++ '\n' :: (terminated ls ++ last) = terminated (opening :: ls) ++ last := by
    simp [terminated]
  rw [hjoin, splitOn_terminated_append (List.forall_mem_cons.mpr ⟨hopeningline, hls⟩) hlastline,
    List.cons_append]

/-! ### Reading -/

/-- What a reader finds behind an opening fence: the lines of the code, which go on to the first
line that is the fence alone, and the lines behind that one. -/
def readFenced (fence markdown : Text) : Option (List Text × List Text) :=
  match markdown.splitOn '\n' with
  | [] => none
  | opening :: rest =>
    if fence <+: opening ∧ fence ∈ rest then
      some (rest.takeWhile (· != fence), (rest.dropWhile (· != fence)).tail)
    else none

/-- Where the lines between the fences hold no fence, they are what is read. -/
theorem readFenced_of_notMem {markdown : Text}
    (hlines : markdown.splitOn '\n' = (fence ++ language) :: (ls ++ [fence])) (hfence : fence ∉ ls) :
    readFenced fence markdown = some (ls, []) := by
  have hpos : ∀ line ∈ ls, (line != fence) = true := by
    intro line hline
    rw [bne_iff_ne]
    rintro rfl
    exact hfence hline
  rw [readFenced, hlines]
  simp only
  rw [if_pos ⟨List.prefix_append _ _, by simp⟩, List.takeWhile_append_of_pos hpos,
    List.dropWhile_append_of_pos hpos, List.takeWhile_cons_of_neg (by simp),
    List.dropWhile_cons_of_neg (by simp), List.append_nil]
  rfl

/-- Between fences that tidying has left at its ends, code is read as it was written exactly if
none of its lines is the fence and no two in a row are blank. -/
theorem readFenced_eq_iff {markdown : Text} (hne : fence ≠ [])
    (hlines : markdown.splitOn '\n' =
      (fence ++ language) :: (singleBlanks false code ++ [fence])) :
    readFenced fence markdown = some (code, []) ↔ fence ∉ code ∧ ¬ [[], []] <:+: code := by
  rw [← singleBlanks_eq_self_iff, ← mem_singleBlanks_iff hne false]
  by_cases hmem : fence ∈ singleBlanks false code
  · -- the first such line ends the code, and at least the closing fence is left behind it
    have hread : readFenced fence markdown ≠ some (code, []) := by
      obtain ⟨before, after, hsplit, hbefore⟩ := List.eq_append_cons_of_mem hmem
      have hpos : ∀ line ∈ before, (line != fence) = true := by
        intro line hline
        rw [bne_iff_ne]
        rintro rfl
        exact hbefore hline
      rw [readFenced, hlines, hsplit]
      simp only
      rw [if_pos ⟨List.prefix_append _ _, by simp⟩, List.append_assoc,
        List.dropWhile_append_of_pos hpos, List.cons_append,
        List.dropWhile_cons_of_neg (by simp), List.tail_cons]
      simp
    exact iff_of_false hread fun h => h.1 hmem
  · rw [readFenced_of_notMem hlines hmem, Option.some_inj, Prod.mk.injEq]
    exact ⟨fun h => ⟨hmem, h.1⟩, fun h => ⟨h.2, rfl⟩⟩

end TreeMarkdown.Markdown
