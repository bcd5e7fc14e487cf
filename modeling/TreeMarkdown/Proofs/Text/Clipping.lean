/-
Lines in the middle of a text that is trimmed as a whole.

Trimming takes white space off the two ends of a text, whatever the text is made of. Lines that
stand between other texts are safe at an end where one of these is more than white space. At an
end where there is nothing else they are clipped: blank lines go, and the line that comes to stand
at the end loses its white space there (`clipped`). So it depends on what stands around the lines
what is left of them (`exists_lines_around`), and nothing is lost exactly if each end is covered
or has no white space (`clipped_eq_iff`).
-/

import Mathlib.Data.List.DropRight
import TreeMarkdown.Markdown.Layout
import TreeMarkdown.Proofs.Text.Spacing

namespace TreeMarkdown.Text

open Markdown (isFilled)

variable {s t line : Text} {ls : List Text} {c : Char}

/-! ### One end at a time -/

theorem isFilled_eq_false_iff : isFilled t = false ↔ ∀ c ∈ t, isSpace c = true := by
  rw [← stripBy_eq_nil_iff, isFilled, Bool.not_eq_false', List.isEmpty_iff]
  rfl

theorem isFilled_iff : isFilled t = true ↔ ∃ c ∈ t, isSpace c = false := by
  rw [← Bool.not_eq_false, isFilled_eq_false_iff]
  simp

theorem isFilled_append (s t : Text) : isFilled (s ++ t) = (isFilled s || isFilled t) := by
  rw [Bool.eq_iff_iff, Bool.or_eq_true, isFilled_iff, isFilled_iff, isFilled_iff]
  simp [or_and_right, exists_or]

theorem dropWhile_eq_nil_iff_isFilled : t.dropWhile isSpace = [] ↔ isFilled t = false := by
  rw [List.dropWhile_eq_nil_iff, isFilled_eq_false_iff]

theorem dropEndWhile_eq_nil_iff : dropEndWhile isSpace t = [] ↔ isFilled t = false := by
  rw [dropEndWhile, List.reverse_eq_nil_iff, List.dropWhile_eq_nil_iff, isFilled_eq_false_iff]
  simp only [List.mem_reverse]

theorem dropWhile_append_eq (s t : Text) :
    (s ++ t).dropWhile isSpace =
      if isFilled s then s.dropWhile isSpace ++ t else t.dropWhile isSpace := by
  rw [List.dropWhile_append]
  cases hs : isFilled s with
  | true =>
    have hne : s.dropWhile isSpace ≠ [] := fun hnil => by
      rw [dropWhile_eq_nil_iff_isFilled.mp hnil] at hs
      cases hs
    simp [hne]
  | false => simp [dropWhile_eq_nil_iff_isFilled.mpr hs]

theorem dropEndWhile_append_eq (s t : Text) :
    dropEndWhile isSpace (s ++ t) =
      if isFilled t then s ++ dropEndWhile isSpace t else dropEndWhile isSpace s := by
  rw [dropEndWhile, List.reverse_append, List.dropWhile_append]
  cases ht : isFilled t with
  | true =>
    have hne : t.reverse.dropWhile isSpace ≠ [] := fun hnil => by
      rw [dropEndWhile_eq_nil_iff.mp (List.reverse_eq_nil_iff.mpr hnil)] at ht
      cases ht
    simp [hne, dropEndWhile]
  | false =>
    have hnil := List.reverse_eq_nil_iff.mp (dropEndWhile_eq_nil_iff.mpr ht)
    simp [hnil, dropEndWhile]

/-! ### Lines at an end -/

/-- What is left of lines when the white space at their beginning is taken off. -/
def shownFrom : List Text → List Text
  | [] => []
  | line :: ls =>
    if isFilled line then line.dropWhile isSpace :: ls else shownFrom ls

/-- What is left of lines when the white space at their end is taken off. -/
def shownTo : List Text → List Text
  | [] => []
  | line :: ls =>
    if ls.any isFilled then line :: shownTo ls
    else if isFilled line then [dropEndWhile isSpace line] else []

/-- What is left of lines when white space is taken off at the ends that are not covered. -/
def clipped (before after : Bool) (ls : List Text) : List Text :=
  let ls := if before then ls else shownFrom ls
  if after then ls else shownTo ls

theorem intercalate_cons_eq (line : Text) (hls : ls ≠ []) :
    ['\n'].intercalate (line :: ls) = line ++ '\n' :: ['\n'].intercalate ls := by
  rw [List.intercalate_cons_of_ne_nil hls, List.append_assoc]
  rfl

/-- A text of lines is filled if one of the lines is. -/
theorem isFilled_intercalate (ls : List Text) :
    isFilled (['\n'].intercalate ls) = ls.any isFilled := by
  induction ls with
  | nil => rfl
  | cons line ls ih =>
    by_cases hls : ls = []
    · simp [hls]
    · have hnewline : isFilled ['\n'] = false := by decide
      rw [List.intercalate_cons_of_ne_nil hls, isFilled_append, isFilled_append, hnewline, ih,
        Bool.or_false, List.any_cons]

theorem intercalate_shownFrom (ls : List Text) :
    ['\n'].intercalate (shownFrom ls) = (['\n'].intercalate ls).dropWhile isSpace := by
  induction ls with
  | nil => rfl
  | cons line ls ih =>
    by_cases hls : ls = []
    · subst hls
      rw [shownFrom, List.intercalate_singleton]
      split
      · exact List.intercalate_singleton
      · rename_i hline
        rw [dropWhile_eq_nil_iff_isFilled.mpr (Bool.eq_false_iff.mpr hline)]
        rfl
    · rw [shownFrom, intercalate_cons_eq line hls, dropWhile_append_eq]
      split
      · exact intercalate_cons_eq _ hls
      · rw [ih, List.dropWhile_cons_of_pos isSpace_newline]

theorem intercalate_shownTo (ls : List Text) :
    ['\n'].intercalate (shownTo ls) = dropEndWhile isSpace (['\n'].intercalate ls) := by
  induction ls with
  | nil => rfl
  | cons line ls ih =>
    have hnewline : isFilled ['\n'] = false := by decide
    rw [shownTo]
    split
    · rename_i hfilled
      have hls : ls ≠ [] := by
        rintro rfl
        cases hfilled
      have hrest : shownTo ls ≠ [] := by
        intro hnil
        rw [hnil, List.intercalate_nil, eq_comm, dropEndWhile_eq_nil_iff, isFilled_intercalate,
          hfilled] at ih
        cases ih
      rw [List.intercalate_cons_of_ne_nil hls, List.intercalate_cons_of_ne_nil hrest, ih,
        dropEndWhile_append_eq, isFilled_intercalate, if_pos hfilled]
    · rename_i hblank
      rw [Bool.not_eq_true, ← isFilled_intercalate] at hblank
      have hline : dropEndWhile isSpace (['\n'].intercalate (line :: ls)) =
          dropEndWhile isSpace line := by
        by_cases hls : ls = []
        · rw [hls, List.intercalate_singleton]
        · rw [List.intercalate_cons_of_ne_nil hls, dropEndWhile_append_eq, hblank,
            if_neg Bool.false_ne_true, dropEndWhile_append_eq, hnewline,
            if_neg Bool.false_ne_true]
      rw [hline]
      split
      · exact List.intercalate_singleton
      · rename_i hnone
        exact (dropEndWhile_eq_nil_iff.mpr (Bool.eq_false_iff.mpr hnone)).symm

theorem intercalate_clipped (before after : Bool) (ls : List Text) :
    ['\n'].intercalate (clipped before after ls) =
      let t := if before then ['\n'].intercalate ls else (['\n'].intercalate ls).dropWhile isSpace
      if after then t else dropEndWhile isSpace t := by
  cases before <;> cases after <;> simp [clipped, intercalate_shownFrom, intercalate_shownTo]

/-- Trimming a text in the middle of which there are lines that show something. -/
theorem trim_around (hls : ls.any isFilled = true) (a b : Text) :
    trim (a ++ ['\n'].intercalate ls ++ b) =
      (if isFilled a then a.dropWhile isSpace else []) ++
        ['\n'].intercalate (clipped (isFilled a) (isFilled b) ls) ++
          (if isFilled b then dropEndWhile isSpace b else []) := by
  have hshown : isFilled (['\n'].intercalate ls) = true := (isFilled_intercalate ls).trans hls
  rw [intercalate_clipped]
  show dropEndWhile isSpace ((a ++ ['\n'].intercalate ls ++ b).dropWhile isSpace) = _
  rw [List.append_assoc, dropWhile_append_eq, dropWhile_append_eq, if_pos hshown]
  cases ha : isFilled a <;> cases hb : isFilled b <;>
    simp [dropEndWhile_append_eq, isFilled_append, hshown, hb]

/-- What stands between two texts in which something is to be seen is not trimmed. -/
theorem mem_trim_between {s u : Text} (hs : isFilled s = true) (hu : isFilled u = true)
    (h : c ∈ t) : c ∈ trim (s ++ t ++ u) := by
  have hkept : trim (s ++ t ++ u) = s.dropWhile isSpace ++ t ++ dropEndWhile isSpace u := by
    show dropEndWhile isSpace ((s ++ t ++ u).dropWhile isSpace) = _
    rw [List.append_assoc, dropWhile_append_eq, if_pos hs, ← List.append_assoc,
      dropEndWhile_append_eq, if_pos hu]
  rw [hkept]
  exact List.mem_append_left _ (List.mem_append_right _ h)

theorem isFilled_dropWhile (t : Text) : isFilled (t.dropWhile isSpace) = isFilled t := by
  rw [isFilled, isFilled, trim, trim, stripBy, stripBy, List.dropWhile_idempotent]

theorem mem_shownFrom (h : line ∈ shownFrom ls) :
    line ∈ ls ∨ ∃ l ∈ ls, isFilled l = true ∧ line = l.dropWhile isSpace := by
  induction ls with
  | nil => cases h
  | cons l ls ih =>
    rw [shownFrom] at h
    split at h
    · rename_i hfilled
      rcases List.mem_cons.mp h with rfl | h
      · exact Or.inr ⟨l, List.mem_cons_self, hfilled, rfl⟩
      · exact Or.inl (List.mem_cons_of_mem l h)
    · rcases ih h with h | ⟨l', hl', h⟩
      · exact Or.inl (List.mem_cons_of_mem l h)
      · exact Or.inr ⟨l', List.mem_cons_of_mem l hl', h⟩

theorem mem_shownTo (h : line ∈ shownTo ls) :
    line ∈ ls ∨ ∃ l ∈ ls, isFilled l = true ∧ line = dropEndWhile isSpace l := by
  induction ls with
  | nil => cases h
  | cons l ls ih =>
    rw [shownTo] at h
    split at h
    · rcases List.mem_cons.mp h with rfl | h
      · exact Or.inl List.mem_cons_self
      · rcases ih h with h | ⟨l', hl', h⟩
        · exact Or.inl (List.mem_cons_of_mem l h)
        · exact Or.inr ⟨l', List.mem_cons_of_mem l hl', h⟩
    · split at h
      · rename_i hfilled
        exact Or.inr ⟨l, List.mem_cons_self, hfilled, List.mem_singleton.mp h⟩
      · cases h

namespace AreLines

theorem shownFrom (h : AreLines ls) (hls : ls.any isFilled = true) :
    AreLines (shownFrom ls) ∧ (Text.shownFrom ls).any isFilled = true := by
  have hfilled : (Text.shownFrom ls).any isFilled = true := by
    rw [← isFilled_intercalate, intercalate_shownFrom, isFilled_dropWhile, isFilled_intercalate,
      hls]
  refine ⟨⟨?_, ?_, ?_⟩, hfilled⟩
  · intro hnil
    rw [hnil] at hfilled
    cases hfilled
  · intro line hline hnil
    rcases mem_shownFrom hline with hmem | ⟨l, -, hl, rfl⟩
    · exact h.line_ne_nil line hmem hnil
    · rw [dropWhile_eq_nil_iff_isFilled.mp hnil] at hl
      cases hl
  · intro line hline hnewline
    rcases mem_shownFrom hline with hmem | ⟨l, hl, -, rfl⟩
    · exact h.newline_notMem line hmem hnewline
    · exact h.newline_notMem l hl (List.dropWhile_subset _ hnewline)

theorem shownTo (h : AreLines ls) (hls : ls.any isFilled = true) : AreLines (shownTo ls) := by
  refine ⟨?_, ?_, ?_⟩
  · intro hnil
    have htext := intercalate_shownTo ls
    rw [hnil, List.intercalate_nil, eq_comm, dropEndWhile_eq_nil_iff, isFilled_intercalate,
      hls] at htext
    cases htext
  · intro line hline hnil
    rcases mem_shownTo hline with hmem | ⟨l, -, hl, rfl⟩
    · exact h.line_ne_nil line hmem hnil
    · rw [dropEndWhile_eq_nil_iff.mp hnil] at hl
      cases hl
  · intro line hline hnewline
    rcases mem_shownTo hline with hmem | ⟨l, hl, -, rfl⟩
    · exact h.newline_notMem line hmem hnewline
    · exact h.newline_notMem l hl (mem_of_mem_dropEndWhile hnewline)

theorem clipped (h : AreLines ls) (hls : ls.any isFilled = true) (before after : Bool) :
    AreLines (clipped before after ls) := by
  cases before <;> cases after
  · exact (h.shownFrom hls).1.shownTo (h.shownFrom hls).2
  · exact (h.shownFrom hls).1
  · exact h.shownTo hls
  · exact h

end AreLines

theorem dropEndWhile_eq_self_iff :
    dropEndWhile isSpace t = t ↔ isSpaceEdge t.getLast? = false := by
  constructor
  · intro h
    have hlast := last_dropEndWhile isSpace t
    rw [h] at hlast
    exact isSpaceEdge_eq_false_iff.mpr hlast
  · intro h
    have hborder := dropEndWhile_border (p := isSpace) (t := t) (b := []) (by simp)
      (isSpaceEdge_eq_false_iff.mp h)
    rwa [List.append_nil] at hborder

theorem length_dropEndWhile_le (t : Text) : (dropEndWhile isSpace t).length ≤ t.length := by
  obtain ⟨r, hr, -⟩ := exists_dropEndWhile isSpace t
  conv_rhs => rw [hr]
  simp

/-- Nothing is lost of lines whose text begins with white space exactly if they are covered at the
beginning, and at the end covered or without white space. -/
theorem clipped_eq_iff (h : AreLines ls) (hls : ls.any isFilled = true)
    (hstart : isSpaceEdge (['\n'].intercalate ls).head? = true) {before after : Bool} :
    clipped before after ls = ls ↔
      before = true ∧ (after = true ∨ isSpaceEdge (['\n'].intercalate ls).getLast? = false) := by
  have htext : clipped before after ls = ls ↔
      ['\n'].intercalate (clipped before after ls) = ['\n'].intercalate ls := by
    refine ⟨fun heq => by rw [heq], fun heq => ?_⟩
    rw [← (h.clipped hls before after).splitOn_eq, heq, h.splitOn_eq]
  rw [htext, intercalate_clipped]
  generalize ['\n'].intercalate ls = t at hstart
  cases before with
  | true => cases after <;> simp [dropEndWhile_eq_self_iff]
  | false =>
    -- the white space at the beginning is missing
    obtain ⟨c, hc, hspace⟩ := (Option.any_eq_true _ _).mp hstart
    obtain ⟨rest, rfl⟩ := List.head?_eq_some_iff.mp hc
    have hshort : ((c :: rest).dropWhile isSpace).length < (c :: rest).length := by
      rw [List.dropWhile_cons_of_pos hspace]
      exact Nat.lt_succ_of_le (List.dropWhile_sublist isSpace).length_le
    have hne : ∀ u : Text, u.length ≤ ((c :: rest).dropWhile isSpace).length → u ≠ c :: rest :=
      fun u hu heq => Nat.not_lt.mpr (heq ▸ hu) hshort
    cases after with
    | true => simpa using hne _ (Nat.le_refl _)
    | false => simpa using hne _ (length_dropEndWhile_le _)

/-! ### Between other texts -/

theorem lines_cons (hnewline : c ≠ '\n') (hreturn : c = '\r' → t.head? ≠ some '\n')
    (ht : t ≠ []) : lines (c :: t) = (lines t).modifyHead (c :: ·) := by
  obtain ⟨first, rest, hlines⟩ := List.exists_cons_of_ne_nil (lines_ne_nil ht)
  rw [lines, hlines]
  · rfl
  · exact hnewline
  · rintro u hc rfl
    exact hreturn hc rfl

/-- A newline ends the lines before it. -/
theorem lines_append_newline (s t : Text) :
    lines (s ++ '\n' :: t) = lines (s ++ ['\n']) ++ lines t := by
  induction s using lines.induct with
  | case1 => simp [lines]
  | case2 s ih => simp [lines, ih]
  | case3 s ih => simp [lines, ih]
  | case4 c s hnewline hreturn hnil ih =>
    have hs : s = [] := by
      by_contra hne
      exact lines_ne_nil hne hnil
    subst hs
    by_cases hc : c = '\r'
    · simp [hc, lines]
    · simp [lines, hc]
  | case5 c s hnewline hreturn first rest hlines ih =>
    have hs : s ≠ [] := by
      rintro rfl
      cases hlines
    have hhead : ∀ u, c = '\r' → (s ++ '\n' :: u).head? ≠ some '\n' := by
      intro u hc hhead
      rw [List.head?_append_of_ne_nil _ hs] at hhead
      obtain ⟨r, rfl⟩ := List.head?_eq_some_iff.mp hhead
      exact hreturn r hc rfl
    obtain ⟨first, rest, hlines⟩ :=
      List.exists_cons_of_ne_nil (lines_ne_nil (show s ++ ['\n'] ≠ [] by simp))
    rw [List.cons_append, lines_cons hnewline (hhead t) (by simp), ih, List.cons_append,
      lines_cons hnewline (hhead []) (by simp), hlines]
    rfl

/-- A text without newlines and carriage returns is a line in front of a newline. -/
theorem lines_line (hnewline : '\n' ∉ line) (hreturn : '\r' ∉ line) (t : Text) :
    lines (line ++ '\n' :: t) = line :: lines t := by
  induction line with
  | nil => rfl
  | cons c line ih =>
    have hc : c ≠ '\n' := fun h => hnewline (h ▸ List.mem_cons_self)
    have hr : c ≠ '\r' := fun h => hreturn (h ▸ List.mem_cons_self)
    rw [List.cons_append, lines_cons hc (fun h => absurd h hr) (by simp),
      ih (fun h => hnewline (List.mem_cons_of_mem c h))
        fun h => hreturn (List.mem_cons_of_mem c h)]
    rfl

/-- A text that ends with a newline ends with a whole line. -/
theorem lines_append_of_last (h : ∀ c ∈ s.getLast?, c = '\n') (t : Text) :
    lines (s ++ t) = lines s ++ lines t := by
  cases hlast : s.getLast? with
  | none =>
    rw [List.getLast?_eq_none_iff.mp hlast]
    rfl
  | some c =>
    obtain ⟨init, rfl⟩ := List.getLast?_eq_some_iff.mp hlast
    rw [h c hlast, List.append_assoc]
    exact lines_append_newline init t

namespace AreLines

/-- Lines are read back, and what follows them is read from the next line on. -/
theorem lines_append (h : AreLines ls) (hreturn : ∀ line ∈ ls, '\r' ∉ line)
    (ht : ∀ c ∈ t.head?, c = '\n') :
    lines (['\n'].intercalate ls ++ t) = ls ++ lines t.tail := by
  cases t with
  | nil =>
    have hlast : (['\n'].intercalate ls).getLast? ≠ some '\n' := by
      intro hlast
      cases h.isBare_newline.last '\n' hlast
    have hreturn : '\r' ∉ ['\n'].intercalate ls := by
      rw [mem_intercalate_iff (by decide)]
      rintro ⟨line, hline, hmem⟩
      exact hreturn line hline hmem
    rw [List.append_nil, lines_eq_splitOn hreturn h.intercalate_ne_nil hlast, h.splitOn_eq]
    exact (List.append_nil ls).symm
  | cons c t =>
    rw [ht c rfl, List.tail_cons]
    obtain ⟨hne, -, hnewline⟩ := h
    induction ls with
    | nil => exact absurd rfl hne
    | cons line ls ih =>
      have hline :=
        lines_line (hnewline line List.mem_cons_self) (hreturn line List.mem_cons_self)
      by_cases hls : ls = []
      · rw [hls, List.intercalate_singleton, hline]
        rfl
      · have hrest := ih (fun l hl => hreturn l (List.mem_cons_of_mem line hl)) hls
          fun l hl => hnewline l (List.mem_cons_of_mem line hl)
        rw [intercalate_cons_eq line hls, List.append_assoc, List.cons_append, hline, hrest]
        rfl

end AreLines

theorem mem_of_mem_clipped {before after : Bool} (h : line ∈ clipped before after ls)
    (hc : c ∈ line) : ∃ l ∈ ls, c ∈ l := by
  have hfrom : ∀ {ls : List Text} {line : Text}, line ∈ shownFrom ls → c ∈ line →
      ∃ l ∈ ls, c ∈ l := by
    intro ls line h hc
    rcases mem_shownFrom h with h | ⟨l, hl, -, rfl⟩
    · exact ⟨line, h, hc⟩
    · exact ⟨l, hl, List.dropWhile_subset _ hc⟩
  have hto : ∀ {ls : List Text} {line : Text}, line ∈ shownTo ls → c ∈ line →
      ∃ l ∈ ls, c ∈ l := by
    intro ls line h hc
    rcases mem_shownTo h with h | ⟨l, hl, -, rfl⟩
    · exact ⟨line, h, hc⟩
    · exact ⟨l, hl, mem_of_mem_dropEndWhile hc⟩
  cases before <;> cases after
  · obtain ⟨l, hl, hc⟩ := hto h hc
    exact hfrom hl hc
  · exact hfrom h hc
  · exact hto h hc
  · exact ⟨line, h, hc⟩

/-- What stands above the lines `ls`, between blank lines, in a text that is trimmed and folded,
does not touch them, and neither does what stands below; but an end where there is nothing to be
seen is clipped. -/
theorem exists_lines_around (h : AreLines ls) (hls : ls.any isFilled = true)
    (hreturn : ∀ line ∈ ls, '\r' ∉ line) (a b : Text) :
    ∃ above below,
      lines (collapseNewlines
        (trim (a ++ ("\n\n".toList ++ ['\n'].intercalate ls ++ "\n\n".toList) ++ b))) =
          above ++ clipped (isFilled a) (isFilled b) ls ++ below ∧
      (above = [] ↔ isFilled a = false) ∧ (below = [] ↔ isFilled b = false) := by
  have hblank : isFilled "\n\n".toList = false := by decide
  -- what trimming leaves on either side, with the blank line there
  obtain ⟨before, hbefore, hend, hnone⟩ : ∃ before,
      (if isFilled (a ++ "\n\n".toList) then (a ++ "\n\n".toList).dropWhile isSpace else []) =
        before ∧ (∀ c ∈ before.getLast?, c = '\n') ∧ (before = [] ↔ isFilled a = false) := by
    rw [isFilled_append, hblank, Bool.or_false, dropWhile_append_eq]
    refine ⟨_, rfl, ?_⟩
    cases isFilled a with
    | true =>
      refine ⟨?_, by simp⟩
      intro c hc
      simpa [eq_comm] using hc
    | false => simp
  obtain ⟨after, hafter, hstart, hnone'⟩ : ∃ after,
      (if isFilled ("\n\n".toList ++ b) then dropEndWhile isSpace ("\n\n".toList ++ b) else []) =
        after ∧ (∀ c ∈ after.head?, c = '\n') ∧
          ((collapseNewlines after).tail = [] ↔ isFilled b = false) := by
    rw [isFilled_append, hblank, Bool.false_or, dropEndWhile_append_eq]
    refine ⟨_, rfl, ?_⟩
    cases isFilled b with
    | true =>
      refine ⟨?_, by simp [collapseNewlines, collapseNewlinesFrom]⟩
      intro c hc
      simpa [eq_comm] using hc
    | false => simp [collapseNewlines, collapseNewlinesFrom]
  have hclipped := h.clipped hls (isFilled a) (isFilled b)
  have hfree : ∀ line ∈ clipped (isFilled a) (isFilled b) ls, '\r' ∉ line := by
    intro line hline hmem
    obtain ⟨l, hl, hmem⟩ := mem_of_mem_clipped hline hmem
    exact hreturn l hl hmem
  have htext : collapseNewlines
      (trim (a ++ ("\n\n".toList ++ ['\n'].intercalate ls ++ "\n\n".toList) ++ b)) =
        collapseNewlines before ++ (['\n'].intercalate (clipped (isFilled a) (isFilled b) ls) ++
          collapseNewlines after) := by
    have hsplit : a ++ ("\n\n".toList ++ ['\n'].intercalate ls ++ "\n\n".toList) ++ b =
        (a ++ "\n\n".toList) ++ ['\n'].intercalate ls ++ ("\n\n".toList ++ b) := by
      simp only [List.append_assoc]
    rw [hsplit, trim_around hls, hbefore, hafter, isFilled_append, isFilled_append, hblank,
      Bool.or_false, Bool.false_or,
      hclipped.isBare_newline.collapseNewlines_between hclipped.intercalate_ne_nil,
      hclipped.collapseNewlines_intercalate, List.append_assoc]
  refine ⟨lines (collapseNewlines before), lines (collapseNewlines after).tail, ?_, ?_, ?_⟩
  · rw [htext, lines_append_of_last (by rwa [getLast?_collapseNewlines]),
      hclipped.lines_append hfree (by rwa [head?_collapseNewlines]), List.append_assoc]
  · rw [lines_eq_nil_iff, collapseNewlines_eq_nil_iff, hnone]
  · rw [lines_eq_nil_iff, hnone']

end TreeMarkdown.Text
