/-
Texts between borders, and texts made of lines.

Stripping takes a border off either end and is known by what it leaves: whatever stands
between borders of a class, and is bare of the class at its own ends, is what stripping
leaves (`stripBy_borders`). Tidying and trimming commute (`trim_tidy`), since newlines inside
a trimmed text are folded the same way with or without the borders around it.

Lines that are not empty make a text in which there is nothing to fold and nothing to strip
(`AreLines`). So a block of such lines comes out of tidying as its lines joined by single
newlines (`tidy_block`), which is where blocks that fill a whole document end.
-/

import Mathlib.Data.List.Basic
import Mathlib.Data.List.TakeWhile
import Mathlib.Tactic.Conv
import TreeMarkdown.Conversion
import TreeMarkdown.Proofs.Text.Visible

namespace TreeMarkdown

namespace Text

variable {p q : Char → Bool} {s t : Text}

/-! ### Borders -/

/-- No character of the class stands at an end of the text. -/
structure IsBare (p : Char → Bool) (t : Text) : Prop where
  head : ∀ c ∈ t.head?, p c = false
  last : ∀ c ∈ t.getLast?, p c = false

theorem IsBare.nil (p : Char → Bool) : IsBare p [] :=
  ⟨by simp, by simp⟩

theorem IsBare.of_forall (h : ∀ c ∈ t, p c = false) : IsBare p t :=
  ⟨fun c hc => h c (List.mem_of_head? hc), fun c hc => h c (List.mem_of_getLast? hc)⟩

/-- Whatever stands between two texts that are bare. -/
theorem IsBare.around {a b : Text} (ha : IsBare p a) (hb : IsBare p b) (hane : a ≠ [])
    (hbne : b ≠ []) (t : Text) : IsBare p (a ++ t ++ b) := by
  constructor
  · rw [List.append_assoc, List.head?_append_of_ne_nil _ hane]
    exact ha.head
  · rw [List.getLast?_append_of_ne_nil _ hbne]
    exact hb.last

theorem IsBare.mono (hpq : ∀ c, p c = true → q c = true) (h : IsBare q t) : IsBare p t := by
  have hnot : ∀ c, q c = false → p c = false := by
    intro c hc
    cases hp : p c with
    | false => rfl
    | true => rw [hpq c hp] at hc; cases hc
  exact ⟨fun c hc => hnot c (h.head c hc), fun c hc => hnot c (h.last c hc)⟩

theorem dropWhile_border {a : Text} (ha : ∀ c ∈ a, p c = true)
    (ht : ∀ c ∈ t.head?, p c = false) : (a ++ t).dropWhile p = t := by
  rw [List.dropWhile_append_of_pos ha]
  cases t with
  | nil => rfl
  | cons c t => exact List.dropWhile_cons_of_neg (by simp [ht c rfl])

theorem dropEndWhile_border {b : Text} (hb : ∀ c ∈ b, p c = true)
    (ht : ∀ c ∈ t.getLast?, p c = false) : dropEndWhile p (t ++ b) = t := by
  unfold dropEndWhile
  rw [List.reverse_append, dropWhile_border, List.reverse_reverse]
  · exact fun c hc => hb c (List.mem_reverse.mp hc)
  · intro c hc
    rw [List.head?_reverse] at hc
    exact ht c hc

/-- What stands bare between borders is left by stripping. -/
theorem stripBy_borders {a b : Text} (ha : ∀ c ∈ a, p c = true) (hb : ∀ c ∈ b, p c = true)
    (ht : IsBare p t) : stripBy p (a ++ t ++ b) = t := by
  cases t with
  | nil =>
    have hall : (a ++ b).dropWhile p = [] := by
      rw [List.dropWhile_eq_nil_iff]
      intro c hc
      rcases List.mem_append.mp hc with hc | hc
      · exact ha c hc
      · exact hb c hc
    rw [stripBy, List.append_nil, hall]
    rfl
  | cons c t =>
    have hhead : ∀ x ∈ ((c :: t) ++ b).head?, p x = false := ht.head
    rw [stripBy, List.append_assoc, dropWhile_border ha hhead, dropEndWhile_border hb ht.last]

theorem IsBare.stripBy_eq (h : IsBare p t) : stripBy p t = t := by
  have hnone := stripBy_borders (a := []) (b := []) (by simp) (by simp) h
  rwa [List.nil_append, List.append_nil] at hnone

/-- What `dropEndWhile` drops. -/
theorem exists_dropEndWhile (p : Char → Bool) (t : Text) :
    ∃ r, t = dropEndWhile p t ++ r ∧ ∀ c ∈ r, p c = true := by
  refine ⟨(t.reverse.takeWhile p).reverse, ?_, ?_⟩
  · rw [dropEndWhile, ← List.reverse_append, List.takeWhile_append_dropWhile,
      List.reverse_reverse]
  · intro c hc
    exact List.all_eq_true.mp List.all_takeWhile c (List.mem_reverse.mp hc)

theorem mem_of_mem_dropEndWhile {c : Char} (h : c ∈ dropEndWhile p t) : c ∈ t := by
  rw [dropEndWhile, List.mem_reverse] at h
  exact List.mem_reverse.mp (List.dropWhile_subset _ h)

theorem mem_of_mem_stripBy {c : Char} (h : c ∈ stripBy p t) : c ∈ t :=
  List.dropWhile_subset _ (mem_of_mem_dropEndWhile h)

theorem last_dropEndWhile (p : Char → Bool) (t : Text) :
    ∀ c ∈ (dropEndWhile p t).getLast?, p c = false := by
  intro c hc
  rw [dropEndWhile, List.getLast?_reverse] at hc
  have hnot := List.head?_dropWhile_not p t.reverse
  rw [Option.mem_def.mp hc] at hnot
  exact hnot

theorem isBare_stripBy (p : Char → Bool) (t : Text) : IsBare p (stripBy p t) := by
  refine ⟨?_, last_dropEndWhile p _⟩
  intro c hc
  -- the first character is that of the text before its end was dropped
  obtain ⟨r, hr, -⟩ := exists_dropEndWhile p (t.dropWhile p)
  have hnot := List.head?_dropWhile_not p t
  have hc : (dropEndWhile p (t.dropWhile p)).head? = some c := hc
  rw [hr, List.head?_append, hc] at hnot
  exact hnot

/-- What stripping takes off. -/
theorem exists_borders (p : Char → Bool) (t : Text) : ∃ a b, t = a ++ stripBy p t ++ b ∧
    (∀ c ∈ a, p c = true) ∧ ∀ c ∈ b, p c = true := by
  obtain ⟨r, hr, hall⟩ := exists_dropEndWhile p (t.dropWhile p)
  refine ⟨t.takeWhile p, r, ?_, ?_, hall⟩
  · rw [stripBy, List.append_assoc, ← hr, List.takeWhile_append_dropWhile]
  · exact fun c hc => List.all_eq_true.mp List.all_takeWhile c hc

/-- Stripping leaves nothing of a text that is all border. -/
theorem stripBy_eq_nil_iff : stripBy p t = [] ↔ ∀ c ∈ t, p c = true := by
  constructor
  · intro hnil
    obtain ⟨a, b, ht, ha, hb⟩ := exists_borders p t
    rw [hnil, List.append_nil] at ht
    intro c hc
    rw [ht] at hc
    rcases List.mem_append.mp hc with hc | hc
    · exact ha c hc
    · exact hb c hc
  · intro hall
    have hstrip := stripBy_borders (t := []) (b := []) hall (by simp) (.nil p)
    rwa [List.append_nil, List.append_nil] at hstrip

/-- A text is not all white space if a text that it keeps is not. -/
theorem IsKept.strip_ne_nil (h : IsKept s t) (hs : strip s ≠ []) : strip t ≠ [] := by
  intro hnil
  apply hs
  rw [strip, stripBy_eq_nil_iff] at hnil ⊢
  intro c hc
  by_contra hwhite
  -- what is not white space at all is no ordinary white space either
  have hvisible : c ∈ visible s := by
    refine List.mem_filter.mpr ⟨hc, ?_⟩
    cases hspace : isSpace c with
    | false => rfl
    | true => exact absurd (isWhite_of_isSpace hspace) hwhite
  exact hwhite (hnil c (h.sublist.subset hvisible))

/-- Further characters of the class at the ends make no difference. -/
theorem stripBy_around {a b : Text} (ha : ∀ c ∈ a, p c = true) (hb : ∀ c ∈ b, p c = true)
    (t : Text) : stripBy p (a ++ t ++ b) = stripBy p t := by
  obtain ⟨a', b', ht, ha', hb'⟩ := exists_borders p t
  have hsplit : a ++ t ++ b = (a ++ a') ++ stripBy p t ++ (b' ++ b) := by
    conv_lhs => rw [ht]
    simp only [List.append_assoc]
  rw [hsplit]
  refine stripBy_borders ?_ ?_ (isBare_stripBy p t)
  · exact fun c hc => (List.mem_append.mp hc).elim (ha c) (ha' c)
  · exact fun c hc => (List.mem_append.mp hc).elim (hb' c) (hb c)

/-- A border of a narrower class makes no difference to a border of a wider one. -/
theorem stripBy_stripBy (hpq : ∀ c, p c = true → q c = true) (t : Text) :
    stripBy q (stripBy p t) = stripBy q t := by
  obtain ⟨a, b, ht, ha, hb⟩ := exists_borders p t
  conv_rhs => rw [ht]
  exact (stripBy_around (fun c hc => hpq c (ha c hc)) (fun c hc => hpq c (hb c hc)) _).symm

/-! ### Folded newlines -/

/-- Folding begins anew at a character that is not a newline. -/
theorem collapseNewlinesFrom_append_of_head (h : t.head? ≠ some '\n') (seen : Nat) (s : Text) :
    collapseNewlinesFrom seen (s ++ t) = collapseNewlinesFrom seen s ++ collapseNewlines t := by
  induction s generalizing seen with
  | nil =>
    cases t with
    | nil => rfl
    | cons c t =>
      have hc : c ≠ '\n' := by simpa using h
      rw [List.nil_append, collapseNewlines, collapseNewlinesFrom, collapseNewlinesFrom,
        if_neg hc, collapseNewlinesFrom, if_neg hc, List.nil_append]
  | cons c s ih =>
    rw [List.cons_append, collapseNewlinesFrom, collapseNewlinesFrom]
    split
    · split
      · rw [ih, List.cons_append]
      · rw [ih]
    · rw [ih, List.cons_append]

/-- Folding begins anew behind a character that is not a newline. -/
theorem collapseNewlinesFrom_append_of_last {c : Char} (h : s.getLast? = some c) (hc : c ≠ '\n')
    (seen : Nat) (t : Text) :
    collapseNewlinesFrom seen (s ++ t) = collapseNewlinesFrom seen s ++ collapseNewlines t := by
  obtain ⟨init, rfl⟩ : ∃ init, s = init ++ [c] := by
    obtain ⟨init, hinit⟩ := List.getLast?_eq_some_iff.mp h
    exact ⟨init, hinit⟩
  have hhead : ∀ u : Text, ([c] ++ u).head? ≠ some '\n' := by
    intro u
    simpa using hc
  have hcons : ∀ u : Text, collapseNewlines ([c] ++ u) = [c] ++ collapseNewlines u := by
    intro u
    rw [collapseNewlines, List.singleton_append, collapseNewlinesFrom, if_neg hc]
    rfl
  have hwhole := collapseNewlinesFrom_append_of_head (hhead []) seen init
  rw [List.append_nil] at hwhole
  have hsingle := hcons []
  rw [List.append_nil] at hsingle
  rw [List.append_assoc, collapseNewlinesFrom_append_of_head (hhead t), hcons, hwhole, hsingle,
    List.append_assoc]
  rfl

theorem head?_collapseNewlines (t : Text) : (collapseNewlines t).head? = t.head? := by
  cases t with
  | nil => rfl
  | cons c t =>
    rw [collapseNewlines, collapseNewlinesFrom]
    split
    · rename_i hc
      rw [if_pos (by decide), hc]
      rfl
    · rfl

theorem collapseNewlines_eq_nil_iff : collapseNewlines t = [] ↔ t = [] := by
  rw [← List.head?_eq_none_iff, head?_collapseNewlines, List.head?_eq_none_iff]

/-- Folding keeps the character at the end, also if it is a newline. -/
theorem getLast?_collapseNewlines (t : Text) : (collapseNewlines t).getLast? = t.getLast? := by
  -- the newlines that have been seen stand in front
  suffices h : ∀ seen, (List.replicate seen '\n' ++ collapseNewlinesFrom seen t).getLast? =
      (List.replicate seen '\n' ++ t).getLast? from h 0
  induction t with
  | nil => exact fun _ => rfl
  | cons c t ih =>
    intro seen
    rw [collapseNewlinesFrom]
    split
    · rename_i hc
      have hcons := ih (seen + 1)
      rw [List.replicate_succ', List.append_assoc, List.append_assoc] at hcons
      split
      · rw [hc]
        exact hcons
      · rename_i hseen
        have hne : List.replicate seen '\n' ++ t ≠ [] := by
          intro hnil
          have hzero := congrArg List.length (List.append_eq_nil_iff.mp hnil).1
          simp at hzero
          omega
        rw [ih seen, hc, ← List.getLast?_cons_of_ne_nil hne, ← List.cons_append,
          ← List.replicate_succ, List.replicate_succ', List.append_assoc]
        rfl
    · have hrest := ih 0
      rw [List.getLast?_append, List.getLast?_append, List.getLast?_cons, List.getLast?_cons]
      rw [List.replicate_zero, List.nil_append, List.nil_append] at hrest
      rw [hrest]

theorem mem_of_mem_collapseNewlinesFrom {seen : Nat} {c : Char}
    (h : c ∈ collapseNewlinesFrom seen t) : c ∈ t := by
  induction t generalizing seen with
  | nil => exact h
  | cons x t ih =>
    rw [collapseNewlinesFrom] at h
    split at h
    · rename_i hx
      split at h
      · rcases List.mem_cons.mp h with rfl | h
        · exact hx ▸ List.mem_cons_self
        · exact List.mem_cons_of_mem x (ih h)
      · exact List.mem_cons_of_mem x (ih h)
    · rcases List.mem_cons.mp h with rfl | h
      · exact List.mem_cons_self
      · exact List.mem_cons_of_mem x (ih h)

theorem isSpace_newline : isSpace '\n' = true := rfl

/-- A text that begins and ends with something other than white space still does so when its
newlines are folded. -/
theorem IsBare.collapseNewlines (h : IsBare p t) : IsBare p (collapseNewlines t) :=
  ⟨by rw [head?_collapseNewlines]; exact h.head, by rw [getLast?_collapseNewlines]; exact h.last⟩

/-- What stands between other texts is folded on its own if it has no newline at its ends. -/
theorem IsBare.collapseNewlines_between (h : IsBare (· == '\n') t) (ht : t ≠ []) (a b : Text) :
    Text.collapseNewlines (a ++ t ++ b) =
      Text.collapseNewlines a ++ Text.collapseNewlines t ++ Text.collapseNewlines b := by
  have hhead : (t ++ b).head? ≠ some '\n' := by
    rw [List.head?_append_of_ne_nil _ ht]
    intro hc
    cases h.head '\n' hc
  have hlast : t.getLast? = some (t.getLast ht) := List.getLast?_eq_some_getLast ht
  have hne : t.getLast ht ≠ '\n' := fun hc => by cases h.last '\n' (by rw [hlast, hc]; rfl)
  rw [List.append_assoc, Text.collapseNewlines, collapseNewlinesFrom_append_of_head hhead,
    Text.collapseNewlines, collapseNewlinesFrom_append_of_last hlast hne, List.append_assoc]
  rfl

/-- Trimming and folding newlines commute. -/
theorem trim_collapseNewlines (t : Text) :
    trim (collapseNewlines t) = collapseNewlines (trim t) := by
  obtain ⟨a, b, ht, ha, hb⟩ := exists_borders isSpace t
  have hbare : IsBare isSpace (trim t) := isBare_stripBy isSpace t
  change t = a ++ trim t ++ b at ht
  have hspaces : ∀ u : Text, (∀ c ∈ u, isSpace c = true) → ∀ seen,
      ∀ c ∈ collapseNewlinesFrom seen u, isSpace c = true :=
    fun u hu seen c hc => hu c (mem_of_mem_collapseNewlinesFrom hc)
  by_cases hnil : trim t = []
  · rw [hnil, List.append_nil] at ht
    have hall : ∀ c ∈ collapseNewlines t, isSpace c = true := by
      apply hspaces
      intro c hc
      rw [ht] at hc
      rcases List.mem_append.mp hc with hc | hc
      · exact ha c hc
      · exact hb c hc
    rw [hnil]
    exact stripBy_eq_nil_iff.mpr hall
  · have hsplit := (hbare.mono isSpace_of_beq_newline).collapseNewlines_between hnil a b
    rw [← ht] at hsplit
    rw [hsplit]
    exact stripBy_borders (hspaces a ha 0) (hspaces b hb 0) hbare.collapseNewlines

theorem trim_stripNewlines (t : Text) : trim (stripNewlines t) = trim t :=
  stripBy_stripBy isSpace_of_beq_newline t

/-- Tidying and trimming commute. -/
theorem trim_tidy (t : Text) : trim (tidy t) = collapseNewlines (trim t) := by
  rw [tidy, trim_collapseNewlines, trim_stripNewlines]

/-- Only newlines are lost when newlines are folded. -/
theorem filter_collapseNewlinesFrom (seen : Nat) (t : Text) :
    (collapseNewlinesFrom seen t).filter (· != '\n') = t.filter (· != '\n') := by
  induction t generalizing seen with
  | nil => rfl
  | cons c t ih =>
    rw [collapseNewlinesFrom]
    split
    · rename_i hc
      rw [List.filter_cons_of_neg (by simpa using hc)]
      split
      · rw [List.filter_cons_of_neg (by simp), ih]
      · exact ih seen
    · rw [List.filter_cons, List.filter_cons, ih]

/-- Only newlines are lost in tidying. -/
theorem filter_tidy (t : Text) : (tidy t).filter (· != '\n') = t.filter (· != '\n') := by
  obtain ⟨a, b, ht, ha, hb⟩ := exists_borders (· == '\n') t
  have hborder : ∀ u : Text, (∀ c ∈ u, (c == '\n') = true) → u.filter (· != '\n') = [] :=
    fun u hu => List.filter_eq_nil_iff.mpr fun c hc => by simpa using hu c hc
  rw [tidy, collapseNewlines, filter_collapseNewlinesFrom]
  conv_rhs => rw [ht, List.filter_append, List.filter_append, hborder a ha, hborder b hb]
  rw [List.nil_append, List.append_nil]
  rfl

theorem count_tidy {c : Char} (hc : c ≠ '\n') (t : Text) : (tidy t).count c = t.count c := by
  have hkept : ∀ u : Text, (u.filter (· != '\n')).count c = u.count c := fun _ =>
    List.count_filter (bne_iff_ne.mpr hc)
  rw [← hkept, filter_tidy, hkept]

/-! ### Lines -/

theorem newline_notMem_of_mem_splitOn {line : Text} (h : line ∈ t.splitOn '\n') :
    '\n' ∉ line := by
  intro hmem
  rw [List.splitOn_eq_splitOnP] at h
  have hnot := eq_false_of_mem_splitOnP h hmem
  cases hnot

/-- A text is its lines with newlines between them. -/
theorem intercalate_of_splitOn_eq {ls : List Text} (h : t.splitOn '\n' = ls) :
    ['\n'].intercalate ls = t := by
  rw [← h, List.intercalate_splitOn]

theorem splitOn_newline_ne_nil (t : Text) : t.splitOn '\n' ≠ [] := by
  rw [List.splitOn_eq_splitOnP]
  exact List.splitOnP_ne_nil _ t

/-- Without carriage returns and without a newline at the end, the lines of a text are what
stands between its newlines. -/
theorem lines_eq_splitOn (hreturn : '\r' ∉ t) (hne : t ≠ []) (hlast : t.getLast? ≠ some '\n') :
    lines t = t.splitOn '\n' := by
  rw [List.splitOn_eq_splitOnP]
  induction t with
  | nil => exact absurd rfl hne
  | cons c t ih =>
    have hc : c ≠ '\r' := by
      rintro rfl
      exact hreturn List.mem_cons_self
    have hreturn' : '\r' ∉ t := fun h => hreturn (List.mem_cons_of_mem c h)
    rw [List.splitOnP_cons_eq_if_modifyHead]
    cases t with
    | nil =>
      have hnewline : c ≠ '\n' := by simpa using hlast
      simp [lines, hnewline, List.splitOnP_nil]
    | cons x t =>
      have ih := ih hreturn' (by simp) (by rwa [List.getLast?_cons_cons] at hlast)
      by_cases hnewline : c = '\n'
      · subst hnewline
        rw [lines, ih]
        rfl
      · rw [lines, ih, if_neg (by simpa using hnewline)]
        · obtain ⟨line, rest, hsplit⟩ :=
            List.exists_cons_of_ne_nil (List.splitOnP_ne_nil (· == '\n') (x :: t))
          rw [hsplit]
          rfl
        · exact hnewline
        · intro u hu _
          exact absurd hu hc

theorem lines_ne_nil (ht : t ≠ []) : lines t ≠ [] := by
  fun_cases lines t with
  | case1 => exact absurd rfl ht
  | case2 | case3 | case4 | case5 => simp

theorem lines_eq_nil_iff : lines t = [] ↔ t = [] :=
  ⟨fun h => by_contra fun ht => lines_ne_nil ht h, fun h => h ▸ rfl⟩

theorem newline_notMem_of_mem_lines {line : Text} (h : line ∈ lines t) : '\n' ∉ line := by
  fun_induction lines t generalizing line with
  | case1 => cases h
  | case2 t ih | case3 t ih =>
    rcases List.mem_cons.mp h with rfl | h
    · simp
    · exact ih h
  | case4 c t hnewline _ _ _ =>
    rw [List.mem_singleton.mp h, List.mem_singleton]
    exact fun hc => hnewline hc.symm
  | case5 c t hnewline _ first rest hlines ih =>
    rw [hlines] at ih
    rcases List.mem_cons.mp h with rfl | h
    · intro hmem
      rcases List.mem_cons.mp hmem with hc | hmem
      · exact hnewline hc.symm
      · exact ih List.mem_cons_self hmem
    · exact ih (List.mem_cons_of_mem first h)

/-- Without newlines there is nothing to fold, and folding begins anew behind the text. -/
theorem collapseNewlinesFrom_append_of_notMem (hs : s ≠ []) (hnewline : '\n' ∉ s) (seen : Nat)
    (t : Text) : collapseNewlinesFrom seen (s ++ t) = s ++ collapseNewlinesFrom 0 t := by
  induction s generalizing seen with
  | nil => exact absurd rfl hs
  | cons c s ih =>
    have hc : c ≠ '\n' := fun h => hnewline (h ▸ List.mem_cons_self)
    rw [List.cons_append, collapseNewlinesFrom, if_neg hc, List.cons_append]
    cases s with
    | nil => rfl
    | cons x s => rw [ih (by simp) fun h => hnewline (List.mem_cons_of_mem c h)]

/-- Folding again changes nothing. -/
theorem collapseNewlines_collapseNewlines (t : Text) :
    collapseNewlines (collapseNewlines t) = collapseNewlines t := by
  have hfrom : ∀ seen, collapseNewlinesFrom seen (collapseNewlinesFrom seen t) =
      collapseNewlinesFrom seen t := by
    induction t with
    | nil => exact fun _ => rfl
    | cons c t ih =>
      intro seen
      rw [collapseNewlinesFrom]
      split
      · split
        · rename_i hseen
          rw [collapseNewlinesFrom, if_pos rfl, if_pos hseen, ih]
        · exact ih seen
      · rename_i hc
        rw [collapseNewlinesFrom, if_neg hc, ih]
  exact hfrom 0

/-- A text of lines ends as the last line does. -/
theorem getLast?_intercalate_concat {line : Text} (hline : line ≠ []) (ls : List Text) :
    (['\n'].intercalate (ls ++ [line])).getLast? = line.getLast? := by
  induction ls with
  | nil => rw [List.nil_append, List.intercalate_singleton]
  | cons l ls ih =>
    have hlast : ∃ c, line.getLast? = some c := ⟨_, List.getLast?_eq_some_getLast hline⟩
    obtain ⟨c, hc⟩ := hlast
    rw [List.cons_append, List.intercalate_cons_of_ne_nil (by simp), List.getLast?_append, ih, hc]
    rfl

/-- An empty line at the end leaves a newline there. -/
theorem getLast?_intercalate_concat_nil {ls : List Text} (hls : ls ≠ []) :
    (['\n'].intercalate (ls ++ [[]])).getLast? = some '\n' := by
  induction ls with
  | nil => exact absurd rfl hls
  | cons l ls ih =>
    rw [List.cons_append, List.intercalate_cons_of_ne_nil (by simp), List.getLast?_append]
    by_cases hnil : ls = []
    · rw [hnil, List.nil_append, List.intercalate_singleton, List.getLast?_concat]
      rfl
    · rw [ih hnil]
      rfl

/-- The last line of a text ends as the text does. -/
theorem exists_last_line (hne : t ≠ []) (hlast : t.getLast? ≠ some '\n') :
    ∃ init last, t.splitOn '\n' = init ++ [last] ∧ last ≠ [] ∧ last.getLast? = t.getLast? := by
  rcases List.eq_nil_or_concat (t.splitOn '\n') with hnil | ⟨init, last, hconcat⟩
  · exact absurd hnil (splitOn_newline_ne_nil t)
  · rw [List.concat_eq_append] at hconcat
    have hjoin := intercalate_of_splitOn_eq hconcat
    by_cases hempty : last = []
    · -- an empty last line would leave nothing or a newline at the end
      subst hempty
      by_cases hinit : init = []
      · rw [hinit] at hjoin
        exact absurd hjoin.symm hne
      · have hend := getLast?_intercalate_concat_nil hinit
        rw [hjoin] at hend
        exact absurd hend hlast
    · exact ⟨init, last, hconcat, hempty, by rw [← hjoin, getLast?_intercalate_concat hempty]⟩

theorem mem_intercalate_iff {c : Char} (hc : c ≠ '\n') {ls : List Text} :
    c ∈ ['\n'].intercalate ls ↔ ∃ line ∈ ls, c ∈ line := by
  induction ls with
  | nil => simp [List.intercalate_nil]
  | cons l ls ih =>
    by_cases hls : ls = []
    · simp [hls]
    · rw [List.intercalate_cons_of_ne_nil hls, List.mem_append, List.mem_append,
        List.mem_singleton, ih]
      simp [hc]

/-- A text begins as its first piece does. -/
theorem head?_intercalate (separator : Text) {first : Text} (hfirst : first ≠ [])
    (rest : List Text) : (separator.intercalate (first :: rest)).head? = first.head? := by
  by_cases hrest : rest = []
  · rw [hrest, List.intercalate_singleton]
  · rw [List.intercalate_cons_of_ne_nil hrest, List.append_assoc,
      List.head?_append_of_ne_nil _ hfirst]

/-- Pieces that are not empty are joined to nothing only if there are none. -/
theorem intercalate_eq_nil_iff {separator : Text} {pieces : List Text}
    (h : ∀ piece ∈ pieces, piece ≠ []) : separator.intercalate pieces = [] ↔ pieces = [] := by
  cases pieces with
  | nil => exact iff_of_true List.intercalate_nil rfl
  | cons first rest =>
    have hfirst := h first List.mem_cons_self
    refine iff_of_false (fun hnil => hfirst ?_) (List.cons_ne_nil first rest)
    rw [← List.head?_eq_none_iff, ← head?_intercalate separator hfirst rest, hnil]
    rfl

/-- A character other than a newline is in the text if it is in a line. -/
theorem mem_iff_exists_line {c : Char} (hc : c ≠ '\n') :
    c ∈ t ↔ ∃ line ∈ t.splitOn '\n', c ∈ line := by
  rw [← mem_intercalate_iff hc, List.intercalate_splitOn]

/-- At least one line, and none that is empty or holds a newline. -/
structure AreLines (ls : List Text) : Prop where
  ne_nil : ls ≠ []
  line_ne_nil : ∀ line ∈ ls, line ≠ []
  newline_notMem : ∀ line ∈ ls, '\n' ∉ line

namespace AreLines

variable {ls : List Text}

/-- A text of such lines is taken apart into them. -/
theorem splitOn_eq (h : AreLines ls) : (['\n'].intercalate ls).splitOn '\n' = ls :=
  List.splitOn_intercalate '\n' h.newline_notMem h.ne_nil

theorem exists_first (h : AreLines ls) : ∃ first rest, ls = first :: rest ∧ first ≠ [] := by
  obtain ⟨first, rest, rfl⟩ := List.exists_cons_of_ne_nil h.ne_nil
  exact ⟨first, rest, rfl, h.line_ne_nil first List.mem_cons_self⟩

theorem exists_last (h : AreLines ls) : ∃ init last, ls = init ++ [last] ∧ last ≠ [] := by
  rcases List.eq_nil_or_concat ls with hnil | ⟨init, last, hconcat⟩
  · exact absurd hnil h.ne_nil
  · rw [List.concat_eq_append] at hconcat
    exact ⟨init, last, hconcat, h.line_ne_nil last (by rw [hconcat]; simp)⟩

theorem intercalate_ne_nil (h : AreLines ls) : ['\n'].intercalate ls ≠ [] := fun hnil =>
  h.ne_nil ((intercalate_eq_nil_iff h.line_ne_nil).mp hnil)

/-- The text is bare of a class of characters if the first line begins and the last line ends
with another character. -/
theorem isBare_intercalate (h : AreLines ls)
    (hfirst : ∀ line ∈ ls.head?, ∀ c ∈ line.head?, p c = false)
    (hlast : ∀ line ∈ ls.getLast?, ∀ c ∈ line.getLast?, p c = false) :
    IsBare p (['\n'].intercalate ls) := by
  constructor
  · obtain ⟨first, rest, rfl, hne⟩ := h.exists_first
    rw [head?_intercalate _ hne]
    exact hfirst first rfl
  · obtain ⟨init, last, rfl, hne⟩ := h.exists_last
    rw [getLast?_intercalate_concat hne]
    exact hlast last List.getLast?_concat

theorem isBare_newline (h : AreLines ls) : IsBare (· == '\n') (['\n'].intercalate ls) := by
  have hnot : ∀ line ∈ ls, ∀ c ∈ line, (c == '\n') = false := by
    intro line hline c hc
    rw [beq_eq_false_iff_ne]
    rintro rfl
    exact h.newline_notMem line hline hc
  apply h.isBare_intercalate
  · intro line hline c hc
    exact hnot line (List.mem_of_head? hline) c (List.mem_of_head? hc)
  · intro line hline c hc
    exact hnot line (List.mem_of_getLast? hline) c (List.mem_of_getLast? hc)

/-- Between such lines there is a single newline. -/
theorem collapseNewlines_intercalate (h : AreLines ls) :
    collapseNewlines (['\n'].intercalate ls) = ['\n'].intercalate ls := by
  have hfrom : ∀ seen, collapseNewlinesFrom seen (['\n'].intercalate ls) =
      ['\n'].intercalate ls := by
    obtain ⟨hne, hlines, hnewline⟩ := h
    induction ls with
    | nil => exact absurd rfl hne
    | cons line ls ih =>
      intro seen
      have hline := hlines line List.mem_cons_self
      have hfree := hnewline line List.mem_cons_self
      by_cases hls : ls = []
      · have hwhole := collapseNewlinesFrom_append_of_notMem hline hfree seen []
        rw [List.append_nil] at hwhole
        rw [hls, List.intercalate_singleton, hwhole]
        exact List.append_nil line
      · have hrest := ih hls (fun l hl => hlines l (List.mem_cons_of_mem line hl))
          (fun l hl => hnewline l (List.mem_cons_of_mem line hl)) 1
        rw [List.intercalate_cons_of_ne_nil hls, List.append_assoc,
          collapseNewlinesFrom_append_of_notMem hline hfree, List.singleton_append,
          collapseNewlinesFrom, if_pos rfl, if_pos (by decide), hrest]
  exact hfrom 0

end AreLines

/-! ### Blocks -/

/-- A block between blank lines. -/
theorem isBlank_border : ∀ c ∈ "\n\n".toList, (c == '\n') = true := by
  simp

/-- A block in which there is nothing to fold is what is left of it when it is tidied. -/
theorem tidy_block (hbare : IsBare (· == '\n') t) (hfolded : collapseNewlines t = t) :
    tidy ("\n\n".toList ++ t ++ "\n\n".toList) = t := by
  rw [tidy, stripNewlines, stripBy_borders isBlank_border isBlank_border hbare, hfolded]

/-- Trimming takes the blank lines off a block. -/
theorem trim_block (hbare : IsBare isSpace t) :
    trim ("\n\n".toList ++ t ++ "\n\n".toList) = t := by
  have hborder : ∀ c ∈ "\n\n".toList, isSpace c = true :=
    fun c hc => isSpace_of_beq_newline c (isBlank_border c hc)
  exact stripBy_borders hborder hborder hbare

end Text

end TreeMarkdown
