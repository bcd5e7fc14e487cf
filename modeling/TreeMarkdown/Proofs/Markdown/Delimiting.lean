/-
Code spans, and how they are read.

The delimiters of a span are one backtick longer than any run in its text, and there is something
else on either side of the text: its own first and last character if it has no backticks at all, and
spaces otherwise. So nothing in the text is taken for a delimiter, and nothing of a delimiter for
text (`IsApart`). A reader that goes from the backticks at the beginning to the next run of just as
many gets the text back (`isCodeSpan_codeSpan`).
-/

import Mathlib.Data.List.Infix
import TreeMarkdown.Markdown.Code

namespace TreeMarkdown.Markdown

variable {c x : Char} {t s rest : Text} {k m : Nat}

/-! ### Runs -/

/-- What has no `x` in it stands on one side of each `x`. -/
theorem infix_append_cons_iff {l a b : Text} (hx : x ∉ l) :
    l <:+: a ++ x :: b ↔ l <:+: a ∨ l <:+: b := by
  constructor
  · intro h
    rcases List.infix_append_iff.mp h with hleft | hright | ⟨u, v, rfl, hu, hv⟩
    · exact Or.inl hleft
    · rcases List.infix_cons_iff.mp hright with hfirst | hlater
      · cases l with
        | nil => exact Or.inl (List.nil_infix)
        | cons y l =>
          obtain rfl := (List.cons_prefix_cons.mp hfirst).1
          exact absurd List.mem_cons_self hx
      · exact Or.inr hlater
    · cases v with
      | nil =>
        rw [List.append_nil]
        exact Or.inl hu.isInfix
      | cons y v =>
        obtain rfl := (List.cons_prefix_cons.mp hv).1
        exact absurd (List.mem_append_right u List.mem_cons_self) hx
  · rintro (h | h)
    · exact h.trans (List.prefix_append a _).isInfix
    · exact (h.trans (List.suffix_cons x b).isInfix).trans (List.suffix_append a _).isInfix

theorem notMem_replicate (hx : x ≠ c) : x ∉ List.replicate m c :=
  fun hmem => hx (List.eq_of_mem_replicate hmem)

theorem replicate_infix_replicate_iff {n : Nat} :
    List.replicate m c <:+: List.replicate n c ↔ m ≤ n := by
  rw [List.infix_replicate_iff, List.length_replicate]
  exact and_iff_left rfl

theorem replicate_infix_iff_longestRunFrom (c : Char) (m current : Nat) (t : Text) :
    List.replicate m c <:+: List.replicate current c ++ t ↔ m ≤ longestRunFrom c current t := by
  induction t generalizing current with
  | nil =>
    rw [List.append_nil]
    exact replicate_infix_replicate_iff
  | cons y t ih =>
    rw [longestRunFrom]
    split
    · rename_i hy
      rw [hy, ← ih, List.replicate_succ', List.append_assoc, List.singleton_append]
    · rename_i hy
      have hrest := ih 0
      rw [List.replicate_zero, List.nil_append] at hrest
      rw [infix_append_cons_iff (notMem_replicate hy), replicate_infix_replicate_iff, hrest]
      omega

/-- The runs of a text are those that are not longer than the longest. -/
theorem replicate_infix_iff : List.replicate m c <:+: t ↔ m ≤ longestRun c t :=
  replicate_infix_iff_longestRunFrom c m 0 t

/-! ### Text between delimiters -/

/-- A delimiter of `k` backticks. -/
def ticks (k : Nat) : Text :=
  List.replicate k '\x60'

/-- No run of backticks in the text is as long as the delimiters, and none touches them. -/
structure IsApart (k : Nat) (s : Text) : Prop where
  pos : 0 < k
  ne_nil : s ≠ []
  head : s.head? ≠ some '\x60'
  last : s.getLast? ≠ some '\x60'
  absent : ¬ ticks k <:+: s

theorem notMem_ticks (hx : x ≠ '\x60') (k : Nat) : x ∉ ticks k :=
  notMem_replicate hx

theorem not_ticks_infix_of_lt (h : m < k) : ¬ ticks k <:+: ticks m := fun hinfix =>
  Nat.not_le.mpr h (replicate_infix_replicate_iff.mp hinfix)

theorem IsApart.head?_append (h : IsApart k s) (rest : Text) :
    (s ++ rest).head? ≠ some '\x60' := by
  obtain ⟨y, behind, rfl⟩ := List.exists_cons_of_ne_nil h.ne_nil
  exact h.head

/-- Read from its end, the text is as far apart from the delimiters. -/
theorem IsApart.head?_reverse_append (h : IsApart k s) (rest : Text) :
    (s.reverse ++ rest).head? ≠ some '\x60' := by
  obtain ⟨front, z, rfl⟩ := (List.eq_nil_or_concat s).resolve_left h.ne_nil
  rw [List.concat_eq_append, List.reverse_concat]
  intro hz
  exact h.last (by rw [List.concat_eq_append, List.getLast?_concat]; exact hz)

/-- The run at the beginning is the delimiter and no more. -/
theorem takeWhile_ticks_append (k : Nat) (h : s.head? ≠ some '\x60') :
    (ticks k ++ s).takeWhile (· == '\x60') = ticks k := by
  have hnone : s.takeWhile (· == '\x60') = [] := by
    cases s with
    | nil => rfl
    | cons y s =>
      refine List.takeWhile_cons_of_neg fun hy => h ?_
      rw [List.head?_cons, beq_iff_eq.mp hy]
  rw [List.takeWhile_append_of_pos, hnone, List.append_nil]
  intro y hy
  exact beq_iff_eq.mpr (List.eq_of_mem_replicate hy)

/-- The delimiters are the only runs of their length, so that no other can close the span. -/
theorem IsApart.eq_nil_or_eq_nil (h : IsApart k s) {a b : Text}
    (hsplit : ticks k ++ s ++ ticks k = a ++ ticks k ++ b) : a = [] ∨ b = [] := by
  cases a with
  | nil => exact Or.inl rfl
  | cons u a =>
  rcases List.eq_nil_or_concat b with rfl | ⟨b, v, rfl⟩
  · exact Or.inr rfl
  obtain ⟨n, rfl⟩ := Nat.exists_eq_succ_of_ne_zero (Nat.ne_of_gt h.pos)
  obtain ⟨y, behind, hfirst⟩ := List.exists_cons_of_ne_nil h.ne_nil
  obtain ⟨front, z, hlast⟩ := (List.eq_nil_or_concat s).resolve_left h.ne_nil
  rw [List.concat_eq_append] at hlast hsplit
  have hy : y ≠ '\x60' := fun hy => h.head (by rw [hfirst, hy, List.head?_cons])
  have hz : z ≠ '\x60' := fun hz => h.last (by rw [hlast, hz, List.getLast?_concat])
  have hshort : ¬ ticks (n + 1) <:+: ticks n := not_ticks_infix_of_lt (Nat.lt_succ_self n)
  -- the run is there still when one backtick less is left on either side
  have hinner : ticks (n + 1) <:+: ticks n ++ s ++ ticks n := by
    have hends : '\x60' :: (ticks n ++ s ++ ticks n) ++ ['\x60'] =
        u :: (a ++ ticks (n + 1) ++ b) ++ [v] := by
      calc '\x60' :: (ticks n ++ s ++ ticks n) ++ ['\x60']
        _ = '\x60' :: ticks n ++ s ++ (ticks n ++ ['\x60']) := by simp
        _ = ticks (n + 1) ++ s ++ ticks (n + 1) := by
          rw [ticks, ticks, ← List.replicate_succ, ← List.replicate_succ']
        _ = u :: (a ++ ticks (n + 1) ++ b) ++ [v] := by
          rw [hsplit]
          simp
    rw [(List.cons.inj (List.append_inj' hends rfl).1).2]
    exact List.infix_append a _ b
  have hbefore : ticks (n + 1) <:+: ticks n ++ front := by
    rw [hlast, List.append_assoc, List.append_assoc, List.singleton_append, ← List.append_assoc,
      infix_append_cons_iff (notMem_ticks hz _)] at hinner
    exact hinner.resolve_right hshort
  have hwhole : ticks (n + 1) <:+: ticks n ++ y :: behind := by
    rw [← hfirst, hlast, ← List.append_assoc]
    exact hbefore.trans (List.prefix_append _ _).isInfix
  have hbehind := ((infix_append_cons_iff (notMem_ticks hy _)).mp hwhole).resolve_left hshort
  refine absurd (hbehind.trans ?_) h.absent
  rw [hfirst]
  exact (List.suffix_cons y behind).isInfix

/-! ### The reader -/

/-- Reads a text in which the last `run` characters were backticks, up to the next run of exactly
`k`: what stands before that run and what follows it. -/
def readUntil (k run : Nat) : Text → Option (Text × Text)
  | [] => if run = k then some ([], []) else none
  | c :: t =>
    if c = '\x60' then readUntil k (run + 1) t
    else if run = k then some ([], c :: t)
    else (readUntil k 0 t).map fun found => (ticks run ++ c :: found.1, found.2)

/-- Takes away one character at either end if the delimiters are longer than one backtick. -/
def unpadded (k : Nat) (s : Text) : Text :=
  if 1 < k then s.tail.dropLast else s

/-- Reads a code span at the beginning of a text: what is in it and what follows it. -/
def readSpan (t : Text) : Option (Text × Text) :=
  let k := (t.takeWhile (· == '\x60')).length
  if k = 0 then none
  else (readUntil k 0 (t.drop k)).map fun found => (unpadded k found.1, found.2)

theorem readUntil_ticks_append (k run m : Nat) (t : Text) :
    readUntil k run (ticks m ++ t) = readUntil k (run + m) t := by
  induction m generalizing run with
  | zero => rfl
  | succ m ih =>
    rw [ticks, List.replicate_succ, List.cons_append, readUntil, if_pos rfl]
    exact (ih (run + 1)).trans (by rw [Nat.add_right_comm, Nat.add_assoc])

/-- A run of the right length is read to its end. -/
theorem readUntil_of_head (h : rest.head? ≠ some '\x60') :
    readUntil k k rest = some ([], rest) := by
  cases rest with
  | nil => rw [readUntil, if_pos rfl]
  | cons c rest =>
    have hc : c ≠ '\x60' := fun hc => h (by rw [hc, List.head?_cons])
    rw [readUntil, if_neg hc, if_pos rfl]

/-- Shorter runs are read over, and the next delimiter ends the reading. -/
theorem readUntil_eq (run : Nat) (hlast : (ticks run ++ s).getLast? ≠ some '\x60')
    (habsent : ¬ ticks k <:+: ticks run ++ s) (hrest : rest.head? ≠ some '\x60') :
    readUntil k run (s ++ ticks k ++ rest) = some (ticks run ++ s, rest) := by
  induction s generalizing run with
  | nil =>
    cases run with
    | zero => rw [List.nil_append, readUntil_ticks_append, Nat.zero_add, readUntil_of_head hrest]; rfl
    | succ run =>
      refine absurd ?_ hlast
      rw [ticks, List.append_nil, List.replicate_succ', List.getLast?_concat]
  | cons c s ih =>
    by_cases hc : c = '\x60'
    · have hrun : ticks run ++ c :: s = ticks (run + 1) ++ s := by
        rw [hc, ticks, ticks, List.replicate_succ', List.append_assoc, List.singleton_append]
      rw [List.cons_append, List.cons_append, readUntil, if_pos hc, hrun]
      rw [hrun] at hlast habsent
      exact ih (run + 1) hlast habsent
    · have hne : run ≠ k := by
        rintro rfl
        exact habsent (List.prefix_append _ _).isInfix
      rw [List.cons_append, List.cons_append, readUntil, if_neg hc, if_neg hne, ih 0]
      · rfl
      · intro h
        have hend : s.getLast? = some '\x60' := h
        rw [List.getLast?_append, List.getLast?_cons, hend] at hlast
        exact hlast rfl
      · intro h
        refine habsent (h.trans ?_)
        exact (List.suffix_cons c s).isInfix.trans (List.suffix_append _ _).isInfix

/-- The reader finds the text between delimiters that it is apart from, and what follows them. -/
theorem IsApart.readSpan_eq (h : IsApart k s) (hrest : rest.head? ≠ some '\x60') :
    readSpan (ticks k ++ s ++ ticks k ++ rest) = some (unpadded k s, rest) := by
  have hopen : (ticks k ++ s ++ ticks k ++ rest).takeWhile (· == '\x60') = ticks k := by
    rw [List.append_assoc, List.append_assoc]
    exact takeWhile_ticks_append k (h.head?_append _)
  have hlength : (ticks k).length = k := List.length_replicate
  have hdrop : (ticks k ++ s ++ ticks k ++ rest).drop k = s ++ ticks k ++ rest := by
    rw [List.append_assoc, List.append_assoc, List.drop_left' hlength, ← List.append_assoc]
  have hread : readUntil k 0 (s ++ ticks k ++ rest) = some (s, rest) :=
    readUntil_eq 0 h.last h.absent hrest
  rw [readSpan, hopen, hlength, hdrop, hread, if_neg (Nat.ne_of_gt h.pos)]
  rfl

/-! ### Code spans -/

/-- How many backticks stand on either side of a text. -/
def spanWidth (t : Text) : Nat :=
  longestRun '\x60' t + 1

/-- What stands between the delimiters. -/
def padded (k : Nat) (t : Text) : Text :=
  if 1 < k then ' ' :: t ++ [' '] else t

theorem unpadded_padded (k : Nat) (t : Text) : unpadded k (padded k t) = t := by
  rw [unpadded, padded]
  split
  · rw [List.cons_append, List.tail_cons, List.dropLast_concat]
  · rfl

theorem codeSpan_eq (h : t ≠ []) :
    codeSpan t = some (ticks (spanWidth t) ++ padded (spanWidth t) t ++ ticks (spanWidth t)) := by
  have hempty : ¬ t.isEmpty = true := fun hempty => h (List.isEmpty_iff.mp hempty)
  have hwide : 1 < spanWidth t ↔ 0 < longestRun '\x60' t := Nat.succ_lt_succ_iff
  simp only [codeSpan, if_neg hempty, padded, hwide]
  split
  · simp [ticks, spanWidth]
  · rfl

theorem not_ticks_spanWidth_infix (t : Text) : ¬ ticks (spanWidth t) <:+: t := fun h =>
  Nat.not_succ_le_self _ (replicate_infix_iff.mp h)

/-- One backtick is enough if the text has none. -/
theorem spanWidth_eq_one_iff : spanWidth t = 1 ↔ '\x60' ∉ t := by
  have hmem : '\x60' ∈ t ↔ 1 ≤ longestRun '\x60' t := by
    rw [← replicate_infix_iff, List.replicate_one, List.singleton_infix_iff]
  rw [spanWidth, hmem]
  omega

/-- In a code span the text is apart from its delimiters. -/
theorem isApart_padded (h : t ≠ []) : IsApart (spanWidth t) (padded (spanWidth t) t) := by
  have hpos : 0 < spanWidth t := Nat.succ_pos _
  have habsent := not_ticks_spanWidth_infix t
  rw [padded]
  split
  · rename_i hwide
    have hspace : ' ' ∉ ticks (spanWidth t) := notMem_ticks (by decide) _
    have hshort : ¬ ticks (spanWidth t) <:+: [] := not_ticks_infix_of_lt hpos
    refine ⟨hpos, by simp, by simp, by rw [List.getLast?_concat]; decide, fun hinfix => ?_⟩
    rw [← List.nil_append (' ' :: t ++ [' ']), List.cons_append, infix_append_cons_iff hspace,
      infix_append_cons_iff hspace] at hinfix
    rcases hinfix with hnil | hinside | hnil
    · exact hshort hnil
    · exact habsent hinside
    · exact hshort hnil
  · rename_i hnarrow
    have hone : spanWidth t = 1 := by omega
    have hnone := spanWidth_eq_one_iff.mp hone
    exact ⟨hpos, h, fun hhead => hnone (List.mem_of_head? hhead),
      fun hlast => hnone (List.mem_of_getLast? hlast), habsent⟩

/-- A code span with delimiters of `k` backticks, from which its text can be read. -/
structure IsCodeSpan (k : Nat) (t span : Text) : Prop where
  eq : span = ticks k ++ padded k t ++ ticks k
  pos : 0 < k
  opening : span.takeWhile (· == '\x60') = ticks k
  closing : span.reverse.takeWhile (· == '\x60') = ticks k
  absent : ¬ ticks k <:+: t
  narrow : k = 1 ↔ '\x60' ∉ t
  only : ∀ a b, span = a ++ ticks k ++ b → a = [] ∨ b = []
  reads : ∀ rest, rest.head? ≠ some '\x60' → readSpan (span ++ rest) = some (t, rest)

theorem isCodeSpan_codeSpan {span : Text} (h : codeSpan t = some span) :
    IsCodeSpan (spanWidth t) t span := by
  have hne : t ≠ [] := by
    rintro rfl
    cases h
  have hapart := isApart_padded hne
  rw [codeSpan_eq hne] at h
  obtain rfl := Option.some.inj h
  have hreverse : (ticks (spanWidth t)).reverse = ticks (spanWidth t) := List.reverse_replicate
  constructor
  case eq => rfl
  case pos => exact hapart.pos
  case opening =>
    rw [List.append_assoc]
    exact takeWhile_ticks_append _ (hapart.head?_append _)
  case closing =>
    rw [List.reverse_append, List.reverse_append, hreverse]
    exact takeWhile_ticks_append _ (hapart.head?_reverse_append _)
  case absent => exact not_ticks_spanWidth_infix t
  case narrow => exact spanWidth_eq_one_iff
  case only => exact fun a b => hapart.eq_nil_or_eq_nil
  case reads =>
    intro rest hrest
    rw [hapart.readSpan_eq hrest, unpadded_padded]

/-- Code spans that are alike have the same text. -/
theorem IsCodeSpan.text_eq {span other : Text} {j : Nat} (h : IsCodeSpan k t span)
    (hother : IsCodeSpan j other span) : other = t := by
  have hread := (hother.reads [] nofun).symm.trans (h.reads [] nofun)
  exact (Prod.mk.inj (Option.some.inj hread)).1

end TreeMarkdown.Markdown
