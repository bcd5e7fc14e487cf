/-
Lists line by line.

Items and lists inside items trim what they are given and put newlines back, and each item
indents all that its lists have written before. None of this disturbs lines that are entries
(`IsEntry`): an item is its label behind the marker and the lines of the list inside it, each
four further in (`listItem_eq`), a list inside an item is its lines as they are
(`nestedList_eq`). Between items and lists texts are passed on with a newline behind every
line (`terminated`), so the items of a list need only be put one after the other. Whatever the
text of an item, its lines below the first are indented by four (`hangs_listItem`), which takes
them under the marker only if that is no longer (`hangs_listItem_iff`).
-/

import Mathlib.Data.List.Basic
import TreeMarkdown.Markdown.Item
import TreeMarkdown.Markdown.Layout
import TreeMarkdown.Proofs.Text.Lines

namespace TreeMarkdown.Markdown

open Text

variable {line front label marker content : Text} {ls : List Text}

/-! ### Entries -/

/-- A line that ends in a character other than white space. -/
structure IsEntry (line : Text) : Prop where
  ne_nil : line ≠ []
  newline_notMem : '\n' ∉ line
  last : ∀ c ∈ line.getLast?, isSpace c = false

theorem IsEntry.behind (h : IsEntry line) (hfront : '\n' ∉ front) : IsEntry (front ++ line) where
  ne_nil := fun hnil => h.ne_nil (List.append_eq_nil_iff.mp hnil).2
  newline_notMem := by
    rw [List.mem_append, not_or]
    exact ⟨hfront, h.newline_notMem⟩
  last := by
    rw [List.getLast?_append_of_ne_nil _ h.ne_nil]
    exact h.last

theorem IsEntry.trim_ne_nil (h : IsEntry line) : trim line ≠ [] := by
  intro hnil
  have hlast := h.last _ (List.getLast?_eq_some_getLast h.ne_nil)
  rw [stripBy_eq_nil_iff.mp hnil _ (List.getLast_mem h.ne_nil)] at hlast
  cases hlast

theorem areLines_of_isEntry (hne : ls ≠ []) (h : ∀ line ∈ ls, IsEntry line) : AreLines ls where
  ne_nil := hne
  line_ne_nil := fun line hline => (h line hline).ne_nil
  newline_notMem := fun line hline => (h line hline).newline_notMem

/-- Entries make one line of the next: joined, they end as an entry does. -/
theorem trim_intercalate_ne_nil (hne : ls ≠ []) (h : ∀ line ∈ ls, IsEntry line) :
    trim (['\n'].intercalate ls) ≠ [] := by
  have hlines := areLines_of_isEntry hne h
  obtain ⟨init, last, rfl, hlast⟩ := hlines.exists_last
  have hentry := h last (by simp)
  intro hnil
  have hspace := stripBy_eq_nil_iff.mp hnil _ (List.getLast_mem hlines.intercalate_ne_nil)
  have hend := getLast?_intercalate_concat hlast init
  rw [List.getLast?_eq_some_getLast hlines.intercalate_ne_nil] at hend
  rw [hentry.last _ hend.symm] at hspace
  cases hspace

/-! ### Lines with their newlines -/

/-- The lines of a text, each with a newline behind it. -/
def terminated (ls : List Text) : Text :=
  ls.flatMap (· ++ ['\n'])

theorem terminated_eq (hne : ls ≠ []) : terminated ls = ['\n'].intercalate ls ++ ['\n'] := by
  induction ls with
  | nil => exact absurd rfl hne
  | cons line ls ih =>
    by_cases hls : ls = []
    · rw [hls, List.intercalate_singleton]
      exact List.flatMap_singleton ..
    · rw [List.intercalate_cons_of_ne_nil hls, List.append_assoc, ← ih hls, terminated,
        List.flatMap_cons]
      rfl

/-- The lines of several texts are passed on as one text. -/
theorem terminated_flatMap {α : Type} (l : List α) (f : α → List Text) :
    terminated (l.flatMap f) = l.flatMap fun x => terminated (f x) :=
  List.flatMap_assoc

theorem stripNewlines_terminated (h : AreLines ls) :
    stripNewlines (terminated ls) = ['\n'].intercalate ls := by
  rw [terminated_eq h.ne_nil]
  exact stripBy_borders (a := []) (by simp) (by simp) h.isBare_newline

/-- Lines with their newlines are read back as lines, and what follows them as one more. -/
theorem splitOn_terminated_append {last : Text} (hls : ∀ line ∈ ls, '\n' ∉ line)
    (hlast : '\n' ∉ last) : (terminated ls ++ last).splitOn '\n' = ls ++ [last] := by
  have hjoin : terminated ls ++ last = ['\n'].intercalate (ls ++ [last]) := by
    clear hls
    induction ls with
    | nil => simp [terminated]
    | cons line ls ih =>
      rw [List.cons_append, List.intercalate_cons_of_ne_nil (by simp), ← ih]
      simp [terminated]
  rw [hjoin]
  refine List.splitOn_intercalate '\n' ?_ (by simp)
  intro line hline
  rcases List.mem_append.mp hline with hline | hline
  · exact hls line hline
  · exact List.mem_singleton.mp hline ▸ hlast

/-! ### Items and lists -/

/-- A list inside an item is its lines as they are, behind a newline. -/
theorem nestedList_eq (hne : ls ≠ []) (h : ∀ line ∈ ls, IsEntry line) :
    nestedList (terminated ls) = some ('\n' :: terminated ls) := by
  have hfilled : (trim (['\n'].intercalate ls)).isEmpty = false := by
    simpa using trim_intercalate_ne_nil hne h
  rw [nestedList, stripNewlines_terminated (areLines_of_isEntry hne h), terminated_eq hne]
  simp only [hfilled, Bool.false_eq_true, if_false, List.cons_append]

/-- A list on its own is a block of its lines. -/
theorem block_terminated (h : AreLines ls) :
    block (stripNewlines (terminated ls)) =
      some ("\n\n".toList ++ ['\n'].intercalate ls ++ "\n\n".toList) := by
  rw [stripNewlines_terminated h, block, if_neg (by simpa using h.intercalate_ne_nil)]

/-- An item is its marker in front of the first line of its text, and continuation lines. -/
theorem listItem_of_splitOn {first : Text} {others : List Text}
    (hsplit : (collapseNewlines (trim content)).splitOn '\n' = first :: others) :
    listItem marker content = terminated ((marker ++ first) :: others.map continuationLine) := by
  rw [listItem, hsplit, hangingLines, terminated_eq (List.cons_ne_nil _ _)]
  cases others with
  | nil => simp
  | cons other others => simp [List.intercalate_cons_cons]

/-- What an item makes of a label and the lines behind it. -/
theorem listItem_of_lines (h : AreLines (label :: ls))
    (hcontent : trim content = ['\n'].intercalate (label :: ls)) :
    listItem marker content = terminated ((marker ++ label) :: ls.map ("    ".toList ++ ·)) := by
  have hindent : ls.map continuationLine = ls.map ("    ".toList ++ ·) := by
    apply List.map_congr_left
    intro line hline
    have hne := h.line_ne_nil line (List.mem_cons_of_mem label hline)
    rw [continuationLine, if_neg (by simpa using hne)]
  rw [← hindent]
  apply listItem_of_splitOn
  rw [hcontent, h.collapseNewlines_intercalate, h.splitOn_eq]

/-- An item is its label behind the marker, and below it the lines of the list inside it, each
four further in. -/
theorem listItem_eq (hlabel : IsEntry label) (hhead : ∀ c ∈ label.head?, isSpace c = false)
    (h : ∀ line ∈ ls, IsEntry line) :
    listItem marker (label ++ if ls = [] then [] else '\n' :: terminated ls) =
      terminated ((marker ++ label) :: ls.map ("    ".toList ++ ·)) := by
  have hentries : ∀ line ∈ label :: ls, IsEntry line := by
    intro line hline
    rcases List.mem_cons.mp hline with rfl | hline
    · exact hlabel
    · exact h line hline
  have hlines := areLines_of_isEntry (List.cons_ne_nil label ls) hentries
  have hbare : IsBare isSpace (['\n'].intercalate (label :: ls)) := by
    apply hlines.isBare_intercalate
    · intro line hline
      cases hline
      exact hhead
    · exact fun line hline => (hentries line (List.mem_of_getLast? hline)).last
  apply listItem_of_lines hlines
  by_cases hls : ls = []
  · rw [if_pos hls, List.append_nil, hls, List.intercalate_singleton]
    rw [hls, List.intercalate_singleton] at hbare
    exact hbare.stripBy_eq
  · have hborder : ∀ c ∈ ['\n'], isSpace c = true := by simp [isSpace]
    rw [if_neg hls, terminated_eq hls]
    have hwhole : label ++ '\n' :: (['\n'].intercalate ls ++ ['\n']) =
        [] ++ ['\n'].intercalate (label :: ls) ++ ['\n'] := by
      rw [List.intercalate_cons_of_ne_nil hls]
      simp
    rw [hwhole]
    exact stripBy_borders (by simp) hborder hbare

/-! ### The lines of any item -/

/-- The line begins with `n` spaces. -/
def IsIndented (n : Nat) (line : Text) : Prop :=
  List.replicate n ' ' <+: line

/-- Every line but the first is empty or begins with `n` spaces. -/
def Hangs (n : Nat) (t : Text) : Prop :=
  ∀ line ∈ (t.splitOn '\n').tail, line ≠ [] → IsIndented n line

theorem IsIndented.mono {m n : Nat} (h : IsIndented n line) (hle : m ≤ n) : IsIndented m line := by
  obtain ⟨k, rfl⟩ := Nat.exists_eq_add_of_le hle
  rw [IsIndented, List.replicate_add] at h
  exact (List.prefix_append _ _).trans h

theorem isIndented_continuationLine (hne : continuationLine line ≠ []) :
    IsIndented 4 (continuationLine line) := by
  unfold continuationLine at hne ⊢
  split at hne
  · exact absurd rfl hne
  · rename_i hline
    rw [if_neg hline]
    exact List.prefix_append _ _

/-- The lines of an item: the marker stands in front of the first line of its text, the others are
continuation lines, and there is a newline behind the last one. -/
theorem splitOn_listItem (hmarker : '\n' ∉ marker) (content : Text) :
    ∃ first others, (collapseNewlines (trim content)).splitOn '\n' = first :: others ∧
      (listItem marker content).splitOn '\n' =
        (marker ++ first) :: others.map continuationLine ++ [[]] := by
  obtain ⟨first, others, hsplit⟩ :=
    List.exists_cons_of_ne_nil (splitOn_newline_ne_nil (collapseNewlines (trim content)))
  have hnone : ∀ line ∈ first :: others, '\n' ∉ line := fun line hline =>
    newline_notMem_of_mem_splitOn (hsplit ▸ hline)
  have hlines : ∀ line ∈ (marker ++ first) :: others.map continuationLine, '\n' ∉ line := by
    intro line hline
    rcases List.mem_cons.mp hline with rfl | hline
    · rw [List.mem_append, not_or]
      exact ⟨hmarker, hnone first List.mem_cons_self⟩
    · obtain ⟨other, hother, rfl⟩ := List.mem_map.mp hline
      have hclean := hnone other (List.mem_cons_of_mem first hother)
      unfold continuationLine
      split
      · exact List.not_mem_nil
      · rw [List.mem_append, not_or]
        exact ⟨by decide, hclean⟩
  refine ⟨first, others, hsplit, ?_⟩
  rw [listItem_of_splitOn hsplit, ← List.append_nil (terminated _),
    splitOn_terminated_append hlines List.not_mem_nil]

/-- The lines below the first are indented by four, whatever the marker. -/
theorem hangs_listItem (hmarker : '\n' ∉ marker) (content : Text) :
    Hangs 4 (listItem marker content) := by
  obtain ⟨first, others, -, hlines⟩ := splitOn_listItem hmarker content
  intro line hline hne
  rw [hlines, List.cons_append, List.tail_cons] at hline
  rcases List.mem_append.mp hline with hline | hline
  · obtain ⟨other, -, rfl⟩ := List.mem_map.mp hline
    exact isIndented_continuationLine hne
  · exact absurd (List.mem_singleton.mp hline) hne

/-- Under a longer marker they do not hang: a line may begin with something else than a space. -/
theorem hangs_listItem_iff (hmarker : '\n' ∉ marker) {n : Nat} :
    (∀ content, Hangs n (listItem marker content)) ↔ n ≤ 4 := by
  constructor
  · intro h
    by_contra hlong
    obtain ⟨first, others, hsplit, hlines⟩ := splitOn_listItem hmarker "a\nb".toList
    have htwo : (collapseNewlines (trim "a\nb".toList)).splitOn '\n' = [['a'], ['b']] := by
      decide
    rw [htwo] at hsplit
    cases hsplit
    have hmem : continuationLine ['b'] ∈
        ((listItem marker "a\nb".toList).splitOn '\n').tail := by
      rw [hlines]
      exact List.mem_cons_self
    have hsecond := h "a\nb".toList _ hmem (by decide)
    obtain ⟨rest, hrest⟩ := hsecond.mono (Nat.lt_of_not_le hlong)
    simp [continuationLine, List.replicate] at hrest
  · intro hle content line hline hne
    exact (hangs_listItem hmarker content line hline hne).mono hle

/-! ### Markers -/

/-- A marker is the numeral, a dot, and spaces up to four characters, but always one. -/
theorem ordinalMarker_eq (n : Nat) :
    ordinalMarker n = decimal n ++ '.' ::
      List.replicate (max 4 ((decimal n).length + 2) - ((decimal n).length + 1)) ' ' := by
  rw [ordinalMarker, List.rightpad, List.length_append, List.length_singleton, List.append_assoc,
    List.singleton_append, max_comm]

theorem length_ordinalMarker (n : Nat) :
    (ordinalMarker n).length = max 4 ((decimal n).length + 2) := by
  rw [ordinalMarker, List.length_rightpad, List.length_append, List.length_singleton]
  omega

/-- A space stands between the dot and the text of the item. -/
theorem getLast?_ordinalMarker (n : Nat) : (ordinalMarker n).getLast? = some ' ' := by
  obtain ⟨m, hm⟩ : ∃ m, max 4 ((decimal n).length + 2) - ((decimal n).length + 1) = m + 1 :=
    Nat.exists_eq_succ_of_ne_zero (by omega)
  rw [ordinalMarker_eq, hm, List.replicate_succ', ← List.cons_append, ← List.append_assoc,
    List.getLast?_concat]

theorem newline_notMem_ordinalMarker (n : Nat) : '\n' ∉ ordinalMarker n := by
  intro hmem
  rw [ordinalMarker, List.rightpad] at hmem
  rcases List.mem_append.mp hmem with hmem | hmem
  · rcases List.mem_append.mp hmem with hmem | hmem
    · have hdigit := Nat.isDigit_of_mem_toDigits (b := 10) (by decide) (by decide) hmem
      cases hdigit
    · cases List.mem_singleton.mp hmem
  · cases List.eq_of_mem_replicate hmem

/-- A marker has four characters as long as its number has two digits at most. -/
theorem length_ordinalMarker_le_iff (n : Nat) : (ordinalMarker n).length ≤ 4 ↔ n < 100 := by
  have hdigits := Nat.length_toDigits_le_iff (b := 10) (n := n) (k := 2) (by decide) (by decide)
  rw [length_ordinalMarker, decimal]
  omega

/-- Item `i` has no number, or one below 100. -/
def HasShortNumber (d : Document) (i : Nat) : Prop :=
  ∀ list, d.parent? i = some list → d.hasTag "ol" list = true →
    listStart d list + itemsBefore d list i < 100

theorem length_listMarker_le_iff (d : Document) (bullet : Char) (i : Nat) :
    (listMarker d bullet i).length ≤ 4 ↔ HasShortNumber d i := by
  unfold listMarker HasShortNumber
  cases hp : d.parent? i with
  | none => simp [bulletMarker]
  | some list =>
    by_cases hol : d.hasTag "ol" list = true
    · simp only [Option.filter_some, hol, if_true, length_ordinalMarker_le_iff, Option.some.injEq,
        forall_eq', forall_const, maxOrdinal]
      omega
    · have hnone : (some list).filter (d.hasTag "ol") = none := by simp [hol]
      simp [hnone, hol, bulletMarker]

/-- Only the bullet could bring a newline into a marker. -/
theorem newline_notMem_listMarker {bullet : Char} (hbullet : bullet ≠ '\n') (d : Document)
    (i : Nat) : '\n' ∉ listMarker d bullet i := by
  rw [listMarker]
  split
  · exact newline_notMem_ordinalMarker _
  · rw [bulletMarker, List.mem_cons, not_or]
    exact ⟨Ne.symm hbullet, by decide⟩

end TreeMarkdown.Markdown
