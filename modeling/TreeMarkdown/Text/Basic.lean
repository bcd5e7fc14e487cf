/-
Text as a list of characters, and the few ways of cutting it that are not already in
the list library.

`stripBy` removes characters of a class from both ends, and `lines` reads text as
lines. Text is taken apart at separators with `List.splitOnP` and put together with
`List.intercalate`; `splitOnP_intercalate` says when the one undoes the other.
-/

namespace TreeMarkdown

/-- Text is handled one Unicode scalar value at a time. -/
abbrev Text := List Char

namespace Text

/-! ### Ends and copies -/

/-- Drops the longest ending whose characters all satisfy `p`. -/
def dropEndWhile (p : Char → Bool) (t : Text) : Text :=
  (t.reverse.dropWhile p).reverse

/-- Drops the characters of the class `p` from both ends. -/
def stripBy (p : Char → Bool) (t : Text) : Text :=
  dropEndWhile p (t.dropWhile p)

/-- Drops newlines from both ends. -/
def stripNewlines (t : Text) : Text :=
  stripBy (· == '\n') t

/-- `n` copies of `t` in a row. -/
def repeated (n : Nat) (t : Text) : Text :=
  (List.replicate n t).flatten

/-! ### Lines -/

/-- The lines of a text. A newline ends a line, together with one carriage
return right before it; what follows the last newline is a line unless it is
empty. -/
def lines : Text → List Text
  | [] => []
  | '\n' :: t => [] :: lines t
  | '\r' :: '\n' :: t => [] :: lines t
  | c :: t =>
    match lines t with
    | [] => [[c]]
    | line :: rest => (c :: line) :: rest

/-- Puts `lead` in front of every line. -/
def indentLines (lead : Text) (t : Text) : Text :=
  ['\n'].intercalate ((lines t).map (lead ++ ·))

/-! ### Pieces between separators -/

/-- No piece holds a separator. -/
theorem eq_false_of_mem_splitOnP {p : Char → Bool} {t piece : Text} {c : Char}
    (hpiece : piece ∈ t.splitOnP p) (hc : c ∈ piece) : p c = false := by
  induction t generalizing piece with
  | nil =>
    rw [List.splitOnP_nil, List.mem_singleton] at hpiece
    simp [hpiece] at hc
  | cons a t ih =>
    rw [List.splitOnP_cons_eq_if_modifyHead] at hpiece
    split at hpiece
    · rcases List.mem_cons.mp hpiece with rfl | hpiece
      · simp at hc
      · exact ih hpiece hc
    · rename_i ha
      obtain ⟨first, others, hsplit⟩ := List.exists_cons_of_ne_nil (List.splitOnP_ne_nil p t)
      rw [hsplit, List.modifyHead_cons] at hpiece
      rcases List.mem_cons.mp hpiece with rfl | hpiece
      · rcases List.mem_cons.mp hc with rfl | hc
        · simpa using ha
        · exact ih (by simp [hsplit]) hc
      · exact ih (by simp [hsplit, hpiece]) hc

/-- Splitting undoes joining with a separator, if no piece holds one. -/
theorem splitOnP_intercalate {p : Char → Bool} {separator : Char} {pieces : List Text}
    (hseparator : p separator = true) (hne : pieces ≠ [])
    (h : ∀ piece ∈ pieces, ∀ c ∈ piece, p c = false) :
    ([separator].intercalate pieces).splitOnP p = pieces := by
  induction pieces with
  | nil => exact absurd rfl hne
  | cons piece pieces ih =>
    have hpiece := h piece List.mem_cons_self
    cases pieces with
    | nil => simpa [List.intercalate] using List.splitOnP_eq_singleton hpiece
    | cons next others =>
      have hjoin : [separator].intercalate (piece :: next :: others) =
          piece ++ separator :: [separator].intercalate (next :: others) := by
        simp [List.intercalate, List.intersperse]
      rw [hjoin, List.splitOnP_append_cons_of_forall_mem hpiece separator hseparator,
        ih (by simp) fun q hq => h q (List.mem_cons_of_mem piece hq)]

end Text

end TreeMarkdown
