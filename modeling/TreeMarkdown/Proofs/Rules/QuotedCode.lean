/-
Code in block quotes.

Preformatted text is its lines with four spaces in front, between blank lines. A block quote
trims all that stands in it before it marks the lines, and the four spaces are white space like
any other. Where something to be seen stands above the code, trimming ends there, and all lines
of the code are marked as they are. Where there is nothing above, the code itself is trimmed: its
blank lines at the beginning are missing, and the first line that shows something has neither the
four spaces nor its own indentation. At the end of the quote, blank lines and the spaces behind
the last line that shows something are missing in the same way (`Profile.convert_quotedCode`).
-/

import TreeMarkdown.Proofs.Rules.IndentedCode
import TreeMarkdown.Proofs.Rules.QuotedDocument
import TreeMarkdown.Proofs.Text.Clipping

namespace TreeMarkdown

open Text Markdown

namespace Markdown

variable {t : Text}

/-- The lines of indented code. -/
def codeLines (t : Text) : List Text :=
  ((dropEndWhile (· == '\n') t).splitOn '\n').map ("    ".toList ++ ·)

theorem areLines_codeLines (t : Text) : AreLines (codeLines t) :=
  areLines_indent (by decide) (by decide)

theorem return_notMem_codeLines (hreturn : '\r' ∉ t) : ∀ line ∈ codeLines t, '\r' ∉ line := by
  intro line hline hmem
  obtain ⟨l, hl, rfl⟩ := List.mem_map.mp hline
  rcases List.mem_append.mp hmem with hmem | hmem
  · simp at hmem
  · exact hreturn (mem_of_mem_dropEndWhile ((mem_iff_exists_line (by decide)).mpr ⟨l, hl, hmem⟩))

/-- Some line of the code has more than white space, if the text has. -/
theorem any_isFilled_codeLines (hshown : strip t ≠ []) : (codeLines t).any isFilled = true := by
  have hvisible : ∃ c ∈ dropEndWhile (· == '\n') t, isWhite c = false := by
    have hcode := strip_dropEndWhile_ne_nil hshown
    rw [strip, ne_eq, stripBy_eq_nil_iff] at hcode
    simpa using hcode
  obtain ⟨c, hmem, hwhite⟩ := hvisible
  have hspace : isSpace c = false := by
    cases hc : isSpace c with
    | false => rfl
    | true => exact absurd (isWhite_of_isSpace hc) (by simp [hwhite])
  have hnewline : c ≠ '\n' := by
    rintro rfl
    cases hspace
  obtain ⟨line, hline, hmem⟩ := (mem_iff_exists_line hnewline).mp hmem
  exact List.any_eq_true.mpr ⟨_, List.mem_map_of_mem hline,
    isFilled_iff.mpr ⟨c, List.mem_append_right _ hmem, hspace⟩⟩

/-- Code begins with white space: the first of the four spaces. -/
theorem isSpaceEdge_head?_codeLines (t : Text) :
    isSpaceEdge (['\n'].intercalate (codeLines t)).head? = true := by
  obtain ⟨first, rest, hlines⟩ := List.exists_cons_of_ne_nil
    (splitOn_newline_ne_nil (dropEndWhile (· == '\n') t))
  rw [codeLines, hlines, List.map_cons, head?_intercalate _ (by simp)]
  rfl

/-- The last line of the code ends as the text does, without the newlines there. -/
theorem getLast?_codeLines (hshown : strip t ≠ []) :
    (['\n'].intercalate (codeLines t)).getLast? = (dropEndWhile (· == '\n') t).getLast? := by
  obtain ⟨init, last, hlines, hne, hend⟩ :=
    exists_last_line (dropEndWhile_ne_nil hshown) getLast?_dropEndWhile_ne_newline
  rw [codeLines, hlines, List.map_append, List.map_singleton,
    getLast?_intercalate_concat (by simp), List.getLast?_append_of_ne_nil _ hne, hend]

end Markdown

/-! ### Code among the children of a block quote -/

namespace Document

/-- The document is a block quote. Among its children, behind the nodes `before` and in front of
the nodes `after`, there is preformatted text with nothing but the text `t` in it. -/
inductive HoldsQuotedCode (d : Document) (t : Text) (before after : List Nat) : Prop where
  | intro {q p x : Nat} (hroot : d.children root = [q])
      (hq : d.isNamed q "BLOCKQUOTE".toList = true)
      (hquoted : d.children q = before ++ p :: after) (hp : d.isNamed p "PRE".toList = true)
      (hchildren : d.children p = [x]) (hx : d.isText x = true) (hvalue : d.value? x = some t)

end Document

namespace Flavour

open Document

variable {flavour : Flavour} {o : Options} {d : Document} {R : Nat → Text} {t : Text}
  {p q x : Nat}

/-- A block quote in which something is to be seen is the quoted lines of what stands in it. -/
theorem write_blockquote (hR : (flavour.renderer o).Writes d R)
    (hq : d.isNamed q "BLOCKQUOTE".toList = true)
    (hne : collapseNewlines (trim ((d.children q).flatMap R)) ≠ []) :
    R q = "\n\n".toList ++ quotedText (collapseNewlines (trim ((d.children q).flatMap R))) ++
      "\n\n".toList :=
  hR.eq_of_convert rfl (convert_blockquote flavour o hq hne rfl)

end Flavour

/-- Code in a block quote is marked line by line, but what stands around it decides whether its
lines are all there. Let `R` be the Markdown of the nodes. If something above the preformatted
text is to be seen, and something below it, then the lines between are the lines of the code with
four spaces in front. Otherwise the code is clipped at that end, and its lines are all there only
if there was no white space to clip, which at the beginning there always is: the four spaces. -/
theorem Profile.convert_quotedCode (flavour : Flavour) (o : Options) (d : Document)
    (hd : d.Reachable) (t : Text) (before after : List Nat) (h : d.HoldsQuotedCode t before after)
    (hreturn : '\r' ∉ t) (hshown : strip t ≠ []) :
    ∃ R : Nat → Text,
      (∀ i, (flavour.renderer o).convert d i ((d.children i).flatMap R) = .ok (R i)) ∧
      ∃ markdown, (Profile.ofFlavour flavour o).convert d = .ok markdown ∧
        ∃ above below,
          markdown.splitOn '\n' = above.map quoteLine ++
            (clipped (isFilled (before.flatMap R)) (isFilled (after.flatMap R))
              (codeLines t)).map ("> ".toList ++ ·) ++ below.map quoteLine ∧
          (above = [] ↔ isFilled (before.flatMap R) = false) ∧
          (below = [] ↔ isFilled (after.flatMap R) = false) ∧
          (clipped (isFilled (before.flatMap R)) (isFilled (after.flatMap R)) (codeLines t) =
              codeLines t ↔
            above ≠ [] ∧
              (below ≠ [] ∨ isSpaceEdge (dropEndWhile (· == '\n') t).getLast? = false)) := by
  obtain @⟨q, p, x, hroot, hq, hquoted, hp, hchildren, hx, hvalue⟩ := h
  obtain ⟨R, hR⟩ := (flavour.neverFails o d).exists_render
  have hwrites : (flavour.renderer o).Writes d R := fun i => (hR i).2
  have hcode := areLines_codeLines t
  have hfilled := any_isFilled_codeLines hshown
  obtain ⟨above, below, hlines, habove, hbelow⟩ := exists_lines_around hcode hfilled
    (return_notMem_codeLines hreturn) (before.flatMap R) (after.flatMap R)
  have hcontent : (d.children q).flatMap R = before.flatMap R ++
      ("\n\n".toList ++ ['\n'].intercalate (codeLines t) ++ "\n\n".toList) ++
        after.flatMap R := by
    rw [hquoted, List.flatMap_append, List.flatMap_cons, ← List.append_assoc]
    rw [Flavour.write_preformatted_of_text hd hwrites hp hchildren hx hvalue
      (indentedCode_eq hreturn hshown) (by simp)]
    rfl
  have hclipped := hcode.clipped hfilled (isFilled (before.flatMap R)) (isFilled (after.flatMap R))
  rw [← hcontent] at hlines
  have hne : collapseNewlines (trim ((d.children q).flatMap R)) ≠ [] := by
    intro hnil
    rw [hnil, lines, eq_comm] at hlines
    exact hclipped.ne_nil (List.append_eq_nil_iff.mp (List.append_eq_nil_iff.mp hlines).1).2
  have hmarks : (clipped (isFilled (before.flatMap R)) (isFilled (after.flatMap R))
      (codeLines t)).map quoteLine = (clipped (isFilled (before.flatMap R))
        (isFilled (after.flatMap R)) (codeLines t)).map ("> ".toList ++ ·) := by
    refine List.map_congr_left fun line hline => ?_
    obtain ⟨c, l, rfl⟩ := List.exists_cons_of_ne_nil (hclipped.line_ne_nil line hline)
    rfl
  refine ⟨R, hwrites, quotedText (collapseNewlines (trim ((d.children q).flatMap R))), ?_, above,
    below, ?_, habove, hbelow, ?_⟩
  · rw [Profile.convert_ofFlavour, Renderer.convertDocument_of_render fun i => (hR i).1, hroot,
      List.flatMap_singleton, Flavour.write_blockquote hwrites hq hne, tidy_quotedText hne]
  · rw [quotedText, (areLines_quoteLine hne).splitOn_eq, hlines, List.map_append, List.map_append,
      hmarks]
  · rw [clipped_eq_iff hcode hfilled (isSpaceEdge_head?_codeLines t), getLast?_codeLines hshown, ne_eq, habove,
      ne_eq, hbelow, Bool.not_eq_false, Bool.not_eq_false]

/-- Text in a block quote, then code with a blank line and white space at its ends, then nothing
to be seen. -/
def quotedCodeBelow : Document :=
  Document.grown
    [(0, .element "blockquote".toList []), (1, .text "b".toList), (1, .element "pre".toList []),
     (3, .text "\n  a  \n\n".toList), (1, .text " ".toList)]

theorem Profile.convert_quotedCode_below :
    ∃ markdown, (Profile.ofFlavour .commonMark {}).convert quotedCodeBelow = .ok markdown ∧
      ∃ above, above ≠ [] ∧ markdown.splitOn '\n' =
        above.map quoteLine ++ [">     ".toList, ">       a".toList] := by
  have hcode : quotedCodeBelow.HoldsQuotedCode "\n  a  \n\n".toList [2] [5] :=
    .intro (q := 1) (p := 3) (x := 4) (by decide +kernel) (by decide +kernel) (by decide +kernel)
      (by decide +kernel) (by decide +kernel) (by decide +kernel) (by decide +kernel)
  obtain ⟨R, hR, markdown, hconvert, above, below, hlines, habove, hbelow, -⟩ :=
    Profile.convert_quotedCode .commonMark {} quotedCodeBelow (Document.reachable_grown _) _ _ _
      hcode (by decide) (by decide +kernel)
  have hwrites : (Flavour.commonMark.renderer {}).Writes quotedCodeBelow R := hR
  have hleaf : quotedCodeBelow.children 2 = [] ∧ quotedCodeBelow.children 5 = [] := by
    decide +kernel
  have htext : R 2 = "b".toList :=
    hwrites.eq_of_convert (by rw [hleaf.1, List.flatMap_nil]) (by decide +kernel)
  have hblank : R 5 = [] :=
    hwrites.eq_of_convert (by rw [hleaf.2, List.flatMap_nil]) (by decide +kernel)
  rw [List.flatMap_singleton, htext] at habove hlines
  rw [List.flatMap_singleton, hblank] at hbelow hlines
  rw [hbelow.mpr (by decide), List.map_nil, List.append_nil] at hlines
  refine ⟨markdown, hconvert, above, fun hnil => ?_, ?_⟩
  · cases habove.mp hnil
  · rw [hlines]
    exact congrArg (above.map quoteLine ++ ·) (by decide +kernel)

/-- Preformatted text with nothing but itself in the block quote. -/
def quotedCodeAlone : Document :=
  Document.grown
    [(0, .element "blockquote".toList []), (1, .element "pre".toList []), (2, .text "a".toList)]

/-- The first line of the quote has not the four spaces that make it code. -/
theorem Profile.quotedCodeAlone_unindented :
    quotedCodeAlone.HoldsQuotedCode "a".toList [] [] ∧ '\r' ∉ "a".toList ∧
      strip "a".toList ≠ [] ∧
      (Profile.ofFlavour .commonMark {}).convert quotedCodeAlone = .ok "> a".toList ∧
      "> a".toList.splitOn '\n' ≠ (codeLines "a".toList).map ("> ".toList ++ ·) := by
  refine ⟨.intro (q := 1) (p := 2) (x := 3) ?_ ?_ ?_ ?_ ?_ ?_ ?_, ?_, ?_, ?_, ?_⟩ <;>
    decide +kernel

end TreeMarkdown
