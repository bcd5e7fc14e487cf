/-
Fenced code, and when it comes back as it was.

Code in preformatted text is written between two fences, in GitHub flavour always and in
CommonMark if that is the style (`Flavour.convert_fenced`). Unlike indented code it has
nothing in front of its lines. So tidying takes blank lines away where several stand in a row,
and a line that is the fence alone ends the code: what is read between the fences is the text,
up to the newlines at its end, exactly if the text has neither (`Profile.convert_fencedCode`).
-/

import TreeMarkdown.Proofs.Markdown.Fencing
import TreeMarkdown.Proofs.Rules.IndentedCode

namespace TreeMarkdown

open Text Markdown

/-- What fenced code is written as, with a newline behind each line of the code. -/
theorem Markdown.fencedCode_eq (fence language : Text) {t : Text} (hshown : strip t ≠ []) :
    fencedCode fence language t = some ("\n\n".toList ++
      (fence ++ language ++ '\n' ::
        (terminated ((dropEndWhile (· == '\n') t).splitOn '\n') ++ fence)) ++
      "\n\n".toList) := by
  rw [fencedCode, codeText?_eq hshown, terminated_eq (splitOn_newline_ne_nil _),
    List.intercalate_splitOn]
  show block _ = _
  rw [block, if_neg (by simp)]
  simp

namespace Flavour

open Document

variable {flavour : Flavour} {o : Options} {d : Document} {c p : Nat}

/-- Code in preformatted text is written between fences. -/
def FencesCode (o : Options) (flavour : Flavour) : Prop :=
  flavour = .gitHub ∨ o.codeBlockStyle = .fenced

/-- The language that is written behind the first fence. -/
def language (d : Document) (c : Nat) : Flavour → Text
  | .commonMark => codeLanguage d c
  | .gitHub => inheritedLanguage d c

theorem places_fencedCode : gitHub.places "CODE".toList 2 = [9, 18] := by
  rw [places_eq]
  decide

theorem specificity_of_codeBlock :
    ∀ s ∈ Selector.parseList "PRE CODE".toList, s.specificity = 2 := by
  decide

/-- Code in preformatted text is written as fenced code. -/
theorem convert_fenced (hflavour : flavour.FencesCode o)
    (hc : d.isNamed c "CODE".toList = true) (hmem : p ∈ d.innerAncestors c)
    (hp : d.isNamed p "PRE".toList = true) {content out : Text}
    (hout : fencedCode o.fence (flavour.language d c) content = some out) (hne : out ≠ []) :
    (flavour.renderer o).convert d c content = .ok out := by
  obtain ⟨-, -, hchain⟩ := places_code flavour
  cases flavour with
  | commonMark =>
    have ho : o.codeBlockStyle = .fenced := hflavour.resolve_left (by decide)
    rw [convert_of_pair hchain places_codeBlock (entries_code commonMark o).2 hc hmem hp]
    exact writtenBy_total (by simpa only [ho, language] using hout) hne
  | gitHub =>
    have hentry : (gitHub.entries o)[18]? = some ("PRE CODE".toList, GitHub.codeBlock o) := rfl
    rw [convert_of_overwritten hchain places_fencedCode (by decide) (entries_code gitHub o).2
      hentry specificity_of_codeBlock hc hmem hp]
    exact writtenBy_total hout hne

end Flavour

/-! ### Reading it back -/

/-- Fenced code, whatever the text in it is, as long as it is not all white space. Between the
fences stand the lines of the text up to its last newlines, but of blank lines in a row only the
first. A reader who takes the first line that is the fence alone for the end of the code finds
the lines of the text, with nothing behind, exactly if none of them is the fence and no two in a
row are blank. -/
theorem Profile.convert_fencedCode (flavour : Flavour) (o : Options)
    (hflavour : flavour.FencesCode o) (hfence : o.fence ≠ []) (hline : '\n' ∉ o.fence)
    (d : Document) (hd : d.Reachable) (c : Nat) (t : Text) (h : d.IsCodeBlock c t)
    (hshown : strip t ≠ []) (hlanguage : '\n' ∉ flavour.language d c) :
    ∃ markdown, (Profile.ofFlavour flavour o).convert d = .ok markdown ∧
      markdown.splitOn '\n' = (o.fence ++ flavour.language d c) ::
        (singleBlanks false ((dropEndWhile (· == '\n') t).splitOn '\n') ++ [o.fence]) ∧
      (readFenced o.fence markdown = some ((dropEndWhile (· == '\n') t).splitOn '\n', []) ↔
        o.fence ∉ (dropEndWhile (· == '\n') t).splitOn '\n' ∧
          ¬ [[], []] <:+: (dropEndWhile (· == '\n') t).splitOn '\n') := by
  obtain ⟨R, hR⟩ := (flavour.neverFails o d).exists_render
  have hout := fencedCode_eq o.fence (flavour.language d c) hshown
  generalize hcode : (dropEndWhile (· == '\n') t).splitOn '\n' = code at hout ⊢
  have hcodeline : ∀ line ∈ code, '\n' ∉ line := by
    intro line hmem
    rw [← hcode] at hmem
    exact newline_notMem_of_mem_splitOn hmem
  have hopening : o.fence ++ flavour.language d c ≠ [] :=
    fun hnil => hfence (List.append_eq_nil_iff.mp hnil).1
  have hopeningline : '\n' ∉ o.fence ++ flavour.language d c :=
    fun hmem => (List.mem_append.mp hmem).elim hline hlanguage
  obtain ⟨hc, p, hmem, hp⟩ := h.exists_pre
  have hcontent := Flavour.content_of_isCodeBlock hd (fun i => (hR i).2)
    (Flavour.convert_fenced hflavour hc hmem hp hout (by simp)) h
  have hsingle : ∀ line ∈ singleBlanks false code, '\n' ∉ line :=
    fun line hmem => hcodeline line ((singleBlanks_sublist false code).subset hmem)
  have hsplit := splitOn_fenced hopeningline hline hsingle
  refine ⟨_, ?_, hsplit, readFenced_eq_iff hfence hsplit⟩
  rw [Profile.convert_ofFlavour, Renderer.convertDocument_of_render fun i => (hR i).1, hcontent,
    tidy_fenced hopening hopeningline hfence hline hcodeline]

/-- Code with this text in preformatted text. -/
def preCode (attributes : List (Text × Text)) (t : Text) : Document :=
  Document.grown
    [(0, .element "pre".toList []), (1, .element "code".toList attributes), (2, .text t)]

theorem isCodeBlock_preCode (attributes : List (Text × Text)) (t : Text) :
    (preCode attributes t).IsCodeBlock 2 t :=
  .intro (p := 1) (x := 3) (by rfl) (by rfl) (by rfl) (by rfl) (by rfl) (by rfl) (by rfl)

/-- Code with a fence inside a line and a blank line between two others. -/
def tickedCode : Text :=
  "let s = \"\x60\x60\x60\";\n\n  s\n\n".toList

/-- The class of code in Rust. -/
def rustClass : List (Text × Text) :=
  [("class".toList, "language-rust".toList)]

theorem Profile.convert_fencedCode_tickedCode :
    (∃ markdown,
      (Profile.ofFlavour .gitHub {}).convert (preCode rustClass tickedCode) = .ok markdown ∧
        readFenced "\x60\x60\x60".toList markdown =
          some (["let s = \"\x60\x60\x60\";".toList, [], "  s".toList], [])) ∧
      ∃ markdown, (Profile.ofFlavour .commonMark { codeBlockStyle := .fenced }).convert
          (preCode rustClass tickedCode) = .ok markdown ∧
        readFenced "\x60\x60\x60".toList markdown =
          some (["let s = \"\x60\x60\x60\";".toList, [], "  s".toList], []) := by
  have hcode : (dropEndWhile (· == '\n') tickedCode).splitOn '\n' =
      ["let s = \"\x60\x60\x60\";".toList, [], "  s".toList] := by decide +kernel
  have hclean : "\x60\x60\x60".toList ∉ (dropEndWhile (· == '\n') tickedCode).splitOn '\n' ∧
      ¬ [[], []] <:+: (dropEndWhile (· == '\n') tickedCode).splitOn '\n' := by decide +kernel
  have hshown : strip tickedCode ≠ [] := by decide +kernel
  obtain ⟨markdown, hmarkdown, -, hread⟩ := Profile.convert_fencedCode .gitHub {} (Or.inl rfl)
    (by decide) (by decide) (preCode rustClass tickedCode) (Document.reachable_grown _) 2
    tickedCode (isCodeBlock_preCode _ _) hshown (by decide +kernel)
  obtain ⟨markdown', hmarkdown', -, hread'⟩ := Profile.convert_fencedCode .commonMark
    { codeBlockStyle := .fenced } (Or.inr rfl) (by decide) (by decide)
    (preCode rustClass tickedCode) (Document.reachable_grown _) 2 tickedCode
    (isCodeBlock_preCode _ _) hshown (by decide +kernel)
  rw [← hcode]
  exact ⟨⟨markdown, hmarkdown, hread.mpr hclean⟩, markdown', hmarkdown', hread'.mpr hclean⟩

/-- Code with two blank lines in a row. -/
def spacedOut : Text :=
  "a\n\n\nb".toList

/-- Code with a line that is the fence. -/
def fenceInside : Text :=
  "a\n\x60\x60\x60\nb".toList

/-- Not all code comes back: one of two blank lines is lost, and a line that is the fence leaves
the rest of the code behind the block. -/
theorem Profile.convert_fencedCode_ne :
    ((preCode [] spacedOut).IsCodeBlock 2 spacedOut ∧
      ∃ markdown, (Profile.ofFlavour .gitHub {}).convert (preCode [] spacedOut) = .ok markdown ∧
        readFenced "\x60\x60\x60".toList markdown =
          some (["a".toList, [], "b".toList], []) ∧
        readFenced "\x60\x60\x60".toList markdown ≠ some (spacedOut.splitOn '\n', [])) ∧
    (preCode [] fenceInside).IsCodeBlock 2 fenceInside ∧
      ∃ markdown, (Profile.ofFlavour .gitHub {}).convert (preCode [] fenceInside) = .ok markdown ∧
        readFenced "\x60\x60\x60".toList markdown =
          some (["a".toList], ["b".toList, "\x60\x60\x60".toList]) ∧
        readFenced "\x60\x60\x60".toList markdown ≠ some (fenceInside.splitOn '\n', []) := by
  refine ⟨⟨isCodeBlock_preCode _ _, "\x60\x60\x60\na\n\nb\n\x60\x60\x60".toList, ?_, ?_, ?_⟩,
    isCodeBlock_preCode _ _,
    "\x60\x60\x60\na\n\x60\x60\x60\nb\n\x60\x60\x60".toList, ?_, ?_, ?_⟩ <;>
  decide +kernel

end TreeMarkdown
