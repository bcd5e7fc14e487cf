/-
Indented code comes back as it was.

Text in preformatted text is written as it is, with or without a code element around it, and
then indented line by line (`Flavour.content_of_isPreformatted`). Since each line has four
spaces in front, there is no blank line for tidying to take away, however many the code has.
So the lines of the Markdown without these spaces are those of the code
(`Profile.convert_indentedCode`); only the newlines at the end are gone.
-/

import TreeMarkdown.Proofs.Rules.Extension
import TreeMarkdown.Proofs.Rules.Chosen
import TreeMarkdown.Proofs.Rules.TextNodes
import TreeMarkdown.Proofs.Text.Lines

namespace TreeMarkdown

open Text Markdown

namespace Markdown

variable {t : Text}

/-- Without its last newlines, a text that is not white space is not white space either. -/
theorem strip_dropEndWhile_ne_nil (hshown : strip t ≠ []) :
    strip (dropEndWhile (· == '\n') t) ≠ [] :=
  IsKept.strip_ne_nil (.of_visible_eq (visible_dropEndWhile isSpace_of_beq_newline t).symm) hshown

theorem dropEndWhile_ne_nil (hshown : strip t ≠ []) : dropEndWhile (· == '\n') t ≠ [] :=
  fun hnil => strip_dropEndWhile_ne_nil hshown (by rw [hnil]; rfl)

theorem getLast?_dropEndWhile_ne_newline : (dropEndWhile (· == '\n') t).getLast? ≠ some '\n' :=
  fun hlast => Bool.noConfusion (last_dropEndWhile (· == '\n') t '\n' hlast)

theorem codeText?_eq (hshown : strip t ≠ []) :
    codeText? t = some (dropEndWhile (· == '\n') t) := by
  rw [codeText?, if_neg (by simpa using strip_dropEndWhile_ne_nil hshown)]

/-- Indented code stands between blank lines. -/
theorem indentedCode_of_shown (hshown : strip t ≠ []) :
    indentedCode t = some ("\n\n".toList ++
      indentLines "    ".toList (dropEndWhile (· == '\n') t) ++ "\n\n".toList) := by
  have hcode := strip_dropEndWhile_ne_nil hshown
  have hlines : indentLines "    ".toList (dropEndWhile (· == '\n') t) ≠ [] := by
    intro hnil
    exact (isKept_indentLines _ "    ".toList).strip_ne_nil hcode (by rw [hnil]; rfl)
  rw [indentedCode, codeText?_eq hshown]
  show block _ = _
  rw [block, if_neg (by simpa using hlines)]

/-- There is no block for white space alone. -/
theorem codeText?_eq_none (hblank : strip t = []) : codeText? t = none := by
  have hcode : strip (dropEndWhile (· == '\n') t) = [] := by
    rw [strip, stripBy_eq_nil_iff] at hblank ⊢
    exact fun c hc => hblank c (mem_of_mem_dropEndWhile hc)
  rw [codeText?, hcode]
  rfl

theorem indentedCode_eq_none_iff : indentedCode t = none ↔ strip t = [] := by
  constructor
  · intro hnone
    by_contra hshown
    rw [indentedCode_of_shown hshown] at hnone
    cases hnone
  · intro hblank
    rw [indentedCode, codeText?_eq_none hblank]
    rfl

/-- The lines of a text behind a lead. -/
theorem areLines_indent {lead code : Text} (hlead : lead ≠ []) (hnewline : '\n' ∉ lead) :
    AreLines ((code.splitOn '\n').map (lead ++ ·)) := by
  refine ⟨?_, ?_, ?_⟩
  · exact fun hnil => splitOn_newline_ne_nil code (List.map_eq_nil_iff.mp hnil)
  · intro line hline hnil
    obtain ⟨l, -, rfl⟩ := List.mem_map.mp hline
    exact hlead (List.append_eq_nil_iff.mp hnil).1
  · intro line hline hmem
    obtain ⟨l, hl, rfl⟩ := List.mem_map.mp hline
    rcases List.mem_append.mp hmem with hmem | hmem
    · exact hnewline hmem
    · exact newline_notMem_of_mem_splitOn hl hmem

/-- What indented code is written as: its lines with four spaces in front, between blank
lines. -/
theorem indentedCode_eq (hreturn : '\r' ∉ t) (hshown : strip t ≠ []) :
    indentedCode t = some ("\n\n".toList ++
      ['\n'].intercalate
        (((dropEndWhile (· == '\n') t).splitOn '\n').map ("    ".toList ++ ·)) ++
      "\n\n".toList) := by
  have hreturn' : '\r' ∉ dropEndWhile (· == '\n') t := fun hmem =>
    hreturn (mem_of_mem_dropEndWhile hmem)
  rw [indentedCode_of_shown hshown, indentLines,
    lines_eq_splitOn hreturn' (dropEndWhile_ne_nil hshown) getLast?_dropEndWhile_ne_newline]

end Markdown

/-! ### Preformatted text -/

namespace Document

/-- The document is preformatted text with nothing but the text `t` in it, or with nothing but
a code element that has nothing but this text in it. -/
inductive IsPreformatted (d : Document) (t : Text) : Prop where
  | text {p x : Nat} (hroot : d.children root = [p]) (hp : d.isNamed p "PRE".toList = true)
      (hchildren : d.children p = [x]) (hx : d.isText x = true) (hvalue : d.value? x = some t)
  | code {p c x : Nat} (hroot : d.children root = [p]) (hp : d.isNamed p "PRE".toList = true)
      (hchildren : d.children p = [c]) (hc : d.isNamed c "CODE".toList = true)
      (hbelow : d.children c = [x]) (hx : d.isText x = true) (hvalue : d.value? x = some t)

/-- The document is preformatted text with nothing but the code element `c` in it, which has
nothing but the text `t` in it. -/
inductive IsCodeBlock (d : Document) (c : Nat) (t : Text) : Prop where
  | intro {p x : Nat} (hroot : d.children root = [p]) (hp : d.isNamed p "PRE".toList = true)
      (hchildren : d.children p = [c]) (hc : d.isNamed c "CODE".toList = true)
      (hbelow : d.children c = [x]) (hx : d.isText x = true) (hvalue : d.value? x = some t)

variable {d : Document} {c p q : Nat} {t : Text}

/-- The code element stands below preformatted text. -/
theorem IsCodeBlock.exists_pre (h : d.IsCodeBlock c t) :
    d.isNamed c "CODE".toList = true ∧
      ∃ p ∈ d.innerAncestors c, d.isNamed p "PRE".toList = true := by
  obtain @⟨p, x, hroot, hp, hchildren, hc, -, -, -⟩ := h
  have hinner : d.innerAncestors c = [p] :=
    innerAncestors_of_grandchild (by rw [hroot]; simp) (by rw [hchildren]; simp)
  exact ⟨hc, p, by rw [hinner]; simp, hp⟩

theorem elementChildren_of_isText {x : Nat} (hchildren : d.children p = [x])
    (hx : d.isText x = true) : d.elementChildren p = [] := by
  rw [elementChildren, hchildren, List.filter_singleton, isElement_eq_false_of_isText hx]
  rfl

/-- Preformatted text is left to the code in it if one of its children is a code element. -/
theorem holdsCode_iff :
    holdsCode d p = true ↔ ∃ c ∈ d.children p, d.isNamed c "CODE".toList = true := by
  rw [holdsCode, elementChildren, List.any_filter, ← List.any_eq_true]
  have hname : ∀ c, (d.isElement c && d.hasTag "code" c) = d.isNamed c "CODE".toList :=
    d.isElement_and_hasTag (by decide) (by decide) (by decide) (by decide)
  simp only [hname]

end Document

namespace Flavour

open Document

variable {flavour : Flavour} {o : Options} {d : Document} {R : Nat → Text} {t : Text}
  {c p x : Nat}

theorem places_code (flavour : Flavour) :
    flavour.hasChain ["PRE".toList] = true ∧ flavour.places "PRE".toList 1 = [10] ∧
      flavour.hasChain ["PRE".toList, "CODE".toList] = true := by
  rw [hasChain_eq, hasChain_eq, places_eq]
  cases flavour <;> decide

theorem places_codeBlock : commonMark.places "CODE".toList 2 = [9] := by
  rw [places_eq]
  decide

theorem entries_code (flavour : Flavour) (o : Options) :
    (flavour.entries o)[10]? = some ("PRE".toList, CommonMark.preformatted) ∧
      (flavour.entries o)[9]? = some ("PRE CODE".toList, CommonMark.codeBlock o) := by
  cases flavour <;> exact ⟨rfl, rfl⟩

/-- A text node in preformatted text is written as it is. -/
theorem write_rawText (hd : d.Reachable) (hR : (flavour.renderer o).Writes d R)
    (hx : d.isText x = true) (hvalue : d.value? x = some t) (hp : p ∈ d.innerAncestors x)
    (hpre : d.isNamed p "PRE".toList = true) : R x = t := by
  have hraw : d.isRaw x = true := List.any_eq_true.mpr ⟨p, hp, by rw [hpre, Bool.true_or]⟩
  rw [write_text hd hR hx, if_pos hraw, ← value?_getD, hvalue]
  rfl

/-- Preformatted text is written as indented code, unless there is a code element in it. -/
theorem write_preformatted (hR : (flavour.renderer o).Writes d R)
    (hp : d.isNamed p "PRE".toList = true) :
    R p = ((if holdsCode d p then none else indentedCode ((d.children p).flatMap R)).filter
      (!·.isEmpty)).getD ((d.children p).flatMap R) := by
  obtain ⟨hchain, hplaces, -⟩ := places_code flavour
  exact hR.eq_of_convert rfl (convert_of_name hchain hplaces (entries_code flavour o).1 hp _)

/-- Preformatted text without elements in it is written as indented code. -/
theorem write_preformatted_of_text (hd : d.Reachable) (hR : (flavour.renderer o).Writes d R)
    (hp : d.isNamed p "PRE".toList = true) (hchildren : d.children p = [x])
    (hx : d.isText x = true) (hvalue : d.value? x = some t) {out : Text}
    (hout : indentedCode t = some out) (hne : out ≠ []) : R p = out := by
  have hparent : d.parent? x = some p := parent_of_mem_children (by rw [hchildren]; simp)
  have hinner : p ∈ d.innerAncestors x := by
    rw [innerAncestors_of_parent hparent (ne_root_of_isNamed hp)]
    exact List.mem_cons_self
  have hpre := write_preformatted hR hp
  rw [hchildren, List.flatMap_singleton, write_rawText hd hR hx hvalue hinner hp, holdsCode,
    elementChildren_of_isText hchildren hx] at hpre
  rw [hpre]
  show ((indentedCode t).filter (!·.isEmpty)).getD t = out
  rw [hout, Option.filter_some, if_pos (by simpa using hne), Option.getD_some]

/-- Code in preformatted text is written as indented code, if that is the style. -/
theorem convert_indented (ho : o.codeBlockStyle = .indented)
    (hc : d.isNamed c "CODE".toList = true) (hmem : p ∈ d.innerAncestors c)
    (hp : d.isNamed p "PRE".toList = true) {content out : Text}
    (hout : indentedCode content = some out) (hne : out ≠ []) :
    (commonMark.renderer o).convert d c content = .ok out := by
  obtain ⟨-, -, hchain⟩ := places_code commonMark
  rw [convert_of_pair hchain places_codeBlock (entries_code commonMark o).2 hc hmem hp]
  exact writtenBy_total (by simpa only [ho] using hout) hne

/-- A document that is code as a block is written as the code is. -/
theorem content_of_isCodeBlock (hd : d.Reachable) (hR : (flavour.renderer o).Writes d R)
    {out : Text} (hout : (flavour.renderer o).convert d c t = .ok out) (h : d.IsCodeBlock c t) :
    (d.children root).flatMap R = out := by
  obtain @⟨p, x, hroot, hp, hchildren, hc, hbelow, hx, hvalue⟩ := h
  have hchild : c ∈ d.children p := by rw [hchildren]; simp
  have hgrandchild : x ∈ d.children c := by rw [hbelow]; simp
  have hinner : d.innerAncestors x = [c, p] := by
    rw [innerAncestors_of_parent (parent_of_mem_children hgrandchild)
      (ne_root_of_mem_children hchild),
      innerAncestors_of_grandchild (by rw [hroot]; simp) hchild]
  have htext := write_rawText hd hR hx hvalue (by rw [hinner]; simp) hp
  have hcode := hR c
  rw [hbelow, List.flatMap_singleton, htext, hout] at hcode
  -- preformatted text leaves it to the code in it
  have hpre := write_preformatted hR hp
  rw [hchildren, List.flatMap_singleton, ← Except.ok.inj hcode,
    holdsCode_iff.mpr ⟨c, by rw [hchildren]; simp, hc⟩] at hpre
  rw [hroot, List.flatMap_singleton, hpre]
  rfl

/-- Preformatted text is written as indented code, with or without a code element. -/
theorem content_of_isPreformatted (hd : d.Reachable) (ho : o.codeBlockStyle = .indented)
    (hR : (commonMark.renderer o).Writes d R)
    {out : Text} (hout : indentedCode t = some out) (hne : out ≠ []) (h : d.IsPreformatted t) :
    (d.children root).flatMap R = out := by
  cases h with
  | @text p x hroot hp hchildren hx hvalue =>
    rw [hroot, List.flatMap_singleton]
    exact write_preformatted_of_text hd hR hp hchildren hx hvalue hout hne
  | @code p c x hroot hp hchildren hc hbelow hx hvalue =>
    have hblock : d.IsCodeBlock c t := .intro hroot hp hchildren hc hbelow hx hvalue
    obtain ⟨-, q, hmem, hq⟩ := hblock.exists_pre
    exact content_of_isCodeBlock hd hR (convert_indented ho hc hmem hq hout hne) hblock

end Flavour

/-- Indented code is lossless. Whatever the text in preformatted text is, with or without a code
element around it, as long as it has no carriage return and is not all white space: every line
of the Markdown has four spaces in front, and without these the Markdown is the text itself, up
to the newlines at the end of the text. -/
theorem Profile.convert_indentedCode (o : Options) (ho : o.codeBlockStyle = .indented)
    (d : Document) (hd : d.Reachable) (t : Text) (h : d.IsPreformatted t) (hreturn : '\r' ∉ t)
    (hshown : strip t ≠ []) :
    ∃ markdown, (Profile.ofFlavour .commonMark o).convert d = .ok markdown ∧
      (∀ line ∈ markdown.splitOn '\n', "    ".toList <+: line) ∧
      ['\n'].intercalate ((markdown.splitOn '\n').map (List.drop 4)) =
        dropEndWhile (· == '\n') t := by
  obtain ⟨R, hR⟩ := (Flavour.commonMark.neverFails o d).exists_render
  have hout := indentedCode_eq hreturn hshown
  have hlines : AreLines (((dropEndWhile (· == '\n') t).splitOn '\n').map ("    ".toList ++ ·)) :=
    areLines_indent (by decide) (by decide)
  have hcontent := Flavour.content_of_isPreformatted hd ho (fun i => (hR i).2) hout (by simp) h
  refine ⟨['\n'].intercalate
    (((dropEndWhile (· == '\n') t).splitOn '\n').map ("    ".toList ++ ·)), ?_, ?_, ?_⟩
  · rw [Profile.convert_ofFlavour, Renderer.convertDocument_of_render fun i => (hR i).1, hcontent,
      tidy_block hlines.isBare_newline hlines.collapseNewlines_intercalate]
  · rw [hlines.splitOn_eq]
    intro line hline
    obtain ⟨l, -, rfl⟩ := List.mem_map.mp hline
    exact List.prefix_append _ l
  · have hdrop : List.drop 4 ∘ ("    ".toList ++ ·) = (id : Text → Text) := by
      funext line
      rfl
    rw [hlines.splitOn_eq, List.map_map, hdrop, List.map_id, List.intercalate_splitOn]

/-- Code with blank lines at its beginning, inside and at its end. -/
def spacedCode : Text :=
  "\n\n  a *b*  \n\n\n\n#\n\n".toList

/-- Preformatted text. -/
def spacedPre : Document :=
  Document.grown [(0, .element "pre".toList []), (1, .text spacedCode)]

/-- Preformatted text with a code element. -/
def spacedPreCode : Document :=
  Document.grown
    [(0, .element "pre".toList []), (1, .element "code".toList []), (2, .text spacedCode)]

theorem Profile.convert_indentedCode_spacedCode :
    (∃ markdown, (Profile.ofFlavour .commonMark {}).convert spacedPre = .ok markdown ∧
      ['\n'].intercalate ((markdown.splitOn '\n').map (List.drop 4)) =
        "\n\n  a *b*  \n\n\n\n#".toList) ∧
      ∃ markdown, (Profile.ofFlavour .commonMark {}).convert spacedPreCode = .ok markdown ∧
        ['\n'].intercalate ((markdown.splitOn '\n').map (List.drop 4)) =
          "\n\n  a *b*  \n\n\n\n#".toList := by
  have hpre : spacedPre.IsPreformatted spacedCode :=
    .text (p := 1) (x := 2) (by decide +kernel) (by decide +kernel) (by decide +kernel)
      (by decide +kernel) (by decide +kernel)
  have hcode : spacedPreCode.IsPreformatted spacedCode :=
    .code (p := 1) (c := 2) (x := 3) (by decide +kernel) (by decide +kernel) (by decide +kernel)
      (by decide +kernel) (by decide +kernel) (by decide +kernel) (by decide +kernel)
  have hshown : strip spacedCode ≠ [] := by decide +kernel
  obtain ⟨markdown, hmarkdown, -, hback⟩ := Profile.convert_indentedCode {} rfl spacedPre
    (Document.reachable_grown _) spacedCode hpre (by decide) hshown
  obtain ⟨markdown', hmarkdown', -, hback'⟩ := Profile.convert_indentedCode {} rfl spacedPreCode
    (Document.reachable_grown _) spacedCode hcode (by decide) hshown
  have htrimmed : dropEndWhile (· == '\n') spacedCode = "\n\n  a *b*  \n\n\n\n#".toList := by
    decide +kernel
  rw [htrimmed] at hback hback'
  exact ⟨⟨markdown, hmarkdown, hback⟩, markdown', hmarkdown', hback'⟩

end TreeMarkdown
