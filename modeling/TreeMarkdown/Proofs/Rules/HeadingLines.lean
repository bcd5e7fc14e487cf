/-
How many lines a heading has.

A heading of the ATX style is marked at its beginning only, and whatever newlines are left inside
its trimmed content stay there. So the lines of the content are the lines of the heading, and
only the first of them has the marks (`headingText_eq`). A newline comes from a node that makes
lines of its own: a line break, a block, code or raw text with a newline in it, an attribute or a
delimiter with one (`Document.BreaksLine`); text in the flow and cells of a table hold none. Every
newline in the Markdown of a subtree has such a node behind it (`Flavour.exists_breaksLine`), so a
heading without such nodes is one line; and a newline between two things to be seen is never
trimmed away, so a line break between them does break the heading (`Profile.convert_headingLines`).
-/

import TreeMarkdown.Proofs.Markdown.Tabling
import TreeMarkdown.Proofs.Rules.Headings
import TreeMarkdown.Proofs.Rules.TextNodes
import TreeMarkdown.Proofs.Text.Clipping

namespace TreeMarkdown

open Text Markdown

/-! ### Nodes that make newlines -/

namespace Document

/-- The names of elements that are written as lines of their own. -/
def lineNames : List String :=
  ["BR", "P", "H1", "H2", "H3", "H4", "H5", "H6", "BLOCKQUOTE", "UL", "OL", "LI", "PRE", "HR",
   "TABLE", "TR"]

/-- Node `i` may be written with a newline that is not in what its children are written as. -/
inductive BreaksLine (o : Options) (d : Document) (i : Nat) : Prop where
  | element {name : String} (hname : name ∈ lineNames) (h : d.isNamed i name.toList = true)
  | rawText (hraw : d.isRaw i = true) (h : '\n' ∈ d.ownText i)
  | codeBlock {p : Nat} (hnamed : d.isNamed i "CODE".toList = true) (hp : p ∈ d.innerAncestors i)
      (h : d.isNamed p "PRE".toList = true)
  | code (hnamed : d.isNamed i "CODE".toList = true) (h : '\n' ∈ d.textContent i)
  | link (name : String) {value : Text} (hnamed : d.isNamed i "A".toList = true)
      (hname : name ∈ ["href", "title"]) (hvalue : d.attribute? i name.toList = some value)
      (h : '\n' ∈ value)
  | image (name : String) {value : Text} (hnamed : d.isNamed i "IMG".toList = true)
      (hname : name ∈ ["alt", "src", "title"])
      (hvalue : d.attribute? i name.toList = some value) (h : '\n' ∈ value)
  | emphasis {name : String} (hname : name ∈ ["EM", "I"])
      (hnamed : d.isNamed i name.toList = true) (h : o.emphasis = '\n')
  | strong {name : String} (hname : name ∈ ["STRONG", "B"])
      (hnamed : d.isNamed i name.toList = true) (h : '\n' ∈ o.strong)

variable {o : Options} {d : Document} {i : Nat}

/-- Text in the flow breaks no line. -/
theorem not_breaksLine_of_isText (hi : d.isText i = true) (hraw : d.isRaw i = false) :
    ¬ d.BreaksLine o i := by
  have hnames : ∀ name ∈ lineNames ++ ["CODE", "A", "IMG", "EM", "I", "STRONG", "B"],
      d.isNamed i name.toList = false := by
    have htext : ∀ name ∈ lineNames ++ ["CODE", "A", "IMG", "EM", "I", "STRONG", "B"],
        namesText name.toList = false := by
      decide
    exact fun name hname => (isNamed_of_isText hi).trans (htext name hname)
  have hnot : ∀ {name : String}, d.isNamed i name.toList = true →
      name ∉ lineNames ++ ["CODE", "A", "IMG", "EM", "I", "STRONG", "B"] :=
    fun hnamed hname => Bool.noConfusion (hnamed.symm.trans (hnames _ hname))
  rintro (⟨hname, h⟩ | ⟨hraw', -⟩ | ⟨h, -, -⟩ | ⟨h, -⟩ | ⟨-, h, -⟩ | ⟨-, h, -⟩ | ⟨hname, h, -⟩ |
    ⟨hname, h, -⟩)
  · exact hnot h (List.mem_append_left _ hname)
  · exact Bool.noConfusion (hraw'.symm.trans hraw)
  · exact hnot h (by simp)
  · exact hnot h (by simp)
  · exact hnot h (by simp)
  · exact hnot h (by simp)
  · rcases List.mem_pair.mp hname with rfl | rfl <;> exact hnot h (by simp)
  · rcases List.mem_pair.mp hname with rfl | rfl <;> exact hnot h (by simp)

end Document

namespace Markdown

variable {content : Text}

theorem mem_cleanAttribute {value : Option Text} {c : Char} (h : c ∈ cleanAttribute value) :
    ∃ t, value = some t ∧ c ∈ t := by
  cases value with
  | none => cases h
  | some t => exact ⟨t, rfl, mem_of_mem_stripBy h⟩

theorem newline_mem_reference {label target : Text} {title : Option Text}
    (h : '\n' ∈ reference label target title) :
    '\n' ∈ label ∨ '\n' ∈ target ∨ ∃ t, title = some t ∧ '\n' ∈ t := by
  cases title with
  | none => simpa [reference, titlePart] using h
  | some t => simpa [reference, titlePart] using h

theorem newline_mem_link {target out : Text} {title : Option Text}
    (hout : link target title content = some out) (h : '\n' ∈ out) :
    '\n' ∈ content ∨ '\n' ∈ target ∨ ∃ t, title = some t ∧ '\n' ∈ t := by
  unfold link at hout
  split at hout
  · cases hout
  · cases hout
    exact newline_mem_reference h

theorem newline_mem_image {label target out : Text} {title : Option Text}
    (hout : image label target title = some out) (h : '\n' ∈ out) :
    '\n' ∈ label ∨ '\n' ∈ target ∨ ∃ t, title = some t ∧ '\n' ∈ t := by
  unfold image at hout
  split at hout
  · cases hout
  · cases hout
    rcases List.mem_cons.mp h with hc | h
    · cases hc
    · exact newline_mem_reference h

theorem newline_mem_span {delimiter out : Text} (hout : span delimiter content = some out)
    (h : '\n' ∈ out) : '\n' ∈ delimiter ∨ '\n' ∈ content := by
  unfold span at hout
  split at hout
  · cases hout
    simp only [List.mem_append] at h
    tauto
  · cases hout

theorem newline_mem_codeSpan {out : Text} (hout : codeSpan content = some out) (h : '\n' ∈ out) :
    '\n' ∈ content := by
  unfold codeSpan at hout
  split at hout
  · cases hout
  · dsimp only at hout
    split at hout
    · cases hout
      simpa using h
    · cases hout
      simpa using h

theorem newline_notMem_cell : '\n' ∉ cell content := by
  simp [cell, newline_notMem_cellChar]

end Markdown

/-! ### Converters -/

/-- Where the converter is chosen under these keys, a newline that it writes is in what it is
given, or the node breaks the line. -/
def Breaks (o : Options) (keys : Text) (f : Converter) : Prop :=
  ∀ (d : Document) (i : Nat), ∀ s ∈ Selector.parseList keys, s.isMatch d i = true →
    ∀ content out, f d i content = .ok (some out) → '\n' ∈ out →
      '\n' ∈ content ∨ d.BreaksLine o i

namespace Breaks

variable {o : Options} {keys : Text} {f : Converter}

theorem of_names (h : Selector.namesOnly Document.lineNames keys = true) : Breaks o keys f := by
  intro d i s hs hmatch _ _ _ _
  obtain ⟨name, hname, hnamed⟩ := Selector.exists_name_of_isMatch h hs hmatch
  exact Or.inr (.element hname hnamed)

theorem text (keys : Text) : Breaks o keys CommonMark.text := by
  intro d i s _ _ content out hout h
  cases hout
  rcases mem_flanked h with hspace | h
  · cases hspace
  · exact absurd h (newline_notMem_flowed _)

theorem rawText : Breaks o "PRE TEXT_NODE, CODE TEXT_NODE".toList CommonMark.rawText := by
  intro d i s hs hmatch content out hout h
  have hvalue : d.value? i = some out := Except.ok.inj hout
  refine Or.inr (.rawText (Flavour.isRaw_of_isMatch hs hmatch) ?_)
  rw [← d.value?_getD, hvalue]
  exact h

/-- Code below preformatted text, in whatever way it is written. -/
theorem codeBlock : Breaks o "PRE CODE".toList f := by
  intro d i s hs hmatch _ _ _ _
  have hcontext : ∀ s ∈ Selector.parseList "PRE CODE".toList,
      s.context = ["PRE".toList] ∧ s.target = "CODE".toList := by
    decide
  obtain ⟨hpre, hcode⟩ := hcontext s hs
  obtain ⟨hnamed, p, hp, habove⟩ := (Selector.isMatch_iff_of_context_eq hpre).mp hmatch
  exact Or.inr (.codeBlock (hcode ▸ hnamed) hp habove)

theorem code (hkeys : Selector.namesOnly ["CODE"] keys = true) : Breaks o keys CommonMark.code := by
  intro d i s hs hmatch content out hout h
  obtain ⟨name, hname, hnamed⟩ := Selector.exists_name_of_isMatch hkeys hs hmatch
  rw [List.mem_singleton.mp hname] at hnamed
  exact Or.inr (.code hnamed (newline_mem_codeSpan (Except.ok.inj hout) h))

theorem link (hkeys : Selector.namesOnly ["A"] keys = true) : Breaks o keys CommonMark.link := by
  intro d i s hs hmatch content out hout h
  obtain ⟨name, hname, hnamed⟩ := Selector.exists_name_of_isMatch hkeys hs hmatch
  rw [List.mem_singleton.mp hname] at hnamed
  rcases newline_mem_link (Except.ok.inj hout) h with h | h | ⟨t, ht, h⟩
  · exact Or.inl h
  · obtain ⟨t, ht, h⟩ := mem_cleanAttribute h
    exact Or.inr (.link "href" hnamed (by simp) ht h)
  · exact Or.inr (.link "title" hnamed (by simp) ht h)

theorem image (hkeys : Selector.namesOnly ["IMG"] keys = true) : Breaks o keys CommonMark.image := by
  intro d i s hs hmatch content out hout h
  obtain ⟨name, hname, hnamed⟩ := Selector.exists_name_of_isMatch hkeys hs hmatch
  rw [List.mem_singleton.mp hname] at hnamed
  rcases newline_mem_image (Except.ok.inj hout) h with h | h | ⟨t, ht, h⟩
  · obtain ⟨t, ht, h⟩ := mem_cleanAttribute h
    exact Or.inr (.image "alt" hnamed (by simp) ht h)
  · obtain ⟨t, ht, h⟩ := mem_cleanAttribute h
    exact Or.inr (.image "src" hnamed (by simp) ht h)
  · exact Or.inr (.image "title" hnamed (by simp) ht h)

theorem emphasis (hkeys : Selector.namesOnly ["EM", "I"] keys = true) :
    Breaks o keys (CommonMark.emphasis o) := by
  intro d i s hs hmatch content out hout h
  obtain ⟨name, hname, hnamed⟩ := Selector.exists_name_of_isMatch hkeys hs hmatch
  refine (newline_mem_span (Except.ok.inj hout) h).symm.imp_right fun h => ?_
  exact .emphasis hname hnamed (List.mem_singleton.mp h).symm

theorem strong (hkeys : Selector.namesOnly ["STRONG", "B"] keys = true) :
    Breaks o keys (CommonMark.strong o) := by
  intro d i s hs hmatch content out hout h
  obtain ⟨name, hname, hnamed⟩ := Selector.exists_name_of_isMatch hkeys hs hmatch
  exact (newline_mem_span (Except.ok.inj hout) h).symm.imp_right (.strong hname hnamed)

theorem strikethrough (keys : Text) : Breaks o keys GitHub.strikethrough := by
  intro d i s _ _ content out hout h
  rcases newline_mem_span (Except.ok.inj hout) h with h | h
  · simp at h
  · exact Or.inl h

theorem cell (keys : Text) : Breaks o keys GitHub.cell := by
  intro d i s _ _ content out hout h
  cases hout
  exact absurd h newline_notMem_cell

end Breaks

namespace Flavour

/-- Which names the keys of the entries for elements have. -/
theorem namesOnly_keys :
    (∀ keys ∈ ["P", "BR", "H1, H2, H3, H4, H5, H6", "BLOCKQUOTE", "UL, OL", "LI UL, LI OL",
        "UL LI, OL LI", "PRE", "HR", "TABLE", "TR"],
      Selector.namesOnly Document.lineNames keys.toList = true) ∧
    Selector.namesOnly ["CODE"] "CODE".toList = true ∧ Selector.namesOnly ["A"] "A".toList = true ∧
    Selector.namesOnly ["IMG"] "IMG".toList = true ∧ Selector.namesOnly ["EM", "I"] "EM, I".toList = true ∧
    Selector.namesOnly ["STRONG", "B"] "STRONG, B".toList = true := by
  decide

/-- No converter of the two flavours writes a newline of its own but for a node that breaks the
line. -/
theorem breaks (o : Options) :
    ∀ entry ∈ CommonMark.entries o ++ GitHub.entries o, Breaks o entry.1 entry.2 := by
  obtain ⟨hlines, hcode, hlink, himage, hemphasis, hstrong⟩ := namesOnly_keys
  simp only [CommonMark.entries, GitHub.entries, List.cons_append, List.nil_append,
    List.forall_mem_cons]
  refine ⟨?text, ?rawText, ?paragraph, ?hardBreak, ?heading, ?blockquote, ?list, ?innerList,
    ?item, ?codeBlock, ?preformatted, ?thematicBreak, ?link, ?emphasis, ?strong, ?code, ?image,
    ?strikethrough, ?fencedBlock, ?task, ?table, ?row, ?cell, by simp⟩
  case text => exact .text _
  case rawText => exact .rawText
  case codeBlock => exact .codeBlock
  case fencedBlock => exact .codeBlock
  case link => exact .link hlink
  case emphasis => exact .emphasis hemphasis
  case strong => exact .strong hstrong
  case code => exact .code hcode
  case image => exact .image himage
  case strikethrough => exact .strikethrough _
  case cell => exact .cell _
  all_goals exact .of_names (hlines _ (by simp))

variable {flavour : Flavour} {o : Options} {d : Document} {R : Nat → Text} {i level : Nat}

theorem newline_mem_convert {content text : Text}
    (h : (flavour.renderer o).convert d i content = .ok text) (hmem : '\n' ∈ text) :
    '\n' ∈ content ∨ d.BreaksLine o i := by
  rcases cases_of_convert h with rfl | ⟨entry, hentry, s, hs, hmatch, hout⟩
  · exact Or.inl hmem
  · exact breaks o entry (mem_all_of_mem_entries hentry) d i s hs hmatch content text hout hmem

/-- Behind every newline in the Markdown of a subtree there is a node that breaks the line. -/
theorem exists_breaksLine (hR : (flavour.renderer o).Writes d R) (h : '\n' ∈ R i) :
    ∃ j ∈ d.preorder i, d.BreaksLine o j := by
  induction i using d.childrenInduction with
  | step i ih =>
    rcases newline_mem_convert (hR i) h with h | h
    · obtain ⟨c, hc, h⟩ := List.mem_flatMap.mp h
      obtain ⟨j, hj, hbreaks⟩ := ih c hc h
      refine ⟨j, ?_, hbreaks⟩
      rw [Document.preorder_eq]
      exact List.mem_cons_of_mem i (List.mem_flatMap.mpr ⟨c, hc, hj⟩)
    · exact ⟨i, d.self_mem_preorder i, h⟩

end Flavour

/-! ### The lines of a heading -/

/-- The marks are in front of the first line. -/
theorem headingText_eq {t first : Text} {others : List Text}
    (hlines : t.splitOn '\n' = first :: others) (level : Nat) :
    List.replicate level '#' ++ ' ' :: t =
      ['\n'].intercalate ((List.replicate level '#' ++ ' ' :: first) :: others) := by
  rw [← intercalate_of_splitOn_eq hlines]
  cases others with
  | nil => rw [List.intercalate_singleton, List.intercalate_singleton]
  | cons next others => simp [List.intercalate_cons_cons]

/-- A text is one line if it has no newline. -/
theorem tail_splitOn_eq_nil_iff {t first : Text} {others : List Text}
    (hlines : t.splitOn '\n' = first :: others) : others = [] ↔ '\n' ∉ t := by
  constructor
  · rintro rfl
    have hjoin := intercalate_of_splitOn_eq hlines
    rw [List.intercalate_singleton] at hjoin
    exact hjoin ▸ newline_notMem_of_mem_splitOn (hlines ▸ List.mem_singleton_self first)
  · intro hnewline
    have hwhole : (['\n'].intercalate [t]).splitOn '\n' = [t] :=
      List.splitOn_intercalate '\n' (by simpa using hnewline) (List.cons_ne_nil t [])
    rw [List.intercalate_singleton, hlines] at hwhole
    exact (List.cons.inj hwhole).2

namespace CommonMark

variable {o : Options} {d : Document} {i level : Nat} {content : Text}

theorem heading_of_blank (h : d.IsHeading i level) (hblank : trim content = []) :
    heading o d i content = .ok none := by
  obtain ⟨-, -, hlevel⟩ := Document.headingLevel_of_isHeading h
  simp only [heading, hlevel, hblank]
  rfl

end CommonMark

/-- A heading is one line exactly if its trimmed content is. The lines of the content, as they
are written for the children, are the lines of the heading between its blank lines; the marks are
in front of the first, and the others are outside of the heading. If no node below the heading
breaks a line, there are no others. If a child is written with a newline, as a line break always
is, and something is to be seen on either side of it, then there are. -/
theorem Profile.convert_headingLines (flavour : Flavour) (o : Options)
    (ho : o.headingStyle = .atx) (d : Document) :
    ∃ R : Nat → Text,
      (∀ i, (flavour.renderer o).convert d i ((d.children i).flatMap R) = .ok (R i)) ∧
      (∀ j, d.isNamed j "BR".toList = true → R j = lineBreak) ∧
      ∀ i level, d.IsHeading i level →
        (trim ((d.children i).flatMap R) = [] →
          CommonMark.heading o d i ((d.children i).flatMap R) = .ok none) ∧
        (trim ((d.children i).flatMap R) ≠ [] →
          ∃ first others, (trim ((d.children i).flatMap R)).splitOn '\n' = first :: others ∧
            R i = "\n\n".toList ++ ['\n'].intercalate
              ((List.replicate level '#' ++ ' ' :: first) :: others) ++ "\n\n".toList ∧
            CommonMark.heading o d i ((d.children i).flatMap R) = .ok (some (R i)) ∧
            ((∀ j, i ∈ d.ancestors j → ¬ d.BreaksLine o j) → others = []) ∧
            ∀ before c after, d.children i = before ++ c :: after → '\n' ∈ R c →
              isFilled (before.flatMap R) = true → isFilled (after.flatMap R) = true →
                others ≠ []) := by
  obtain ⟨R, hR⟩ := (flavour.neverFails o d).exists_render
  have hwrites : (flavour.renderer o).Writes d R := fun i => (hR i).2
  refine ⟨R, hwrites, fun j => Flavour.write_hardBreak hwrites, fun i level h => ?_⟩
  refine ⟨CommonMark.heading_of_blank h, fun hshown => ?_⟩
  obtain ⟨first, others, hlines⟩ :=
    List.exists_cons_of_ne_nil (splitOn_newline_ne_nil (trim ((d.children i).flatMap R)))
  have hwritten : R i = "\n\n".toList ++ ['\n'].intercalate
      ((List.replicate level '#' ++ ' ' :: first) :: others) ++ "\n\n".toList := by
    rw [hwrites.eq_of_convert rfl (Flavour.convert_heading ho h hshown), headingText_eq hlines]
  have hsingle := tail_splitOn_eq_nil_iff hlines
  refine ⟨first, others, hlines, hwritten, ?_, fun hnone => hsingle.mpr fun hmem => ?_,
    fun before c after hsplit hc hbefore hafter hnil => ?_⟩
  · rw [Flavour.heading_of_shown ho h hshown, hwritten, headingText_eq hlines]
  · obtain ⟨c, hc, hmem⟩ := List.mem_flatMap.mp (mem_of_mem_stripBy hmem)
    obtain ⟨j, hj, hbreaks⟩ := Flavour.exists_breaksLine hwrites hmem
    exact hnone j (Document.mem_ancestors_of_mem_below (List.mem_flatMap.mpr ⟨c, hc, hj⟩)) hbreaks
  · refine hsingle.mp hnil ?_
    rw [hsplit, List.flatMap_append, List.flatMap_cons, ← List.append_assoc]
    exact mem_trim_between hbefore hafter hc

/-- A heading with a line break between two texts, and one with a single text. -/
def twoHeadings : Document :=
  Document.grown
    [(0, .element "h1".toList []), (1, .text "a".toList), (1, .element "br".toList []),
     (1, .text "b".toList), (0, .element "h2".toList []), (5, .text "c\nd".toList)]

theorem Profile.convert_headingLines_twoHeadings :
    ∃ R : Nat → Text,
      (∃ first others, others ≠ [] ∧ R 1 = "\n\n".toList ++
        ['\n'].intercalate (("# ".toList ++ first) :: others) ++ "\n\n".toList) ∧
      ∃ line, '\n' ∉ line ∧ R 5 = "\n\n".toList ++ ("## ".toList ++ line) ++ "\n\n".toList := by
  obtain ⟨R, hR, hbreak, hheading⟩ := Profile.convert_headingLines .commonMark {} rfl twoHeadings
  have hwrites : (Flavour.commonMark.renderer {}).Writes twoHeadings R := hR
  have hchildren : twoHeadings.children 1 = [2, 3, 4] ∧ twoHeadings.children 5 = [6] := by
    decide +kernel
  obtain ⟨hone, hfive⟩ := hchildren
  have hleaves : ∀ leaf ∈ [(2, "a"), (4, "b"), (6, "c d")], twoHeadings.children leaf.1 = [] ∧
      (Flavour.commonMark.renderer {}).convert twoHeadings leaf.1 [] = .ok leaf.2.toList := by
    decide +kernel
  have hleaf : ∀ leaf ∈ [(2, "a"), (4, "b"), (6, "c d")], R leaf.1 = leaf.2.toList := by
    intro leaf hmem
    obtain ⟨hnone, hwritten⟩ := hleaves leaf hmem
    exact hwrites.eq_of_convert (by rw [hnone, List.flatMap_nil]) hwritten
  have hfirst : R 2 = "a".toList := hleaf (2, "a") (by simp)
  have hlast : R 4 = "b".toList := hleaf (4, "b") (by simp)
  have hother : R 6 = "c d".toList := hleaf (6, "c d") (by simp)
  have hline : R 3 = lineBreak := hbreak 3 (by decide +kernel)
  refine ⟨R, ?_, ?_⟩
  · obtain ⟨first, others, -, hwritten, -, -, hmore⟩ :=
      (hheading 1 1 ⟨by decide, by decide, by decide +kernel⟩).2
        (by rw [hone]; simp only [List.flatMap_cons, List.flatMap_nil, hfirst, hline, hlast]; decide)
    refine ⟨first, others, hmore [2] 3 [4] hone ?_ ?_ ?_, hwritten⟩
    · rw [hline]
      decide
    · rw [List.flatMap_singleton, hfirst]
      decide
    · rw [List.flatMap_singleton, hlast]
      decide
  · obtain ⟨first, others, hlines, hwritten, -, hsingle, -⟩ :=
      (hheading 5 2 ⟨by decide, by decide, by decide +kernel⟩).2
        (by rw [hfive, List.flatMap_singleton, hother]; decide)
    have hnone : others = [] := by
      apply hsingle
      intro j hj
      have hpreorder : twoHeadings.preorder 5 = [5, 6] := by decide +kernel
      have hmem := Document.mem_preorder_iff.mpr (Or.inr hj)
      rw [hpreorder, List.mem_pair] at hmem
      rcases hmem with rfl | rfl
      · exact absurd (Document.lt_of_mem_ancestors hj) (Nat.lt_irrefl 5)
      · exact Document.not_breaksLine_of_isText (by decide +kernel) (by decide +kernel)
    rw [hnone, List.intercalate_singleton] at hwritten
    rw [hnone] at hlines
    exact ⟨first, newline_notMem_of_mem_splitOn (hlines ▸ List.mem_singleton_self first), hwritten⟩

/-- A heading with a line break in it. -/
def brokenHeading : Document :=
  Document.grown
    [(0, .element "h1".toList []), (1, .text "a".toList), (1, .element "br".toList []),
     (1, .text "b".toList)]

/-- What stands behind the line break is no part of the heading any more. -/
theorem Profile.brokenHeading_two_lines :
    brokenHeading.children Document.root = [1] ∧ brokenHeading.IsHeading 1 1 ∧
      (Profile.ofFlavour .commonMark {}).convert brokenHeading = .ok "# a  \nb".toList ∧
      "# a  \nb".toList.splitOn '\n' = ["# a  ".toList, "b".toList] := by
  refine ⟨?_, ⟨?_, ?_, ?_⟩, ?_, ?_⟩ <;> decide +kernel

end TreeMarkdown
