/-
No visible text is lost or moved on the way from a document to its Markdown.

Each converter of the two flavours keeps the text of the nodes that it stands for
(`Flavour.keepsFlow`); those for elements keep what they are given (`Flavour.keepsGiven`).
A text node is always written by a rule for text nodes, since every flavour has one
(`Flavour.exists_best?`). So by induction over the tree the Markdown of every subtree
keeps the text of the subtree (`Flavour.isKept_recursion`), and what is left after tidying
does so too.
-/

import TreeMarkdown.Proofs.Rules.Chosen
import TreeMarkdown.Proofs.Rules.KeepsFlow
import TreeMarkdown.Proofs.Rules.Totality

namespace TreeMarkdown

open Text (IsKept)
open Markdown

/-! ### Text nodes -/

theorem isKept_withSpaceBefore (t : Text) : IsKept t (withSpaceBefore t) := by
  unfold withSpaceBefore
  split
  · exact .refl t
  · exact (IsKept.refl t).cons ' '

theorem isKept_withSpaceAfter (t : Text) : IsKept t (withSpaceAfter t) := by
  unfold withSpaceAfter
  split
  · exact .refl t
  · exact (IsKept.refl t).append_right [' ']

theorem Document.isKept_spaced (d : Document) (i : Nat) (t : Text) : IsKept t (d.spaced i t) :=
  ((isKept_withSpaceBefore t).ite _).trans ((isKept_withSpaceAfter _).ite _)

section Entries

variable {d : Document} (o : Options)

theorem keepsFlow_text (hd : d.Reachable) (hnames : d.TextNamesText) :
    KeepsFlow d "TEXT_NODE".toList CommonMark.text := by
  apply KeepsFlow.ofText hd hnames (by decide)
  intro i content out hout
  cases hout
  have hfolded : IsKept (d.ownText i) (Text.trim (Text.collapseSpaces (d.ownText i))) :=
    .of_visible_eq (by simp)
  exact (hfolded.trans (Text.isKept_escape _)).trans (d.isKept_spaced i _)

theorem keepsFlow_rawText (hd : d.Reachable) (hnames : d.TextNamesText) :
    KeepsFlow d "PRE TEXT_NODE, CODE TEXT_NODE".toList CommonMark.rawText := by
  apply KeepsFlow.ofText hd hnames (by decide)
  intro i content out hout
  cases hout
  show IsKept (d.ownText i) ((d.value? i).getD content)
  rw [← d.value?_getD i]
  cases d.value? i with
  | none => exact .of_visible_eq_nil rfl content
  | some value => exact .refl value

/-! ### Elements -/

theorem keepsContent_heading : KeepsContent (CommonMark.heading o) := by
  intro d i content out hout
  rw [CommonMark.heading] at hout
  cases hlevel : headingLevel (d.tagName i) with
  | error e =>
    rw [hlevel] at hout
    cases hout
  | ok level =>
    rw [hlevel] at hout
    cases hout
    exact .of_isKept (isKept_trim content) (keeps_heading _ _ level)

/-- A code span is written from the text of its subtree, not from what it is given. -/
theorem keepsGiven_code (keys : Text) : KeepsGiven d keys CommonMark.code := by
  intro s _ i _ _ content out hout _
  cases hout
  show Keeps (d.flowText i) (codeSpan (d.textContent i))
  rw [Document.textContent_eq]
  exact .of_isKept (d.isKept_subtreeText i) (keeps_codeSpan _)

theorem keepsContent_codeBlock : KeepsContent (CommonMark.codeBlock o) := by
  apply KeepsContent.total
  intro d i content
  cases o.codeBlockStyle with
  | indented => exact keeps_indentedCode content
  | fenced => exact keeps_fencedCode content _ _

theorem keepsContent_block {f : Text → Text} (hf : ∀ t, IsKept t (f t)) :
    KeepsContent (.ofContent fun content => block (f content)) := by
  apply KeepsContent.ofContent
  intro content
  exact .of_isKept (hf content) (keeps_block _)

theorem keepsContent_span (delimiter : Text) : KeepsContent (.ofContent (span delimiter)) := by
  apply KeepsContent.ofContent
  intro content
  exact keeps_span content delimiter

theorem keepsContent_listItem (marker : Document → Nat → Text) :
    KeepsContent (.total fun d i content => some (listItem (marker d i) content)) := by
  apply KeepsContent.total
  intro d i content
  exact .some (isKept_listItem content _)

theorem keepsContent_preformatted : KeepsContent CommonMark.preformatted :=
  .total fun _ _ content => .ite (.none content) (keeps_indentedCode content)

theorem keepsContent_link : KeepsContent CommonMark.link :=
  .total fun _ _ content => keeps_link content _ _

end Entries

namespace Flavour

/-- The entries of both flavours that are for elements. -/
def elementEntries (o : Options) : List (Text × Converter) :=
  (CommonMark.entries o).drop 2 ++ GitHub.entries o

theorem namesElements_of_mem {o : Options} {entry : Text × Converter}
    (h : entry ∈ elementEntries o) : namesElements entry.1 = true := by
  -- the keys do not depend on the options, so it is enough to look at them for one choice
  have hkeys : (elementEntries o).map Prod.fst = (elementEntries {}).map Prod.fst := rfl
  have hall : ∀ keys ∈ (elementEntries {}).map Prod.fst, namesElements keys = true := by
    decide
  exact hall entry.1 (hkeys ▸ List.mem_map_of_mem h)

theorem leaf_targets :
    (∀ s ∈ Selector.parseList "BR".toList, s.target = "BR".toList) ∧
      (∀ s ∈ Selector.parseList "HR".toList, s.target = "HR".toList) ∧
      ∀ s ∈ Selector.parseList "IMG".toList, s.target = "IMG".toList := by
  decide

variable {d : Document}

theorem keepsGiven (o : Options) (hleafy : d.IsLeafy) :
    ∀ entry ∈ elementEntries o, KeepsGiven d entry.1 entry.2 := by
  obtain ⟨hbr, hhr, himg⟩ := leaf_targets
  simp only [elementEntries, CommonMark.entries, GitHub.entries, List.drop_succ_cons,
    List.drop_zero, List.cons_append, List.nil_append, List.forall_mem_cons]
  refine ⟨?paragraph, ?hardBreak, ?heading, ?blockquote, ?list, ?innerList, ?item, ?codeBlock,
    ?preformatted, ?thematicBreak, ?link, ?emphasis, ?strong, ?code, ?image, ?strikethrough,
    ?fencedBlock, ?task, ?table, ?row, ?cell, by simp⟩
  case paragraph => exact (keepsContent_block isKept_trim).keepsGiven
  case hardBreak => exact .leaf hbr fun i h => hleafy i (Or.inl h)
  case heading => exact (keepsContent_heading o).keepsGiven
  case blockquote => exact (KeepsContent.ofContent keeps_quote).keepsGiven
  case list => exact (keepsContent_block isKept_stripNewlines).keepsGiven
  case innerList => exact (KeepsContent.ofContent keeps_nestedList).keepsGiven
  case item => exact (keepsContent_listItem _).keepsGiven
  case codeBlock => exact (keepsContent_codeBlock o).keepsGiven
  case preformatted => exact keepsContent_preformatted.keepsGiven
  case thematicBreak => exact .leaf hhr fun i h => hleafy i (Or.inr (Or.inl h))
  case link => exact keepsContent_link.keepsGiven
  case emphasis => exact (keepsContent_span _).keepsGiven
  case strong => exact (keepsContent_span _).keepsGiven
  case code => exact keepsGiven_code _
  case image => exact .leaf himg fun i h => hleafy i (Or.inr (Or.inr h))
  case strikethrough => exact (keepsContent_span _).keepsGiven
  case fencedBlock =>
    exact (KeepsContent.total fun d i content => keeps_fencedCode content _ _).keepsGiven
  case task => exact (keepsContent_listItem _).keepsGiven
  case table => exact (KeepsContent.ofContent keeps_table).keepsGiven
  case row =>
    exact (KeepsContent.total fun d i content => .some (isKept_tableRow content d i)).keepsGiven
  case cell => exact (KeepsContent.ofContent fun content => .some (isKept_cell content)).keepsGiven

/-- Every converter of a flavour keeps the text of the nodes that it stands for. -/
theorem keepsFlow (flavour : Flavour) (o : Options) (hd : d.Reachable) (hleafy : d.IsLeafy)
    (hnames : d.TextNamesText) : ∀ entry ∈ flavour.entries o, KeepsFlow d entry.1 entry.2 := by
  have hall : ∀ entry ∈ CommonMark.entries o ++ GitHub.entries o,
      KeepsFlow d entry.1 entry.2 := by
    intro entry hentry
    rcases List.mem_cons.mp hentry with rfl | hentry
    · exact keepsFlow_text hd hnames
    · rcases List.mem_cons.mp hentry with rfl | hentry
      · exact keepsFlow_rawText hd hnames
      · exact .of_keepsGiven (namesElements_of_mem hentry) (keepsGiven o hleafy entry hentry)
  exact fun entry hentry => hall entry (mem_all_of_mem_entries hentry)

end Flavour

/-! ### The whole document -/

theorem Text.IsKept.visible_eq_nil {t : Text} (h : IsKept t []) : visible t = [] :=
  List.sublist_nil.mp h

namespace Flavour

variable {flavour : Flavour} {o : Options} {d : Document} {i : Nat}

/-- Every text node has a rule. -/
theorem exists_best? (flavour : Flavour) (o : Options) (h : d.isText i = true) :
    ∃ rule, (flavour.renderer o).best? d i = some rule := by
  obtain ⟨rule, hrule, -⟩ :=
    isChosenFrom_of_name (o := o) (hasChain_text flavour) (Document.isNamed_textRuleName h)
  exact ⟨rule, hrule⟩

/-- Writing one node keeps the text of its subtree. -/
theorem isKept_convert (hkeeps : ∀ entry ∈ flavour.entries o, KeepsFlow d entry.1 entry.2)
    {content text : Text} (hcontent : IsKept ((d.children i).flatMap d.flowText) content)
    (h : (flavour.renderer o).convert d i content = .ok text) : IsKept (d.flowText i) text := by
  unfold Renderer.convert at h
  cases hbest : (flavour.renderer o).best? d i with
  | none =>
    have htext : d.isText i = false := by
      cases htext : d.isText i with
      | false => rfl
      | true =>
        obtain ⟨rule, hrule⟩ := exists_best? flavour o htext
        rw [hbest] at hrule
        cases hrule
    rw [hbest] at h
    cases h
    rw [Document.flowText_of_not_isText htext]
    exact hcontent
  | some rule =>
    obtain ⟨entry, hentry, hs, hmatch, haction⟩ := exists_entry_of_best? hbest
    rw [hbest] at h
    simp only [Rule.convert, haction] at h
    cases hout : entry.2 d i content with
    | error e =>
      rw [hout] at h
      cases h
    | ok out =>
      have hkept := hkeeps entry hentry rule.selector hs i (Selector.isNamed_of_isMatch hmatch)
        content out hcontent hout
      rw [hout] at h
      cases h
      cases out with
      | none => exact hkept
      | some written =>
        cases written with
        -- an empty text counts as abstaining; it is kept only if there is nothing to keep
        | nil => exact .of_visible_eq_nil (Text.IsKept.visible_eq_nil hkept) content
        | cons c written => exact hkept

/-- The recursion over the tree keeps the text of every subtree. -/
theorem isKept_recursion (hkeeps : ∀ entry ∈ flavour.entries o, KeepsFlow d entry.1 entry.2)
    {R : Nat → Text} (hR : (flavour.renderer o).Writes d R) (i : Nat) :
    IsKept (d.flowText i) (R i) := by
  induction i using d.childrenInduction with
  | step i ih => exact isKept_convert hkeeps (.flatMap ih) (hR i)

end Flavour

theorem isKept_tidy (t : Text) : IsKept t (tidy t) :=
  .of_visible_eq (by simp [tidy])

/-- Both flavours write every document, whatever the options, and keep its text: the
characters of its text nodes, ordinary white space left out, stand in the Markdown in
document order. -/
theorem Profile.convert_keeps_text (flavour : Flavour) (o : Options) (d : Document)
    (hd : d.Reachable) (hleafy : d.IsLeafy) (hnames : d.TextNamesText) :
    ∃ markdown, (Profile.ofFlavour flavour o).convert d = .ok markdown ∧
      (Text.visible (d.flowText Document.root)).Sublist markdown := by
  obtain ⟨R, hR⟩ := (flavour.neverFails o d).exists_render
  have hchildren : ∀ c ∈ d.children Document.root, IsKept (d.flowText c) (R c) := by
    intro c _
    exact Flavour.isKept_recursion (flavour.keepsFlow o hd hleafy hnames) (fun i => (hR i).2) c
  have hkept : IsKept (d.flowText Document.root) ((d.children Document.root).flatMap R) := by
    rw [Document.flowText_of_not_isText d.isText_root]
    exact .flatMap hchildren
  exact ⟨_, Renderer.convertDocument_of_render fun i => (hR i).1,
    (hkept.trans (isKept_tidy _)).sublist⟩

/-- A table cell with a bar, a line break and code with a backtick and an empty emphasis. -/
def markedCell : Document :=
  Document.grown
    [(0, .element "tr".toList []), (1, .element "td".toList []), (2, .text " a|b ".toList),
     (2, .element "br".toList []), (2, .element "code".toList []), (5, .text "x\x60_".toList),
     (5, .element "em".toList []), (7, .text " \n".toList), (2, .text "*".toList)]

theorem Profile.convert_keeps_text_markedCell :
    markedCell.IsLeafy ∧ markedCell.TextNamesText ∧
      ∃ markdown, (Profile.ofFlavour .gitHub {}).convert markedCell = .ok markdown ∧
        List.Sublist "a|bx\x60_*".toList markdown := by
  have hleafy : markedCell.IsLeafy := by decide +kernel
  have hnames : markedCell.TextNamesText := by decide +kernel
  have hvisible : Text.visible (markedCell.flowText Document.root) = "a|bx\x60_*".toList := by
    decide +kernel
  have hkept := Profile.convert_keeps_text .gitHub {} markedCell (Document.reachable_grown _)
    hleafy hnames
  rw [hvisible] at hkept
  exact ⟨hleafy, hnames, hkept⟩

end TreeMarkdown
