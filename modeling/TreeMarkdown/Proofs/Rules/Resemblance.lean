/-
What the converters of the flavours look at.

Beside the Markdown of its children, the Markdown of a node depends on a few observations of
the node and its surroundings. `Resembles` lists them, for a node and another one, which may
stand in another document: the chains that match, the data of the node, the white space at its
boundaries, the marker and the task of an item, the language and the text of code, the header
row of a table. Nodes that resemble each other are written alike (`Flavour.convert_congr`), so
to carry a conversion over to another document it is enough to carry these observations over.
-/

import TreeMarkdown.Proofs.Rules.Chosen

namespace TreeMarkdown

open Markdown

/-- Node `i'` of `d'` is for the converters of the flavours like node `i` of `d`. -/
structure Resembles (d : Document) (i : Nat) (d' : Document) (i' : Nat) : Prop where
  isMatch : ∀ keys ∈ Flavour.gitHub.keys, ∀ s ∈ Selector.parseList keys,
    s.isMatch d' i' = s.isMatch d i
  tagName : d'.tagName i' = d.tagName i
  value? : d'.value? i' = d.value? i
  attribute? : ∀ name, d'.attribute? i' name = d.attribute? i name
  textContent : d'.textContent i' = d.textContent i
  /-- Text in code is not spaced. -/
  spaceBefore : d.isRaw i = false → d'.spaceBefore i' = d.spaceBefore i
  spaceAfter : d.isRaw i = false → d'.spaceAfter i' = d.spaceAfter i
  listMarker : ∀ bullet, listMarker d' bullet i' = listMarker d bullet i
  taskState? : taskState? d' i' = taskState? d i
  holdsCode : holdsCode d' i' = holdsCode d i
  /-- Only code in preformatted text may take the language of its parent. -/
  inheritedLanguage : d.innerAncestors i ≠ [] → inheritedLanguage d' i' = inheritedLanguage d i
  isHeaderRow : isHeaderRow d' i' = isHeaderRow d i
  separatorRow : separatorRow d' i' = separatorRow d i

namespace Resembles

variable {d d' : Document} {i i' : Nat}

theorem ownText (h : Resembles d i d' i') : d'.ownText i' = d.ownText i := by
  rw [← Document.value?_getD, h.value?, Document.value?_getD]

theorem codeLanguage (h : Resembles d i d' i') : codeLanguage d' i' = codeLanguage d i := by
  simp only [Markdown.codeLanguage, h.attribute?]

end Resembles

namespace Flavour

variable {flavour : Flavour} {o : Options} {d d' : Document} {i i' : Nat}

theorem keys_subset (flavour : Flavour) : flavour.keys ⊆ Flavour.gitHub.keys := by
  cases flavour with
  | commonMark =>
    intro keys hkeys
    rw [Flavour.keys, entries, List.map_append]
    exact List.mem_append_left _ hkeys
  | gitHub => exact fun _ hkeys => hkeys

theorem isMatch_congr (h : Resembles d i d' i') {rule : Rule Converter}
    (hrule : rule ∈ (flavour.renderer o).rules) :
    rule.selector.isMatch d' i' = rule.selector.isMatch d i := by
  obtain ⟨entry, hentry, hs, -⟩ := exists_entry hrule
  have hkeys : entry.1 ∈ flavour.keys := by
    rw [← map_fst_entries flavour o]
    exact List.mem_map_of_mem hentry
  exact h.isMatch entry.1 (keys_subset flavour hkeys) _ hs

theorem innerAncestors_ne_nil_of_codeBlock {s : Selector}
    (hs : s ∈ Selector.parseList "PRE CODE".toList) (hmatch : s.isMatch d i = true) :
    d.innerAncestors i ≠ [] := by
  have hcontext : ∀ s ∈ Selector.parseList "PRE CODE".toList, s.context = ["PRE".toList] := by
    decide
  obtain ⟨-, a, ha, -⟩ := (Selector.isMatch_iff_of_context_eq (hcontext s hs)).mp hmatch
  exact List.ne_nil_of_mem ha

/-- Each converter writes the same for nodes that resemble each other, where it can be
chosen. -/
theorem action_congr (h : Resembles d i d' i') (content : Text) :
    ∀ entry ∈ CommonMark.entries o ++ GitHub.entries o,
      ∀ s ∈ Selector.parseList entry.1, s.isMatch d i = true →
        (entry.1 = "TEXT_NODE".toList → d.isRaw i = false) →
          entry.2 d' i' content = entry.2 d i content := by
  simp only [CommonMark.entries, GitHub.entries, List.cons_append, List.nil_append,
    List.forall_mem_cons]
  refine ⟨?text, ?rawText, ?paragraph, ?hardBreak, ?heading, ?blockquote, ?list, ?innerList,
    ?item, ?codeBlock, ?preformatted, ?thematicBreak, ?link, ?emphasis, ?strong, ?code, ?image,
    ?strikethrough, ?fencedBlock, ?task, ?table, ?row, ?cell, by simp⟩ <;>
    intro s hs hmatch hraw
  case text =>
    simp only [CommonMark.text, Converter.ofNode, Converter.total, Document.spaced, h.ownText,
      h.spaceBefore (hraw trivial), h.spaceAfter (hraw trivial)]
  case rawText => simp only [CommonMark.rawText, Converter.ofNode, Converter.total, h.value?]
  case heading => simp only [CommonMark.heading, h.tagName]
  case item => simp only [CommonMark.item, Converter.total, h.listMarker]
  case codeBlock => simp only [CommonMark.codeBlock, Converter.total, h.codeLanguage]
  case preformatted => simp only [CommonMark.preformatted, Converter.total, h.holdsCode]
  case link => simp only [CommonMark.link, Converter.total, h.attribute?]
  case code => simp only [CommonMark.code, Converter.ofNode, Converter.total, h.textContent]
  case image => simp only [CommonMark.image, Converter.ofNode, Converter.total, h.attribute?]
  case fencedBlock =>
    have hinner := innerAncestors_ne_nil_of_codeBlock hs hmatch
    simp only [GitHub.codeBlock, Converter.total, h.inheritedLanguage hinner]
  case task => simp only [GitHub.item, Converter.total, h.listMarker, h.taskState?]
  case row =>
    simp only [GitHub.row, Converter.total, Markdown.tableRow, h.isHeaderRow, h.separatorRow]
  -- the other converters look at the Markdown of the children only
  all_goals rfl

/-- Nodes that resemble each other are written alike. -/
theorem convert_congr (h : Resembles d i d' i') (content : Text) :
    (flavour.renderer o).convert d' i' content = (flavour.renderer o).convert d i content := by
  rw [Renderer.convert, Renderer.convert,
    RuleTable.best?_congr fun rule hrule => isMatch_congr h hrule]
  cases hbest : (flavour.renderer o).best? d i with
  | none => rfl
  | some rule =>
    obtain ⟨entry, hentry, hs, hmatch, haction⟩ := exists_entry_of_best? hbest
    have hmem : entry ∈ CommonMark.entries o ++ GitHub.entries o := by
      cases flavour with
      | commonMark => exact List.mem_append_left _ hentry
      | gitHub => exact hentry
    have hsame := action_congr h content entry hmem rule.selector hs hmatch fun hkeys =>
      isRaw_eq_false_of_best? hbest (hkeys ▸ hs)
    simp only [Rule.convert, haction, hsame]

end Flavour

end TreeMarkdown
