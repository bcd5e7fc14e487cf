/-
The case of names does not show.

A folded document is for the converters like the document (`Document.resembles_folded`), since
all that they look at are observations that folding leaves alone. And documents that agree up
to the case of the ASCII letters in names are the same when they are folded, up to the numbers
of their nodes (`Document.IsRespelling.isRenumbering_folded`). So they have the same Markdown
(`Profile.convert_respelled`).
-/

import TreeMarkdown.Proofs.Document.Folding
import TreeMarkdown.Proofs.Rules.Renumbered

namespace TreeMarkdown

open Markdown

/-! ### What the converters look at -/

namespace Document

variable (d : Document)

@[simp] theorem textContent_folded (i : Nat) : d.folded.textContent i = d.textContent i := by
  rw [textContent_eq, textContent_eq, subtreeText_folded]

@[simp] theorem isBlankText_folded : isBlankText d.folded = isBlankText d := by
  funext i
  simp only [isBlankText, isText_folded, ownText_folded]

@[simp] theorem isCheckbox_folded : isCheckbox d.folded = isCheckbox d := by
  funext i
  simp only [isCheckbox, hasTag_folded, attribute?_folded]

@[simp] theorem codeLanguage_folded : codeLanguage d.folded = codeLanguage d := by
  funext i
  simp only [codeLanguage, attribute?_folded]

@[simp] theorem isCell_folded : isCell d.folded = isCell d := by
  funext i
  simp only [isCell, hasTag_folded]

@[simp] theorem separatorCell_folded : separatorCell d.folded = separatorCell d := by
  funext i
  simp only [separatorCell, attribute?_folded]

@[simp] theorem ownRows_folded : ownRows d.folded = ownRows d := by
  funext i
  simp only [ownRows, elementChildren_folded, hasTag_folded]

@[simp] theorem isRowGroup_folded : isRowGroup d.folded = isRowGroup d := by
  funext i
  simp only [isRowGroup, hasTag_folded]

@[simp] theorem tableRows_folded : tableRows d.folded = tableRows d := by
  funext i
  rw [tableRows, tableRows, elementChildren_folded, ownRows_folded]
  apply List.flatMap_congr
  intro c _
  rw [hasTag_folded, isRowGroup_folded]

@[simp] theorem previousSibling?_folded (i : Nat) :
    d.folded.previousSibling? i = d.previousSibling? i := by
  simp only [previousSibling?, parent?_folded, index?_folded, childArray_folded]

@[simp] theorem nextSibling?_folded (i : Nat) : d.folded.nextSibling? i = d.nextSibling? i := by
  simp only [nextSibling?, parent?_folded, index?_folded, childArray_folded]

/-- To the converters a folded document is like the document. -/
theorem resembles_folded (i : Nat) : Resembles d i d.folded i where
  isMatch := fun _ _ s _ => congrFun (d.isMatch_folded s) i
  tagName := by rw [tagName_folded]
  value? := by rw [value?_folded]
  attribute? := fun name => by rw [attribute?_folded]
  textContent := d.textContent_folded i
  spaceBefore := fun _ => by
    simp only [spaceBefore, previousSibling?_folded, isInline_folded, lastTextChar?_folded,
      firstTextChar?_folded]
  spaceAfter := fun _ => by
    simp only [spaceAfter, nextSibling?_folded, isInline_folded, lastTextChar?_folded,
      firstTextChar?_folded]
  listMarker := fun bullet => by
    simp only [listMarker, listStart, itemsBefore, parent?_folded, hasTag_folded,
      attribute?_folded, elementChildren_folded]
  taskState? := by
    simp only [taskState?, hasAttribute, children_folded, isBlankText_folded, isCheckbox_folded,
      attribute?_folded]
  holdsCode := by rw [holdsCode, holdsCode, elementChildren_folded, hasTag_folded]
  inheritedLanguage := fun _ => by
    simp only [inheritedLanguage, codeLanguage_folded, parent?_folded]
  isHeaderRow := by
    simp only [isHeaderRow, parent?_folded, hasTag_folded, ownRows_folded, ancestors_folded,
      elementChildren_folded, tableRows_folded]
  separatorRow := by
    rw [separatorRow, separatorRow, elementChildren_folded, isCell_folded, separatorCell_folded]

end Document

theorem Profile.convert_folded (flavour : Flavour) (o : Options) (d : Document) :
    (Profile.ofFlavour flavour o).convert d.folded = (Profile.ofFlavour flavour o).convert d :=
  Renderer.convertDocument_congr_of_children d.children_folded fun i content =>
    Flavour.convert_congr (d.resembles_folded i) content

/-! ### Documents in another spelling -/

namespace Document

/-- Document `d'` has the shape of document `d`, where node `f i` stands for node `i` and is the
same but for the case of ASCII letters in names. -/
structure IsRespelling (d d' : Document) (f : Nat → Nat) : Prop where
  reachable : d.Reachable
  reachable' : d'.Reachable
  root_eq : f root = root
  children_eq : ∀ i < d.size, d'.children (f i) = (d.children i).map f
  node : ∀ i < d.size, ∀ n ∈ d.node? i, ∃ n' ∈ d'.node? (f i), n.IsRespelling n'

/-- Folded, the two are the same document up to the numbers. -/
theorem IsRespelling.isRenumbering_folded {d d' : Document} {f : Nat → Nat}
    (h : d.IsRespelling d' f) : d.folded.IsRenumbering d'.folded f where
  reachable := h.reachable.folded
  reachable' := h.reachable'.folded
  root_eq := h.root_eq
  children_eq := by simpa using h.children_eq
  node?_eq := by
    intro i hi
    rw [size_folded] at hi
    obtain ⟨c, hc⟩ := exists_cell hi
    have hn := node?_of_cell hc
    obtain ⟨n', hn', hrespelled⟩ := h.node i hi c.node hn
    rw [node?_folded, node?_folded, hn, Option.mem_def.mp hn', Option.map_some, Option.map_some,
      hrespelled.folded_eq]

end Document

/-- The case of names does not matter. Two documents of the same shape, whose nodes are the same
but for the case of the ASCII letters in the names of elements and attributes, have the same
Markdown in both flavours, whatever the options. -/
theorem Profile.convert_respelled (flavour : Flavour) (o : Options) (d d' : Document)
    (f : Nat → Nat) (h : d.IsRespelling d' f) :
    ∃ markdown, (Profile.ofFlavour flavour o).convert d = .ok markdown ∧
      (Profile.ofFlavour flavour o).convert d' = .ok markdown := by
  obtain ⟨markdown, hmarkdown⟩ := Profile.exists_convert_eq_ok flavour o d
  have hfolded := h.isRenumbering_folded.convert_eq flavour o
  rw [Profile.convert_folded, Profile.convert_folded] at hfolded
  exact ⟨markdown, hmarkdown, hfolded.trans hmarkdown⟩

/-- A heading, and text with a link in an element without a rule. The name of that element ends
in a capital sigma. -/
def namesInCapitals : Document :=
  Document.grown
    [(0, .element "h2".toList []), (1, .text "a".toList),
     (0, ⟨.element, "SPAΣ".toList, none, []⟩), (3, .text "b ".toList),
     (3, .element "a".toList [("HREF".toList, "u".toList)]), (5, .text "c".toList)]

/-- The same with names in small letters, appended in another order. -/
def namesInSmallLetters : Document :=
  Document.grown
    [(0, ⟨.element, "h2".toList, none, []⟩), (0, ⟨.element, "spaΣ".toList, none, []⟩),
     (2, .text "b ".toList), (2, ⟨.element, "a".toList, none, [("href".toList, "u".toList)]⟩),
     (4, .text "c".toList), (1, .text "a".toList)]

theorem isRespelling_namesInCapitals :
    namesInCapitals.IsRespelling namesInSmallLetters fun i => [0, 1, 6, 2, 3, 4, 5].getD i 0 where
  reachable := Document.reachable_grown _
  reachable' := Document.reachable_grown _
  root_eq := rfl
  children_eq := by decide
  node := by decide

theorem Profile.convert_respelled_namesInCapitals :
    (Profile.ofFlavour .gitHub {}).convert namesInSmallLetters =
      .ok "## a\n\nb [c](u)".toList := by
  obtain ⟨markdown, hmarkdown, hmarkdown'⟩ := Profile.convert_respelled .gitHub {} namesInCapitals
    namesInSmallLetters _ isRespelling_namesInCapitals
  have hwritten : (Profile.ofFlavour .gitHub {}).convert namesInCapitals =
      .ok "## a\n\nb [c](u)".toList := by
    decide +kernel
  rw [hwritten] at hmarkdown
  exact hmarkdown'.trans hmarkdown.symm

end TreeMarkdown
