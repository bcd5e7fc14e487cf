/-
Which nodes a selector token names.

A token names text nodes or elements, never both unless an element bears the name that
stands for text nodes. An element that an ASCII token names has that token for its tag
(`tagName_of_isNamed`), and, tokens with a `K` apart, no other element has it
(`isElement_and_hasTag`).
-/

import TreeMarkdown.Document.Inline
import TreeMarkdown.Proofs.Text.Ascii

namespace TreeMarkdown.Document

variable {d : Document} {i : Nat} {token : Text}

/-- The token stands for text nodes. -/
def namesText (token : Text) : Bool :=
  Text.eqIgnoringCase token textRuleName

theorem satisfies_eq_true_iff {p : Node → Bool} :
    d.satisfies p i = true ↔ ∃ n, d.node? i = some n ∧ p n = true := by
  rw [satisfies, Option.any_eq_true]

theorem lt_size_of_satisfies {p : Node → Bool} (h : d.satisfies p i = true) : i < d.size := by
  obtain ⟨n, hn, _⟩ := satisfies_eq_true_iff.mp h
  obtain ⟨c, hc, _⟩ := Option.map_eq_some_iff.mp hn
  exact (Array.getElem?_eq_some_iff.mp hc).1

theorem value?_getD (d : Document) (i : Nat) : (d.value? i).getD [] = d.ownText i := by
  unfold value? ownText
  cases d.node? i with
  | none => rfl
  | some n => rfl

theorem exists_document_root (d : Document) :
    ∃ n, d.node? root = some n ∧ n.kind = .document := by
  obtain ⟨c, hc⟩ := exists_cell d.isTree.size_pos
  have hdocument := (d.isTree.isDocument_iff hc).mpr rfl
  exact ⟨c.node, node?_of_cell hc, beq_iff_eq.mp hdocument⟩

theorem isText_root (d : Document) : d.isText root = false := by
  obtain ⟨n, hn, hkind⟩ := d.exists_document_root
  simp [isText, satisfies, hn, Node.isText, hkind]

/-- No token names the root. -/
theorem isNamed_root (d : Document) (token : Text) : d.isNamed root token = false := by
  obtain ⟨n, hn, hkind⟩ := d.exists_document_root
  simp [isNamed, satisfies, hn, Node.isNamed, hkind]

theorem ne_root_of_isNamed (h : d.isNamed i token = true) : i ≠ root := by
  rintro rfl
  rw [isNamed_root] at h
  cases h

theorem isNamed_of_isText (h : d.isText i = true) : d.isNamed i token = namesText token := by
  obtain ⟨n, hn, htext⟩ := satisfies_eq_true_iff.mp h
  have hkind : n.kind = .text := by simpa [Node.isText] using htext
  simp [isNamed, satisfies, hn, Node.isNamed, hkind, namesText]

theorem isNamed_textRuleName (h : d.isText i = true) : d.isNamed i textRuleName = true := by
  rw [isNamed_of_isText h]
  decide

theorem isText_or_isElement_of_isNamed (h : d.isNamed i token = true) :
    d.isText i = true ∨ d.isElement i = true := by
  obtain ⟨n, hn, hnamed⟩ := satisfies_eq_true_iff.mp h
  unfold isText isElement
  simp only [satisfies, hn, Option.any_some]
  unfold Node.isNamed at hnamed
  unfold Node.isText Node.isElement
  cases hkind : n.kind with
  | text => exact Or.inl rfl
  | element => exact Or.inr rfl
  | document =>
    rw [hkind] at hnamed
    cases hnamed

theorem isElement_eq_false_of_isText (h : d.isText i = true) : d.isElement i = false := by
  obtain ⟨n, hn, htext⟩ := satisfies_eq_true_iff.mp h
  have hkind : n.kind = .text := by simpa [Node.isText] using htext
  simp [isElement, satisfies, hn, Node.isElement, hkind]

/-- Only tokens that stand for text nodes name them. -/
theorem isText_eq_false_of_isNamed (h : d.isNamed i token = true)
    (htoken : namesText token = false) : d.isText i = false := by
  cases htext : d.isText i with
  | false => rfl
  | true =>
    rw [isNamed_of_isText htext, htoken] at h
    cases h

theorem isElement_of_isNamed (h : d.isNamed i token = true) (htoken : namesText token = false) :
    d.isElement i = true := by
  rcases isText_or_isElement_of_isNamed h with htext | helement
  · rw [isText_eq_false_of_isNamed h htoken] at htext
    cases htext
  · exact helement

/-- An element that an ASCII token names has that token for its tag. -/
theorem tagName_of_isNamed (h : d.isNamed i token = true) (htoken : namesText token = false)
    (hascii : Text.isAscii token = true) : d.tagName i = Text.foldAscii token := by
  obtain ⟨n, hn, helement⟩ := satisfies_eq_true_iff.mp (isElement_of_isNamed h htoken)
  have hkind : n.kind = .element := by simpa [Node.isElement] using helement
  have hname : Text.eqIgnoringCase n.name token = true := by
    simpa [isNamed, satisfies, hn, Node.isNamed, hkind] using h
  rw [tagName, hn]
  exact Text.lower_of_eqIgnoringCase hname hascii

/-- The elements with an ASCII tag are those that the token in capitals names, if it has no `K`. -/
theorem isElement_and_hasTag {tag : String} (htag : tag.toList = Text.foldAscii token)
    (htoken : namesText token = false) (hascii : Text.isAscii token = true)
    (hkelvin : 'k' ∉ Text.foldAscii token) (i : Nat) :
    (d.isElement i && d.hasTag tag i) = d.isNamed i token := by
  rw [Bool.eq_iff_iff, Bool.and_eq_true, hasTag, beq_iff_eq, htag]
  constructor
  · rintro ⟨helement, hname⟩
    obtain ⟨n, hn, hkind⟩ := satisfies_eq_true_iff.mp helement
    have hkind : n.kind = .element := by simpa [Node.isElement] using hkind
    rw [tagName, hn] at hname
    simpa [isNamed, satisfies, hn, Node.isNamed, hkind] using
      Text.eqIgnoringCase_of_lower hname hascii hkelvin
  · exact fun h => ⟨isElement_of_isNamed h htoken, tagName_of_isNamed h htoken hascii⟩

/-- An element that has the tag of a block for its name is no inline node. -/
theorem isInline_eq_false_of_isNamed (h : d.isNamed i token = true)
    (htoken : namesText token = false) (hascii : Text.isAscii token = true)
    (hblock : isBlockTag (Text.foldAscii token) = true) : d.isInline i = false := by
  rw [isInline, isText_eq_false_of_isNamed h htoken, tagName_of_isNamed h htoken hascii, hblock,
    Bool.not_true, Bool.and_false]
  rfl

/-- Tokens that name the same node agree up to case. -/
theorem eqIgnoringCase_of_isNamed {other : Text} (h : d.isNamed i token = true)
    (hother : d.isNamed i other = true) : Text.eqIgnoringCase token other = true := by
  obtain ⟨n, hn, hnamed⟩ := satisfies_eq_true_iff.mp h
  obtain ⟨n', hn', hnamed'⟩ := satisfies_eq_true_iff.mp hother
  rw [hn] at hn'
  cases hn'
  unfold Node.isNamed at hnamed hnamed'
  cases hkind : n.kind with
  | text =>
    simp only [hkind, Text.eqIgnoringCase_iff] at hnamed hnamed'
    rw [Text.eqIgnoringCase_iff, hnamed, hnamed']
  | element =>
    simp only [hkind, Text.eqIgnoringCase_iff] at hnamed hnamed'
    rw [Text.eqIgnoringCase_iff, ← hnamed, hnamed']
  | document =>
    rw [hkind] at hnamed
    cases hnamed

/-- A token that differs by more than case does not name the node as well. -/
theorem isNamed_eq_false_of_isNamed {other : Text} (h : d.isNamed i token = true)
    (hdiffers : Text.eqIgnoringCase token other = false) : d.isNamed i other = false := by
  cases hother : d.isNamed i other with
  | false => rfl
  | true => exact (eqIgnoringCase_of_isNamed h hother).symm.trans hdiffers

end TreeMarkdown.Document
