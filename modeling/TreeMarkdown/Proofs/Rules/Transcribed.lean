/-
Conversion of a document that stands in another one.

The copy of a node resembles the node (`Transcribes.resembles`): each observation that a
converter makes is either of the node itself, or of its parent, its ancestors and the elements
below it, which all have copies. So the recursion over `d'` is one over `d` as well, if all
pieces of a node are read together (`Transcribes.recursion`); only the text nodes that are cut
have to be looked at by themselves. If none is, the place in `d'` holds what the document holds
(`Transcribes.flatMap_content`).
-/

import Mathlib.Data.List.Find
import TreeMarkdown.Proofs.Document.Transcription
import TreeMarkdown.Proofs.Rules.Resemblance

namespace TreeMarkdown

open Markdown

namespace Document.Transcribes

variable {d d' : Document} {f : Nat → Nat} {pieces : Nat → List Nat} {p q c x y : Nat}

/-- Copies of different nodes are different. -/
theorem copy_injective (h : Transcribes d d' f pieces) (hc : c ∈ d.children p)
    (hcopied : IsCopied d d' f pieces c) (hx : x ∈ d.children q)
    (hcopiedx : IsCopied d d' f pieces x) (heq : f x = f c) : x = c :=
  h.eq_of_mem_pieces hx hc hcopiedx.mem_pieces (heq ▸ hcopied.mem_pieces)

theorem map_beq_some (h : Transcribes d d' f pieces) (hc : c ∈ d.children p)
    (hcopied : IsCopied d d' f pieces c) {found : Option Nat}
    (hfound : ∀ x, found = some x → ∃ q, x ∈ d.elementChildren q) :
    (found.map f == some (f c)) = (found == some c) := by
  cases found with
  | none => rfl
  | some x =>
    obtain ⟨q, hx⟩ := hfound x rfl
    obtain ⟨hxq, hcopiedx⟩ := h.exists_copied_of_mem_elementChildren hx
    rw [Option.map_some, Bool.eq_iff_iff, beq_iff_eq, beq_iff_eq, Option.some_inj,
      Option.some_inj]
    exact ⟨h.copy_injective hc hcopied hxq hcopiedx, fun heq => heq ▸ rfl⟩

/-! ### The parent -/

theorem hasTag_root {tag : String} (h : Transcribes d d' f pieces) (htag : tag ∈ soughtTags) :
    d.hasTag tag root = false ∧ d'.hasTag tag (f root) = false :=
  ⟨(isNeutral_root h.reachable).not_hasTag tag htag,
    (h.neutral (f root) List.mem_cons_self).not_hasTag tag htag⟩

/-- A parent is copied, unless it is the root. -/
theorem exists_copied_parent (h : Transcribes d d' f pieces) (hc : c ∈ d.children p)
    (hp : p ≠ root) : ∃ q, p ∈ d.children q ∧ IsCopied d d' f pieces p := by
  obtain ⟨q, hq⟩ := exists_parent (lt_size_of_children hc) hp
  have hpq := mem_children_iff.mpr hq
  exact ⟨q, hpq, h.copied_of_not_isText hpq (h.isText_parent hc)⟩

theorem hasTag_parent (h : Transcribes d d' f pieces) (hc : c ∈ d.children p) {tag : String}
    (htag : tag ∈ soughtTags) : d'.hasTag tag (f p) = d.hasTag tag p := by
  by_cases hp : p = root
  · obtain ⟨hroot, hroot'⟩ := h.hasTag_root htag
    rw [hp, hroot, hroot']
  · obtain ⟨q, hpq, hcopied⟩ := h.exists_copied_parent hc hp
    exact h.hasTag_piece hpq hcopied.mem_pieces tag

theorem elementChildren_parent (h : Transcribes d d' f pieces) (hc : c ∈ d.children p) :
    d'.elementChildren (f p) = (d.elementChildren p).map f :=
  h.elementChildren_copy (h.children_of_mem hc)

theorem hasTag_element (h : Transcribes d d' f pieces) {tag : String} :
    ∀ x ∈ d.elementChildren p, d'.hasTag tag (f x) = d.hasTag tag x := by
  intro x hx
  obtain ⟨hmem, hcopied⟩ := h.exists_copied_of_mem_elementChildren hx
  exact h.hasTag_piece hmem hcopied.mem_pieces tag

/-! ### Items -/

theorem itemsBefore_copy (h : Transcribes d d' f pieces) (hc : c ∈ d.children p)
    (hcopied : IsCopied d d' f pieces c) :
    itemsBefore d' (f p) (f c) = itemsBefore d p c := by
  have hsome : ∀ l : List Nat, (∀ x ∈ l, x ∈ d.elementChildren p) →
      (((l.map f).takeWhile (· != f c)).filter (d'.hasTag "li")).length =
        ((l.takeWhile (· != c)).filter (d.hasTag "li")).length := by
    intro l hl
    induction l with
    | nil => rfl
    | cons x l ih =>
      have hx := hl x List.mem_cons_self
      obtain ⟨hxp, hcopiedx⟩ := h.exists_copied_of_mem_elementChildren hx
      have ih := ih fun y hy => hl y (List.mem_cons_of_mem x hy)
      by_cases heq : x = c
      · subst heq
        rw [List.map_cons, List.takeWhile_cons_of_neg (by simp),
          List.takeWhile_cons_of_neg (by simp)]
        rfl
      · have hne : f x ≠ f c := fun hfx => heq (h.copy_injective hc hcopied hxp hcopiedx hfx)
        rw [List.map_cons, List.takeWhile_cons_of_pos (by simpa using hne),
          List.takeWhile_cons_of_pos (by simpa using heq), List.filter_cons, List.filter_cons,
          h.hasTag_element x hx]
        split
        · rw [List.length_cons, List.length_cons, ih]
        · exact ih
  rw [itemsBefore, itemsBefore, h.elementChildren_parent hc]
  exact hsome _ fun x hx => hx

theorem listMarker_copy (h : Transcribes d d' f pieces) (hc : c ∈ d.children p)
    (hcopied : IsCopied d d' f pieces c) (bullet : Char) :
    listMarker d' bullet (f c) = listMarker d bullet c := by
  have hol : "ol" ∈ soughtTags := by decide
  rw [listMarker, listMarker, h.parent?_piece hc hcopied.mem_pieces,
    parent_of_mem_children hc, Option.filter_some, Option.filter_some, h.hasTag_parent hc hol]
  cases hlist : d.hasTag "ol" p with
  | false => rfl
  | true =>
    have hp : p ≠ root := by
      rintro rfl
      rw [(h.hasTag_root hol).1] at hlist
      cases hlist
    obtain ⟨q, hpq, hcopiedp⟩ := h.exists_copied_parent hc hp
    simp only [if_true, h.itemsBefore_copy hc hcopied, listStart,
      h.attribute?_piece hpq hcopiedp.mem_pieces]

/-- A text is blank if all its pieces are. -/
theorem isBlankText_iff (h : Transcribes d d' f pieces) (hc : c ∈ d.children p) :
    isBlankText d c = true ↔ ∀ y ∈ pieces c, isBlankText d' y = true := by
  rcases h.node_of_mem hc with hcopied | hcut
  · rw [hcopied.pieces_eq, List.forall_mem_singleton, isBlankText, isBlankText,
      h.isText_piece hc hcopied.mem_pieces, ownText_copy hcopied]
  · have hblank : ∀ t : Text, (Text.trim t).isEmpty = true ↔ ∀ x ∈ t, Text.isSpace x = true := by
      intro t
      rw [List.isEmpty_iff]
      exact Text.stripBy_eq_nil_iff
    rw [isBlankText, hcut.isText, Bool.true_and, hblank, ← hcut.ownText]
    constructor
    · intro hall y hy
      rw [isBlankText, h.isText_piece hc hy, hcut.isText, Bool.true_and, hblank]
      intro x hx
      exact hall x (List.mem_flatMap.mpr ⟨y, hy, hx⟩)
    · intro hall x hx
      obtain ⟨y, hy, hxy⟩ := List.mem_flatMap.mp hx
      have hy := hall y hy
      rw [isBlankText, Bool.and_eq_true, hblank] at hy
      exact hy.2 x hxy

/-- The first node that is not blank text has the first piece that is not. -/
theorem find?_not_blank (h : Transcribes d d' f pieces) {l : List Nat}
    (hl : ∀ x ∈ l, x ∈ d.children p) :
    (l.find? (!isBlankText d ·) = none ∧ (l.flatMap pieces).find? (!isBlankText d' ·) = none) ∨
      ∃ x y, x ∈ d.children p ∧ y ∈ pieces x ∧ l.find? (!isBlankText d ·) = some x ∧
        (l.flatMap pieces).find? (!isBlankText d' ·) = some y := by
  induction l with
  | nil => exact Or.inl ⟨rfl, rfl⟩
  | cons x l ih =>
    have hx := hl x List.mem_cons_self
    rw [List.flatMap_cons, List.find?_append]
    cases hblank : isBlankText d x with
    | true =>
      have hnone : (pieces x).find? (!isBlankText d' ·) = none := by
        rw [List.find?_eq_none]
        intro y hy
        rw [(h.isBlankText_iff hx).mp hblank y hy]
        decide
      rw [List.find?_cons_of_neg (by rw [hblank]; decide), hnone, Option.none_or]
      exact ih fun y hy => hl y (List.mem_cons_of_mem x hy)
    | false =>
      obtain ⟨y, hy⟩ : ∃ y, (pieces x).find? (!isBlankText d' ·) = some y := by
        rw [← Option.isSome_iff_exists, List.find?_isSome]
        by_contra hnone
        push Not at hnone
        rw [(h.isBlankText_iff hx).mpr fun y hy => by simpa using hnone y hy] at hblank
        cases hblank
      refine Or.inr ⟨x, y, hx, List.mem_of_find?_eq_some hy, ?_, ?_⟩
      · exact List.find?_cons_of_pos (by rw [hblank]; rfl)
      · rw [hy, Option.some_or]

theorem taskState?_copy (h : Transcribes d d' f pieces) (hc : c ∈ d.children p)
    (hcopied : IsCopied d d' f pieces c) : taskState? d' (f c) = taskState? d c := by
  rw [taskState?, taskState?, h.children_copy hc hcopied]
  rcases h.find?_not_blank (fun x hx => hx) with ⟨hnone, hnone'⟩ | ⟨x, y, hx, hy, hsome, hsome'⟩
  · rw [hnone, hnone']
    rfl
  · have hbox : isCheckbox d' y = isCheckbox d x := by
      rw [isCheckbox, isCheckbox, h.hasTag_piece hx hy, h.attribute?_piece hx hy]
    rw [hsome, hsome', Option.filter_some, Option.filter_some, hbox]
    cases isCheckbox d x with
    | false => rfl
    | true => simp only [if_true, hasAttribute, h.attribute?_piece hx hy]

/-! ### Code -/

theorem codeLanguage_copy (h : Transcribes d d' f pieces) (hc : c ∈ d.children p)
    (hcopied : IsCopied d d' f pieces c) : codeLanguage d' (f c) = codeLanguage d c := by
  simp only [codeLanguage, h.attribute?_piece hc hcopied.mem_pieces]

theorem inheritedLanguage_copy (h : Transcribes d d' f pieces) (hc : c ∈ d.children p)
    (hcopied : IsCopied d d' f pieces c) (hinner : d.innerAncestors c ≠ []) :
    inheritedLanguage d' (f c) = inheritedLanguage d c := by
  have hp : p ≠ root := by
    rintro rfl
    exact hinner (innerAncestors_of_parent_root (parent_of_mem_children hc))
  obtain ⟨q, hpq, hcopiedp⟩ := h.exists_copied_parent hc hp
  rw [inheritedLanguage, inheritedLanguage, h.codeLanguage_copy hc hcopied,
    h.parent?_piece hc hcopied.mem_pieces, parent_of_mem_children hc, Option.elim_some,
    Option.elim_some, h.codeLanguage_copy hpq hcopiedp]

theorem any_hasTag_copy (h : Transcribes d d' f pieces) (hc : c ∈ d.children p)
    (hcopied : IsCopied d d' f pieces c) (tag : String) :
    (d'.elementChildren (f c)).any (d'.hasTag tag) =
      (d.elementChildren c).any (d.hasTag tag) := by
  rw [h.elementChildren_copy (h.children_copy hc hcopied), List.any_map, Bool.eq_iff_iff,
    List.any_eq_true, List.any_eq_true]
  constructor
  · rintro ⟨x, hx, htag⟩
    exact ⟨x, hx, (h.hasTag_element x hx).symm.trans htag⟩
  · rintro ⟨x, hx, htag⟩
    exact ⟨x, hx, (h.hasTag_element x hx).trans htag⟩

/-! ### Tables -/

theorem filter_map_copy {q q' : Nat → Bool} {l : List Nat} (hq : ∀ x ∈ l, q' (f x) = q x) :
    (l.map f).filter q' = (l.filter q).map f := by
  rw [List.filter_map]
  exact congrArg _ (List.filter_congr hq)

theorem separatorRow_copy (h : Transcribes d d' f pieces) (hc : c ∈ d.children p)
    (hcopied : IsCopied d d' f pieces c) : separatorRow d' (f c) = separatorRow d c := by
  have hcell : ∀ x ∈ d.elementChildren c, isCell d' (f x) = isCell d x := by
    intro x hx
    rw [isCell, isCell, h.hasTag_element x hx, h.hasTag_element x hx]
  have hmark : ∀ x ∈ (d.elementChildren c).filter (isCell d),
      separatorCell d' (f x) = separatorCell d x := by
    intro x hx
    obtain ⟨hmem, hcopiedx⟩ :=
      h.exists_copied_of_mem_elementChildren (List.mem_filter.mp hx).1
    rw [separatorCell, separatorCell, h.attribute?_piece hmem hcopiedx.mem_pieces]
  rw [separatorRow, separatorRow, h.elementChildren_copy (h.children_copy hc hcopied),
    filter_map_copy hcell, List.flatMap_map, List.flatMap_congr hmark]

theorem ownRows_copy (h : Transcribes d d' f pieces)
    (hchildren : d'.elementChildren (f p) = (d.elementChildren p).map f) :
    ownRows d' (f p) = (ownRows d p).map f := by
  rw [ownRows, ownRows, hchildren]
  exact filter_map_copy h.hasTag_element

theorem tableRows_copy (h : Transcribes d d' f pieces) (hc : c ∈ d.children p)
    (hcopied : IsCopied d d' f pieces c) : tableRows d' (f c) = (tableRows d c).map f := by
  rw [tableRows, tableRows, h.elementChildren_copy (h.children_copy hc hcopied),
    List.flatMap_map, List.map_flatMap]
  apply List.flatMap_congr
  intro x hx
  obtain ⟨hmem, hcopiedx⟩ := h.exists_copied_of_mem_elementChildren hx
  have hrows := h.ownRows_copy (h.elementChildren_copy (h.children_copy hmem hcopiedx))
  have hgroup : isRowGroup d' (f x) = isRowGroup d x := by
    simp only [isRowGroup, h.hasTag_element x hx]
  rw [h.hasTag_element x hx, hgroup, hrows]
  cases d.hasTag "tr" x with
  | true => rfl
  | false => cases isRowGroup d x <;> rfl

theorem mem_ownRows (hx : x ∈ ownRows d p) : x ∈ d.elementChildren p :=
  (List.mem_filter.mp hx).1

/-- The rows of a table are elements below it or below a row group. -/
theorem exists_of_mem_tableRows (hx : x ∈ tableRows d c) : ∃ q, x ∈ d.elementChildren q := by
  obtain ⟨e, he, hx⟩ := List.mem_flatMap.mp hx
  split at hx
  · exact ⟨c, List.mem_singleton.mp hx ▸ he⟩
  · split at hx
    · exact ⟨e, mem_ownRows hx⟩
    · cases hx

/-- The nearest table above a copy is the copy of the nearest table. -/
theorem find?_table (h : Transcribes d d' f pieces) (hc : c ∈ d.children p)
    (hcopied : IsCopied d d' f pieces c) :
    (d'.ancestors (f c)).find? (d'.hasTag "table") =
      ((d.ancestors c).find? (d.hasTag "table")).map f := by
  have htable : "table" ∈ soughtTags := by decide
  have habove : (d'.ancestors (f root)).find? (d'.hasTag "table") = none := by
    rw [List.find?_eq_none]
    intro a ha
    rw [(h.neutral a (List.mem_cons_of_mem _ ha)).not_hasTag "table" htable]
    decide
  have hsame : ∀ a ∈ d.ancestors c, (d'.hasTag "table" ∘ f) a = d.hasTag "table" a := by
    intro a ha
    rw [ancestors_eq_innerAncestors hc, List.mem_append, List.mem_singleton] at ha
    rcases ha with ha | rfl
    · obtain ⟨q, haq, hcopieda⟩ := h.exists_copied_of_mem_innerAncestors hc ha
      exact h.hasTag_piece haq hcopieda.mem_pieces "table"
    · obtain ⟨hroot, hroot'⟩ := h.hasTag_root htable
      rw [Function.comp_apply, hroot, hroot']
  rw [h.ancestors_piece hc hcopied.mem_pieces, List.find?_append, habove, Option.or_none,
    List.find?_map, List.find?_congr hsame]

theorem isHeaderRow_copy (h : Transcribes d d' f pieces) (hc : c ∈ d.children p)
    (hcopied : IsCopied d d' f pieces c) : isHeaderRow d' (f c) = isHeaderRow d c := by
  have hthead : "thead" ∈ soughtTags := by decide
  simp only [isHeaderRow, h.parent?_piece hc hcopied.mem_pieces, parent_of_mem_children hc,
    h.hasTag_parent hc hthead, h.find?_table hc hcopied]
  cases d.hasTag "thead" p with
  | true =>
    simp only [if_true]
    rw [h.ownRows_copy (h.elementChildren_parent hc), List.getLast?_map]
    exact h.map_beq_some hc hcopied fun x hx => ⟨p, mem_ownRows (List.mem_of_getLast? hx)⟩
  | false =>
    simp only [Bool.false_eq_true, if_false]
    cases htable : (d.ancestors c).find? (d.hasTag "table") with
    | none => rfl
    | some t =>
      have ht : t ∈ d.innerAncestors c := by
        have hmem := List.mem_of_find?_eq_some htable
        rw [ancestors_eq_innerAncestors hc, List.mem_append, List.mem_singleton] at hmem
        rcases hmem with hmem | rfl
        · exact hmem
        · have hroot := (h.hasTag_root (show "table" ∈ soughtTags by decide)).1
          rw [List.find?_some htable] at hroot
          cases hroot
      obtain ⟨q, htq, hcopiedt⟩ := h.exists_copied_of_mem_innerAncestors hc ht
      simp only [Option.map_some, h.any_hasTag_copy htq hcopiedt, h.tableRows_copy htq hcopiedt,
        List.head?_map]
      rw [h.map_beq_some hc hcopied fun x hx => exists_of_mem_tableRows (List.mem_of_head? hx)]

/-! ### The conversion -/

/-- A copy is for the converters of the flavours like its node. -/
theorem resembles (h : Transcribes d d' f pieces) (hc : c ∈ d.children p)
    (hcopied : IsCopied d d' f pieces c) : Resembles d c d' (f c) where
  isMatch := fun _ hkeys _ hs => h.isMatch_piece hc hcopied.mem_pieces hkeys hs
  tagName := h.tagName_piece hc hcopied.mem_pieces
  value? := by rw [value?, value?, hcopied.node?_eq]
  attribute? := h.attribute?_piece hc hcopied.mem_pieces
  textContent := by
    have htext := h.flatMap_subtreeText hc
    rw [hcopied.pieces_eq, List.flatMap_singleton] at htext
    rw [textContent_eq, textContent_eq, htext]
  spaceBefore := fun hraw => h.spaceBefore_piece hc hraw (by rw [hcopied.pieces_eq]; rfl)
  spaceAfter := fun hraw => h.spaceAfter_piece hc hraw (by rw [hcopied.pieces_eq]; rfl)
  listMarker := h.listMarker_copy hc hcopied
  taskState? := h.taskState?_copy hc hcopied
  holdsCode := h.any_hasTag_copy hc hcopied "code"
  inheritedLanguage := h.inheritedLanguage_copy hc hcopied
  isHeaderRow := h.isHeaderRow_copy hc hcopied
  separatorRow := h.separatorRow_copy hc hcopied

/-- Read piece by piece, a recursion over `d'` is one over `d` at every node that is not
cut. -/
theorem recursion (h : Transcribes d d' f pieces) {flavour : Flavour} {o : Options}
    {R : Nat → Text} (hR : (flavour.renderer o).Writes d' R)
    (hc : c ∈ d.children p) (hcopied : IsCopied d d' f pieces c) :
    (flavour.renderer o).convert d c
        ((d.children c).flatMap fun x => (pieces x).flatMap R) =
      .ok ((pieces c).flatMap R) := by
  have hcopy := hR (f c)
  rw [Flavour.convert_congr (h.resembles hc hcopied), h.children_copy hc hcopied,
    List.flatMap_assoc] at hcopy
  rw [hcopied.pieces_eq, List.flatMap_singleton]
  exact hcopy

/-- If the pieces of each text node below a node that is cut give what the node gives, so do the
pieces of the node. -/
theorem flatMap_recursion (h : Transcribes d d' f pieces) {flavour : Flavour} {o : Options}
    {R R' : Nat → Text} (hR : (flavour.renderer o).Writes d R)
    (hR' : (flavour.renderer o).Writes d' R')
    (hcut : ∀ p, ∀ x ∈ d.children p, x ∈ d.preorder c → ¬ IsCopied d d' f pieces x →
      (pieces x).flatMap R' = R x)
    (hc : c ∈ d.children p) : (pieces c).flatMap R' = R c := by
  induction c using d.childrenInduction generalizing p with
  | step c ih =>
    by_cases hcopied : IsCopied d d' f pieces c
    · have hbelow : ∀ x ∈ d.children c, (pieces x).flatMap R' = R x := by
        intro x hx
        refine ih x hx ?_ hx
        intro q y hy hmem
        refine hcut q y hy ?_
        rw [preorder_eq]
        exact List.mem_cons_of_mem c (List.mem_flatMap.mpr ⟨x, hx, hmem⟩)
      have hwritten := h.recursion hR' hc hcopied
      rw [List.flatMap_congr hbelow, hR c] at hwritten
      exact (Except.ok.inj hwritten).symm
    · exact hcut p c hc (self_mem_preorder d c) hcopied

/-- If nothing is cut, the place holds what the document holds. -/
theorem flatMap_content (h : Transcribes d d' f pieces) {flavour : Flavour} {o : Options}
    {R R' : Nat → Text} (hall : ∀ c < d.size, c ≠ root → IsCopied d d' f pieces c)
    (hR : (flavour.renderer o).Writes d R) (hR' : (flavour.renderer o).Writes d' R') :
    (d'.children (f root)).flatMap R' = (d.children root).flatMap R := by
  rw [h.children_eq root d.isTree.size_pos d.isText_root, List.flatMap_assoc]
  apply List.flatMap_congr
  intro c hc
  refine h.flatMap_recursion hR hR' ?_ hc
  intro p x hx _ hnot
  exact absurd (hall x (lt_size_of_mem_children hx) (ne_root_of_mem_children hx)) hnot

end Document.Transcribes

end TreeMarkdown
