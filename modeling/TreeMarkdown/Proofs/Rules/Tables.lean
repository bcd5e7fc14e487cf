/-
Tables, line by line whatever is in their cells.

A table holds rows and row groups, a group rows, a row cells, and between them there may be blank
text (`IsTable`); what a cell holds is left open. Three rules write it that know nothing of each
other: a cell closes itself with a bar, a row puts a bar in front and a newline behind and adds
the separator if it is the header, and the table takes the newlines off both ends. Blank text
comes to nothing there, for all that may stand beside it are blocks (`Flavour.write_blank`). So a
row writes its line and the separator (`Flavour.write_row`), and what stands in a table is the
lines of its rows in document order, whether they are its own or those of a group
(`Document.rowsOf_eq`).
-/

import Mathlib.Data.List.Chain
import TreeMarkdown.Proofs.Markdown.Tabling
import TreeMarkdown.Proofs.Rules.Extension
import TreeMarkdown.Proofs.Rules.TextNodes

namespace TreeMarkdown

open Text Markdown

namespace Document

/-! ### Tables -/

/-- The tags of row groups. -/
def groupTags : List Text :=
  ["THEAD".toList, "TBODY".toList, "TFOOT".toList]

/-- The tags of cells. -/
def cellTags : List Text :=
  ["TH".toList, "TD".toList]

/-- Node `i` is a row. -/
def isRow (d : Document) (i : Nat) : Bool :=
  d.isNamed i "TR".toList

/-- Node `i` is a row group. -/
def isGroup (d : Document) (i : Nat) : Bool :=
  groupTags.any (d.isNamed i ·)

/-- Node `i` is a cell. -/
def isCellOfRow (d : Document) (i : Nat) : Bool :=
  cellTags.any (d.isNamed i ·)

/-- Node `i` is a row of table `t` itself or of one of its row groups. -/
def isRowOf (d : Document) (t i : Nat) : Bool :=
  d.isRow i && (d.parent? i).any fun p => p == t || (d.isGroup p && d.parent? p == some t)

/-- The rows of table `t` in document order. -/
def rowsOf (d : Document) (t : Nat) : List Nat :=
  (d.preorder t).filter (d.isRowOf t)

/-- The cells of row `r`. -/
def cellsOf (d : Document) (r : Nat) : List Nat :=
  (d.children r).filter d.isCellOfRow

/-- Node `p` holds nothing but parts of one kind, and blank text; no two text nodes stand side by
side. -/
structure HoldsOnly (d : Document) (part : Nat → Bool) (p : Nat) : Prop where
  part_or_blank : ∀ c ∈ d.children p, part c = true ∨ isBlankText d c = true
  separate : (d.children p).IsChain fun a b => ¬(d.isText a = true ∧ d.isText b = true)

instance (d : Document) (part : Nat → Bool) (p : Nat) : Decidable (d.HoldsOnly part p) :=
  decidable_of_iff
    ((∀ c ∈ d.children p, part c = true ∨ isBlankText d c = true) ∧
      (d.children p).IsChain fun a b => ¬(d.isText a = true ∧ d.isText b = true))
    ⟨fun ⟨hparts, hseparate⟩ => ⟨hparts, hseparate⟩, fun h => ⟨h.part_or_blank, h.separate⟩⟩

/-- Node `t` is a table outside preformatted text and code. It has at least one row and holds
nothing but rows and row groups, its groups nothing but rows and its rows nothing but cells. -/
structure IsTable (d : Document) (t : Nat) : Prop where
  reachable : d.Reachable
  named : d.isNamed t "TABLE".toList = true
  not_raw : d.isRaw t = false
  has_row : d.rowsOf t ≠ []
  table : d.HoldsOnly (fun c => d.isRow c || d.isGroup c) t
  group : ∀ g ∈ d.children t, d.isGroup g = true → d.HoldsOnly d.isRow g
  row : ∀ r ∈ d.rowsOf t, d.HoldsOnly d.isCellOfRow r

variable {d : Document} {part : Nat → Bool} {a b c g i p r t : Nat}

/-! ### Kinds of nodes -/

/-- The tags of tables and their parts. -/
def tableTags : List Text :=
  "TABLE".toList :: "TR".toList :: (groupTags ++ cellTags)

/-- Node `i` is a table or a part of one. -/
def isTabular (d : Document) (i : Nat) : Bool :=
  tableTags.any (d.isNamed i ·)

theorem isTabular_of_isNamed {tag : Text} (htag : tag ∈ tableTags)
    (h : d.isNamed i tag = true) : d.isTabular i = true :=
  List.any_eq_true.mpr ⟨tag, htag, h⟩

theorem isTabular_of_isRow (h : d.isRow i = true) : d.isTabular i = true :=
  isTabular_of_isNamed (by decide) h

theorem isTabular_of_isGroup (h : d.isGroup i = true) : d.isTabular i = true := by
  obtain ⟨tag, htag, hnamed⟩ := List.any_eq_true.mp h
  exact isTabular_of_isNamed (by simp [tableTags, htag]) hnamed

theorem isTabular_of_isCellOfRow (h : d.isCellOfRow i = true) : d.isTabular i = true := by
  obtain ⟨tag, htag, hnamed⟩ := List.any_eq_true.mp h
  exact isTabular_of_isNamed (by simp [tableTags, htag]) hnamed

/-- Tables and their parts are blocks. -/
theorem isInline_eq_false_of_isTabular (h : d.isTabular i = true) : d.isInline i = false := by
  obtain ⟨tag, htag, hnamed⟩ := List.any_eq_true.mp h
  have hall : ∀ tag ∈ tableTags, namesText tag = false ∧ isAscii tag = true ∧
      isBlockTag (foldAscii tag) = true := by
    decide
  obtain ⟨htext, hascii, hblock⟩ := hall tag htag
  exact isInline_eq_false_of_isNamed hnamed htext hascii hblock

/-- A table or a part of one makes nothing below it preformatted text or code. -/
theorem isRaw_of_isTabular (h : d.isTabular p = true) (hc : c ∈ d.children p) :
    d.isRaw c = d.isRaw p := by
  obtain ⟨tag, htag, hnamed⟩ := List.any_eq_true.mp h
  have hother : ∀ token ∈ ["PRE".toList, "CODE".toList], d.isNamed p token = false := by
    have hall : ∀ token ∈ ["PRE".toList, "CODE".toList], ∀ tag ∈ tableTags,
        Text.eqIgnoringCase tag token = false := by
      decide
    exact fun token htoken => isNamed_eq_false_of_isNamed hnamed (hall token htoken tag htag)
  rw [isRaw, innerAncestors_of_parent (parent_of_mem_children hc) (ne_root_of_isNamed hnamed),
    List.any_cons, hother _ (by simp), hother _ (by simp)]
  rfl

/-- A row is no row group. -/
theorem isGroup_eq_false_of_isRow (h : d.isRow i = true) : d.isGroup i = false := by
  have hother : ∀ tag ∈ groupTags, Text.eqIgnoringCase "TR".toList tag = false := by
    decide
  refine List.any_eq_false.mpr ?_
  intro tag htag
  rw [isNamed_eq_false_of_isNamed h (hother tag htag)]
  exact Bool.false_ne_true

theorem isText_of_isBlankText (h : isBlankText d i = true) : d.isText i = true :=
  (Bool.and_eq_true_iff.mp h).1

/-- The cells of a row are the elements in it that have one of the two tags. -/
theorem HoldsOnly.filter_isCell (h : d.HoldsOnly d.isCellOfRow r) :
    (d.elementChildren r).filter (isCell d) = d.cellsOf r := by
  have hcells : ∀ tag ∈ cellTags, namesText tag = false ∧ isAscii tag = true ∧
      (foldAscii tag = "th".toList ∨ foldAscii tag = "td".toList) := by
    decide
  rw [elementChildren, List.filter_filter, cellsOf]
  refine List.filter_congr ?_
  intro c hc
  cases hcell : d.isCellOfRow c with
  | true =>
    obtain ⟨tag, htag, hnamed⟩ := List.any_eq_true.mp hcell
    obtain ⟨htext, hascii, hname⟩ := hcells tag htag
    have htagged : isCell d c = true := by
      rw [← tagName_of_isNamed hnamed htext hascii] at hname
      simpa [isCell, hasTag] using hname
    rw [htagged, isElement_of_isNamed hnamed htext]
    rfl
  | false =>
    have hblank := (h.part_or_blank c hc).resolve_left (by simp [hcell])
    rw [isElement_eq_false_of_isText (isText_of_isBlankText hblank), Bool.and_false]

/-! ### The rows of a table -/

theorem isRowOf_of_parent (h : d.parent? i = some p) :
    d.isRowOf t i = (d.isRow i && (p == t || (d.isGroup p && d.parent? p == some t))) := by
  rw [isRowOf, h]
  rfl

theorem isRowOf_child (hc : c ∈ d.children t) : d.isRowOf t c = d.isRow c := by
  rw [isRowOf_of_parent (parent_of_mem_children hc), beq_self_eq_true, Bool.true_or,
    Bool.and_true]

theorem isRowOf_grandchild (hg : g ∈ d.children t) (hc : c ∈ d.children g) :
    d.isRowOf t c = (d.isRow c && d.isGroup g) := by
  have hne : (g == t) = false := by simpa using Nat.ne_of_gt (lt_of_mem_children hg)
  rw [isRowOf_of_parent (parent_of_mem_children hc), parent_of_mem_children hg, hne,
    beq_self_eq_true, Bool.false_or, Bool.and_true]

/-- A row has the table for its parent or its parent's parent. -/
theorem isRowOf_eq_false_of_parent (h : d.parent? i = some p) (hne : p ≠ t)
    (hparent : d.parent? p ≠ some t) : d.isRowOf t i = false := by
  rw [isRowOf_of_parent h, beq_eq_false_iff_ne.mpr hne, beq_eq_false_iff_ne.mpr hparent,
    Bool.and_false, Bool.or_false, Bool.and_false]

theorem isRowOf_self (d : Document) (t : Nat) : d.isRowOf t t = false := by
  cases hp : d.parent? t with
  | none =>
    rw [isRowOf, hp]
    exact Bool.and_false _
  | some p =>
    have hlt := parent_lt hp
    exact isRowOf_eq_false_of_parent hp (Nat.ne_of_lt hlt) fun hpt =>
      Nat.lt_asymm hlt (parent_lt hpt)

/-- Nothing further down is a row of the table. -/
theorem isRowOf_eq_false (hg : g ∈ d.children t) (hc : c ∈ d.children g)
    (hi : c ∈ d.ancestors i) : d.isRowOf t i = false := by
  obtain ⟨p, hp, hcp⟩ := mem_ancestors_iff.mp hi
  have hgc : g ∈ d.ancestors c := mem_ancestors_of_mem_children hc
  have hgp : g ∈ d.ancestors p := by
    rcases hcp with rfl | hcp
    · exact hgc
    · exact mem_ancestors_trans hgc hcp
  have htg := lt_of_mem_children hg
  refine isRowOf_eq_false_of_parent hp ?_ ?_
  · exact Nat.ne_of_gt (Nat.lt_trans htg (lt_of_mem_ancestors hgp))
  · intro hpt
    rw [ancestors_of_parent hpt] at hgp
    rcases List.mem_cons.mp hgp with rfl | hgt
    · exact Nat.lt_irrefl _ htg
    · exact Nat.lt_asymm htg (lt_of_mem_ancestors hgt)

/-- The rows in the subtree of a child of a table: the child, or the rows that a group holds. -/
theorem filter_isRowOf_preorder (hc : c ∈ d.children t) :
    (d.preorder c).filter (d.isRowOf t) =
      if d.isRow c then [c] else if d.isGroup c then (d.children c).filter d.isRow else [] := by
  have hbelow : ∀ x ∈ d.children c,
      (d.preorder x).filter (d.isRowOf t) = [x].filter fun x => d.isRow x && d.isGroup c := by
    intro x hx
    have hnone : ((d.children x).flatMap d.preorder).filter (d.isRowOf t) = [] := by
      refine List.filter_eq_nil_iff.mpr ?_
      intro i hi
      rw [isRowOf_eq_false hc hx (mem_ancestors_of_mem_below hi)]
      exact Bool.false_ne_true
    rw [preorder_eq, List.filter_cons, List.filter_cons, hnone, isRowOf_grandchild hc hx,
      List.filter_nil]
  have hrest : ((d.children c).flatMap d.preorder).filter (d.isRowOf t) =
      (d.children c).filter fun x => d.isRow x && d.isGroup c := by
    rw [List.filter_flatMap, List.flatMap_congr hbelow, ← List.filter_flatMap,
      List.flatMap_singleton']
  rw [preorder_eq, List.filter_cons, hrest, isRowOf_child hc]
  cases hrow : d.isRow c with
  | true => simp [isGroup_eq_false_of_isRow hrow]
  | false => cases d.isGroup c <;> simp

/-- In document order the rows are those that the children of the table are or hold. -/
theorem rowsOf_eq (d : Document) (t : Nat) :
    d.rowsOf t = (d.children t).flatMap fun c =>
      if d.isRow c then [c] else if d.isGroup c then (d.children c).filter d.isRow else [] := by
  rw [rowsOf, preorder_eq, List.filter_cons_of_neg (by rw [isRowOf_self]; exact Bool.false_ne_true),
    List.filter_flatMap]
  exact List.flatMap_congr fun c hc => filter_isRowOf_preorder hc

theorem isRow_of_mem_rowsOf (h : r ∈ d.rowsOf t) : d.isRow r = true :=
  (Bool.and_eq_true_iff.mp (List.mem_filter.mp h).2).1

theorem mem_rowsOf_of_child (hc : c ∈ d.children t) (hrow : d.isRow c = true) :
    c ∈ d.rowsOf t := by
  rw [rowsOf_eq]
  exact List.mem_flatMap.mpr ⟨c, hc, by simp [hrow]⟩

theorem mem_rowsOf_of_grandchild (hg : g ∈ d.children t) (hgroup : d.isGroup g = true)
    (hc : c ∈ d.children g) (hrow : d.isRow c = true) : c ∈ d.rowsOf t := by
  refine List.mem_filter.mpr ⟨?_, by rw [isRowOf_grandchild hg hc, hrow, hgroup]; rfl⟩
  exact mem_preorder_of_child (mem_preorder_of_child (self_mem_preorder d t) hg) hc

end Document

/-! ### What the rules write -/

/-- Where the others give nothing, the chosen members of a list are enough. -/
theorem flatMap_filter_of_eq_nil {α β : Type} {q : α → Bool} {f : α → List β} {l : List α}
    (h : ∀ x ∈ l, q x = false → f x = []) : (l.filter q).flatMap f = l.flatMap f := by
  induction l with
  | nil => rfl
  | cons x l ih =>
    have hrest := ih fun y hy => h y (List.mem_cons_of_mem x hy)
    cases hx : q x with
    | true => rw [List.filter_cons_of_pos hx, List.flatMap_cons, List.flatMap_cons, hrest]
    | false =>
      rw [List.filter_cons_of_neg (by simp [hx]), List.flatMap_cons, h x List.mem_cons_self hx,
        hrest, List.nil_append]

namespace Document

variable {d : Document} {R : Nat → Text}

/-- The line of row `r`, given what stands in its cells. -/
def rowLine (d : Document) (R : Nat → Text) (r : Nat) : Text :=
  barredLine ((d.cellsOf r).map fun c => (d.children c).flatMap R)

/-- The line below row `r`, if it is the header. -/
def separatorLine (d : Document) (r : Nat) : Text :=
  barredLine ((d.cellsOf r).map (columnMark d))

/-- The lines of row `r`. -/
def rowLines (d : Document) (R : Nat → Text) (r : Nat) : List Text :=
  d.rowLine R r :: if isHeaderRow d r then [d.separatorLine r] else []

/-- The lines of table `t`. -/
def tableLines (d : Document) (R : Nat → Text) (t : Nat) : List Text :=
  (d.rowsOf t).flatMap (d.rowLines R)

theorem exists_of_mem_rowLines {line : Text} {r : Nat} (h : line ∈ d.rowLines R r) :
    ∃ contents, line = barredLine contents := by
  rcases List.mem_cons.mp h with rfl | h
  · exact ⟨_, rfl⟩
  · split at h
    · exact ⟨_, List.mem_singleton.mp h⟩
    · cases h

theorem areLines_tableLines {t : Nat} (h : d.rowsOf t ≠ []) : AreLines (d.tableLines R t) := by
  have hbarred : ∀ line ∈ d.tableLines R t, ∃ contents, line = barredLine contents := by
    intro line hline
    obtain ⟨r, -, hline⟩ := List.mem_flatMap.mp hline
    exact exists_of_mem_rowLines hline
  constructor
  · obtain ⟨r, rest, hrows⟩ := List.exists_cons_of_ne_nil h
    rw [tableLines, hrows]
    exact List.cons_ne_nil _ _
  · intro line hline
    obtain ⟨contents, rfl⟩ := hbarred line hline
    exact List.cons_ne_nil _ _
  · intro line hline
    obtain ⟨contents, rfl⟩ := hbarred line hline
    exact newline_notMem_barredLine contents

end Document

namespace Flavour

open Document

variable {o : Options} {d : Document} {R : Nat → Text} {part : Nat → Bool} {c g p r t : Nat}

theorem places_table :
    (gitHub.hasChain ["TABLE".toList] = true ∧ gitHub.places "TABLE".toList 1 = [20]) ∧
      (gitHub.hasChain ["TR".toList] = true ∧ gitHub.places "TR".toList 1 = [21]) ∧
      (∀ tag ∈ cellTags, gitHub.hasChain [tag] = true ∧ gitHub.places tag 1 = [22]) ∧
      ∀ tag ∈ groupTags, gitHub.places tag 0 = [] := by
  simp only [hasChain_eq, places_eq]
  decide

theorem entries_table (o : Options) :
    (gitHub.entries o)[20]? = some ("TABLE".toList, GitHub.table) ∧
      (gitHub.entries o)[21]? = some ("TR".toList, GitHub.row) ∧
        (gitHub.entries o)[22]? = some ("TH, TD".toList, GitHub.cell) :=
  ⟨rfl, rfl, rfl⟩

/-- Blank text writes nothing where only blocks stand beside it. -/
theorem write_blank (hd : d.Reachable) (hR : (gitHub.renderer o).Writes d R)
    (h : d.HoldsOnly part p) (hblock : ∀ x, part x = true → d.isInline x = false)
    (hraw : d.isRaw c = false) (hc : c ∈ d.children p) (hblank : isBlankText d c = true) :
    R c = [] := by
  obtain ⟨htext, htrim⟩ := Bool.and_eq_true_iff.mp hblank
  obtain ⟨before, after, hsplit⟩ := List.append_of_mem hc
  have hneighbour : ∀ x ∈ d.children p, d.isText x ≠ true → d.isInline x = false := by
    intro x hx hnot
    refine hblock x ((h.part_or_blank x hx).resolve_right ?_)
    exact fun hx => hnot (isText_of_isBlankText hx)
  have hbefore : d.spaceBefore c = false := by
    rw [spaceBefore, previousSibling?_of_split hsplit]
    rcases List.eq_nil_or_concat before with rfl | ⟨init, x, rfl⟩
    · rfl
    · rw [List.concat_eq_append, List.append_assoc] at hsplit
      have hpair := (List.isChain_append_cons_cons.mp (hsplit ▸ h.separate)).2.1
      rw [List.concat_eq_append, List.getLast?_concat, Option.any_some,
        hneighbour x (by simp [hsplit]) fun hx => hpair ⟨hx, htext⟩, Bool.false_and]
  have hafter : d.spaceAfter c = false := by
    rw [spaceAfter, nextSibling?_of_split hsplit]
    cases after with
    | nil => rfl
    | cons x after =>
      have hpair := (List.isChain_append_cons_cons.mp (hsplit ▸ h.separate)).2.1
      rw [List.head?_cons, Option.any_some,
        hneighbour x (by simp [hsplit]) fun hx => hpair ⟨htext, hx⟩, Bool.false_and]
  rw [write_text hd hR htext, hraw, hbefore, hafter]
  exact flowed_eq_nil_iff.mpr (List.isEmpty_iff.mp htrim)

/-- So only the parts count. -/
theorem content_of_holdsOnly (hd : d.Reachable) (hR : (gitHub.renderer o).Writes d R)
    (h : d.HoldsOnly part p) (htabular : ∀ x, part x = true → d.isTabular x = true)
    (hp : d.isTabular p = true) (hraw : d.isRaw p = false) :
    (d.children p).flatMap R = ((d.children p).filter part).flatMap R := by
  refine (flatMap_filter_of_eq_nil ?_).symm
  intro c hc hnot
  refine write_blank hd hR h (fun x hx => isInline_eq_false_of_isTabular (htabular x hx)) ?_ hc
    ((h.part_or_blank c hc).resolve_left (by simp [hnot]))
  rw [isRaw_of_isTabular hp hc, hraw]

theorem write_cell (hR : (gitHub.renderer o).Writes d R)
    (hc : d.isCellOfRow c = true) : R c = Markdown.cell ((d.children c).flatMap R) := by
  obtain ⟨tag, htag, hnamed⟩ := List.any_eq_true.mp hc
  obtain ⟨hchain, hplaces⟩ := places_table.2.2.1 tag htag
  exact eq_of_writes hR (convert_of_name hchain hplaces (entries_table o).2.2 hnamed) rfl
    (List.cons_ne_nil _ _)

/-- A row is written as a line and, if it is the header, with a separator below it. -/
theorem write_tableRow (hR : (gitHub.renderer o).Writes d R) (hrow : d.isRow r = true) :
    R r = tableRow d r ((d.children r).flatMap R) := by
  obtain ⟨hchain, hplaces⟩ := places_table.2.1
  exact eq_of_writes hR (convert_of_name hchain hplaces (entries_table o).2.1 hrow) rfl
    (List.cons_ne_nil _ _)

/-- A row writes its lines. -/
theorem write_row (hd : d.Reachable) (hR : (gitHub.renderer o).Writes d R)
    (hrow : d.isRow r = true) (h : d.HoldsOnly d.isCellOfRow r) (hraw : d.isRaw r = false) :
    R r = terminated (d.rowLines R r) := by
  have hcells : (d.children r).flatMap R =
      ((d.cellsOf r).map fun c => (d.children c).flatMap R).flatMap Markdown.cell := by
    rw [content_of_holdsOnly hd hR h (fun _ => isTabular_of_isCellOfRow)
      (isTabular_of_isRow hrow) hraw, List.flatMap_map]
    exact List.flatMap_congr fun c hc => write_cell hR (List.mem_filter.mp hc).2
  have hlines : tableRow d r ((d.children r).flatMap R) = terminated (d.rowLines R r) := by
    rw [tableRow, hcells, row_eq, separatorRow_eq, h.filter_isCell, rowLines]
    split <;> simp [terminated, rowLine, separatorLine]
  rw [write_tableRow hR hrow, hlines]

/-- There is no rule for row groups. -/
theorem write_group (hR : (gitHub.renderer o).Writes d R)
    (hg : d.isGroup g = true) : R g = (d.children g).flatMap R := by
  obtain ⟨tag, htag, hnamed⟩ := List.any_eq_true.mp hg
  exact hR.eq_of_convert rfl (convert_of_no_place (places_table.2.2.2 tag htag) hnamed _)

/-- What stands in a table is the lines of its rows. -/
theorem content_of_isTable (h : d.IsTable t) (hR : (gitHub.renderer o).Writes d R) :
    (d.children t).flatMap R = terminated (d.tableLines R t) := by
  have htable : d.isTabular t = true := isTabular_of_isNamed (by decide) h.named
  have hraw : ∀ c ∈ d.children t, d.isRaw c = false := fun c hc =>
    (isRaw_of_isTabular htable hc).trans h.not_raw
  have hparts : ∀ c, (d.isRow c || d.isGroup c) = true → d.isTabular c = true := by
    intro c hc
    rcases Bool.or_eq_true_iff.mp hc with hrow | hgroup
    · exact isTabular_of_isRow hrow
    · exact isTabular_of_isGroup hgroup
  rw [tableLines, terminated_flatMap, rowsOf_eq, List.flatMap_assoc]
  refine List.flatMap_congr ?_
  intro c hc
  cases hrow : d.isRow c with
  | true =>
    rw [if_pos rfl, List.flatMap_singleton]
    exact write_row h.reachable hR hrow (h.row c (mem_rowsOf_of_child hc hrow)) (hraw c hc)
  | false =>
    rw [if_neg Bool.false_ne_true]
    cases hgroup : d.isGroup c with
    | true =>
      have hheld := h.group c hc hgroup
      have htabular := isTabular_of_isGroup hgroup
      rw [if_pos rfl, write_group hR hgroup, content_of_holdsOnly h.reachable hR hheld
        (fun _ => isTabular_of_isRow) htabular (hraw c hc)]
      refine List.flatMap_congr ?_
      intro r hr
      obtain ⟨hr, hrow⟩ := List.mem_filter.mp hr
      exact write_row h.reachable hR hrow (h.row r (mem_rowsOf_of_grandchild hc hgroup hr hrow))
        ((isRaw_of_isTabular htabular hr).trans (hraw c hc))
    | false =>
      refine write_blank h.reachable hR h.table
        (fun x hx => isInline_eq_false_of_isTabular (hparts x hx)) (hraw c hc) hc
        ((h.table.part_or_blank c hc).resolve_left (by simp [hrow, hgroup]))

theorem write_table (h : d.IsTable t) (hR : (gitHub.renderer o).Writes d R) :
    R t = "\n\n".toList ++ ['\n'].intercalate (d.tableLines R t) ++ "\n\n".toList := by
  obtain ⟨hchain, hplaces⟩ := places_table.1
  have hblock : Markdown.table ((d.children t).flatMap R) =
      some ("\n\n".toList ++ ['\n'].intercalate (d.tableLines R t) ++ "\n\n".toList) := by
    rw [content_of_isTable h hR]
    exact block_terminated (areLines_tableLines h.has_row)
  exact eq_of_writes hR (convert_of_name hchain hplaces (entries_table o).1 h.named) hblock
    (by simp)

end Flavour

/-- Tables are well-formed, whatever the options and whatever is in their cells. Between blank
lines a table has one line for each of its rows, in document order, and right behind the line of
the header row one more; no other newline stands there. Each of these lines begins and ends with
a bar, and the bars that no backslash escapes cut it into as many cells as the row has: what its
cells hold, or the marks of their columns. A document that is a table and nothing else has these
lines. -/
theorem Profile.convert_table (o : Options) (d : Document) (t : Nat) (h : d.IsTable t) :
    ∃ R : Nat → Text, (∀ i, (GitHub.renderer o).render d i = .ok (R i)) ∧
      ∃ lines, R t = "\n\n".toList ++ ['\n'].intercalate lines ++ "\n\n".toList ∧
        (['\n'].intercalate lines).splitOn '\n' = lines ∧
        lines = ((d.preorder t).filter (d.isRowOf t)).flatMap (fun r =>
          d.rowLine R r :: if isHeaderRow d r then [d.separatorLine r] else []) ∧
        (∀ r ∈ (d.preorder t).filter (d.isRowOf t),
          IsTableLine ((d.cellsOf r).map fun c => cellText ((d.children c).flatMap R))
            (d.rowLine R r) ∧
          IsTableLine ((d.cellsOf r).map fun c => cellText (columnMark d c))
            (d.separatorLine r)) ∧
        (d.children Document.root = [t] →
          (Profile.ofFlavour .gitHub o).convert d = .ok (['\n'].intercalate lines)) := by
  obtain ⟨R, hR⟩ := (Flavour.gitHub.neverFails o d).exists_render
  have hwritten := Flavour.write_table h fun i => (hR i).2
  have hlines : AreLines (d.tableLines R t) := Document.areLines_tableLines h.has_row
  refine ⟨R, fun i => (hR i).1, d.tableLines R t, hwritten, hlines.splitOn_eq, rfl, ?_, ?_⟩
  · intro r _
    constructor
    · have hline := isTableLine_barredLine ((d.cellsOf r).map fun c => (d.children c).flatMap R)
      rw [List.map_map] at hline
      exact hline
    · have hline := isTableLine_barredLine ((d.cellsOf r).map (columnMark d))
      rw [List.map_map] at hline
      exact hline
  · intro hroot
    rw [Profile.convert_ofFlavour, Renderer.convertDocument_of_render fun i => (hR i).1, hroot,
      List.flatMap_singleton, hwritten,
      tidy_block hlines.isBare_newline hlines.collapseNewlines_intercalate]

/-- A table with a head, blank text between its parts, and cells that hold a bar, nothing, a list
of two items and another table. -/
def crowdedTable : Document :=
  Document.grown
    [(0, .element "table".toList []), (1, .text "\n".toList), (1, .element "thead".toList []),
     (3, .element "tr".toList []),
     (4, .element "th".toList [("align".toList, "right".toList)]), (5, .text "a|b".toList),
     (4, .text " ".toList), (4, .element "th".toList []),
     (1, .element "tbody".toList []), (9, .text "\n".toList), (9, .element "tr".toList []),
     (11, .element "td".toList []), (12, .element "ul".toList []),
     (13, .element "li".toList []), (14, .text "x\\".toList),
     (13, .element "li".toList []), (16, .text "y".toList),
     (11, .element "td".toList []), (18, .element "table".toList []),
     (19, .element "tr".toList []), (20, .element "td".toList []),
     (21, .element "code".toList []), (22, .text "p|q".toList)]

theorem isTable_crowdedTable : crowdedTable.IsTable 1 where
  reachable := Document.reachable_grown _
  named := by decide +kernel
  not_raw := by decide +kernel
  has_row := by decide +kernel
  table := by decide +kernel
  group := by decide +kernel
  row := by decide +kernel

theorem Profile.convert_table_crowdedTable :
    ∃ markdown, (Profile.ofFlavour .gitHub {}).convert crowdedTable = .ok markdown ∧
      (markdown.splitOn '\n').map (fun line => (cutAtBars line).length) = [4, 4, 4] := by
  obtain ⟨R, -, lines, -, hsplit, hlines, hcells, hconvert⟩ :=
    Profile.convert_table {} crowdedTable 1 isTable_crowdedTable
  have hrows : (crowdedTable.preorder 1).filter (crowdedTable.isRowOf 1) = [4, 11] := by
    decide +kernel
  have hheader : isHeaderRow crowdedTable 4 = true ∧ isHeaderRow crowdedTable 11 = false := by
    decide +kernel
  have hcount : (crowdedTable.cellsOf 4).length = 2 ∧ (crowdedTable.cellsOf 11).length = 2 := by
    decide +kernel
  rw [hrows] at hlines hcells
  obtain ⟨hhead, hmarks⟩ := hcells 4 (by decide)
  obtain ⟨hbody, -⟩ := hcells 11 (by decide)
  refine ⟨_, hconvert (by decide +kernel), ?_⟩
  rw [hsplit, hlines]
  simp [hheader, hhead.cut, hmarks.cut, hbody.cut, hcount]

end TreeMarkdown
