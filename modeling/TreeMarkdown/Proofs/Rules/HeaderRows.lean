/-
The header row of a table.

Every row finds out for itself whether it is the header: a row of a table head by a look at the
rows of the head, any other row by a look at the nearest table above it. For the rows of one table
the two ways come together (`Document.isHeader_iff`): the header rows are the last rows of the
heads and, if there is no head, the first row. So a table with at most one head has one header row,
except where the head is there but holds no row (`GitHub.separators_of_table`): then the other
rows are kept back by the head, and the table is written without a separator.
-/

import TreeMarkdown.Proofs.Rules.Tables

namespace TreeMarkdown

open Text Markdown

namespace Document

variable {d : Document} {c g p r t : Nat}

/-! ### Rows in document order -/

/-- The table heads among the children of table `t`. -/
def headsOf (d : Document) (t : Nat) : List Nat :=
  (d.children t).filter (d.isNamed · "THEAD".toList)

theorem isElement_and_hasTag_tr (d : Document) (i : Nat) :
    (d.isElement i && d.hasTag "tr" i) = d.isRow i :=
  d.isElement_and_hasTag (by decide) (by decide) (by decide) (by decide) i

theorem isElement_and_hasTag_thead (d : Document) (i : Nat) :
    (d.isElement i && d.hasTag "thead" i) = d.isNamed i "THEAD".toList :=
  d.isElement_and_hasTag (by decide) (by decide) (by decide) (by decide) i

theorem isElement_and_isRowGroup (d : Document) (i : Nat) :
    (d.isElement i && isRowGroup d i) = d.isGroup i := by
  have hbody : (d.isElement i && d.hasTag "tbody" i) = d.isNamed i "TBODY".toList :=
    d.isElement_and_hasTag (by decide) (by decide) (by decide) (by decide) i
  have hfoot : (d.isElement i && d.hasTag "tfoot" i) = d.isNamed i "TFOOT".toList :=
    d.isElement_and_hasTag (by decide) (by decide) (by decide) (by decide) i
  simp only [isGroup, groupTags, List.any_cons, List.any_nil, Bool.or_false, isRowGroup,
    ← isElement_and_hasTag_thead, ← hbody, ← hfoot, Bool.and_or_distrib_left, Bool.or_assoc]

theorem ownRows_eq (d : Document) (g : Nat) : ownRows d g = (d.children g).filter d.isRow := by
  rw [ownRows, elementChildren, List.filter_filter]
  refine List.filter_congr fun c _ => ?_
  rw [Bool.and_comm, isElement_and_hasTag_tr]

/-- The rows that are collected child by child are those in document order. -/
theorem tableRows_eq (d : Document) (t : Nat) : tableRows d t = d.rowsOf t := by
  rw [rowsOf_eq, tableRows, elementChildren]
  have hnone : ∀ c ∈ d.children t, d.isElement c = false →
      (if d.isRow c then [c] else if d.isGroup c then (d.children c).filter d.isRow else []) =
        [] := by
    intro c _ helement
    rw [← isElement_and_hasTag_tr, ← isElement_and_isRowGroup, helement]
    rfl
  rw [← flatMap_filter_of_eq_nil hnone]
  refine List.flatMap_congr fun c hc => ?_
  rw [← isElement_and_hasTag_tr, ← isElement_and_isRowGroup, (List.mem_filter.mp hc).2, ownRows_eq]
  rfl

theorem nodup_tableRows (d : Document) (t : Nat) : (tableRows d t).Nodup := by
  rw [tableRows_eq, rowsOf]
  exact (d.nodup_preorder t).filter _

/-! ### The two ways to the header -/

theorem mem_headsOf_iff :
    g ∈ d.headsOf t ↔ g ∈ d.children t ∧ d.isNamed g "THEAD".toList = true :=
  List.mem_filter

theorem isGroup_of_isHead (h : d.isNamed g "THEAD".toList = true) : d.isGroup g = true :=
  List.any_eq_true.mpr ⟨"THEAD".toList, by decide, h⟩

theorem any_hasTag_thead (d : Document) (t : Nat) :
    (d.elementChildren t).any (d.hasTag "thead") = !(d.headsOf t).isEmpty := by
  rw [elementChildren, List.any_filter, Bool.eq_iff_iff, List.any_eq_true, Bool.not_eq_true',
    List.isEmpty_eq_false_iff_exists_mem]
  simp only [isElement_and_hasTag_thead, headsOf, List.mem_filter]

/-- A row group is no table. -/
theorem hasTag_table_of_isGroup (h : d.isGroup g = true) : d.hasTag "table" g = false := by
  obtain ⟨tag, htag, hnamed⟩ := List.any_eq_true.mp h
  have hgroups : ∀ tag ∈ groupTags, namesText tag = false ∧ isAscii tag = true ∧
      (foldAscii tag == "table".toList) = false := by
    decide
  obtain ⟨htext, hascii, hother⟩ := hgroups tag htag
  rw [hasTag, tagName_of_isNamed hnamed htext hascii, hother]

/-- A row has the table or one of its row groups for its parent. -/
theorem parent_of_mem_tableRows (h : r ∈ tableRows d t) : ∃ p, d.parent? r = some p ∧
    (p = t ∨ (p ∈ d.children t ∧ d.isGroup p = true)) := by
  rw [tableRows_eq, rowsOf_eq] at h
  obtain ⟨c, hc, hr⟩ := List.mem_flatMap.mp h
  split at hr
  · rw [List.mem_singleton.mp hr]
    exact ⟨t, parent_of_mem_children hc, Or.inl rfl⟩
  · split at hr
    · rename_i hgroup
      exact ⟨c, parent_of_mem_children (List.mem_filter.mp hr).1, Or.inr ⟨hc, hgroup⟩⟩
    · cases hr

/-- In a head it is the last row that is the header. -/
theorem isHeaderRow_of_head (hr : d.parent? r = some g) (hg : d.isNamed g "THEAD".toList = true) :
    isHeaderRow d r = ((ownRows d g).getLast? == some r) := by
  have hthead : d.hasTag "thead" g = true := by
    rw [hasTag, tagName_of_isNamed hg (by decide) (by decide)]
    decide
  rw [isHeaderRow, hr]
  exact if_pos hthead

/-- Outside of a head it is the first row of the table, if that has no head. -/
theorem isHeaderRow_of_not_head (ht : d.isNamed t "TABLE".toList = true)
    (hr : d.parent? r = some p) (hp : p = t ∨ (p ∈ d.children t ∧ d.isGroup p = true))
    (hhead : d.isNamed p "THEAD".toList = false) :
    isHeaderRow d r = ((d.headsOf t).isEmpty && (tableRows d t).head? == some r) := by
  have htable : d.hasTag "table" t = true := by
    rw [hasTag, tagName_of_isNamed ht (by decide) (by decide)]
    decide
  have helement : d.isElement p = true := by
    rcases hp with rfl | ⟨-, hgroup⟩
    · exact isElement_of_isNamed ht (by decide)
    · rw [← isElement_and_isRowGroup] at hgroup
      exact (Bool.and_eq_true_iff.mp hgroup).1
  have hthead : d.hasTag "thead" p = false := by
    rw [← isElement_and_hasTag_thead, helement] at hhead
    exact hhead
  have hnearest : (d.ancestors r).find? (d.hasTag "table") = some t := by
    rw [ancestors_of_parent hr]
    rcases hp with rfl | ⟨hchild, hgroup⟩
    · exact List.find?_cons_of_pos htable
    · rw [List.find?_cons_of_neg (by rw [hasTag_table_of_isGroup hgroup]; exact Bool.false_ne_true),
        ancestors_of_parent (parent_of_mem_children hchild)]
      exact List.find?_cons_of_pos htable
  rw [isHeaderRow, hr]
  simp only [hthead, hnearest, any_hasTag_thead, Bool.not_not, Bool.false_eq_true, if_false]

/-- The header rows of a table are the last rows of its heads and, if it has no head, its first
row. -/
theorem isHeader_iff (ht : d.isNamed t "TABLE".toList = true) :
    r ∈ tableRows d t ∧ isHeaderRow d r = true ↔
      (d.headsOf t = [] ∧ (tableRows d t).head? = some r) ∨
        ∃ g ∈ d.headsOf t, (ownRows d g).getLast? = some r := by
  constructor
  · rintro ⟨hr, hheader⟩
    obtain ⟨p, hparent, hp⟩ := parent_of_mem_tableRows hr
    cases hhead : d.isNamed p "THEAD".toList with
    | true =>
      rw [isHeaderRow_of_head hparent hhead, beq_iff_eq] at hheader
      have hother : Text.eqIgnoringCase "TABLE".toList "THEAD".toList = false := by decide
      rcases hp with rfl | ⟨hchild, -⟩
      · rw [isNamed_eq_false_of_isNamed ht hother] at hhead
        cases hhead
      · exact Or.inr ⟨p, mem_headsOf_iff.mpr ⟨hchild, hhead⟩, hheader⟩
    | false =>
      rw [isHeaderRow_of_not_head ht hparent hp hhead, Bool.and_eq_true, beq_iff_eq] at hheader
      exact Or.inl ⟨List.isEmpty_iff.mp hheader.1, hheader.2⟩
  · rintro (⟨hnone, hfirst⟩ | ⟨g, hg, hlast⟩)
    · have hr : r ∈ tableRows d t := List.mem_of_head? hfirst
      obtain ⟨p, hparent, hp⟩ := parent_of_mem_tableRows hr
      refine ⟨hr, ?_⟩
      have hhead : d.isNamed p "THEAD".toList = false := by
        rcases hp with rfl | ⟨hchild, -⟩
        · exact isNamed_eq_false_of_isNamed ht (by decide)
        · exact Bool.eq_false_iff.mpr fun hhead => by
            have hmem := mem_headsOf_iff.mpr ⟨hchild, hhead⟩
            rw [hnone] at hmem
            cases hmem
      rw [isHeaderRow_of_not_head ht hparent hp hhead, hnone, hfirst]
      simp
    · obtain ⟨hchild, hhead⟩ := mem_headsOf_iff.mp hg
      have hrow := List.mem_of_getLast? hlast
      rw [ownRows_eq] at hrow
      obtain ⟨hr, hrow⟩ := List.mem_filter.mp hrow
      refine ⟨?_, ?_⟩
      · rw [tableRows_eq]
        exact mem_rowsOf_of_grandchild hchild (isGroup_of_isHead hhead) hr hrow
      · rw [isHeaderRow_of_head (parent_of_mem_children hr) hhead, hlast]
        exact beq_self_eq_true _

/-- A table with rows and with at most one head has one header row, if that head has a row. -/
theorem exists_header (ht : d.isNamed t "TABLE".toList = true) (hhead : (d.headsOf t).length ≤ 1)
    (hrow : tableRows d t ≠ []) (hfilled : ∀ g ∈ d.headsOf t, ownRows d g ≠ []) :
    ∃ r, ∀ r', r' ∈ tableRows d t ∧ isHeaderRow d r' = true ↔ r' = r := by
  simp only [isHeader_iff ht]
  rcases hheads : d.headsOf t with _ | ⟨g, _ | ⟨g', others⟩⟩
  · refine ⟨(tableRows d t).head hrow, fun r' => ?_⟩
    simp [List.head?_eq_some_head hrow, eq_comm]
  · have hne := hfilled g (by rw [hheads]; exact List.mem_cons_self)
    refine ⟨(ownRows d g).getLast hne, fun r' => ?_⟩
    simp [List.getLast?_eq_some_getLast hne, eq_comm]
  · rw [hheads] at hhead
    simp at hhead

/-- A head without a row leaves the table without a header row. -/
theorem no_header (ht : d.isNamed t "TABLE".toList = true) (hhead : (d.headsOf t).length ≤ 1)
    (hg : g ∈ d.headsOf t) (hempty : ownRows d g = []) :
    ¬ (r ∈ tableRows d t ∧ isHeaderRow d r = true) := by
  rw [isHeader_iff ht]
  rcases hheads : d.headsOf t with _ | ⟨g', _ | ⟨g'', others⟩⟩
  · rw [hheads] at hg
    cases hg
  · rw [hheads, List.mem_singleton] at hg
    subst hg
    simp [hempty]
  · rw [hheads] at hhead
    simp at hhead

/-- The number of header rows of a table with at most one head. -/
theorem countP_isHeaderRow (ht : d.isNamed t "TABLE".toList = true)
    (hhead : (d.headsOf t).length ≤ 1) (hrow : tableRows d t ≠ []) :
    (tableRows d t).countP (isHeaderRow d) =
      if ∃ g ∈ d.headsOf t, ownRows d g = [] then 0 else 1 := by
  split
  · rename_i hempty
    obtain ⟨g, hg, hempty⟩ := hempty
    exact List.countP_eq_zero.mpr fun r hr hheader => no_header ht hhead hg hempty ⟨hr, hheader⟩
  · rename_i hfilled
    obtain ⟨r, hr⟩ := exists_header ht hhead hrow fun g hg hempty => hfilled ⟨g, hg, hempty⟩
    have hperm : ((tableRows d t).filter (isHeaderRow d)).Perm [r] := by
      refine (List.perm_ext_iff_of_nodup ((nodup_tableRows d t).filter _)
        (List.nodup_singleton r)).mpr fun r' => ?_
      rw [List.mem_filter, hr, List.mem_singleton]
    rw [List.countP_eq_length_filter, hperm.length_eq]
    rfl

end Document

namespace GitHub

open Document

/-- How many separators a table has. Every row of a table is written as a line and, if it is the
header, with a separator below it. The header rows are the last rows of the heads and, if there is
no head, the first row. So a table with rows and with at most one head has one separator, unless
its head is there without a row: then it has none. -/
theorem separators_of_table (o : Options) (d : Document) (t : Nat)
    (ht : d.isNamed t "TABLE".toList = true) (hhead : (d.headsOf t).length ≤ 1)
    (hrow : tableRows d t ≠ []) :
    ∃ R : Nat → Text, (∀ i, (GitHub.renderer o).render d i = .ok (R i)) ∧
      (∀ r ∈ tableRows d t, R r = Markdown.row ((d.children r).flatMap R) ++
        if isHeaderRow d r then separatorRow d r else []) ∧
      (∀ r, r ∈ tableRows d t ∧ isHeaderRow d r = true ↔
        (d.headsOf t = [] ∧ (tableRows d t).head? = some r) ∨
          ∃ g ∈ d.headsOf t, (ownRows d g).getLast? = some r) ∧
      (tableRows d t).countP (isHeaderRow d) =
        if ∃ g ∈ d.headsOf t, ownRows d g = [] then 0 else 1 := by
  obtain ⟨R, hR⟩ := (Flavour.gitHub.neverFails o d).exists_render
  refine ⟨R, fun i => (hR i).1, ?_, fun r => isHeader_iff ht, countP_isHeaderRow ht hhead hrow⟩
  intro r hr
  rw [tableRows_eq] at hr
  exact Flavour.write_tableRow (fun i => (hR i).2) (isRow_of_mem_rowsOf hr)

/-- A table with a head of two rows behind a row of its own, and an empty row group. -/
def lateHead : Document :=
  Document.grown
    [(0, .element "table".toList []), (1, .element "tr".toList []),
     (1, .element "tbody".toList []), (1, .element "thead".toList []),
     (4, .element "tr".toList []), (4, .element "tr".toList []),
     (6, .element "th".toList []), (7, .text "a".toList)]

theorem separators_of_table_lateHead :
    lateHead.isNamed 1 "TABLE".toList = true ∧ (lateHead.headsOf 1).length ≤ 1 ∧
      tableRows lateHead 1 = [2, 5, 6] ∧
      (∀ r ∈ tableRows lateHead 1, isHeaderRow lateHead r = true ↔ r = 6) ∧
      (tableRows lateHead 1).countP (isHeaderRow lateHead) = 1 := by
  have hnamed : lateHead.isNamed 1 "TABLE".toList = true := by decide +kernel
  have hheads : lateHead.headsOf 1 = [4] := by decide +kernel
  have hhead : (lateHead.headsOf 1).length ≤ 1 := by rw [hheads]; decide
  have hrows : tableRows lateHead 1 = [2, 5, 6] := by decide +kernel
  have hown : ownRows lateHead 4 = [5, 6] := by decide +kernel
  obtain ⟨-, -, -, hheader, hcount⟩ :=
    separators_of_table {} lateHead 1 hnamed hhead (by rw [hrows]; decide)
  rw [hheads] at hheader hcount
  refine ⟨hnamed, hhead, hrows, fun r hr => ?_, ?_⟩
  · have hr := hheader r
    simp only [List.mem_singleton, exists_eq_left, hown] at hr
    grind
  · rw [hcount]
    simp [hown]

/-- A table with a head that is empty. -/
def emptyHead : Document :=
  Document.grown
    [(0, .element "table".toList []), (1, .element "thead".toList []),
     (1, .element "tbody".toList []), (3, .element "tr".toList []),
     (4, .element "td".toList []), (5, .text "a".toList)]

/-- A table whose head is empty has no separator, although it has a row. -/
theorem no_separator_emptyHead :
    emptyHead.isNamed 1 "TABLE".toList = true ∧ (emptyHead.headsOf 1).length = 1 ∧
      tableRows emptyHead 1 = [4] ∧ isHeaderRow emptyHead 4 = false ∧
      (Profile.ofFlavour .gitHub {}).convert emptyHead = .ok "| a |".toList := by
  decide +kernel

end GitHub

end TreeMarkdown
