/-
Nested lists as an outline.

An outline is a list of labelled items, each with at most one list below its label
(`IsOutline`). The rules that write it look at one list or item at a time: an item indents
whatever the list inside it has written, so a line deep down is indented once for every item
above. `entryLines` are the lines as they should be, seen from a given depth, for any markers in
front of the labels. Each node writes the lines of its subtree seen from its own depth, with a
newline behind each (`Flavour.write_outline`), and one level up the same lines are four further in
(`entryLines_item`).

Nothing in an outline is a task. But the rule for items in GitHub flavour asks only for the name and
the type of a check box, and a text node may carry both; then it has the mark of a task put in
front of a label that is a text like any other (`IsOutline.itemMark_eq_nil_iff`).
-/

import TreeMarkdown.Proofs.Rules.Items
import TreeMarkdown.Proofs.Rules.TextNodes

namespace TreeMarkdown

open Text Markdown

namespace Document

/-! ### Outlines -/

/-- The tags of lists. -/
def listTags : List Text :=
  ["UL".toList, "OL".toList]

/-- Node `i` is a list. -/
def isList (d : Document) (i : Nat) : Bool :=
  listTags.any (d.isNamed i ·)

/-- Node `i` is an item. -/
def isItem (d : Document) (i : Nat) : Bool :=
  d.isNamed i "LI".toList

/-- Node `i` is a text node of which folding and trimming leave something. -/
def isLabel (d : Document) (i : Nat) : Bool :=
  d.isText i && !(trim (collapseSpaces (d.ownText i))).isEmpty

/-- Node `i` holds a label, and behind it a list or nothing. -/
def isLabelled (d : Document) (i : Nat) : Bool :=
  match d.children i with
  | [t] => d.isLabel t
  | [t, l] => d.isLabel t && d.isList l
  | _ => false

/-- The document is a list and nothing else; every list has at least one item and nothing else,
and every item is labelled. -/
structure IsOutline (d : Document) : Prop where
  reachable : d.Reachable
  whole : ∃ l, d.children root = [l] ∧ d.isList l = true
  list : ∀ l, d.isList l = true → d.children l ≠ [] ∧ ∀ c ∈ d.children l, d.isItem c = true
  item : ∀ i, d.isItem i = true → d.isLabelled i = true

/-- The number of lists that node `i` stands in. -/
def listDepth (d : Document) (i : Nat) : Nat :=
  ((d.ancestors i).filter d.isList).length

/-- The text of the label of item `i`. -/
def label (d : Document) (i : Nat) : Text :=
  (d.firstChild? i).elim [] d.ownText

/-- The line of item `i`, seen from depth `n`: four spaces for each list in between, the
marker, and the label. -/
def entryLine (d : Document) (marker : Nat → Text) (n i : Nat) : Text :=
  List.replicate (4 * (d.listDepth i - n)) ' ' ++
    (marker i ++ escape (trim (collapseSpaces (d.label i))))

/-- The lines of the items in the subtree of node `i`, in document order. -/
def entryLines (d : Document) (marker : Nat → Text) (n i : Nat) : List Text :=
  ((d.preorder i).filter d.isItem).map (d.entryLine marker n)

variable {d : Document} {a c i l n p t : Nat} {marker : Nat → Text} {token : Text}

/-! ### Kinds of nodes -/

theorem exists_listTag (h : d.isList i = true) : ∃ tag ∈ listTags, d.isNamed i tag = true :=
  List.any_eq_true.mp h

theorem isItem_of_isList (h : d.isList i = true) : d.isItem i = false := by
  obtain ⟨tag, htag, hnamed⟩ := exists_listTag h
  have hother : ∀ tag ∈ listTags, Text.eqIgnoringCase tag "LI".toList = false := by
    decide
  exact isNamed_eq_false_of_isNamed hnamed (hother tag htag)

theorem isList_of_isItem (h : d.isItem i = true) : d.isList i = false := by
  cases hlist : d.isList i with
  | false => rfl
  | true =>
    rw [isItem_of_isList hlist] at h
    cases h

theorem ne_root_of_isItem (h : d.isItem i = true) : i ≠ root :=
  ne_root_of_isNamed h

theorem isLabel_iff : d.isLabel i = true ↔ d.isText i = true ∧ trim (d.ownText i) ≠ [] := by
  rw [isLabel, trim_collapseSpaces, Bool.and_eq_true, Bool.not_eq_true', ← Bool.not_eq_true,
    List.isEmpty_iff, collapseSpaces_eq_nil_iff]

theorem isText_of_isLabel (h : d.isLabel i = true) : d.isText i = true :=
  (isLabel_iff.mp h).1

theorem isItem_of_isLabel (h : d.isLabel i = true) : d.isItem i = false := by
  rw [isItem, isNamed_of_isText (isText_of_isLabel h)]
  decide

theorem isLabel_of_isList (h : d.isList i = true) : d.isLabel i = false := by
  refine Bool.eq_false_iff.mpr fun hlabel => ?_
  obtain ⟨tag, htag, hnamed⟩ := exists_listTag h
  rw [isNamed_of_isText (isText_of_isLabel hlabel)] at hnamed
  have hother : ∀ tag ∈ listTags, namesText tag = false := by decide
  exact Bool.noConfusion (hnamed.symm.trans (hother tag htag))

theorem isList_root (d : Document) : d.isList root = false := by
  rw [isList, List.any_eq_false]
  intro tag _
  rw [isNamed_root]
  decide

namespace IsOutline

/-- It takes the nodes of a document only to tell an outline. -/
theorem of_forall_lt (hd : d.Reachable) (hwhole : ∃ l, d.children root = [l] ∧ d.isList l = true)
    (hlist : ∀ l < d.size, d.isList l = true →
      d.children l ≠ [] ∧ ∀ c ∈ d.children l, d.isItem c = true)
    (hitem : ∀ i < d.size, d.isItem i = true → d.isLabelled i = true) : d.IsOutline where
  reachable := hd
  whole := hwhole
  list := by
    intro l hl
    obtain ⟨tag, -, hnamed⟩ := exists_listTag hl
    exact hlist l (lt_size_of_satisfies hnamed) hl
  item := fun i hi => hitem i (lt_size_of_satisfies hi) hi

/-- What an item holds. -/
theorem exists_label (h : d.IsOutline) (hi : d.isItem i = true) :
    ∃ t below, d.children i = t :: below ∧ d.isLabel t = true ∧
      (below = [] ∨ ∃ l, below = [l] ∧ d.isList l = true) ∧
        ∀ l ∈ below, d.isList l = true := by
  have hlabelled := h.item i hi
  rw [isLabelled] at hlabelled
  split at hlabelled
  · rename_i t hchildren
    exact ⟨t, [], hchildren, hlabelled, Or.inl rfl, fun l hl => by cases hl⟩
  · rename_i t l hchildren
    obtain ⟨ht, hl⟩ := Bool.and_eq_true_iff.mp hlabelled
    exact ⟨t, [l], hchildren, ht, Or.inr ⟨l, rfl, hl⟩, fun x hx => List.mem_singleton.mp hx ▸ hl⟩
  · cases hlabelled

/-- Items stand in lists, labels in items, and lists in items or by themselves. -/
theorem kinds (h : d.IsOutline) (hc : c ∈ d.children p) :
    d.isItem c = true ∧ d.isList p = true ∨ d.isLabel c = true ∧ d.isItem p = true ∨
      d.isList c = true ∧ (d.isItem p = true ∨ p = root) := by
  induction c using d.parentInduction generalizing p with
  | step c ih =>
    by_cases hp : p = root
    · obtain ⟨l, hroot, hl⟩ := h.whole
      rw [hp, hroot, List.mem_singleton] at hc
      exact Or.inr (Or.inr ⟨hc ▸ hl, Or.inr hp⟩)
    · have hsize := Nat.lt_trans (lt_of_mem_children hc) (lt_size_of_mem_children hc)
      obtain ⟨q, hq⟩ := exists_parent hsize hp
      rcases ih p (parent_of_mem_children hc) (mem_children_iff.mpr hq) with
        ⟨hitem, -⟩ | ⟨hlabel, -⟩ | ⟨hlist, -⟩
      · obtain ⟨t, below, hchildren, ht, -, hlists⟩ := h.exists_label hitem
        rw [hchildren] at hc
        rcases List.mem_cons.mp hc with rfl | hc
        · exact Or.inr (Or.inl ⟨ht, hitem⟩)
        · exact Or.inr (Or.inr ⟨hlists c hc, Or.inl hitem⟩)
      · rw [h.reachable.children_eq_nil_of_isText (isText_of_isLabel hlabel)] at hc
        cases hc
      · exact Or.inl ⟨(h.list p hlist).2 c hc, hlist⟩

theorem kind (h : d.IsOutline) (hi : i < d.size) (hroot : i ≠ root) :
    d.isItem i = true ∨ d.isLabel i = true ∨ d.isList i = true := by
  obtain ⟨p, hp⟩ := exists_parent hi hroot
  rcases h.kinds (mem_children_iff.mpr hp) with ⟨hitem, -⟩ | ⟨hlabel, -⟩ | ⟨hlist, -⟩
  · exact Or.inl hitem
  · exact Or.inr (Or.inl hlabel)
  · exact Or.inr (Or.inr hlist)

/-- Only the tokens for lists, items and text name a node of an outline. -/
theorem isNamed_eq_false (h : d.IsOutline) (htext : namesText token = false)
    (htoken : ∀ tag ∈ "LI".toList :: listTags, Text.eqIgnoringCase tag token = false) (i : Nat) :
    d.isNamed i token = false := by
  cases hnamed : d.isNamed i token with
  | false => rfl
  | true =>
    rw [← hnamed]
    rcases h.kind (lt_size_of_satisfies hnamed) (ne_root_of_isNamed hnamed) with
      hitem | hlabel | hlist
    · exact isNamed_eq_false_of_isNamed hitem (htoken _ List.mem_cons_self)
    · exact (isNamed_of_isText (isText_of_isLabel hlabel)).trans htext
    · obtain ⟨tag, htag, htagged⟩ := exists_listTag hlist
      exact isNamed_eq_false_of_isNamed htagged (htoken tag (List.mem_cons_of_mem _ htag))

/-- Every item stands in a list. -/
theorem exists_list (h : d.IsOutline) (hi : d.isItem i = true) :
    ∃ l, i ∈ d.children l ∧ d.isList l = true := by
  obtain ⟨p, hp⟩ := exists_parent (lt_size_of_satisfies hi) (ne_root_of_isItem hi)
  have hmem := mem_children_iff.mpr hp
  rcases h.kinds hmem with ⟨-, hlist⟩ | ⟨hlabel, -⟩ | ⟨hlist, -⟩
  · exact ⟨p, hmem, hlist⟩
  · rw [isItem_of_isLabel hlabel] at hi
    cases hi
  · rw [isItem_of_isList hlist] at hi
    cases hi

/-- Every label stands first in an item. -/
theorem exists_item (h : d.IsOutline) (ht : d.isLabel t = true) :
    ∃ i below, d.isItem i = true ∧ d.children i = t :: below := by
  have hnamed := isNamed_textRuleName (isText_of_isLabel ht)
  obtain ⟨i, hi⟩ := exists_parent (lt_size_of_satisfies hnamed) (ne_root_of_isNamed hnamed)
  have hmem := mem_children_iff.mpr hi
  rcases h.kinds hmem with ⟨hitem, -⟩ | ⟨-, hitem⟩ | ⟨hlist, -⟩
  · rw [isItem_of_isLabel ht] at hitem
    cases hitem
  · obtain ⟨first, below, hchildren, -, -, hlists⟩ := h.exists_label hitem
    rw [hchildren] at hmem
    rcases List.mem_cons.mp hmem with rfl | hbelow
    · exact ⟨i, below, hitem, hchildren⟩
    · rw [isLabel_of_isList (hlists t hbelow)] at ht
      cases ht
  · rw [isLabel_of_isList hlist] at ht
    cases ht

theorem isRaw_eq_false (h : d.IsOutline) (i : Nat) : d.isRaw i = false := by
  rw [isRaw, List.any_eq_false]
  intro a _
  rw [h.isNamed_eq_false (by decide) (by decide), h.isNamed_eq_false (by decide) (by decide)]
  decide

theorem taskState?_eq_none_iff {below : List Nat} (hchildren : d.children i = t :: below)
    (ht : d.isLabel t = true) : taskState? d i = none ↔ isCheckbox d t = false := by
  have hblank : isBlankText d t = false := by simp [isBlankText, (isLabel_iff.mp ht).2]
  rw [taskState?, hchildren, List.find?_cons_of_pos (by rw [hblank]; rfl)]
  cases hbox : isCheckbox d t <;> simp [Option.filter, hbox]

/-- No item of an outline has a mark, unless its label passes for a check box. -/
theorem itemMark_eq_nil_iff (h : d.IsOutline) {flavour : Flavour} :
    (∀ i, d.isItem i = true → flavour.itemMark d i = []) ↔
      flavour = .commonMark ∨ ∀ t, d.isLabel t = true → isCheckbox d t = false := by
  simp only [Flavour.itemMark_eq_nil_iff]
  constructor
  · intro hmark
    refine or_iff_not_imp_left.mpr fun hflavour t ht => ?_
    obtain ⟨i, below, hi, hchildren⟩ := h.exists_item ht
    exact (taskState?_eq_none_iff hchildren ht).mp ((hmark i hi).resolve_left hflavour)
  · rintro (hflavour | hlabels) i hi
    · exact Or.inl hflavour
    · obtain ⟨t, below, hchildren, ht, -⟩ := h.exists_label hi
      exact Or.inr ((taskState?_eq_none_iff hchildren ht).mpr (hlabels t ht))

end IsOutline

theorem label_eq {below : List Nat} (h : d.children i = t :: below) :
    d.label i = d.ownText t := by
  rw [label, firstChild?_eq_head?, h]
  rfl

/-! ### Depths -/

theorem listDepth_of_mem_children (hc : c ∈ d.children p) :
    d.listDepth c = d.listDepth p + if d.isList p then 1 else 0 := by
  rw [listDepth, ancestors_of_parent (parent_of_mem_children hc), List.filter_cons]
  cases d.isList p <;> rfl

theorem listDepth_lt_of_mem_ancestors (ha : a ∈ d.ancestors i) (hlist : d.isList a = true) :
    d.listDepth a < d.listDepth i := by
  induction i using d.parentInduction with
  | step i ih =>
    obtain ⟨p, hp, ha⟩ := mem_ancestors_iff.mp ha
    rw [listDepth_of_mem_children (mem_children_iff.mpr hp)]
    rcases ha with rfl | ha
    · rw [hlist, if_pos rfl]
      exact Nat.lt_succ_self _
    · exact Nat.lt_of_lt_of_le (ih p hp ha) (Nat.le_add_right _ _)

/-! ### Lines seen from different depths -/

/-- Seen from its own depth, an item stands at the margin. -/
theorem entryLine_self (d : Document) (marker : Nat → Text) (i : Nat) :
    d.entryLine marker (d.listDepth i) i = marker i ++ flowed (d.label i) := by
  rw [entryLine, Nat.sub_self]
  rfl

/-- Seen from one list further out, an item stands four further in. -/
theorem entryLine_of_lt (h : n < d.listDepth i) :
    d.entryLine marker n i = "    ".toList ++ d.entryLine marker (n + 1) i := by
  have hspaces : 4 * (d.listDepth i - n) = 4 + 4 * (d.listDepth i - (n + 1)) := by omega
  rw [entryLine, entryLine, hspaces, List.replicate_add, List.append_assoc]
  rfl

theorem entryLines_of_not_isItem (h : d.isItem i = false) :
    d.entryLines marker n i = (d.children i).flatMap (d.entryLines marker n) := by
  rw [entryLines, preorder_eq, List.filter_cons_of_neg (by rw [h]; decide), List.filter_flatMap,
    List.map_flatMap]
  rfl

/-- The lines of a document are the same for two markings exactly if its items are marked alike. -/
theorem entryLines_root_eq_iff {marker' : Nat → Text} :
    d.entryLines marker n root = d.entryLines marker' n root ↔
      ∀ i, d.isItem i = true → marker i = marker' i := by
  rw [entryLines, entryLines, List.map_inj_left]
  constructor
  · intro h i hi
    have hmem := mem_preorder_root_iff.mpr (lt_size_of_satisfies hi)
    exact List.append_cancel_right
      (List.append_cancel_left (h i (List.mem_filter.mpr ⟨hmem, hi⟩)))
  · intro h i hi
    rw [entryLine, entryLine, h i (List.mem_filter.mp hi).2]

theorem entryLines_ne_nil (h : d.isItem i = true) : d.entryLines marker n i ≠ [] := by
  rw [entryLines, preorder_eq, List.filter_cons_of_pos h]
  exact List.cons_ne_nil _ _

namespace IsOutline

/-- The lines of an item: its own at the margin, and the lines of the list in it four further
in than they are seen from that list. -/
theorem entryLines_item (h : d.IsOutline) {below : List Nat} (hi : d.isItem i = true)
    (hchildren : d.children i = t :: below) (ht : d.isLabel t = true)
    (hbelow : ∀ l ∈ below, d.isList l = true) :
    d.entryLines marker (d.listDepth i) i =
      (marker i ++ flowed (d.ownText t)) ::
        (below.flatMap (d.entryLines marker (d.listDepth i + 1))).map ("    ".toList ++ ·) := by
  have hleaf : (d.preorder t).filter d.isItem = [] := by
    rw [preorder_eq, h.reachable.children_eq_nil_of_isText (isText_of_isLabel ht),
      List.flatMap_nil, List.filter_singleton, isItem_of_isLabel ht]
    rfl
  have hdeeper : ∀ l ∈ below, ∀ x ∈ (d.preorder l).filter d.isItem,
      d.entryLine marker (d.listDepth i) x =
        "    ".toList ++ d.entryLine marker (d.listDepth i + 1) x := by
    intro l hl x hx
    obtain ⟨hmem, hitem⟩ := List.mem_filter.mp hx
    have hlist := hbelow l hl
    have hdepth : d.listDepth l = d.listDepth i := by
      rw [listDepth_of_mem_children (p := i) (by rw [hchildren]; exact List.mem_cons_of_mem t hl),
        isList_of_isItem hi]
      rfl
    rcases mem_preorder_iff.mp hmem with rfl | hanc
    · rw [isItem_of_isList hlist] at hitem
      cases hitem
    · exact entryLine_of_lt (hdepth ▸ listDepth_lt_of_mem_ancestors hanc hlist)
  rw [entryLines, preorder_eq, List.filter_cons_of_pos hi, List.map_cons, entryLine_self,
    label_eq hchildren, hchildren, List.flatMap_cons, List.filter_append, hleaf, List.nil_append,
    List.filter_flatMap, List.map_flatMap, List.map_flatMap]
  refine congrArg _ (List.flatMap_congr fun l hl => ?_)
  rw [entryLines, List.map_map]
  exact List.map_congr_left (hdeeper l hl)

theorem isEntry_flowed (h : d.isLabel t = true) : IsEntry (flowed (d.ownText t)) where
  ne_nil := fun hnil => (isLabel_iff.mp h).2 (flowed_eq_nil_iff.mp hnil)
  newline_notMem := newline_notMem_flowed _
  last := (isBare_flowed _).last

theorem isEntry_of_mem (h : d.IsOutline) (hmarker : ∀ i, '\n' ∉ marker i) {line : Text}
    (hline : line ∈ d.entryLines marker n i) : IsEntry line := by
  obtain ⟨x, hx, rfl⟩ := List.mem_map.mp hline
  obtain ⟨t, below, hchildren, ht, -⟩ := h.exists_label (List.mem_filter.mp hx).2
  have hspaces : '\n' ∉ List.replicate (4 * (d.listDepth x - n)) ' ' := by
    intro hmem
    cases List.eq_of_mem_replicate hmem
  have hentry := ((isEntry_flowed ht).behind (hmarker x)).behind hspaces
  rw [← label_eq hchildren] at hentry
  exact hentry

theorem entryLines_list_ne_nil (h : d.IsOutline) (hl : d.isList l = true) :
    d.entryLines marker n l ≠ [] := by
  obtain ⟨hne, hitems⟩ := h.list l hl
  obtain ⟨c, rest, hchildren⟩ := List.exists_cons_of_ne_nil hne
  rw [entryLines_of_not_isItem (isItem_of_isList hl), hchildren, List.flatMap_cons]
  intro hnil
  exact entryLines_ne_nil (hitems c (by rw [hchildren]; exact List.mem_cons_self))
    (List.append_eq_nil_iff.mp hnil).1

/-- The lines of an outline are those of the one list. -/
theorem exists_whole (h : d.IsOutline) (marker : Nat → Text) (n : Nat) :
    ∃ l, d.children root = [l] ∧ d.isList l = true ∧
      d.entryLines marker n root = d.entryLines marker n l := by
  obtain ⟨l, hroot, hl⟩ := h.whole
  refine ⟨l, hroot, hl, ?_⟩
  rw [entryLines_of_not_isItem (isNamed_root d _), hroot, List.flatMap_singleton]

theorem areLines (h : d.IsOutline) (hmarker : ∀ i, '\n' ∉ marker i) (n : Nat) :
    AreLines (d.entryLines marker n root) := by
  obtain ⟨l, -, hl, hwhole⟩ := h.exists_whole marker n
  rw [hwhole]
  exact areLines_of_isEntry (h.entryLines_list_ne_nil hl)
    fun line hline => h.isEntry_of_mem hmarker hline

end IsOutline

end Document

/-! ### What the rules write -/

namespace Flavour

open Document

variable {flavour : Flavour} {o : Options} {d : Document} {R : Nat → Text} {i l t : Nat}

/-- An item of a list. -/
theorem write_item (h : d.IsOutline) (hR : (flavour.renderer o).Writes d R)
    (hi : d.isItem i = true) :
    R i = listItem (flavour.itemMarker o d i) ((d.children i).flatMap R) := by
  obtain ⟨l, hmem, hlist⟩ := h.exists_list hi
  exact hR.eq_of_convert rfl (convert_item hi (standsIn_of_mem_children hmem hlist) _)

/-- A list inside an item. -/
theorem write_innerList (hR : (flavour.renderer o).Writes d R)
    (hi : d.isItem i = true) (hmem : l ∈ d.children i) (hlist : d.isList l = true)
    {ls : List Text} (hne : ls ≠ []) (hls : ∀ line ∈ ls, IsEntry line)
    (hcontent : (d.children l).flatMap R = terminated ls) : R l = '\n' :: terminated ls := by
  have hitem : d.isOneOf i ["LI"] = true := (isOneOf_singleton "LI").trans hi
  have hnested : nestedList ((d.children l).flatMap R) = some ('\n' :: terminated ls) := by
    rw [hcontent, nestedList_eq hne hls]
  exact eq_of_writes hR (convert_innerList hlist (standsIn_of_mem_children hmem hitem)) hnested
    (List.cons_ne_nil _ _)

/-- A list that stands in no item. -/
theorem write_outerList (hR : (flavour.renderer o).Writes d R)
    (hmem : l ∈ d.children root) (hlist : d.isList l = true) {ls : List Text}
    (hls : AreLines ls) (hcontent : (d.children l).flatMap R = terminated ls) :
    R l = "\n\n".toList ++ ['\n'].intercalate ls ++ "\n\n".toList := by
  have hblock : block (stripNewlines ((d.children l).flatMap R)) =
      some ("\n\n".toList ++ ['\n'].intercalate ls ++ "\n\n".toList) := by
    rw [hcontent, block_terminated hls]
  exact eq_of_writes hR (convert_outerList hlist (standsIn_of_mem_children_root hmem)) hblock
    (by simp)

theorem isInline_of_isList (h : d.isList l = true) : d.isInline l = false := by
  obtain ⟨tag, htag, hnamed⟩ := exists_listTag h
  have hall : ∀ tag ∈ listTags, namesText tag = false ∧ isAscii tag = true ∧
      isBlockTag (foldAscii tag) = true := by
    decide
  obtain ⟨htext, hascii, hblock⟩ := hall tag htag
  exact isInline_eq_false_of_isNamed hnamed htext hascii hblock

/-- A label has no inline siblings to be spaced against. -/
theorem write_label (h : d.IsOutline) (hR : (flavour.renderer o).Writes d R)
    {below : List Nat} (hchildren : d.children i = t :: below) (ht : d.isLabel t = true)
    (hbelow : ∀ l ∈ below, d.isList l = true) : R t = flowed (d.ownText t) := by
  have hsplit : d.children i = [] ++ t :: below := hchildren
  have hbefore : d.spaceBefore t = false := by
    rw [spaceBefore, previousSibling?_of_split hsplit]
    rfl
  have hafter : d.spaceAfter t = false := by
    rw [spaceAfter, nextSibling?_of_split hsplit]
    cases below with
    | nil => rfl
    | cons l below =>
      rw [List.head?_cons, Option.any_some, isInline_of_isList (hbelow l List.mem_cons_self),
        Bool.false_and]
  rw [write_text h.reachable hR (isText_of_isLabel ht), h.isRaw_eq_false, if_neg (by decide),
    hbefore, hafter]
  rfl

/-- What stands below a label, given what the items of the list there write together. -/
theorem write_below (h : d.IsOutline) (hbullet : o.bullet ≠ '\n')
    (hR : (flavour.renderer o).Writes d R)
    {below : List Nat} (hi : d.isItem i = true) (hchildren : d.children i = t :: below)
    (hbelow : below = [] ∨ ∃ l, below = [l] ∧ d.isList l = true)
    (hcontent : ∀ l ∈ below, (d.children l).flatMap R =
      terminated (d.entryLines (flavour.itemMarker o d) (d.listDepth l + 1) l)) :
    below.flatMap R =
      if below.flatMap (d.entryLines (flavour.itemMarker o d) (d.listDepth i + 1)) = [] then []
      else '\n' :: terminated
        (below.flatMap (d.entryLines (flavour.itemMarker o d) (d.listDepth i + 1))) := by
  rcases hbelow with rfl | ⟨l, rfl, hl⟩
  · rfl
  · have hmem : l ∈ d.children i := by rw [hchildren]; simp
    have hdepth : d.listDepth l = d.listDepth i := by
      rw [listDepth_of_mem_children hmem, isList_of_isItem hi]
      rfl
    have hcontent := hcontent l List.mem_cons_self
    rw [hdepth] at hcontent
    rw [List.flatMap_singleton, List.flatMap_singleton, if_neg (h.entryLines_list_ne_nil hl)]
    exact write_innerList hR hi hmem hl (h.entryLines_list_ne_nil hl)
      (fun line hline => h.isEntry_of_mem (newline_notMem_itemMarker hbullet flavour d) hline)
      hcontent

/-- Each item writes the lines of its subtree as they are seen from its depth, and the items of a
list together those of the list, with a newline behind every line. -/
theorem write_outline (h : d.IsOutline) (hbullet : o.bullet ≠ '\n')
    (hR : (flavour.renderer o).Writes d R) (i : Nat) :
    (d.isItem i = true →
      R i = terminated (d.entryLines (flavour.itemMarker o d) (d.listDepth i) i)) ∧
      (d.isList i = true → (d.children i).flatMap R =
        terminated (d.entryLines (flavour.itemMarker o d) (d.listDepth i + 1) i)) := by
  induction i using d.childrenInduction with
  | step i ih =>
    constructor
    · intro hi
      obtain ⟨t, below, hchildren, ht, hbelow, hlists⟩ := h.exists_label hi
      have hentries : ∀ line ∈
          below.flatMap (d.entryLines (flavour.itemMarker o d) (d.listDepth i + 1)),
            IsEntry line := by
        intro line hline
        obtain ⟨l, -, hline⟩ := List.mem_flatMap.mp hline
        exact h.isEntry_of_mem (newline_notMem_itemMarker hbullet flavour d) hline
      have hcontent : ∀ l ∈ below, (d.children l).flatMap R =
          terminated (d.entryLines (flavour.itemMarker o d) (d.listDepth l + 1) l) := by
        intro l hl
        exact (ih l (by rw [hchildren]; exact List.mem_cons_of_mem t hl)).2 (hlists l hl)
      rw [write_item h hR hi, hchildren, List.flatMap_cons,
        write_label h hR hchildren ht hlists,
        write_below h hbullet hR hi hchildren hbelow hcontent,
        listItem_eq (IsOutline.isEntry_flowed ht) (isBare_flowed _).head hentries,
        h.entryLines_item hi hchildren ht hlists]
    · intro hl
      rw [entryLines_of_not_isItem (isItem_of_isList hl), terminated_flatMap]
      apply List.flatMap_congr
      intro c hc
      rw [(ih c hc).1 ((h.list i hl).2 c hc), listDepth_of_mem_children hc, hl]
      rfl

/-- The Markdown of an outline. -/
theorem convertDocument_outline (h : d.IsOutline) (hbullet : o.bullet ≠ '\n') :
    (flavour.renderer o).convertDocument d =
      .ok (['\n'].intercalate (d.entryLines (flavour.itemMarker o d) 1 root)) := by
  obtain ⟨R, hR⟩ := (flavour.neverFails o d).exists_render
  have hlines := h.areLines (newline_notMem_itemMarker hbullet flavour d) 1
  obtain ⟨l, hroot, hl, hwhole⟩ := h.exists_whole (flavour.itemMarker o d) 1
  have hmem : l ∈ d.children root := by rw [hroot]; simp
  have hdepth : d.listDepth l = 0 := by
    rw [listDepth_of_mem_children hmem, isList_root, listDepth, ancestors_root]
    rfl
  have hcontent := (write_outline h hbullet (fun i => (hR i).2) l).2 hl
  rw [hdepth, Nat.zero_add, ← hwhole] at hcontent
  rw [Renderer.convertDocument_of_render fun i => (hR i).1, hroot, List.flatMap_singleton,
    write_outerList (fun i => (hR i).2) hmem hl hlines hcontent,
    tidy_block hlines.isBare_newline hlines.collapseNewlines_intercalate]

end Flavour

/-- Nested lists render as an outline. Whatever the nesting and whichever lists are ordered, the
Markdown has exactly one line for each item, in document order and without blank lines in
between: four spaces for each list that the list of the item stands in, the marker of the item,
and its label, folded, trimmed and escaped. The one exception is a text node with the name and the
type of a check box: GitHub flavour puts the mark of a task in front of it, so there the lines are
not the ones without. -/
theorem Profile.convert_outline (flavour : Flavour) (o : Options) (d : Document)
    (h : d.IsOutline) (hbullet : o.bullet ≠ '\n') :
    ∃ markdown, (Profile.ofFlavour flavour o).convert d = .ok markdown ∧
      markdown = ['\n'].intercalate (((d.preorder Document.root).filter d.isItem).map
        (d.entryLine (flavour.itemMarker o d) 1)) ∧
      markdown.splitOn '\n' = ((d.preorder Document.root).filter d.isItem).map
        (d.entryLine (flavour.itemMarker o d) 1) ∧
      (∀ line ∈ markdown.splitOn '\n', trim line ≠ []) ∧
      (markdown = ['\n'].intercalate (((d.preorder Document.root).filter d.isItem).map
          (d.entryLine (listMarker d o.bullet) 1)) ↔
        flavour = .commonMark ∨ ∀ t, d.isLabel t = true → isCheckbox d t = false) := by
  have hmarker := Flavour.newline_notMem_itemMarker hbullet flavour d
  have hlines := h.areLines hmarker 1
  have hplain := h.areLines (newline_notMem_listMarker hbullet d) 1
  refine ⟨['\n'].intercalate (d.entryLines (flavour.itemMarker o d) 1 Document.root), ?_, rfl,
    hlines.splitOn_eq, ?_, ?_⟩
  · rw [Profile.convert_ofFlavour]
    exact Flavour.convertDocument_outline h hbullet
  · rw [hlines.splitOn_eq]
    exact fun line hline => (h.isEntry_of_mem hmarker hline).trim_ne_nil
  · rw [← h.itemMark_eq_nil_iff]
    calc
      _ ↔ d.entryLines (flavour.itemMarker o d) 1 Document.root =
          d.entryLines (listMarker d o.bullet) 1 Document.root := by
        refine ⟨fun heq => ?_, fun heq => congrArg _ heq⟩
        rw [← hlines.splitOn_eq, heq]
        exact hplain.splitOn_eq
      _ ↔ ∀ i, d.isItem i = true → flavour.itemMarker o d i = listMarker d o.bullet i :=
        Document.entryLines_root_eq_iff
      _ ↔ _ := by simp only [Flavour.itemMarker, List.append_right_eq_self]

/-- An ordered list from nine on, with a list in its first item that has a list in turn. -/
def nestedLists : Document :=
  Document.grown
    [(0, .element "ol".toList [("start".toList, "9".toList)]),
     (1, .element "li".toList []), (2, .text " a  b ".toList), (2, .element "ul".toList []),
     (4, .element "li".toList []), (5, .text "*".toList), (5, .element "ol".toList []),
     (7, .element "li".toList []), (8, .text "c".toList), (1, .element "li".toList []),
     (10, .text "d\n".toList)]

theorem Profile.convert_outline_nestedLists :
    ∃ markdown, (Profile.ofFlavour .gitHub {}).convert nestedLists = .ok markdown ∧
      markdown.splitOn '\n' =
        ["9.  a b".toList, "    *   \\*".toList, "        1.  c".toList, "10. d".toList] := by
  have houtline : nestedLists.IsOutline :=
    Document.IsOutline.of_forall_lt (Document.reachable_grown _)
      ⟨1, by decide +kernel, by decide +kernel⟩ (by decide +kernel) (by decide +kernel)
  obtain ⟨markdown, hmarkdown, -, hlines, -⟩ :=
    Profile.convert_outline .gitHub {} nestedLists houtline (by decide)
  refine ⟨markdown, hmarkdown, ?_⟩
  rw [hlines]
  decide +kernel

/-- A list whose item is labelled by a text node with the name and the type of a check box. -/
def boxedLabel : Document :=
  Document.grown
    [(0, .element "ul".toList []), (1, .element "li".toList []),
     (2, ⟨.text, "INPUT".toList, some "a".toList, [("type".toList, "checkbox".toList)]⟩)]

/-- The text is taken for a check box, and still written as text. -/
theorem Profile.convert_boxedLabel :
    boxedLabel.IsOutline ∧ Options.bullet {} ≠ '\n' ∧
      (Profile.ofFlavour .gitHub {}).convert boxedLabel = .ok "*   [ ] a".toList ∧
      ((boxedLabel.preorder Document.root).filter boxedLabel.isItem).map
        (boxedLabel.entryLine (listMarker boxedLabel (Options.bullet {})) 1) =
          ["*   a".toList] := by
  refine ⟨?_, by decide, by decide +kernel, by decide +kernel⟩
  exact Document.IsOutline.of_forall_lt (Document.reachable_grown _)
    ⟨1, by decide +kernel, by decide +kernel⟩ (by decide +kernel) (by decide +kernel)

end TreeMarkdown
