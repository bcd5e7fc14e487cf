/-
Dispatch in CommonMark: what a node is and what it stands in decide on its converter.

The table has keys of one and of two names. A key of two names prevails over one of a single
name, and where it does, the name above the node is one of those that the entry asks for
(`asksFor`); so it comes down to whether some ancestor has such a name (`Document.standsIn`).
`dispatch` says the outcome without the table, name by name. A node may match several keys of two
names, a list item in both kinds of list for instance, but these stand in one entry and so have
one converter (`action_eq_of_tie`): the order of the table does not matter
(`dispatch_by_context`). What an item writes follows from its place (`convert_item`).
-/

import TreeMarkdown.Proofs.RuleTable.Precedence
import TreeMarkdown.Proofs.Rules.Chosen
import TreeMarkdown.Proofs.Selector.Ancestry

namespace TreeMarkdown

namespace Document

variable {d : Document} {i : Nat} {names : List String}

/-- Node `i` has one of these names. -/
def isOneOf (d : Document) (i : Nat) (names : List String) : Bool :=
  names.any fun name => d.isNamed i name.toList

/-- Some ancestor of node `i` has one of these names. -/
def standsIn (d : Document) (i : Nat) (names : List String) : Bool :=
  (d.ancestors i).any fun a => d.isOneOf a names

theorem isOneOf_iff :
    d.isOneOf i names = true ↔ ∃ name ∈ names, d.isNamed i name.toList = true :=
  List.any_eq_true

theorem isOneOf_singleton (name : String) : d.isOneOf i [name] = d.isNamed i name.toList :=
  Bool.or_false _

theorem isOneOf_append (names others : List String) :
    d.isOneOf i (names ++ others) = (d.isOneOf i names || d.isOneOf i others) :=
  List.any_append

theorem standsIn_iff :
    d.standsIn i names = true ↔
      ∃ name ∈ names, ∃ a ∈ d.innerAncestors i, d.isNamed a name.toList = true := by
  constructor
  · intro h
    obtain ⟨a, ha, hnamed⟩ := List.any_eq_true.mp h
    obtain ⟨name, hname, hnamed⟩ := isOneOf_iff.mp hnamed
    exact ⟨name, hname, a, mem_innerAncestors_iff.mpr ⟨ha, ne_root_of_isNamed hnamed⟩, hnamed⟩
  · rintro ⟨name, hname, a, ha, hnamed⟩
    exact List.any_eq_true.mpr
      ⟨a, (mem_innerAncestors_iff.mp ha).1, isOneOf_iff.mpr ⟨name, hname, hnamed⟩⟩

theorem standsIn_of_mem_ancestors {a : Nat} {name : String} (ha : a ∈ d.ancestors i)
    (h : d.isNamed a name.toList = true) : d.standsIn i [name] = true :=
  List.any_eq_true.mpr ⟨a, ha, (isOneOf_singleton name).trans h⟩

theorem standsIn_of_mem_children {c p : Nat} (hc : c ∈ d.children p)
    (h : d.isOneOf p names = true) : d.standsIn c names = true := by
  rw [standsIn, ancestors_of_parent (parent_of_mem_children hc)]
  exact List.any_eq_true.mpr ⟨p, List.mem_cons_self, h⟩

theorem standsIn_of_mem_children_root {c : Nat} (hc : c ∈ d.children root) :
    d.standsIn c names = false := by
  refine Bool.eq_false_iff.mpr fun h => ?_
  obtain ⟨name, -, a, ha, -⟩ := standsIn_iff.mp h
  rw [innerAncestors_of_parent_root (parent_of_mem_children hc)] at ha
  cases ha

end Document

/-! ### Names and the names above them -/

namespace Flavour

variable {flavour : Flavour} {o : Options} {d : Document} {i k : Nat}
  {names contexts : List String} {keys : Text} {f : Converter}

/-- Every chain of the entry at place `k` asks for one of these names above the node, and for
nothing else there. -/
def asksFor (flavour : Flavour) (contexts : List String) (k : Nat) : Bool :=
  flavour.keys[k]?.all fun keys => (Selector.parseList keys).all fun s =>
    contexts.any fun name => s.context == [name.toList]

theorem asksFor_eq (flavour : Flavour) (contexts : List String) (k : Nat) :
    flavour.asksFor contexts k = flavour.chains[k]?.all fun row => row.all fun chain =>
      contexts.any fun name => chain.dropLast == [name.toList] := by
  simp only [← map_tokens_keys, asksFor, List.getElem?_map, Option.all_map, List.all_map,
    Function.comp_def]
  rfl

theorem skips_of_asksFor (h : flavour.asksFor contexts k = true)
    (hnot : d.standsIn i contexts = false) : flavour.Skips d i k := by
  intro keys hkeys s hs
  rw [asksFor, hkeys, Option.all_some] at h
  obtain ⟨name, hname, hcontext⟩ := List.any_eq_true.mp (List.all_eq_true.mp h s hs)
  refine Bool.eq_false_iff.mpr fun hmatch => ?_
  obtain ⟨-, above⟩ := (Selector.isMatch_iff_of_context_eq (beq_iff_eq.mp hcontext)).mp hmatch
  have hstands := Document.standsIn_iff.mpr ⟨name, hname, above⟩
  exact Bool.noConfusion (hstands.symm.trans hnot)

/-- For nodes of these names that stand in one of the contexts there is the entry at place `k`. -/
def isInnerPlace (flavour : Flavour) (names contexts : List String) (k : Nat) : Bool :=
  names.all fun name => flavour.places name.toList 2 == [k] &&
    contexts.all fun above => flavour.hasChain [above.toList, name.toList]

/-- For nodes of these names that stand in none of the contexts there is the entry at place
`k`. -/
def isOuterPlace (flavour : Flavour) (names contexts : List String) (k : Nat) : Bool :=
  names.all fun name => flavour.hasChain [name.toList] &&
    (flavour.places name.toList 1).all fun l => l == k || flavour.asksFor contexts l

/-- For nodes of these names that stand in none of the contexts there is no entry. -/
def hasNoOuterPlace (flavour : Flavour) (names contexts : List String) : Bool :=
  names.all fun name => (flavour.places name.toList 0).all (flavour.asksFor contexts)

theorem action?_inside (hrow : flavour.isInnerPlace names contexts k = true)
    (hk : (flavour.entries o)[k]? = some (keys, f)) (hnamed : d.isOneOf i names = true)
    (hinside : d.standsIn i contexts = true) :
    (flavour.renderer o).action? d i = some f := by
  obtain ⟨name, hname, hnamed⟩ := Document.isOneOf_iff.mp hnamed
  obtain ⟨above, habove, a, ha, hanamed⟩ := Document.standsIn_iff.mp hinside
  have hname := List.all_eq_true.mp hrow name hname
  simp only [Bool.and_eq_true, beq_iff_eq, List.all_eq_true] at hname
  obtain ⟨hplaces, hchain⟩ := hname
  have hchosen := isChosenFrom_of_pair (o := o) (hchain above habove) hnamed ha hanamed
  rw [hplaces] at hchosen
  exact hchosen.action?_eq hk fun l hl hne => absurd (List.mem_singleton.mp hl) hne

theorem action?_outside (hrow : flavour.isOuterPlace names contexts k = true)
    (hk : (flavour.entries o)[k]? = some (keys, f)) (hnamed : d.isOneOf i names = true)
    (houtside : d.standsIn i contexts = false) :
    (flavour.renderer o).action? d i = some f := by
  obtain ⟨name, hname, hnamed⟩ := Document.isOneOf_iff.mp hnamed
  have hname := List.all_eq_true.mp hrow name hname
  simp only [Bool.and_eq_true, Bool.or_eq_true, beq_iff_eq, List.all_eq_true] at hname
  obtain ⟨hchain, hplaces⟩ := hname
  refine (isChosenFrom_of_name hchain hnamed).action?_eq hk fun l hl hne => ?_
  exact skips_of_asksFor ((hplaces l hl).resolve_left hne) houtside

theorem action?_nowhere (hrow : flavour.hasNoOuterPlace names contexts = true)
    (hnamed : d.isOneOf i names = true) (houtside : d.standsIn i contexts = false) :
    (flavour.renderer o).action? d i = none := by
  obtain ⟨name, hname, hnamed⟩ := Document.isOneOf_iff.mp hnamed
  have hplaces := List.all_eq_true.mp (List.all_eq_true.mp hrow name hname)
  exact RuleTable.action?_eq_none_iff.mpr <| best?_eq_none_of_skips hnamed fun l hl =>
    skips_of_asksFor (hplaces l hl) houtside

/-- The converter of nodes of these names, where one of the contexts makes the difference. -/
theorem action?_by_context {l : Nat} {keys' : Text} {g : Converter}
    (hinner : flavour.isInnerPlace names contexts k = true)
    (houter : flavour.isOuterPlace names contexts l = true)
    (hk : (flavour.entries o)[k]? = some (keys, f))
    (hl : (flavour.entries o)[l]? = some (keys', g)) (hnamed : d.isOneOf i names = true) :
    (flavour.renderer o).action? d i = some (if d.standsIn i contexts then f else g) := by
  split
  · rename_i hinside
    exact action?_inside hinner hk hnamed hinside
  · rename_i houtside
    exact action?_outside houter hl hnamed (Bool.eq_false_iff.mpr houtside)

end Flavour

/-! ### CommonMark -/

namespace CommonMark

variable {o : Options} {d : Document} {i : Nat}

/-- The converters of the names that have one of their own, wherever the node stands. -/
def plain (o : Options) : List (List String × Converter) :=
  [(["P"], paragraph), (["BR"], hardBreak), (["H1", "H2", "H3", "H4", "H5", "H6"], heading o),
   (["BLOCKQUOTE"], blockquote), (["PRE"], preformatted), (["HR"], thematicBreak o),
   (["A"], link), (["EM", "I"], emphasis o), (["STRONG", "B"], strong o), (["IMG"], image)]

/-- The converter that node `i` calls for by its kind, its name and the names above it. -/
def dispatch (o : Options) (d : Document) (i : Nat) : Option Converter :=
  if d.isText i then
    some (if d.standsIn i ["PRE", "CODE"] then rawText else text)
  else if d.isOneOf i ["CODE"] then
    some (if d.standsIn i ["PRE"] then codeBlock o else code)
  else if d.isOneOf i ["UL", "OL"] then
    some (if d.standsIn i ["LI"] then innerList else list)
  else if d.isOneOf i ["LI"] then
    if d.standsIn i ["UL", "OL"] then some (item o) else none
  else
    ((plain o).find? fun entry => d.isOneOf i entry.1).map (·.2)

/-! ### The places of the entries -/

open Flavour in
theorem places_by_context :
    (isInnerPlace commonMark ["TEXT_NODE"] ["PRE", "CODE"] 1 = true ∧
        isOuterPlace commonMark ["TEXT_NODE"] ["PRE", "CODE"] 0 = true) ∧
      (isInnerPlace commonMark ["CODE"] ["PRE"] 9 = true ∧
        isOuterPlace commonMark ["CODE"] ["PRE"] 15 = true) ∧
      (isInnerPlace commonMark ["UL", "OL"] ["LI"] 7 = true ∧
        isOuterPlace commonMark ["UL", "OL"] ["LI"] 6 = true) ∧
      isInnerPlace commonMark ["LI"] ["UL", "OL"] 8 = true ∧
        hasNoOuterPlace commonMark ["LI"] ["UL", "OL"] = true := by
  simp only [isInnerPlace, isOuterPlace, hasNoOuterPlace, hasChain_eq, places_eq, asksFor_eq]
  decide

/-- The places of the entries for the names of `plain`. -/
def plainPlaces : List Nat :=
  [2, 3, 4, 5, 10, 11, 12, 13, 14, 16]

theorem isOuterPlace_of_plain : ∀ row ∈ ((plain {}).map Prod.fst).zip plainPlaces,
    Flavour.commonMark.isOuterPlace row.1 [] row.2 = true := by
  simp only [Flavour.isOuterPlace, Flavour.hasChain_eq, Flavour.places_eq, Flavour.asksFor_eq]
  decide

theorem getElem?_plainPlaces (o : Options) : ∀ row ∈ (plain o).zip plainPlaces,
    ((Flavour.commonMark.entries o)[row.2]?).map Prod.snd = some row.1.2 := by
  simp only [plain, plainPlaces, List.zip_cons_cons, List.zip_nil_left, List.forall_mem_cons]
  exact ⟨rfl, rfl, rfl, rfl, rfl, rfl, rfl, rfl, rfl, rfl, by simp⟩

theorem exists_place_of_plain {entry : List String × Converter} (h : entry ∈ plain o) :
    ∃ (k : Nat) (keys : Text), Flavour.commonMark.isOuterPlace entry.1 [] k = true ∧
      (Flavour.commonMark.entries o)[k]? = some (keys, entry.2) := by
  have hrows : ((plain o).zip plainPlaces).map Prod.fst = plain o := List.map_fst_zip (by rfl)
  have hnames : ((plain {}).map Prod.fst).zip plainPlaces =
      ((plain o).zip plainPlaces).map (Prod.map Prod.fst id) := by
    rw [← List.zip_map_left]
    rfl
  rw [← hrows] at h
  obtain ⟨row, hrow, rfl⟩ := List.mem_map.mp h
  obtain ⟨⟨keys, f⟩, hk, hf⟩ := Option.map_eq_some_iff.mp (getElem?_plainPlaces o row hrow)
  refine ⟨row.2, keys, isOuterPlace_of_plain (row.1.1, row.2) ?_, ?_⟩
  · rw [hnames]
    exact List.mem_map_of_mem (f := Prod.map Prod.fst id) hrow
  · rw [hk, ← hf]

theorem action?_of_plain {entry : List String × Converter} (h : entry ∈ plain o)
    (hnamed : d.isOneOf i entry.1 = true) :
    (Flavour.commonMark.renderer o).action? d i = some entry.2 := by
  obtain ⟨k, keys, hplace, hk⟩ := exists_place_of_plain h
  have hnone : d.standsIn i [] = false := List.any_eq_false.mpr fun a _ => Bool.false_ne_true
  exact Flavour.action?_outside hplace hk hnamed hnone

/-! ### Code -/

/-- Code is a block in preformatted text and a span elsewhere. -/
theorem action?_code (hname : d.isNamed i "CODE".toList = true) :
    (Flavour.commonMark.renderer o).action? d i =
      some (if d.standsIn i ["PRE"] then codeBlock o else code) :=
  Flavour.action?_by_context places_by_context.2.1.1 places_by_context.2.1.2 rfl rfl
    ((Document.isOneOf_singleton "CODE").trans hname)

/-! ### Items -/

/-- An item of a list. -/
theorem convert_item (hname : d.isNamed i "LI".toList = true)
    (hlist : d.standsIn i ["UL", "OL"] = true) (content : Text) :
    (Flavour.commonMark.renderer o).convert d i content =
      .ok (Markdown.listItem (Markdown.listMarker d o.bullet i) content) := by
  have haction : (Flavour.commonMark.renderer o).action? d i = some (item o) :=
    Flavour.action?_inside places_by_context.2.2.2.1 rfl
      ((Document.isOneOf_singleton "LI").trans hname) hlist
  rw [Flavour.convert_of_action? haction]
  exact Flavour.writtenBy_total rfl (by simp [Markdown.listItem])

/-! ### Every node -/

/-- The names of elements that CommonMark has keys for. -/
def elementNames : List String :=
  ["CODE"] ++ ["UL", "OL"] ++ ["LI"] ++ (plain {}).flatMap (·.1)

theorem target_cases : ∀ keys ∈ Flavour.commonMark.keys, ∀ s ∈ Selector.parseList keys,
    s.target = textRuleName ∨ ∃ name ∈ elementNames, s.target = name.toList := by
  have hlast : ∀ chain ∈ Flavour.commonMark.chains.flatten,
      chain.getLast? = some textRuleName ∨
        ∃ name ∈ elementNames, chain.getLast? = some name.toList := by
    decide
  intro keys hkeys s hs
  have hchain := hlast _ (Flavour.tokens_mem_chains hkeys hs)
  simpa only [Selector.getLast?_tokens, Option.some_inj] using hchain

/-- Keys of the same length for nodes of the same name stand in one entry. -/
theorem place_eq_of_tie : ∀ x ∈ Flavour.commonMark.keys.zipIdx,
    ∀ y ∈ Flavour.commonMark.keys.zipIdx, ∀ s ∈ Selector.parseList x.1,
      ∀ t ∈ Selector.parseList y.1, Text.eqIgnoringCase s.target t.target = true →
        s.specificity = t.specificity → x.2 = y.2 := by
  decide

/-- Rules that tie for a node have the same converter. -/
theorem action_eq_of_tie {r s : Rule Converter} (hr : r ∈ (Flavour.commonMark.renderer o).rules)
    (hs : s ∈ (Flavour.commonMark.renderer o).rules) (hrmatch : r.selector.isMatch d i = true)
    (hsmatch : s.selector.isMatch d i = true) (htie : r.specificity = s.specificity) :
    r.action = s.action := by
  obtain ⟨entry, hentry, hrs, hraction⟩ := Flavour.exists_entry hr
  obtain ⟨entry', hentry', hss, hsaction⟩ := Flavour.exists_entry hs
  obtain ⟨k, hk⟩ := List.getElem?_of_mem hentry
  obtain ⟨l, hl⟩ := List.getElem?_of_mem hentry'
  have htarget := Document.eqIgnoringCase_of_isNamed (Selector.isNamed_of_isMatch hrmatch)
    (Selector.isNamed_of_isMatch hsmatch)
  have hkl : k = l := place_eq_of_tie (entry.1, k)
    (List.mem_zipIdx_iff_getElem?.mpr (Flavour.getElem?_keys hk)) (entry'.1, l)
    (List.mem_zipIdx_iff_getElem?.mpr (Flavour.getElem?_keys hl)) _ hrs _ hss htarget htie
  rw [hkl, hl] at hk
  cases hk
  rw [hraction, hsaction]

/-- A node with none of the names has no rule. -/
theorem action?_of_unnamed (htext : d.isNamed i textRuleName = false)
    (hnames : d.isOneOf i elementNames = false) :
    (Flavour.commonMark.renderer o).action? d i = none := by
  refine RuleTable.action?_eq_none_iff.mpr <| Option.eq_none_iff_forall_ne_some.mpr ?_
  intro rule hbest
  obtain ⟨entry, hentry, hs, hmatch, -⟩ := Flavour.exists_entry_of_best? hbest
  have hkeys : entry.1 ∈ Flavour.commonMark.keys := by
    rw [← Flavour.map_fst_entries .commonMark o]
    exact List.mem_map_of_mem hentry
  have hnamed := Selector.isNamed_of_isMatch hmatch
  rcases target_cases _ hkeys _ hs with htarget | ⟨name, hname, htarget⟩
  · rw [htarget, htext] at hnamed
    cases hnamed
  · rw [htarget] at hnamed
    exact Bool.noConfusion ((Document.isOneOf_iff.mpr ⟨name, hname, hnamed⟩).symm.trans hnames)

theorem action?_eq_dispatch (h : d.isElement i = true → d.isNamed i textRuleName = false) :
    (Flavour.commonMark.renderer o).action? d i = dispatch o d i := by
  obtain ⟨⟨hraw, htext⟩, ⟨hblock, hspan⟩, ⟨hnested, hlist⟩, hitem, hnoitem⟩ := places_by_context
  unfold dispatch
  split
  · rename_i hkind
    exact Flavour.action?_by_context hraw htext rfl rfl
      ((Document.isOneOf_singleton "TEXT_NODE").trans (Document.isNamed_textRuleName hkind))
  rename_i hkind
  split
  · exact Flavour.action?_by_context hblock hspan rfl rfl ‹_›
  rename_i hcode
  split
  · exact Flavour.action?_by_context hnested hlist rfl rfl ‹_›
  rename_i hlists
  split
  · split
    · exact Flavour.action?_inside hitem rfl ‹_› ‹_›
    · exact Flavour.action?_nowhere hnoitem ‹_› (Bool.eq_false_iff.mpr ‹_›)
  rename_i hitems
  cases hplain : (plain o).find? fun entry => d.isOneOf i entry.1 with
  | some entry =>
    exact action?_of_plain (List.mem_of_find?_eq_some hplain)
      (List.find?_eq_some_iff_append.mp hplain).1
  | none =>
    have hunnamed : d.isNamed i textRuleName = false := by
      refine Bool.eq_false_iff.mpr fun hnamed => ?_
      rcases Document.isText_or_isElement_of_isNamed hnamed with hany | hany
      · exact hkind hany
      · exact Bool.noConfusion (hnamed.symm.trans (h hany))
    refine action?_of_unnamed hunnamed ?_
    have hothers : d.isOneOf i ((plain o).flatMap (·.1)) = false := by
      rw [Document.isOneOf, List.any_flatMap]
      exact List.any_eq_false.mpr (List.find?_eq_none.mp hplain)
    simp only [elementNames, Document.isOneOf_append, Bool.or_eq_false_iff]
    exact ⟨⟨⟨Bool.eq_false_iff.mpr hcode, Bool.eq_false_iff.mpr hlists⟩,
      Bool.eq_false_iff.mpr hitems⟩, hothers⟩

theorem dispatch_root (o : Options) (d : Document) : dispatch o d Document.root = none := by
  have hunnamed : ∀ names, d.isOneOf Document.root names = false := fun names =>
    List.any_eq_false.mpr fun name _ => by simp [Document.isNamed_root]
  simp only [dispatch, Document.isText_root, hunnamed, Bool.false_eq_true, if_false]
  rfl

/-- What a node is and what it stands in decide on its converter in CommonMark, whatever the
options: raw text or text, a code block or a code span, an inner list or a list, an item or
nothing, as `dispatch` says. The order of the table has no part in it: where several keys of the
greatest length match a node, they have the same converter, and with its rules in any other order
the table gives every node the converter that it has. The one name that is not for elements is
that of text nodes. -/
theorem dispatch_by_context (o : Options) (d : Document) (i : Nat)
    (h : d.isElement i = true → d.isNamed i textRuleName = false) :
    (Flavour.commonMark.renderer o).action? d i = dispatch o d i ∧
      (Flavour.commonMark.renderer o).action? d Document.root = none ∧
      (∀ r ∈ (Flavour.commonMark.renderer o).rules,
        ∀ s ∈ (Flavour.commonMark.renderer o).rules, r.selector.isMatch d i = true →
          s.selector.isMatch d i = true → r.specificity = s.specificity → r.action = s.action) ∧
      ∀ u : Renderer, (Flavour.commonMark.renderer o).rules.Perm u.rules →
        u.action? d i = dispatch o d i := by
  have hdispatch := action?_eq_dispatch (o := o) h
  refine ⟨hdispatch, ?_, fun r hr s hs => action_eq_of_tie hr hs, fun u hperm => ?_⟩
  · rw [← dispatch_root o d]
    refine action?_eq_dispatch fun _ => d.isNamed_root textRuleName
  · rw [← hdispatch]
    exact (RuleTable.action?_eq_of_perm hperm fun r hr s hs => action_eq_of_tie hr hs).symm

/-- An item of an ordered list that stands in an item of an unordered one. -/
def itemInBothLists : Document :=
  Document.grown
    [(0, .element "ul".toList []), (1, .element "li".toList []), (2, .element "ol".toList []),
     (3, .element "li".toList []), (4, .text "a".toList)]

theorem dispatch_by_context_itemInBothLists :
    (itemInBothLists.isElement 4 = true → itemInBothLists.isNamed 4 textRuleName = false) ∧
      (Flavour.commonMark.renderer {}).action? itemInBothLists 4 = some (item {}) ∧
      ∀ u : Renderer, (Flavour.commonMark.renderer {}).rules.Perm u.rules →
        u.action? itemInBothLists 4 = some (item {}) := by
  have hcontext : itemInBothLists.isText 4 = false ∧ itemInBothLists.isOneOf 4 ["CODE"] = false ∧
      itemInBothLists.isOneOf 4 ["UL", "OL"] = false ∧
        itemInBothLists.isOneOf 4 ["LI"] = true ∧
          itemInBothLists.standsIn 4 ["UL", "OL"] = true := by
    decide +kernel
  have hdispatch : dispatch {} itemInBothLists 4 = some (item {}) := by
    simp only [dispatch, hcontext, Bool.false_eq_true, if_false, if_true]
  have hname : itemInBothLists.isElement 4 = true →
      itemInBothLists.isNamed 4 textRuleName = false := by
    decide +kernel
  obtain ⟨hchosen, -, -, hperm⟩ := dispatch_by_context {} itemInBothLists 4 hname
  rw [hdispatch] at hchosen hperm
  exact ⟨hname, hchosen, hperm⟩

end CommonMark

end TreeMarkdown
