/-
GitHub flavour extends CommonMark.

Mixing in the rules of GitHub flavour overwrites some rules of CommonMark and moves them
behind the others, so both the converters and the ties may come out differently. Where a
document has nothing that is new in GitHub flavour (`IsPlain`), the only rules that apply
of those mixed in are the ones for list items. There CommonMark has a rule of its own for
every node (`commonMark_best?_of_item`), and the two write the same if the item is not a
task (`item_eq`). So every node is written alike (`convert_eq`), and with it the document.
-/

import TreeMarkdown.Proofs.Document.Subtree
import TreeMarkdown.Proofs.RuleTable.Mixing
import TreeMarkdown.Proofs.Rules.KeptText

namespace TreeMarkdown

open Markdown

/-! ### Renderers that write each node alike -/

namespace Renderer

variable {r r' : Renderer} {d d' : Document}

theorem mapM_congr {α β ε : Type} {f g : α → Except ε β} {l : List α}
    (h : ∀ x ∈ l, f x = g x) : l.mapM f = l.mapM g := by
  induction l with
  | nil => rfl
  | cons x l ih =>
    rw [List.mapM_cons, List.mapM_cons, h x List.mem_cons_self,
      ih fun y hy => h y (List.mem_cons_of_mem _ hy)]

theorem render_congr (hchildren : d.children = d'.children)
    (h : ∀ i content, r.convert d i content = r'.convert d' i content) (i : Nat) :
    r.render d i = r'.render d' i := by
  induction i using d.childrenInduction with
  | step i ih =>
    have hbelow : (d.children i).mapM (r.render d) = (d'.children i).mapM (r'.render d') := by
      rw [← hchildren]
      exact mapM_congr ih
    rw [render_eq, render_eq, hbelow]
    simp only [h]

/-- Where each node has the same children and is written alike, the document is. -/
theorem convertDocument_congr_of_children (hchildren : d.children = d'.children)
    (h : ∀ i content, r.convert d i content = r'.convert d' i content) :
    r.convertDocument d = r'.convertDocument d' := by
  have hbelow : (d.children Document.root).mapM (r.render d) =
      (d'.children Document.root).mapM (r'.render d') := by
    rw [← hchildren]
    exact mapM_congr fun c _ => render_congr hchildren h c
  rw [convertDocument_eq, convertDocument_eq, hbelow]

/-- Renderers that write each node alike write the document alike. -/
theorem convertDocument_congr
    (h : ∀ i content, r.convert d i content = r'.convert d i content) :
    r.convertDocument d = r'.convertDocument d :=
  convertDocument_congr_of_children rfl h

end Renderer

/-! ### Documents without additions -/

namespace Document

/-- The first child of node `i` that is not blank text is an input of type `checkbox`. -/
def opensWithCheckbox (d : Document) (i : Nat) : Bool :=
  ((d.children i).find? (!isBlankText d ·)).any fun c =>
    d.hasTag "input" c &&
      (d.attribute? c "type".toList).any (Text.eqIgnoringCase · "checkbox".toList)

/-- The tags that only GitHub flavour has rules for. -/
def additionTags : List Text :=
  ["DEL", "S", "STRIKE", "TABLE", "TR", "TH", "TD"].map String.toList

/-- The document has nothing that is new in GitHub flavour: no deleted text and no tables,
no code in preformatted text and no tasks. -/
structure IsPlain (d : Document) : Prop where
  no_additions : ∀ tag ∈ additionTags, ∀ i, d.isNamed i tag = false
  no_code_block : ∀ i, d.isNamed i "CODE".toList = true →
    ∀ a ∈ d.ancestors i, d.isNamed a "PRE".toList = false
  no_task : ∀ i, d.isNamed i "LI".toList = true → d.opensWithCheckbox i = false

instance (d : Document) : Decidable d.IsPlain :=
  decidable_of_iff
    ((∀ tag ∈ additionTags, ∀ i < d.size, d.isNamed i tag = false) ∧
      (∀ i < d.size, d.isNamed i "CODE".toList = true →
        ∀ a ∈ d.ancestors i, d.isNamed a "PRE".toList = false) ∧
      ∀ i < d.size, d.isNamed i "LI".toList = true → d.opensWithCheckbox i = false)
    ⟨fun ⟨hadditions, hcode, htask⟩ =>
        { no_additions := fun tag htag i => by
            cases hnamed : d.isNamed i tag with
            | false => rfl
            | true => rw [← hnamed, hadditions tag htag i (lt_size_of_satisfies hnamed)]
          no_code_block := fun i hnamed => hcode i (lt_size_of_satisfies hnamed) hnamed
          no_task := fun i hnamed => htask i (lt_size_of_satisfies hnamed) hnamed },
      fun h => ⟨fun tag htag i _ => h.no_additions tag htag i, fun i _ => h.no_code_block i,
        fun i _ => h.no_task i⟩⟩

theorem taskState?_of_not_opensWithCheckbox {d : Document} {i : Nat}
    (h : d.opensWithCheckbox i = false) : taskState? d i = none := by
  unfold opensWithCheckbox at h
  unfold taskState?
  cases hfirst : (d.children i).find? (!isBlankText d ·) with
  | none => rfl
  | some c =>
    rw [hfirst, Option.any_some] at h
    have hbox : isCheckbox d c = false := h
    simp [Option.filter, hbox]

end Document

/-! ### List items -/

namespace Flavour

variable {o : Options} {d : Document} {i : Nat}

/-- The keys under which list items stand. -/
def itemKeys : Text := "UL LI, OL LI".toList

theorem itemKeys_target : ∀ s ∈ Selector.parseList itemKeys, s.target = "LI".toList := by
  decide

/-- A selector of CommonMark for `LI` is one of those for items. -/
theorem commonMark_item_of_target {entry : Text × Converter} {s : Selector}
    (hentry : entry ∈ CommonMark.entries o) (hs : s ∈ Selector.parseList entry.1)
    (htarget : Text.eqIgnoringCase s.target "LI".toList = true) :
    entry = (itemKeys, CommonMark.item o) := by
  have hall : ∀ entry ∈ CommonMark.entries o, entry = (itemKeys, CommonMark.item o) ∨
      ∀ s ∈ Selector.parseList entry.1, Text.eqIgnoringCase s.target "LI".toList = false := by
    simp only [CommonMark.entries, List.forall_mem_cons]
    and_intros
    all_goals first
      | exact Or.inr (by decide)
      | exact Or.inl rfl
      | simp
  rcases hall entry hentry with heq | hother
  · exact heq
  · rw [hother s hs] at htarget
    cases htarget

/-- Where a rule of GitHub flavour for items applies, so does one of CommonMark. -/
theorem commonMark_best?_of_item {s : Selector} (hs : s ∈ Selector.parseList itemKeys)
    (hmatch : s.isMatch d i = true) :
    ∃ a, (commonMark.renderer o).best? d i = some a ∧ a.action = CommonMark.item o := by
  have hitem : (itemKeys, CommonMark.item o) ∈ commonMark.entries o :=
    List.mem_of_getElem? (i := 8) rfl
  obtain ⟨a, ha⟩ := exists_best?_of_isMatch hitem hs hmatch
  obtain ⟨entry, hentry, hsa, hmatcha, haction⟩ := exists_entry_of_best? ha
  have hnamed : d.isNamed i "LI".toList = true := by
    rw [← itemKeys_target s hs]
    exact Selector.isNamed_of_isMatch hmatch
  have htarget := Document.eqIgnoringCase_of_isNamed (Selector.isNamed_of_isMatch hmatcha) hnamed
  rw [commonMark_item_of_target hentry hsa htarget] at haction
  exact ⟨a, ha, haction⟩

/-- Without a task the two flavours write an item alike. -/
theorem item_eq (h : d.opensWithCheckbox i = false) (content : Text) :
    GitHub.item o d i content = CommonMark.item o d i content := by
  have htask := Document.taskState?_of_not_opensWithCheckbox h
  simp [GitHub.item, CommonMark.item, Converter.total, htask, taskMark]

/-! ### Every node -/

/-- In a document without additions the only rules of GitHub flavour that apply are those
for items. -/
theorem item_of_isPlain (hd : d.IsPlain) {b : Rule Converter}
    (hb : b ∈ (Renderer.ofList (GitHub.entries o)).rules)
    (hmatch : b.selector.isMatch d i = true) :
    b.selector ∈ Selector.parseList itemKeys ∧ b.action = GitHub.item o := by
  rw [Renderer.rules_ofList] at hb
  obtain ⟨entry, hentry, hs, haction⟩ :=
    Rule.mem_ofEntries.mp ((RuleTable.lastWrites_sublist _).subset hb)
  have hnamed := Selector.isNamed_of_isMatch hmatch
  -- a selector whose target is an addition matches no node
  have absent : ∀ {keys : Text}, b.selector ∈ Selector.parseList keys →
      (∀ s ∈ Selector.parseList keys, s.target ∈ Document.additionTags) → False := by
    intro keys hs htargets
    rw [hd.no_additions _ (htargets _ hs) i] at hnamed
    cases hnamed
  simp only [GitHub.entries, List.mem_cons, List.not_mem_nil, or_false] at hentry
  rcases hentry with rfl | rfl | rfl | rfl | rfl | rfl
  case inl => exact (absent hs (by decide)).elim
  case inr.inl =>
    have hcode : ∀ s ∈ Selector.parseList "PRE CODE".toList,
        s.target = "CODE".toList ∧ "PRE".toList ∈ s.context := by decide
    obtain ⟨htarget, hcontext⟩ := hcode _ hs
    obtain ⟨a, ha, hpre⟩ := Selector.exists_ancestor_of_isMatch hmatch hcontext
    rw [htarget] at hnamed
    rw [hd.no_code_block i hnamed a ha] at hpre
    cases hpre
  case inr.inr.inl => exact ⟨hs, haction⟩
  case inr.inr.inr.inl => exact (absent hs (by decide)).elim
  case inr.inr.inr.inr.inl => exact (absent hs (by decide)).elim
  case inr.inr.inr.inr.inr => exact (absent hs (by decide)).elim

/-- The two flavours write every node of a document without additions alike. -/
theorem convert_eq (hd : d.IsPlain) (o : Options) (i : Nat) (content : Text) :
    (gitHub.renderer o).convert d i content = (commonMark.renderer o).convert d i content := by
  unfold Renderer.convert
  rw [renderer, renderer, GitHub.renderer, Renderer.mix, RuleTable.best?_extend]
  cases hb : (Renderer.ofList (GitHub.entries o)).best? d i with
  | none => rw [RuleTable.prevailing_none_right]
  | some b =>
    obtain ⟨hmem, hmatch⟩ := RuleTable.best?_mem hb
    obtain ⟨hs, hactionb⟩ := item_of_isPlain hd hmem hmatch
    obtain ⟨a, ha, hactiona⟩ := commonMark_best?_of_item (o := o) hs hmatch
    have hnamed : d.isNamed i "LI".toList = true := by
      rw [← itemKeys_target _ hs]
      exact Selector.isNamed_of_isMatch hmatch
    have hconvert : b.convert d i content = a.convert d i content := by
      rw [Rule.convert, Rule.convert, hactionb, hactiona, item_eq (hd.no_task i hnamed)]
    rw [renderer] at ha
    rw [ha]
    by_cases hle : a.specificity ≤ b.specificity
    · simp only [RuleTable.prevailing_of_le hle, hconvert]
    · simp only [RuleTable.prevailing_of_lt (Nat.not_le.mp hle)]

end Flavour

theorem Profile.convert_ofFlavour (flavour : Flavour) (o : Options) (d : Document) :
    (ofFlavour flavour o).convert d = (flavour.renderer o).convertDocument d := rfl

/-- GitHub flavour is a conservative extension of CommonMark: whatever the options, both
write the same Markdown for every document that has no deleted text, no table parts, no
code in preformatted text and no item that opens with a check box. -/
theorem Profile.gitHub_extends_commonMark (o : Options) (d : Document) (hd : d.IsPlain) :
    ∃ markdown, (Profile.ofFlavour .commonMark o).convert d = .ok markdown ∧
      (Profile.ofFlavour .gitHub o).convert d = .ok markdown := by
  obtain ⟨R, hR⟩ := (Flavour.commonMark.neverFails o d).exists_render
  have hcommonMark := Renderer.convertDocument_of_render fun i => (hR i).1
  refine ⟨_, hcommonMark, ?_⟩
  rw [convert_ofFlavour, Renderer.convertDocument_congr (Flavour.convert_eq hd o)]
  exact hcommonMark

/-- A list in a list, in both orders of `UL` and `OL`, with a check box that does not open
its item, preformatted text and a code span. -/
def plainLists : Document :=
  Document.grown
    [(0, .element "ul".toList []), (1, .element "li".toList []), (2, .text "a".toList),
     (2, .element "input".toList [("type".toList, "checkbox".toList)]),
     (2, .element "ol".toList []), (5, .element "li".toList []), (6, .text " ".toList),
     (6, .element "code".toList []), (8, .text "b".toList), (0, .element "pre".toList []),
     (10, .text "c".toList)]

theorem Profile.gitHub_extends_commonMark_plainLists :
    plainLists.IsPlain ∧
      ∃ markdown, (Profile.ofFlavour .commonMark {}).convert plainLists = .ok markdown ∧
        (Profile.ofFlavour .gitHub {}).convert plainLists = .ok markdown := by
  have hplain : plainLists.IsPlain := by decide +kernel
  exact ⟨hplain, Profile.gitHub_extends_commonMark {} plainLists hplain⟩

end TreeMarkdown
