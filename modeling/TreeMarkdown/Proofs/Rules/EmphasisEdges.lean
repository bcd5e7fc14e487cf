/-
White space next to the delimiters of emphasis.

Emphasis is what stands in it between two delimiters, and what stands in it is not trimmed. So
the characters next to the delimiters are the ends of what the children are written as, and these
come from a single node at either end: the first node, or the last, that does not leave it to its
children what is written and that is not written as nothing (`Leads`). In a document of text
and inline elements only two kinds of nodes begin or end with white space, line breaks and text
that its boundaries call on to be spaced (`Flavour.isSpaceEdge_eq`). At the inner end of an
element no sibling is left to be spaced against, unless there is one that is written as nothing.
-/

import TreeMarkdown.Proofs.Document.Subtree
import TreeMarkdown.Proofs.Rules.Dispatch
import TreeMarkdown.Proofs.Rules.TextNodes
import TreeMarkdown.Proofs.Rules.Totality

namespace TreeMarkdown

open Text Markdown

/-- One of the two ends of a text. -/
inductive Side where
  | front
  | back
deriving DecidableEq

namespace Side

/-- The character at the end of a text. -/
def char? : Side → Text → Option Char
  | front, t => t.head?
  | back, t => t.getLast?

/-- The children of a node, from this end on. -/
def children (d : Document) (i : Nat) : Side → List Nat
  | front => d.children i
  | back => (d.children i).reverse

/-- The boundary at this end calls for a space. -/
def spaced (d : Document) (i : Nat) : Side → Bool
  | front => d.spaceBefore i
  | back => d.spaceAfter i

variable {side : Side} {d : Document} {R : Nat → Text} {t : Text} {i c : Nat}

theorem char?_eq_none_iff : side.char? t = none ↔ t = [] := by
  cases side with
  | front => exact List.head?_eq_none_iff
  | back => exact List.getLast?_eq_none_iff

theorem mem_children_iff : c ∈ side.children d i ↔ c ∈ d.children i := by
  cases side with
  | front => exact Iff.rfl
  | back => exact List.mem_reverse

/-- The end of what the children are written as is that of the first of them that has one. -/
theorem char?_flatMap (side : Side) (d : Document) (R : Nat → Text) (i : Nat) :
    side.char? ((d.children i).flatMap R) =
      (side.children d i).findSome? fun c => side.char? (R c) := by
  cases side with
  | front => exact List.head?_flatMap
  | back => exact List.getLast?_flatMap

/-- At its end, a node has no sibling to be spaced against. -/
theorem spaced_eq_false {p : Nat} {after : List Nat} (h : side.children d p = c :: after) :
    side.spaced d c = false := by
  cases side with
  | front =>
    have hsplit : d.children p = [] ++ c :: after := h
    rw [spaced, Document.spaceBefore, Document.previousSibling?_of_split hsplit]
    rfl
  | back =>
    have hsplit : d.children p = after.reverse ++ c :: [] := by
      rw [← List.reverse_cons, ← h, children, List.reverse_reverse]
    rw [spaced, Document.spaceAfter, Document.nextSibling?_of_split hsplit]
    rfl

end Side

/-! ### The node that is written at an end -/

/-- Node `x` is the one that is written at this end of what stands in node `i`: nothing is written
for the nodes between it and the end, and those above it leave it to their children what is
written. -/
inductive Leads (d : Document) (R : Nat → Text) (side : Side) : Nat → Nat → Prop where
  | child {i x : Nat} {before after : List Nat} (hsplit : side.children d i = before ++ x :: after)
      (hbefore : ∀ b ∈ before, R b = []) (hshown : R x ≠ [])
      (hown : R x ≠ (d.children x).flatMap R) : Leads d R side i x
  | deeper {i c x : Nat} {before after : List Nat}
      (hsplit : side.children d i = before ++ c :: after) (hbefore : ∀ b ∈ before, R b = [])
      (hpassed : R c = (d.children c).flatMap R) (h : Leads d R side c x) : Leads d R side i x

namespace Leads

variable {d : Document} {R : Nat → Text} {side : Side} {i x : Nat}

/-- There is such a node if anything is written, and the character at the end is its. -/
theorem exists_of_ne_nil (h : (d.children i).flatMap R ≠ []) :
    ∃ x, Leads d R side i x ∧ side.char? ((d.children i).flatMap R) = side.char? (R x) := by
  induction i using d.childrenInduction with
  | step i ih =>
    have hne : side.char? ((d.children i).flatMap R) ≠ none := fun hnone =>
      h (Side.char?_eq_none_iff.mp hnone)
    obtain ⟨char, hchar⟩ := Option.ne_none_iff_exists'.mp hne
    have hfound := hchar
    rw [Side.char?_flatMap, List.findSome?_eq_some_iff] at hfound
    obtain ⟨before, c, after, hsplit, hc, hnone⟩ := hfound
    have hbefore : ∀ b ∈ before, R b = [] := fun b hb => Side.char?_eq_none_iff.mp (hnone b hb)
    have hshown : R c ≠ [] := by
      intro hnil
      rw [Side.char?_eq_none_iff.mpr hnil] at hc
      cases hc
    rw [hchar, ← hc]
    by_cases hpassed : R c = (d.children c).flatMap R
    · have hmem : c ∈ d.children i := Side.mem_children_iff.mp (by rw [hsplit]; simp)
      obtain ⟨x, hx, hend⟩ := ih c hmem (hpassed ▸ hshown)
      exact ⟨x, .deeper hsplit hbefore hpassed hx, by rw [hpassed, hend]⟩
    · exact ⟨c, .child hsplit hbefore hshown hpassed, rfl⟩

theorem own (h : Leads d R side i x) : R x ≠ [] ∧ R x ≠ (d.children x).flatMap R := by
  induction h with
  | child _ _ hshown hown => exact ⟨hshown, hown⟩
  | deeper _ _ _ _ ih => exact ih

/-- Among its siblings, too, nothing is written between the node and the end. -/
theorem exists_place (h : Leads d R side i x) : ∃ p before after,
    side.children d p = before ++ x :: after ∧ (∀ b ∈ before, R b = []) ∧
      (p = i ∨ i ∈ d.ancestors p) := by
  induction h with
  | child hsplit hbefore _ _ => exact ⟨_, _, _, hsplit, hbefore, Or.inl rfl⟩
  | @deeper i c x before after hsplit _ _ _ ih =>
    obtain ⟨p, before, after, hplace, hbefore, hp⟩ := ih
    have hc : i ∈ d.ancestors c :=
      Document.mem_ancestors_of_mem_children (Side.mem_children_iff.mp (by rw [hsplit]; simp))
    refine ⟨p, before, after, hplace, hbefore, Or.inr ?_⟩
    rcases hp with rfl | hp
    · exact hc
    · exact Document.mem_ancestors_trans hc hp

/-- The node stands below. -/
theorem mem_ancestors (h : Leads d R side i x) : i ∈ d.ancestors x := by
  obtain ⟨p, before, after, hsplit, -, hp⟩ := h.exists_place
  have hparent : p ∈ d.ancestors x :=
    Document.mem_ancestors_of_mem_children (Side.mem_children_iff.mp (by rw [hsplit]; simp))
  rcases hp with rfl | hp
  · exact hparent
  · exact Document.mem_ancestors_trans hp hparent

end Leads

/-! ### Documents of text and inline elements -/

namespace Document

/-- Below the root there are only text nodes and inline elements. -/
def IsAllInline (d : Document) : Prop :=
  ∀ i < d.size, i ≠ root → d.isInline i = true

instance (d : Document) : Decidable d.IsAllInline :=
  Nat.decidableBallLT d.size _

/-- The names of blocks that there are rules for. -/
def ruledBlocks : List String :=
  ["P", "H1", "H2", "H3", "H4", "H5", "H6", "BLOCKQUOTE", "UL", "OL", "LI", "PRE", "HR", "TABLE",
   "TR", "TH", "TD"]

variable {d : Document} {i x : Nat} {side : Side}

theorem IsAllInline.isNamed_eq_false (h : d.IsAllInline) {name : String}
    (hname : name ∈ ruledBlocks) (i : Nat) : d.isNamed i name.toList = false := by
  have hblock : ∀ name ∈ ruledBlocks, namesText name.toList = false ∧
      isAscii name.toList = true ∧ isBlockTag (foldAscii name.toList) = true := by
    decide
  obtain ⟨htext, hascii, htag⟩ := hblock name hname
  refine Bool.eq_false_iff.mpr fun hnamed => ?_
  have hinline := h i (lt_size_of_satisfies hnamed) (ne_root_of_isNamed hnamed)
  rw [isInline_eq_false_of_isNamed hnamed htext hascii htag] at hinline
  cases hinline

/-- Node `i` has white space of its own at this end: a line break, text that is spaced there or
has nothing but spaces, or raw text with white space there. -/
def hasSpaceAt (d : Document) (side : Side) (i : Nat) : Bool :=
  d.isNamed i "BR".toList ||
    d.isNamed i textRuleName &&
      if d.isRaw i then isSpaceEdge (side.char? (d.ownText i))
      else side.spaced d i || (trim (d.ownText i)).isEmpty

end Document

namespace Text

variable {t : Text} {side : Side}

theorem IsBare.isSpaceEdge_char? (h : IsBare isSpace t) : isSpaceEdge (side.char? t) = false := by
  cases side with
  | front => exact isSpaceEdge_eq_false_iff.mpr h.head
  | back => exact isSpaceEdge_eq_false_iff.mpr h.last

/-- Flowed text has white space at an end if it is to be spaced there. If there is nothing else,
the one space stands at both ends. -/
theorem isSpaceEdge_flanked_flowed {d : Document} {i : Nat}
    (hshown : flanked (d.spaceBefore i) (d.spaceAfter i) (flowed t) ≠ []) :
    isSpaceEdge (side.char? (flanked (d.spaceBefore i) (d.spaceAfter i) (flowed t))) =
      (side.spaced d i || (trim t).isEmpty) := by
  by_cases ht : trim t = []
  · rw [flowed_eq_nil_iff.mpr ht] at hshown ⊢
    rw [ht, List.isEmpty_nil, Bool.or_true]
    revert hshown
    cases d.spaceBefore i <;> cases d.spaceAfter i <;> cases side <;> decide
  · have hflowed : flowed t ≠ [] := mt flowed_eq_nil_iff.mp ht
    have hempty : (trim t).isEmpty = false := by simpa using ht
    have hbare := isBare_flowed t
    rw [flanked_of_isBare hbare fun hnil => absurd hnil hflowed, hempty, Bool.or_false]
    cases side with
    | front =>
      show isSpaceEdge (List.head? _) = d.spaceBefore i
      rw [List.append_assoc]
      cases d.spaceBefore i with
      | true => rfl
      | false =>
        rw [gap_false, List.nil_append, List.head?_append_of_ne_nil _ hflowed]
        exact isSpaceEdge_eq_false_iff.mpr hbare.head
    | back =>
      show isSpaceEdge (List.getLast? _) = d.spaceAfter i
      cases d.spaceAfter i with
      | true =>
        rw [gap_true, List.getLast?_concat]
        rfl
      | false =>
        rw [gap_false, List.append_nil, List.getLast?_append_of_ne_nil _ hflowed]
        exact isSpaceEdge_eq_false_iff.mpr hbare.last

end Text

namespace Markdown

variable {content out : Text}

theorem isBare_span {delimiter : Text} (hbare : IsBare isSpace delimiter) (hne : delimiter ≠ [])
    (hout : span delimiter content = some out) : IsBare isSpace out := by
  unfold span at hout
  split at hout
  · cases hout
    exact hbare.around hbare hne hne content
  · cases hout

theorem isBare_reference (label target : Text) (title : Option Text) :
    IsBare isSpace (reference label target title) := by
  have hframe : reference label target title =
      ['['] ++ (label ++ ']' :: '(' :: target ++ titlePart title) ++ [')'] := by
    simp [reference]
  rw [hframe]
  exact (IsBare.of_forall (by simp [isSpace])).around (IsBare.of_forall (by simp [isSpace]))
    (by simp) (by simp) _

theorem isBare_link {target : Text} {title : Option Text}
    (hout : link target title content = some out) : IsBare isSpace out := by
  unfold link at hout
  split at hout
  · cases hout
  · cases hout
    exact isBare_reference _ _ _

theorem isBare_image {label target : Text} {title : Option Text}
    (hout : image label target title = some out) : IsBare isSpace out := by
  unfold image at hout
  split at hout
  · cases hout
  · cases hout
    exact ⟨by simp [isSpace], (isBare_reference label target title).last⟩

theorem isBare_codeSpan (hout : codeSpan content = some out) : IsBare isSpace out := by
  have hticks : ∀ n, IsBare isSpace (List.replicate (n + 1) '\x60') := fun n =>
    IsBare.of_forall fun c hc => by rw [List.eq_of_mem_replicate hc]; rfl
  unfold codeSpan at hout
  split at hout
  · cases hout
  · dsimp only at hout
    split at hout
    · cases hout
      have hframe := (hticks (longestRun '\x60' content)).around
        (hticks (longestRun '\x60' content)) (by simp) (by simp) (' ' :: content ++ [' '])
      simpa using hframe
    · cases hout
      exact (hticks _).around (hticks _) (by simp) (by simp) content

end Markdown

/-! ### Converters -/

/-- In a document of text and inline elements, what the converter writes where it is chosen under
these keys has no white space at its ends, text and line breaks apart. -/
def WritesBare (keys : Text) (f : Converter) : Prop :=
  ∀ d : Document, d.IsAllInline → ∀ i, d.isNamed i textRuleName = false →
    d.isNamed i "BR".toList = false → ∀ s ∈ Selector.parseList keys, s.isMatch d i = true →
      ∀ content out, f d i content = .ok (some out) → IsBare isSpace out

namespace WritesBare

variable {keys : Text} {f : Converter}

theorem of_names (h : Selector.namesOnly ("TEXT_NODE" :: "BR" :: Document.ruledBlocks) keys = true) :
    WritesBare keys f := by
  intro d hd i htext hbreak s hs hmatch _ _ _
  obtain ⟨name, hname, hnamed⟩ := Selector.exists_name_of_isMatch h hs hmatch
  rcases List.mem_cons.mp hname with rfl | hname
  · exact Bool.noConfusion (hnamed.symm.trans htext)
  rcases List.mem_cons.mp hname with rfl | hname
  · exact Bool.noConfusion (hnamed.symm.trans hbreak)
  · exact Bool.noConfusion (hnamed.symm.trans (hd.isNamed_eq_false hname i))

theorem of_isBare (h : ∀ d i content out, f d i content = .ok (some out) → IsBare isSpace out) :
    WritesBare keys f :=
  fun d _ i _ _ _ _ _ => h d i

theorem of_span {delimiter : Text} (hbare : ∀ c ∈ delimiter, isSpace c = false)
    (hne : delimiter ≠ []) : WritesBare keys (.ofContent (span delimiter)) :=
  of_isBare fun _ _ _ _ hout => isBare_span (IsBare.of_forall hbare) hne (Except.ok.inj hout)

/-- There is no preformatted text for code to stand in. -/
theorem codeBlock : WritesBare "PRE CODE".toList f := by
  intro d hd i _ _ s hs hmatch _ _ _
  have hcontext : ∀ s ∈ Selector.parseList "PRE CODE".toList, s.context = ["PRE".toList] := by
    decide
  obtain ⟨-, p, -, hp⟩ := (Selector.isMatch_iff_of_context_eq (hcontext s hs)).mp hmatch
  have hpre : "PRE" ∈ Document.ruledBlocks := by simp [Document.ruledBlocks]
  exact Bool.noConfusion (hp.symm.trans (hd.isNamed_eq_false hpre p))

end WritesBare

namespace Flavour

/-- All keys but those of the elements that are written between marks. -/
theorem namesOnly_ruledBlocks :
    ∀ keys ∈ ["TEXT_NODE", "PRE TEXT_NODE, CODE TEXT_NODE", "P", "BR", "H1, H2, H3, H4, H5, H6",
        "BLOCKQUOTE", "UL, OL", "LI UL, LI OL", "UL LI, OL LI", "PRE", "HR", "TABLE", "TR",
        "TH, TD"],
      Selector.namesOnly ("TEXT_NODE" :: "BR" :: Document.ruledBlocks) keys.toList = true := by
  decide

theorem writesBare :
    ∀ entry ∈ CommonMark.entries {} ++ GitHub.entries {}, WritesBare entry.1 entry.2 := by
  simp only [CommonMark.entries, GitHub.entries, List.cons_append, List.nil_append,
    List.forall_mem_cons]
  refine ⟨?text, ?rawText, ?paragraph, ?hardBreak, ?heading, ?blockquote, ?list, ?innerList,
    ?item, ?codeBlock, ?preformatted, ?thematicBreak, ?link, ?emphasis, ?strong, ?code, ?image,
    ?strikethrough, ?fencedBlock, ?task, ?table, ?row, ?cell, by simp⟩
  case codeBlock => exact .codeBlock
  case fencedBlock => exact .codeBlock
  case link => exact .of_isBare fun d i content out hout => isBare_link (Except.ok.inj hout)
  case image => exact .of_isBare fun d i content out hout => isBare_image (Except.ok.inj hout)
  case code => exact .of_isBare fun d i content out hout => isBare_codeSpan (Except.ok.inj hout)
  case emphasis => exact .of_span (by simp [isSpace]) (by simp)
  case strong => exact .of_span (by simp [isSpace]) (by simp)
  case strikethrough => exact .of_span (by simp [isSpace]) (by simp)
  all_goals exact .of_names (namesOnly_ruledBlocks _ (by simp))

variable {flavour : Flavour} {o : Options} {d : Document} {R : Nat → Text} {i : Nat} {side : Side}

/-- What a node that bears the name of text nodes is written as, if it is not left to what stands
below. -/
theorem own_of_isNamed (hR : (flavour.renderer o).Writes d R)
    (hnamed : d.isNamed i textRuleName = true) (hown : R i ≠ (d.children i).flatMap R) :
    R i = if d.isRaw i then d.ownText i
      else flanked (d.spaceBefore i) (d.spaceAfter i) (flowed (d.ownText i)) := by
  have hwritten := hR i
  -- an empty text counts as abstaining
  have hgiven : ∀ t : Option Text,
      (t.filter (!·.isEmpty)).getD ((d.children i).flatMap R) = R i → R i = t.getD [] := by
    rintro (_ | _ | _) hgiven
    · exact absurd hgiven.symm hown
    · exact absurd hgiven.symm hown
    · exact hgiven.symm
  cases hraw : d.isRaw i with
  | true =>
    rw [convert_of_isRaw flavour o hnamed hraw] at hwritten
    rw [if_pos rfl, ← d.value?_getD]
    exact hgiven _ (Except.ok.inj hwritten)
  | false =>
    rw [convert_of_not_isRaw flavour o hnamed hraw] at hwritten
    exact hgiven (some _) (Except.ok.inj hwritten)

/-- Which nodes are written with white space at an end. -/
theorem isSpaceEdge_eq (hd : d.IsAllInline) (hR : (flavour.renderer {}).Writes d R)
    (hshown : R i ≠ []) (hown : R i ≠ (d.children i).flatMap R) (side : Side) :
    isSpaceEdge (side.char? (R i)) = d.hasSpaceAt side i := by
  rw [Document.hasSpaceAt]
  cases hbreak : d.isNamed i "BR".toList with
  | true =>
    rw [write_hardBreak hR hbreak, Bool.true_or]
    cases side <;> rfl
  | false =>
    rw [Bool.false_or]
    cases htext : d.isNamed i textRuleName with
    | true =>
      have hwritten := own_of_isNamed hR htext hown
      rw [Bool.true_and]
      cases hraw : d.isRaw i with
      | true =>
        rw [hwritten, hraw, if_pos rfl, if_pos rfl]
      | false =>
        rw [hraw, if_neg Bool.false_ne_true] at hwritten
        rw [hwritten] at hshown ⊢
        exact isSpaceEdge_flanked_flowed hshown
    | false =>
      rcases cases_of_convert (hR i) with hpassed | ⟨entry, hentry, s, hs, hmatch, hout⟩
      · exact absurd hpassed hown
      · have hbare := writesBare entry (mem_all_of_mem_entries hentry) d hd i htext hbreak s hs
          hmatch _ _ hout
        rw [hbare.isSpaceEdge_char?, Bool.false_and]

/-- If everything below a node is more than white space, the node that is written at an end has
white space there only if it is raw. -/
theorem hasSpaceAt_eq_false (hR : (flavour.renderer {}).Writes d R) {e x : Nat}
    (h : Leads d R side e x) (hfilled : ∀ j, e ∈ d.ancestors j → isFilled (R j) = true)
    (hraw : d.isRaw x = true → isSpaceEdge (side.char? (d.ownText x)) = false) :
    d.hasSpaceAt side x = false := by
  obtain ⟨p, before, after, hsplit, hbefore, hp⟩ := h.exists_place
  have hshown : ∀ c ∈ side.children d p, isFilled (R c) = true := by
    intro c hc
    have hparent := Document.mem_ancestors_of_mem_children (Side.mem_children_iff.mp hc)
    apply hfilled
    rcases hp with rfl | hp
    · exact hparent
    · exact Document.mem_ancestors_trans hp hparent
  have hfirst : before = [] := by
    refine List.eq_nil_iff_forall_not_mem.mpr fun b hb => ?_
    have hb' := hshown b (by rw [hsplit]; exact List.mem_append_left _ hb)
    rw [hbefore b hb] at hb'
    cases hb'
  rw [hfirst, List.nil_append] at hsplit
  have hx := hshown x (by rw [hsplit]; exact List.mem_cons_self)
  have hbreak : d.isNamed x "BR".toList = false := by
    refine Bool.eq_false_iff.mpr fun hnamed => ?_
    rw [write_hardBreak hR hnamed] at hx
    cases hx
  rw [Document.hasSpaceAt, hbreak, Bool.false_or, Bool.and_eq_false_imp]
  intro htext
  split
  · exact hraw ‹_›
  · rename_i hflow
    have hwritten := own_of_isNamed hR htext h.own.2
    rw [if_neg hflow] at hwritten
    have hempty : trim (d.ownText x) ≠ [] := by
      intro hnil
      rw [hwritten, flowed_eq_nil_iff.mpr hnil] at hx
      revert hx
      cases d.spaceBefore x <;> cases d.spaceAfter x <;> decide
    rw [Side.spaced_eq_false hsplit, Bool.false_or]
    simpa using hempty

/-! ### Emphasis -/

/-- The delimiter between which what stands in node `i` is written. -/
inductive Delimits (flavour : Flavour) (d : Document) (i : Nat) : Text → Prop where
  | emphasis (h : d.isOneOf i ["EM", "I"] = true) : Delimits flavour d i "_".toList
  | strong (h : d.isOneOf i ["STRONG", "B"] = true) : Delimits flavour d i "**".toList
  | strikethrough (hflavour : flavour = .gitHub) (h : d.isOneOf i ["DEL", "S", "STRIKE"] = true) :
      Delimits flavour d i "~~".toList

theorem places_delimiters :
    (∀ flavour, isOuterPlace flavour ["EM", "I"] [] 13 = true ∧
      isOuterPlace flavour ["STRONG", "B"] [] 14 = true) ∧
    isOuterPlace .gitHub ["DEL", "S", "STRIKE"] [] 17 = true := by
  simp only [isOuterPlace, hasChain_eq, places_eq, asksFor_eq]
  refine ⟨fun flavour => ?_, by decide⟩
  cases flavour <;> decide

theorem entries_delimiters (flavour : Flavour) :
    (flavour.entries {})[13]? = some ("EM, I".toList, .ofContent (span "_".toList)) ∧
      (flavour.entries {})[14]? = some ("STRONG, B".toList, .ofContent (span "**".toList)) := by
  cases flavour <;> exact ⟨rfl, rfl⟩

theorem action?_of_delimits {delimiter : Text} (h : flavour.Delimits d i delimiter) :
    (flavour.renderer {}).action? d i = some (.ofContent (span delimiter)) := by
  have hnowhere : d.standsIn i [] = false := List.any_eq_false.mpr fun a _ => Bool.false_ne_true
  obtain ⟨hplaces, hstrike⟩ := places_delimiters
  cases h with
  | emphasis h =>
    exact action?_outside (hplaces flavour).1 (entries_delimiters flavour).1 h hnowhere
  | strong h =>
    exact action?_outside (hplaces flavour).2 (entries_delimiters flavour).2 h hnowhere
  | strikethrough hflavour h =>
    subst hflavour
    exact action?_outside hstrike rfl h hnowhere

end Flavour

/-- What stands next to the delimiters of emphasis, in a document of text and inline elements. If
there is only white space in it, there are no delimiters. Otherwise the characters next to them
are the ends of what the children are written as, untrimmed: at either end there is a node whose
own Markdown stands there, and white space is next to the delimiter exactly if this node is a
line break, or text that has or is spaced by white space there. If all nodes below show something,
and raw text among them begins and ends with it, then there is no white space. -/
theorem Profile.convert_emphasisEdges (flavour : Flavour) (d : Document) (hd : d.IsAllInline) :
    ∃ R : Nat → Text,
      (∀ i, (flavour.renderer {}).convert d i ((d.children i).flatMap R) = .ok (R i)) ∧
      ∀ e delimiter, flavour.Delimits d e delimiter →
        (flavour.renderer {}).action? d e = some (.ofContent (span delimiter)) ∧
        (trim ((d.children e).flatMap R) = [] →
          span delimiter ((d.children e).flatMap R) = none ∧ R e = (d.children e).flatMap R) ∧
        (trim ((d.children e).flatMap R) ≠ [] →
          span delimiter ((d.children e).flatMap R) = some (R e) ∧
          R e = delimiter ++ (d.children e).flatMap R ++ delimiter ∧
          (∀ side : Side, ∃ x, Leads d R side e x ∧
            isSpaceEdge (side.char? ((d.children e).flatMap R)) = d.hasSpaceAt side x) ∧
          ∀ side : Side,
            (∀ j, e ∈ d.ancestors j → isFilled (R j) = true ∧
              (d.isRaw j = true → isSpaceEdge (side.char? (d.ownText j)) = false)) →
            isSpaceEdge (side.char? ((d.children e).flatMap R)) = false) := by
  obtain ⟨R, hR⟩ := (flavour.neverFails {} d).exists_render
  have hwrites : (flavour.renderer {}).Writes d R := fun i => (hR i).2
  refine ⟨R, hwrites, fun e delimiter h => ?_⟩
  have haction := Flavour.action?_of_delimits h
  have hconvert := (Flavour.convert_of_action? haction ((d.children e).flatMap R)).symm.trans
    (hwrites e)
  refine ⟨haction, fun hblank => ?_, fun hshown => ?_⟩
  · have hnone : span delimiter ((d.children e).flatMap R) = none := by
      rw [span, isFilled, hblank]
      rfl
    refine ⟨hnone, ?_⟩
    rw [Flavour.writtenBy, Converter.ofContent, Converter.total, hnone] at hconvert
    exact (Except.ok.inj hconvert).symm
  · have hfilled : isFilled ((d.children e).flatMap R) = true := by simpa [isFilled] using hshown
    have hspan : span delimiter ((d.children e).flatMap R) =
        some (delimiter ++ (d.children e).flatMap R ++ delimiter) := if_pos hfilled
    have hcontent : (d.children e).flatMap R ≠ [] := by
      intro hnil
      rw [hnil] at hfilled
      cases hfilled
    have hwritten : R e = delimiter ++ (d.children e).flatMap R ++ delimiter :=
      Flavour.eq_of_writtenBy_total hspan (by simp [hcontent]) hconvert
    have hleads : ∀ side : Side, ∃ x, Leads d R side e x ∧
        isSpaceEdge (side.char? ((d.children e).flatMap R)) = d.hasSpaceAt side x := by
      intro side
      obtain ⟨x, hx, hend⟩ := Leads.exists_of_ne_nil hcontent
      exact ⟨x, hx, by rw [hend, Flavour.isSpaceEdge_eq hd hwrites hx.own.1 hx.own.2]⟩
    refine ⟨hspan.trans (congrArg some hwritten.symm), hwritten, hleads, fun side hall => ?_⟩
    obtain ⟨x, hx, hedge⟩ := hleads side
    rw [hedge]
    exact Flavour.hasSpaceAt_eq_false hwrites hx (fun j hj => (hall j hj).1) (hall x hx.mem_ancestors).2

/-- Emphasis that begins with an element that shows nothing and ends with a line break, and strong
emphasis on a word. -/
def looseAndTight : Document :=
  Document.grown
    [(0, .element "em".toList []), (1, .element "i".toList []), (2, .text " ".toList),
     (1, .text "a".toList), (1, .element "br".toList []), (0, .element "strong".toList []),
     (6, .text "b".toList)]

theorem Profile.convert_emphasisEdges_looseAndTight :
    looseAndTight.IsAllInline ∧
      ∃ R : Nat → Text, R 1 = "_ a  \n_".toList ∧
        (∀ side, ∃ x, Leads looseAndTight R side 1 x ∧ looseAndTight.hasSpaceAt side x = true) ∧
        R 6 = "**b**".toList ∧
        ∀ side : Side, isSpaceEdge (side.char? ((looseAndTight.children 6).flatMap R)) = false := by
  have hd : looseAndTight.IsAllInline := by decide +kernel
  obtain ⟨R, hR, hedges⟩ := Profile.convert_emphasisEdges .commonMark looseAndTight hd
  have hwrites : (Flavour.commonMark.renderer {}).Writes looseAndTight R := hR
  have hchildren : looseAndTight.children 1 = [2, 4, 5] ∧ looseAndTight.children 2 = [3] ∧
      looseAndTight.children 6 = [7] := by
    decide +kernel
  obtain ⟨hloose, hblank, htight⟩ := hchildren
  have hleaves : ∀ leaf ∈ [(3, ""), (4, " a"), (5, "  \n"), (7, "b")],
      looseAndTight.children leaf.1 = [] ∧
        (Flavour.commonMark.renderer {}).convert looseAndTight leaf.1 [] = .ok leaf.2.toList := by
    decide +kernel
  have hleaf : ∀ leaf ∈ [(3, ""), (4, " a"), (5, "  \n"), (7, "b")], R leaf.1 = leaf.2.toList := by
    intro leaf hmem
    obtain ⟨hnone, hwritten⟩ := hleaves leaf hmem
    exact hwrites.eq_of_convert (by rw [hnone, List.flatMap_nil]) hwritten
  have h3 : R 3 = [] := hleaf (3, "") (by simp)
  have h4 : R 4 = " a".toList := hleaf (4, " a") (by simp)
  have h5 : R 5 = "  \n".toList := hleaf (5, "  \n") (by simp)
  have h7 : R 7 = "b".toList := hleaf (7, "b") (by simp)
  have h2 : R 2 = [] :=
    hwrites.eq_of_convert (by rw [hblank, List.flatMap_singleton, h3]) (by decide +kernel)
  have hloosely : (looseAndTight.children 1).flatMap R = " a  \n".toList := by
    rw [hloose]
    simp only [List.flatMap_cons, List.flatMap_nil, h2, h4, h5]
    decide
  have htightly : (looseAndTight.children 6).flatMap R = "b".toList := by
    rw [htight, List.flatMap_singleton, h7]
  obtain ⟨-, -, hspaced⟩ := hedges 1 "_".toList (.emphasis (by decide +kernel))
  obtain ⟨-, -, hbare⟩ := hedges 6 "**".toList (.strong (by decide +kernel))
  obtain ⟨-, hwritten, hleads, -⟩ := hspaced (by rw [hloosely]; decide)
  obtain ⟨-, hwritten', -, hclean⟩ := hbare (by rw [htightly]; decide)
  refine ⟨hd, R, ?_, fun side => ?_, ?_, fun side => hclean side fun j hj => ?_⟩
  · rw [hwritten, hloosely]
    rfl
  · obtain ⟨x, hx, hedge⟩ := hleads side
    refine ⟨x, hx, hedge.symm.trans ?_⟩
    rw [hloosely]
    cases side <;> decide
  · rw [hwritten', htightly]
    rfl
  · have hpreorder : looseAndTight.preorder 6 = [6, 7] := by decide +kernel
    have hmem := Document.mem_preorder_iff.mpr (Or.inr hj)
    rw [hpreorder, List.mem_pair] at hmem
    rcases hmem with rfl | rfl
    · exact absurd (Document.lt_of_mem_ancestors hj) (Nat.lt_irrefl 6)
    · rw [h7]
      exact ⟨by decide, fun _ => by cases side <;> decide +kernel⟩

/-- Emphasis with an element behind its text in which there is nothing. -/
def emphasisBeforeEmpty : Document :=
  Document.grown
    [(0, .element "em".toList []), (1, .text "a ".toList), (1, .element "span".toList [])]

/-- The closing delimiter follows a space. -/
theorem Profile.emphasisBeforeEmpty_spaced :
    emphasisBeforeEmpty.IsAllInline ∧ emphasisBeforeEmpty.children Document.root = [1] ∧
      Flavour.commonMark.Delimits emphasisBeforeEmpty 1 "_".toList ∧
      (Profile.ofFlavour .commonMark {}).convert emphasisBeforeEmpty =
        .ok ("_".toList ++ "a ".toList ++ "_".toList) ∧
      isSpaceEdge "a ".toList.getLast? = true := by
  refine ⟨?_, ?_, .emphasis ?_, ?_, ?_⟩ <;> decide +kernel

end TreeMarkdown
