/-
Running text: text nodes among inline elements that no rule is for.

CommonMark writes such a document text node by text node, each trimmed and then spaced
against its siblings. What comes of a subtree is the text of the subtree bridged at the
seams where one of the siblings is a text node (`alike_write`); at a seam between two
elements no text node stands that could be spaced, so white space there is lost. Hence no
word is cut, lost or moved, but words may run together, and they do not if no white space
stands at a seam between elements (`Profile.convert_words`).
-/

import TreeMarkdown.Proofs.Document.Seams
import TreeMarkdown.Proofs.Document.Subtree
import TreeMarkdown.Proofs.Rules.KeptText
import TreeMarkdown.Proofs.Rules.TextNodes

namespace TreeMarkdown

open Text (Alike gap gap_false spaceWords)

/-! ### Documents of running text -/

/-- Below the root there are only text nodes and inline elements, and the elements have
neither a rule nor a text of their own. -/
structure Document.IsRunning (r : Renderer) (d : Document) : Prop where
  isInline : ∀ i, i < d.size → i ≠ root → d.isInline i = true
  no_rule : ∀ i, d.isElement i = true → r.best? d i = none
  no_text : ∀ i, d.isElement i = true → d.ownText i = []

namespace Document

variable {r : Renderer} {d : Document} {i p c : Nat}

instance (r : Renderer) (d : Document) : Decidable (d.IsRunning r) :=
  decidable_of_iff
    ((∀ i, i < d.size → i ≠ root → d.isInline i = true) ∧
      ∀ i, i < d.size → d.isElement i = true → (r.best? d i).isNone = true ∧ d.ownText i = [])
    ⟨fun ⟨hinline, helements⟩ =>
        { isInline := hinline
          no_rule := fun i hi => Option.isNone_iff_eq_none.mp
            (helements i (lt_size_of_satisfies hi) hi).1
          no_text := fun i hi => (helements i (lt_size_of_satisfies hi) hi).2 },
      fun h => ⟨h.isInline, fun i _ hi =>
        ⟨Option.isNone_iff_eq_none.mpr (h.no_rule i hi), h.no_text i hi⟩⟩⟩

theorem IsRunning.isElement (h : d.IsRunning r) (hi : i < d.size) (hroot : i ≠ root)
    (htext : d.isText i = false) : d.isElement i = true := by
  have hinline := h.isInline i hi hroot
  rw [Document.isInline, htext, Bool.false_or, Bool.and_eq_true] at hinline
  exact hinline.1

theorem IsRunning.isInline_of_mem_children (h : d.IsRunning r) (hc : c ∈ d.children p) :
    d.isInline c = true :=
  h.isInline c (lt_size_of_mem_children hc) (ne_root_of_mem_children hc)

/-- In running text only text nodes carry text, and these have no children. -/
theorem IsRunning.textAtLeaves (h : d.IsRunning r) (hd : d.Reachable) : d.TextAtLeaves :=
  hd.textAtLeaves h.no_text

/-! ### Spacing -/

theorem alike_withSpaceBefore (b : Bool) (t : Text) :
    Alike (if b then withSpaceBefore t else t) (gap b ++ t) := by
  cases b with
  | false => exact .refl t
  | true =>
    rw [if_pos rfl, withSpaceBefore]
    split
    · rename_i hhead
      exact (Alike.absorb_front (by rw [hhead]; rfl)).symm
    · exact .refl _

theorem alike_withSpaceAfter (b : Bool) (t : Text) :
    Alike (if b then withSpaceAfter t else t) (t ++ gap b) := by
  cases b with
  | false =>
    rw [gap_false, List.append_nil]
    exact .refl t
  | true =>
    rw [if_pos rfl, withSpaceAfter]
    split
    · rename_i hlast
      exact (Alike.absorb_back (by rw [hlast]; rfl)).symm
    · exact .refl _

/-- A spaced text is bordered by the spaces that its boundaries call for. -/
theorem alike_spaced (d : Document) (i : Nat) (t : Text) :
    Alike (d.spaced i t) (gap (d.spaceBefore i) ++ t ++ gap (d.spaceAfter i)) :=
  (alike_withSpaceAfter _ _).trans ((alike_withSpaceBefore _ t).append (.refl _))

/-- Two siblings that follow each other look at the same seam. -/
theorem spaced_at_seam (h : d.TextAtLeaves) {before after : List Nat} {s t : Nat}
    (hsplit : d.children p = before ++ s :: t :: after) :
    d.spaceAfter s = (d.isInline t && d.seam s t) ∧
      d.spaceBefore t = (d.isInline s && d.seam s t) := by
  have hnext : d.nextSibling? s = some t := nextSibling?_of_split hsplit
  have hprevious : d.previousSibling? t = some s := by
    rw [previousSibling?_of_split (hsplit.trans (List.append_cons before s (t :: after))),
      List.getLast?_concat]
  constructor
  · rw [spaceAfter_eq h, hnext, Option.any_some]
  · rw [spaceBefore_eq h, hprevious, Option.any_some]

end Document

/-! ### What is written -/

namespace Flavour

variable {o : Options} {d : Document} {i p c : Nat}

theorem hasChain_raw : ∀ token ∈ ["PRE".toList, "CODE".toList],
    commonMark.hasChain [token] = true ∧ Document.namesText token = false := by
  simp only [hasChain_eq]
  decide

/-- Running text has no code in it, since there are rules for code. -/
theorem isRaw_eq_false (hd : d.IsRunning (commonMark.renderer o)) (i : Nat) :
    d.isRaw i = false := by
  have absent : ∀ token ∈ ["PRE".toList, "CODE".toList], ∀ a, d.isNamed a token = false := by
    intro token htoken a
    obtain ⟨hchain, hname⟩ := hasChain_raw token htoken
    cases hnamed : d.isNamed a token with
    | false => rfl
    | true =>
      obtain ⟨rule, hrule, -⟩ := isChosenFrom_of_name (o := o) hchain hnamed
      rw [hd.no_rule a (Document.isElement_of_isNamed hnamed hname)] at hrule
      cases hrule
  rw [Document.isRaw, List.any_eq_false]
  intro a _
  rw [absent _ (by simp) a, absent _ (by simp) a]
  decide

variable {R : Nat → Text}

/-- An element of running text is written as its children are. -/
theorem write_of_isElement (hd : d.IsRunning (commonMark.renderer o)) (h : d.isElement i = true)
    {content text : Text} (hwritten : (commonMark.renderer o).convert d i content = .ok text) :
    text = content := by
  rw [Renderer.convert, hd.no_rule i h] at hwritten
  exact (Except.ok.inj hwritten).symm

/-- Beside its siblings, a node of running text is written with spaces at its boundaries
if it is a text node, and else without. -/
theorem alike_write_node (hd : d.IsRunning (commonMark.renderer o)) (hreachable : d.Reachable)
    (hR : (commonMark.renderer o).Writes d R) (hc : c ∈ d.children p)
    (ih : Alike ((d.children c).flatMap R)
      (Text.escape (Document.joined d.textSeam (d.bridged d.textSeam) (d.children c)))) :
    Alike (R c) (gap (d.isText c && d.spaceBefore c) ++
      Text.escape (d.bridged d.textSeam c) ++ gap (d.isText c && d.spaceAfter c)) := by
  cases htext : d.isText c with
  | true =>
    rw [write_text hreachable hR htext, isRaw_eq_false hd, if_neg (by decide), Document.bridged_eq,
      hreachable.children_eq_nil_of_isText htext, Document.joined, List.append_nil,
      Bool.true_and, Bool.true_and]
    exact d.alike_spaced c _
  | false =>
    have helement := hd.isElement (Document.lt_size_of_mem_children hc)
      (Document.ne_root_of_mem_children hc) htext
    rw [write_of_isElement hd helement (hR c),
      Document.bridged_of_ownText_eq_nil (hd.no_text c helement), Bool.false_and,
      Bool.false_and, gap_false, List.append_nil]
    exact ih

/-- Some of the children of a node, from one of them on, are written as the text of their
subtrees bridged where a text node stands at the seam, with a space in front if the first of
them is spaced. -/
theorem alike_write_children (hd : d.IsRunning (commonMark.renderer o))
    (hreachable : d.Reachable)
    (hnode : ∀ c ∈ d.children p, Alike (R c) (gap (d.isText c && d.spaceBefore c) ++
      Text.escape (d.bridged d.textSeam c) ++ gap (d.isText c && d.spaceAfter c)))
    {before rest : List Nat} (hsplit : d.children p = before ++ c :: rest) :
    Alike ((c :: rest).flatMap R) (gap (d.isText c && d.spaceBefore c) ++
      Text.escape (Document.joined d.textSeam (d.bridged d.textSeam) (c :: rest))) := by
  induction rest generalizing before c with
  | nil =>
    have hlast : d.spaceAfter c = false := by
      rw [Document.spaceAfter, Document.nextSibling?_of_split hsplit]
      rfl
    have hc := hnode c (by rw [hsplit]; simp)
    rw [hlast, Bool.and_false, gap_false, List.append_nil] at hc
    rw [List.flatMap_singleton]
    exact hc
  | cons s rest ih =>
    have hc := hnode c (by rw [hsplit]; simp)
    have hrest := ih (hsplit.trans (List.append_cons before c (s :: rest)))
    -- the spaces that the two put at their seam make up the one for text nodes
    have hboth := hc.append_at_gap hrest
    have hinline : d.isInline c = true ∧ d.isInline s = true :=
      ⟨hd.isInline_of_mem_children (by rw [hsplit]; simp : c ∈ d.children p),
        hd.isInline_of_mem_children (by rw [hsplit]; simp : s ∈ d.children p)⟩
    obtain ⟨hafter, hbefore⟩ := Document.spaced_at_seam (hd.textAtLeaves hreachable) hsplit
    have hseam : (d.isText c && d.spaceAfter c || d.isText s && d.spaceBefore s) =
        d.textSeam c s := by
      rw [hafter, hbefore, hinline.1, hinline.2, Bool.true_and, Document.textSeam,
        Bool.and_or_distrib_left, Bool.and_comm (d.seam c s), Bool.and_comm (d.seam c s)]
    rw [hseam] at hboth
    rw [List.flatMap_cons, Document.joined, Text.escape_append, Text.escape_append,
      Text.escape_gap]
    simp only [List.append_assoc] at hboth ⊢
    exact hboth

/-- The children of a node of running text are written as the text of their subtrees,
bridged where a text node stands at the seam and escaped. -/
theorem alike_write (hd : d.IsRunning (commonMark.renderer o)) (hreachable : d.Reachable)
    (hR : (commonMark.renderer o).Writes d R) (i : Nat) :
    Alike ((d.children i).flatMap R)
      (Text.escape (Document.joined d.textSeam (d.bridged d.textSeam) (d.children i))) := by
  induction i using d.childrenInduction with
  | step i ih =>
    have hnode := fun c hc => alike_write_node hd hreachable hR hc (ih c hc)
    cases hchildren : d.children i with
    | nil => exact .refl []
    | cons c rest =>
      have hsplit : d.children i = [] ++ c :: rest := hchildren
      have hfirst : d.spaceBefore c = false := by
        rw [Document.spaceBefore, Document.previousSibling?_of_split hsplit]
        rfl
      have hall := alike_write_children hd hreachable hnode hsplit
      rw [hfirst, Bool.and_false, gap_false, List.nil_append] at hall
      exact hall

end Flavour

theorem spaceWords_tidy (t : Text) : spaceWords (tidy t) = spaceWords t := by
  have hnewline : ∀ c : Char, (c == '\n') = true → Text.isSpace c = true := by
    intro c hc
    rw [beq_iff_eq.mp hc]
    rfl
  rw [tidy, Text.spaceWords_collapseNewlines, Text.stripNewlines, Text.spaceWords_stripBy hnewline]

/-- The words of running text as it is written. -/
theorem Flavour.spaceWords_write {o : Options} {d : Document} {R : Nat → Text}
    (hd : d.IsRunning (commonMark.renderer o)) (hreachable : d.Reachable)
    (hR : (commonMark.renderer o).Writes d R) :
    spaceWords (tidy ((d.children Document.root).flatMap R)) =
      (spaceWords (d.bridged d.textSeam Document.root)).map Text.escape := by
  have halike := alike_write hd hreachable hR Document.root
  have hroot : d.ownText Document.root = [] := by
    rw [Document.ownText, Document.node?_root_of_reachable hreachable]
    rfl
  rw [spaceWords_tidy, halike.spaceWords_eq, ← Document.bridged_of_ownText_eq_nil hroot,
    Text.spaceWords_escape]

/-- CommonMark writes all words of running text, in order, each escaped and in one piece.
It runs words together where only white space at seams between elements holds them apart:
the words written are those of the text bridged where a text node stands at the seam, so
they are the words of the text exactly if these are, in particular if a text node stands at
every seam with white space. -/
theorem Profile.convert_words (o : Options) (d : Document) (hreachable : d.Reachable)
    (hd : d.IsRunning (Flavour.commonMark.renderer o)) :
    ∃ markdown, (Profile.ofFlavour .commonMark o).convert d = .ok markdown ∧
      spaceWords markdown =
        (spaceWords (d.bridged d.textSeam Document.root)).map Text.escape ∧
      Text.RunTogether (spaceWords (d.textContent Document.root))
        (spaceWords (d.bridged d.textSeam Document.root)) ∧
      (spaceWords markdown = (spaceWords (d.textContent Document.root)).map Text.escape ↔
        spaceWords (d.bridged d.textSeam Document.root) =
          spaceWords (d.textContent Document.root)) ∧
      ((∀ a b, d.nextSibling? a = some b → d.seam a b = true →
          d.isText a = true ∨ d.isText b = true) →
        spaceWords markdown = (spaceWords (d.textContent Document.root)).map Text.escape) := by
  obtain ⟨R, hR⟩ := (Flavour.commonMark.neverFails o d).exists_render
  have hwords := Flavour.spaceWords_write hd hreachable fun i => (hR i).2
  refine ⟨_, Renderer.convertDocument_of_render fun i => (hR i).1, hwords, ?_⟩
  rw [hwords, Document.spaceWords_textContent (hd.textAtLeaves hreachable)]
  refine ⟨d.runTogether_textSeam Document.root, ?_, ?_⟩
  · exact ⟨fun h => List.map_injective_iff.mpr Text.escape_injective h, congrArg _⟩
  · intro hseams
    rw [Document.bridged_textSeam hseams]

/-- Words whose white space stands in nested elements, on either side of a boundary and
next to an empty one. -/
def nestedSpans : Document :=
  Document.grown
    [(0, .element "span".toList []), (1, .text "one".toList), (1, .element "u".toList []),
     (3, .text "\t".toList), (0, .text "two".toList), (0, .element "small".toList []),
     (0, .text " *three*\n".toList)]

theorem Profile.convert_words_nestedSpans :
    nestedSpans.IsRunning (Flavour.commonMark.renderer {}) ∧
      ∃ markdown, (Profile.ofFlavour .commonMark {}).convert nestedSpans = .ok markdown ∧
        spaceWords markdown = ["one".toList, "two".toList, "\\*three\\*".toList] := by
  have hrunning : nestedSpans.IsRunning (Flavour.commonMark.renderer {}) := by decide +kernel
  obtain ⟨markdown, hmarkdown, hwords, -⟩ :=
    Profile.convert_words {} nestedSpans (Document.reachable_grown _) hrunning
  refine ⟨hrunning, markdown, hmarkdown, ?_⟩
  rw [hwords]
  decide +kernel

/-- Two words held apart by a space at the end of the first of two elements. -/
def twoSpans : Document :=
  Document.grown
    [(0, .element "span".toList []), (1, .text "a ".toList), (0, .element "span".toList []),
     (3, .text "b".toList)]

theorem Profile.convert_twoSpans :
    twoSpans.Reachable ∧ twoSpans.IsRunning (Flavour.commonMark.renderer {}) ∧
      (Profile.ofFlavour .commonMark {}).convert twoSpans = .ok "ab".toList ∧
      spaceWords "ab".toList ≠
        (spaceWords (twoSpans.textContent Document.root)).map Text.escape := by
  refine ⟨Document.reachable_grown _, by decide +kernel, by decide +kernel, by decide +kernel⟩

end TreeMarkdown
