/-
A document written into another one.

`Transcribes d d' f pieces` says that `d'` has everything below the root of `d` again, below
node `f root`: element `c` as element `f c`, a text node as one or more text nodes in a row
that hold its value between them (`IsCutInto`). The place may be the root of `d'` or any other
node, as long as nothing from there upwards means something to the converters (`IsNeutral`).

Whatever the converters read can then be read in `d'` as well. Lines of ancestors are carried
over with what stands above the place (`Transcribes.innerAncestors_piece`), lists of element
children node by node (`Transcribes.elementChildren_copy`), the texts of subtrees piece by piece
(`Transcribes.flatMap_subtreeText`), and different nodes have different pieces
(`Transcribes.eq_of_mem_pieces`). At the boundaries of siblings white space is seen as before,
because the first and the last piece of a text show it as the text does
(`Transcribes.spaceBefore_piece`).
-/

import Mathlib.Data.List.Pairwise
import TreeMarkdown.Proofs.Document.Construction
import TreeMarkdown.Proofs.Document.Seams
import TreeMarkdown.Proofs.Rules.Chosen
import TreeMarkdown.Proofs.Text.Lines

namespace TreeMarkdown.Document

/-! ### The place -/

/-- The tokens that stand before others in the chains of the flavours. -/
def contextTokens : List Text :=
  ["PRE", "CODE", "LI", "UL", "OL"].map String.toList

/-- The tags of parents and ancestors that converters look for. -/
def soughtTags : List String :=
  ["ol", "thead", "table"]

/-- To the converters it makes no difference that a node stands below node `a`. -/
structure IsNeutral (d : Document) (a : Nat) : Prop where
  not_isNamed : ∀ token ∈ contextTokens, d.isNamed a token = false
  not_hasTag : ∀ tag ∈ soughtTags, d.hasTag tag a = false

theorem isNeutral_root {d : Document} (h : d.Reachable) : d.IsNeutral root := by
  constructor
  · exact fun token _ => isNamed_root d token
  · intro tag htag
    have hnode := node?_root_of_reachable h
    have hroot : ∀ tag ∈ soughtTags, (Node.document.tagName == tag.toList) = false := by
      decide
    rw [hasTag, tagName, hnode]
    exact hroot tag htag

/-- The root may be a place of its own. -/
theorem isNeutral_from_root {d : Document} (h : d.Reachable) :
    ∀ a ∈ root :: d.ancestors root, d.IsNeutral a := by
  intro a ha
  rw [ancestors_root, List.mem_singleton] at ha
  rw [ha]
  exact isNeutral_root h

/-! ### Pieces of text -/

/-- Node `y` of `d'` has the data of node `x` of `d`, but for the value. -/
def IsLike (d : Document) (x : Nat) (d' : Document) (y : Nat) : Prop :=
  ∃ (n : Node) (value value' : Option Text),
    d.node? x = some { n with value := value } ∧ d'.node? y = some { n with value := value' }

/-- The nodes `ys` of `d'` hold the value of text node `x` of `d` between them. Unless it is
text in code, they have white space at the two ends where it has. -/
structure IsCutInto (d : Document) (x : Nat) (d' : Document) (ys : List Nat) : Prop where
  isText : d.isText x = true
  ne_nil : ys ≠ []
  isLike : ∀ y ∈ ys, d.IsLike x d' y
  ownText : ys.flatMap d'.ownText = d.ownText x
  first : d.isRaw x = false → ∀ y ∈ ys.head?,
    isSpaceEdge (d'.ownText y).head? = isSpaceEdge (d.ownText x).head?
  last : d.isRaw x = false → ∀ y ∈ ys.getLast?,
    isSpaceEdge (d'.ownText y).getLast? = isSpaceEdge (d.ownText x).getLast?

/-- Node `c` stands in `d'` as node `f c` and in no further pieces. -/
structure IsCopied (d d' : Document) (f : Nat → Nat) (pieces : Nat → List Nat) (c : Nat) :
    Prop where
  pieces_eq : pieces c = [f c]
  node?_eq : d'.node? (f c) = d.node? c

theorem IsCopied.mem_pieces {d d' : Document} {f : Nat → Nat} {pieces : Nat → List Nat} {c : Nat}
    (h : IsCopied d d' f pieces c) : f c ∈ pieces c := by
  rw [h.pieces_eq]
  exact List.mem_singleton_self _

/-- What stands below the root of `d` stands below node `f root` in `d'`. -/
structure Transcribes (d d' : Document) (f : Nat → Nat) (pieces : Nat → List Nat) : Prop where
  reachable : d.Reachable
  reachable' : d'.Reachable
  neutral : ∀ a ∈ f root :: d'.ancestors (f root), d'.IsNeutral a
  children_eq : ∀ p < d.size, d.isText p = false →
    d'.children (f p) = (d.children p).flatMap pieces
  node : ∀ c < d.size, c ≠ root → IsCopied d d' f pieces c ∨ d.IsCutInto c d' (pieces c)

namespace Transcribes

variable {d d' : Document} {f : Nat → Nat} {pieces : Nat → List Nat} {p q c x y : Nat}

theorem lt_size_of_children (hc : c ∈ d.children p) : p < d.size :=
  Nat.lt_trans (lt_of_mem_children hc) (lt_size_of_mem_children hc)

theorem isText_parent (h : Transcribes d d' f pieces) (hc : c ∈ d.children p) :
    d.isText p = false := by
  cases htext : d.isText p with
  | false => rfl
  | true =>
    rw [h.reachable.children_eq_nil_of_isText htext] at hc
    cases hc

theorem children_of_mem (h : Transcribes d d' f pieces) (hc : c ∈ d.children p) :
    d'.children (f p) = (d.children p).flatMap pieces :=
  h.children_eq p (lt_size_of_children hc) (h.isText_parent hc)

theorem node_of_mem (h : Transcribes d d' f pieces) (hc : c ∈ d.children p) :
    IsCopied d d' f pieces c ∨ d.IsCutInto c d' (pieces c) :=
  h.node c (lt_size_of_mem_children hc) (ne_root_of_mem_children hc)

theorem mem_children (h : Transcribes d d' f pieces) (hc : c ∈ d.children p)
    (hy : y ∈ pieces c) : y ∈ d'.children (f p) := by
  rw [h.children_of_mem hc]
  exact List.mem_flatMap.mpr ⟨c, hc, hy⟩

theorem parent?_piece (h : Transcribes d d' f pieces) (hc : c ∈ d.children p)
    (hy : y ∈ pieces c) : d'.parent? y = some (f p) :=
  parent_of_mem_children (h.mem_children hc hy)

/-! ### Data of nodes -/

theorem isLike_piece (h : Transcribes d d' f pieces) (hc : c ∈ d.children p)
    (hy : y ∈ pieces c) : d.IsLike c d' y := by
  rcases h.node_of_mem hc with hcopied | hcut
  · rw [hcopied.pieces_eq, List.mem_singleton] at hy
    subst hy
    obtain ⟨cell, hcell, -⟩ := Option.bind_eq_some_iff.mp (parent_of_mem_children hc)
    have hnode : d.node? c = some cell.node := by rw [node?, hcell]; rfl
    exact ⟨cell.node, cell.node.value, cell.node.value, hnode, hcopied.node?_eq.trans hnode⟩
  · exact hcut.isLike y hy

theorem isNamed_piece (h : Transcribes d d' f pieces) (hc : c ∈ d.children p)
    (hy : y ∈ pieces c) (token : Text) : d'.isNamed y token = d.isNamed c token := by
  obtain ⟨n, value, value', hnode, hnode'⟩ := h.isLike_piece hc hy
  simp [isNamed, satisfies, hnode, hnode', Node.isNamed]

theorem isText_piece (h : Transcribes d d' f pieces) (hc : c ∈ d.children p)
    (hy : y ∈ pieces c) : d'.isText y = d.isText c := by
  obtain ⟨n, value, value', hnode, hnode'⟩ := h.isLike_piece hc hy
  simp [isText, satisfies, hnode, hnode', Node.isText]

theorem isElement_piece (h : Transcribes d d' f pieces) (hc : c ∈ d.children p)
    (hy : y ∈ pieces c) : d'.isElement y = d.isElement c := by
  obtain ⟨n, value, value', hnode, hnode'⟩ := h.isLike_piece hc hy
  simp [isElement, satisfies, hnode, hnode', Node.isElement]

theorem tagName_piece (h : Transcribes d d' f pieces) (hc : c ∈ d.children p)
    (hy : y ∈ pieces c) : d'.tagName y = d.tagName c := by
  obtain ⟨n, value, value', hnode, hnode'⟩ := h.isLike_piece hc hy
  simp [tagName, hnode, hnode', Node.tagName]

theorem hasTag_piece (h : Transcribes d d' f pieces) (hc : c ∈ d.children p)
    (hy : y ∈ pieces c) (tag : String) : d'.hasTag tag y = d.hasTag tag c := by
  rw [hasTag, hasTag, h.tagName_piece hc hy]

theorem attribute?_piece (h : Transcribes d d' f pieces) (hc : c ∈ d.children p)
    (hy : y ∈ pieces c) (name : Text) : d'.attribute? y name = d.attribute? c name := by
  obtain ⟨n, value, value', hnode, hnode'⟩ := h.isLike_piece hc hy
  simp [attribute?, hnode, hnode', Node.attribute?]

theorem isInline_piece (h : Transcribes d d' f pieces) (hc : c ∈ d.children p)
    (hy : y ∈ pieces c) : d'.isInline y = d.isInline c := by
  rw [isInline, isInline, h.isText_piece hc hy, h.isElement_piece hc hy, h.tagName_piece hc hy]

/-- Only text nodes are cut. -/
theorem copied_of_not_isText (h : Transcribes d d' f pieces) (hc : c ∈ d.children p)
    (htext : d.isText c = false) : IsCopied d d' f pieces c := by
  rcases h.node_of_mem hc with hcopied | hcut
  · exact hcopied
  · rw [hcut.isText] at htext
    cases htext

/-- A node with children is not cut. -/
theorem copied_of_children (h : Transcribes d d' f pieces) (hp : p ∈ d.children q)
    (hc : c ∈ d.children p) : IsCopied d d' f pieces p :=
  h.copied_of_not_isText hp (h.isText_parent hc)

theorem pieces_ne_nil (h : Transcribes d d' f pieces) (hc : c ∈ d.children p) :
    pieces c ≠ [] := by
  rcases h.node_of_mem hc with hcopied | hcut
  · rw [hcopied.pieces_eq]
    exact List.cons_ne_nil _ _
  · exact hcut.ne_nil

theorem children_copy (h : Transcribes d d' f pieces) (hc : c ∈ d.children p)
    (hcopied : IsCopied d d' f pieces c) : d'.children (f c) = (d.children c).flatMap pieces := by
  cases htext : d.isText c with
  | false => exact h.children_eq c (lt_size_of_mem_children hc) htext
  | true =>
    have htext' := (h.isText_piece hc hcopied.mem_pieces).trans htext
    rw [h.reachable.children_eq_nil_of_isText htext, List.flatMap_nil,
      h.reachable'.children_eq_nil_of_isText htext']

end Transcribes

/-! ### Lines of ancestors -/

theorem isRaw_of_parent_eq {d : Document} {c q : Nat} (h : d.parent? c = d.parent? q) :
    d.isRaw c = d.isRaw q := by
  rw [isRaw, isRaw, innerAncestors, innerAncestors]
  cases hq : d.parent? q with
  | none =>
    rw [ancestors_of_parent_eq_none hq, ancestors_of_parent_eq_none (h.trans hq)]
  | some p =>
    rw [ancestors_of_parent hq, ancestors_of_parent (h.trans hq)]

namespace Transcribes

variable {d d' : Document} {f : Nat → Nat} {pieces : Nat → List Nat} {p q c x y : Nat}

theorem ancestors_piece (h : Transcribes d d' f pieces) (hc : c ∈ d.children p)
    (hy : y ∈ pieces c) :
    d'.ancestors y = (d.ancestors c).map f ++ d'.ancestors (f root) := by
  induction c using d.parentInduction generalizing p y with
  | step c ih =>
    have hparent := parent_of_mem_children hc
    rw [ancestors_of_parent hparent, ancestors_of_parent (h.parent?_piece hc hy), List.map_cons,
      List.cons_append]
    by_cases hp : p = root
    · rw [hp, ancestors_root]
      rfl
    · obtain ⟨q, hq⟩ := exists_parent (lt_size_of_children hc) hp
      have hpq := mem_children_iff.mpr hq
      rw [ih p hparent hpq (h.copied_of_children hpq hc).mem_pieces]

/-- A node above another one, other than the root, has a copy. -/
theorem exists_copied_of_mem_innerAncestors (h : Transcribes d d' f pieces)
    (hc : c ∈ d.children p) (hx : x ∈ d.innerAncestors c) :
    ∃ q, x ∈ d.children q ∧ IsCopied d d' f pieces x := by
  induction c using d.parentInduction generalizing p with
  | step c ih =>
    have hparent := parent_of_mem_children hc
    by_cases hp : p = root
    · rw [innerAncestors_of_parent_root (hp ▸ hparent)] at hx
      cases hx
    · obtain ⟨q, hq⟩ := exists_parent (lt_size_of_children hc) hp
      have hpq := mem_children_iff.mpr hq
      rw [innerAncestors_of_parent hparent hp] at hx
      rcases List.mem_cons.mp hx with rfl | hx
      · exact ⟨q, hpq, h.copied_of_children hpq hc⟩
      · exact ih p hparent hpq hx

/-- What a piece has above it: the copies of what its node has above it, and then what stands
from the place upwards. -/
theorem innerAncestors_piece (h : Transcribes d d' f pieces) (hc : c ∈ d.children p)
    (hy : y ∈ pieces c) : ∃ above, d'.innerAncestors y = (d.innerAncestors c).map f ++ above ∧
      ∀ a ∈ above, d'.IsNeutral a := by
  refine ⟨(f root :: d'.ancestors (f root)).takeWhile (!d'.isRoot ·), ?_, ?_⟩
  · rw [innerAncestors, h.ancestors_piece hc hy, ancestors_eq_innerAncestors hc, List.map_append,
      List.append_assoc, List.takeWhile_append_of_pos]
    · rfl
    · intro a ha
      obtain ⟨x, hx, rfl⟩ := List.mem_map.mp ha
      obtain ⟨q, hxq, hcopied⟩ := h.exists_copied_of_mem_innerAncestors hc hx
      have hne := ne_root_of_mem_children (h.mem_children hxq hcopied.mem_pieces)
      cases hroot : d'.isRoot (f x) with
      | false => rfl
      | true => exact absurd (isRoot_iff.mp hroot) hne
  · intro a ha
    exact h.neutral a (List.takeWhile_subset _ ha)

theorem isNamed_of_mem_innerAncestors (h : Transcribes d d' f pieces) (hc : c ∈ d.children p) :
    ∀ a ∈ d.innerAncestors c, ∀ token, d'.isNamed (f a) token = d.isNamed a token := by
  intro a ha token
  obtain ⟨q, haq, hcopied⟩ := h.exists_copied_of_mem_innerAncestors hc ha
  exact h.isNamed_piece haq hcopied.mem_pieces token

theorem context_subset : ∀ keys ∈ Flavour.gitHub.keys, ∀ s ∈ Selector.parseList keys,
    ∀ token ∈ s.context, token ∈ contextTokens := by
  have hall : ∀ chain ∈ Flavour.gitHub.chains.flatten, ∀ token ∈ chain.dropLast,
      token ∈ contextTokens := by
    decide
  exact fun keys hkeys s hs => hall _ (Flavour.tokens_mem_chains hkeys hs)

/-- The chains of the flavours match a piece exactly if they match its node. -/
theorem isMatch_piece (h : Transcribes d d' f pieces) (hc : c ∈ d.children p)
    (hy : y ∈ pieces c) {keys : Text} (hkeys : keys ∈ Flavour.gitHub.keys) {s : Selector}
    (hs : s ∈ Selector.parseList keys) : s.isMatch d' y = s.isMatch d c := by
  obtain ⟨above, hinner, hneutral⟩ := h.innerAncestors_piece hc hy
  rw [Selector.isMatch, Selector.isMatch, h.isNamed_piece hc hy, hinner,
    Selector.unserved_map_append (h.isNamed_of_mem_innerAncestors hc)]
  intro a ha token htoken
  exact (hneutral a ha).not_isNamed token
    (context_subset keys hkeys s hs token (List.mem_reverse.mp htoken))

theorem isRaw_piece (h : Transcribes d d' f pieces) (hc : c ∈ d.children p)
    (hy : y ∈ pieces c) : d'.isRaw y = d.isRaw c := by
  obtain ⟨above, hinner, hneutral⟩ := h.innerAncestors_piece hc hy
  have habove : (above.any fun a => d'.isNamed a "PRE".toList || d'.isNamed a "CODE".toList) =
      false := by
    rw [List.any_eq_false]
    intro a ha
    rw [(hneutral a ha).not_isNamed _ (by decide), (hneutral a ha).not_isNamed _ (by decide)]
    decide
  rw [isRaw, isRaw, hinner, List.any_append, habove, Bool.or_false, List.any_map, Bool.eq_iff_iff,
    List.any_eq_true, List.any_eq_true]
  have hnamed := h.isNamed_of_mem_innerAncestors hc
  constructor
  · rintro ⟨a, ha, hraw⟩
    refine ⟨a, ha, ?_⟩
    simpa only [Function.comp_apply, hnamed a ha] using hraw
  · rintro ⟨a, ha, hraw⟩
    refine ⟨a, ha, ?_⟩
    simpa only [Function.comp_apply, hnamed a ha] using hraw

/-! ### Different nodes -/

/-- Nothing stands both at the place and below it. -/
theorem copy_ne_place (h : Transcribes d d' f pieces) (hp : p ∈ d.children q)
    (hc : c ∈ d.children p) : f p ≠ f root := by
  intro heq
  have hanc := h.ancestors_piece hp (h.copied_of_children hp hc).mem_pieces
  have hmem : f root ∈ d'.ancestors (f p) := by
    rw [hanc, ancestors_eq_innerAncestors hp]
    simp
  exact Nat.lt_irrefl _ (heq ▸ lt_of_mem_ancestors hmem)

/-- Siblings have no piece in common. -/
theorem disjoint_pieces (h : Transcribes d d' f pieces) (hc : c ∈ d.children p)
    (hx : x ∈ d.children p) (hne : c ≠ x) : List.Disjoint (pieces c) (pieces x) := by
  have hnodup := d'.nodup_children (f p)
  rw [h.children_of_mem hc, List.nodup_flatMap] at hnodup
  have hall : (d.children p).Pairwise fun s t => List.Disjoint (pieces s) (pieces t) := hnodup.2
  have hsymm : Std.Symm fun s t => List.Disjoint (pieces s) (pieces t) :=
    ⟨fun _ _ hst => List.disjoint_symm hst⟩
  exact hall.forall hc hx hne

/-- A node of `d'` is a piece of one node only. -/
theorem eq_of_mem_pieces (h : Transcribes d d' f pieces) (hc : c ∈ d.children p)
    (hx : x ∈ d.children q) (hy : y ∈ pieces c) (hyx : y ∈ pieces x) : c = x := by
  induction c using d.parentInduction generalizing p q x y with
  | step c ih =>
    have hparents : f p = f q :=
      Option.some_inj.mp ((h.parent?_piece hc hy).symm.trans (h.parent?_piece hx hyx))
    have hpq : p = q := by
      by_cases hp : p = root
      · by_cases hq : q = root
        · exact hp.trans hq.symm
        · obtain ⟨r, hr⟩ := exists_parent (lt_size_of_children hx) hq
          exact absurd (hp ▸ hparents.symm) (h.copy_ne_place (mem_children_iff.mpr hr) hx)
      · obtain ⟨r, hr⟩ := exists_parent (lt_size_of_children hc) hp
        have hpr := mem_children_iff.mpr hr
        by_cases hq : q = root
        · exact absurd (hq ▸ hparents) (h.copy_ne_place hpr hc)
        · obtain ⟨s, hs⟩ := exists_parent (lt_size_of_children hx) hq
          have hqs := mem_children_iff.mpr hs
          refine ih p (parent_of_mem_children hc) hpr hqs
            (h.copied_of_children hpr hc).mem_pieces ?_
          rw [hparents]
          exact (h.copied_of_children hqs hx).mem_pieces
    subst hpq
    by_contra hne
    exact h.disjoint_pieces hc hx hne hy hyx

/-! ### Children that are elements -/

theorem exists_copied_of_mem_elementChildren (h : Transcribes d d' f pieces)
    (hx : x ∈ d.elementChildren p) : x ∈ d.children p ∧ IsCopied d d' f pieces x := by
  obtain ⟨hmem, helement⟩ := List.mem_filter.mp hx
  refine ⟨hmem, h.copied_of_not_isText hmem ?_⟩
  obtain ⟨n, hn, hkind⟩ := satisfies_eq_true_iff.mp helement
  have hkind : n.kind = .element := by simpa [Node.isElement] using hkind
  simp [isText, satisfies, hn, Node.isText, hkind]

/-- The elements below a copy are the copies of the elements. -/
theorem elementChildren_copy (h : Transcribes d d' f pieces)
    (hchildren : d'.children (f p) = (d.children p).flatMap pieces) :
    d'.elementChildren (f p) = (d.elementChildren p).map f := by
  have hsome : ∀ l : List Nat, (∀ c ∈ l, c ∈ d.children p) →
      (l.flatMap pieces).filter d'.isElement = (l.filter d.isElement).map f := by
    intro l hl
    induction l with
    | nil => rfl
    | cons c l ih =>
      have hc := hl c List.mem_cons_self
      rw [List.flatMap_cons, List.filter_append, ih fun x hx => hl x (List.mem_cons_of_mem c hx),
        List.filter_cons]
      cases helement : d.isElement c with
      | true =>
        obtain ⟨-, hcopied⟩ := h.exists_copied_of_mem_elementChildren
          (List.mem_filter.mpr ⟨hc, helement⟩)
        have hcopy := (h.isElement_piece hc hcopied.mem_pieces).trans helement
        rw [hcopied.pieces_eq, List.filter_cons, hcopy]
        rfl
      | false =>
        have hnone : (pieces c).filter d'.isElement = [] := by
          rw [List.filter_eq_nil_iff]
          intro y hy
          rw [h.isElement_piece hc hy, helement]
          decide
        rw [hnone]
        rfl
  rw [elementChildren, hchildren]
  exact hsome _ fun c hc => hc

/-! ### Texts -/

theorem ownText_copy (hcopied : IsCopied d d' f pieces c) : d'.ownText (f c) = d.ownText c := by
  rw [ownText, ownText, hcopied.node?_eq]

/-- A reading of subtrees that gives the own text of a leaf, and of another node puts together
what it gives for the children with the own text, reads the pieces of a node as it reads the
node. -/
theorem flatMap_reading (h : Transcribes d d' f pieces)
    {reading : Document → Nat → Text} (combine : Text → Text → Text)
    (hreading : ∀ d i, reading d i = combine (d.ownText i) ((d.children i).flatMap (reading d)))
    (hleaf : ∀ t, combine t [] = t) (hc : c ∈ d.children p) :
    (pieces c).flatMap (reading d') = reading d c := by
  induction c using d.childrenInduction generalizing p with
  | step c ih =>
    rcases h.node_of_mem hc with hcopied | hcut
    · rw [hcopied.pieces_eq, List.flatMap_singleton, hreading, hreading d, ownText_copy hcopied,
        h.children_copy hc hcopied, List.flatMap_assoc, List.flatMap_congr fun x hx => ih x hx hx]
    · have hpiece : ∀ y ∈ pieces c, reading d' y = d'.ownText y := by
        intro y hy
        have htext := (h.isText_piece hc hy).trans hcut.isText
        rw [hreading, h.reachable'.children_eq_nil_of_isText htext, List.flatMap_nil, hleaf]
      rw [List.flatMap_congr hpiece, hcut.ownText, hreading,
        h.reachable.children_eq_nil_of_isText hcut.isText, List.flatMap_nil, hleaf]

theorem flatMap_subtreeText (h : Transcribes d d' f pieces) (hc : c ∈ d.children p) :
    (pieces c).flatMap d'.subtreeText = d.subtreeText c :=
  h.flatMap_reading (fun own below => own ++ below) subtreeText_eq List.append_nil hc

theorem flatMap_closingText (h : Transcribes d d' f pieces) (hc : c ∈ d.children p) :
    (pieces c).flatMap d'.closingText = d.closingText c :=
  h.flatMap_reading (fun own below => below ++ own) closingText_eq (fun _ => rfl) hc

/-! ### Boundaries -/

theorem firstTextChar?_of_isText (hd : d.Reachable) (h : d.isText c = true) :
    d.firstTextChar? c = (d.ownText c).head? := by
  rw [firstTextChar?_eq, subtreeText_eq, hd.children_eq_nil_of_isText h, List.flatMap_nil,
    List.append_nil]

theorem lastTextChar?_of_isText (hd : d.Reachable) (h : d.isText c = true) :
    d.lastTextChar? c = (d.ownText c).getLast? := by
  rw [lastTextChar?_eq_closing, closingText_eq, hd.children_eq_nil_of_isText h, List.flatMap_nil,
    List.nil_append]

theorem isSpaceEdge_first (h : Transcribes d d' f pieces) (hc : c ∈ d.children p)
    (hraw : d.isRaw c = false) (hy : (pieces c).head? = some y) :
    isSpaceEdge (d'.firstTextChar? y) = isSpaceEdge (d.firstTextChar? c) := by
  rcases h.node_of_mem hc with hcopied | hcut
  · have htext := h.flatMap_subtreeText hc
    rw [hcopied.pieces_eq] at hy htext
    cases hy
    rw [firstTextChar?_eq, firstTextChar?_eq, ← htext, List.flatMap_singleton]
  · have hpiece := (h.isText_piece hc (List.mem_of_head? hy)).trans hcut.isText
    rw [firstTextChar?_of_isText h.reachable' hpiece,
      firstTextChar?_of_isText h.reachable hcut.isText, hcut.first hraw y hy]

theorem isSpaceEdge_last (h : Transcribes d d' f pieces) (hc : c ∈ d.children p)
    (hraw : d.isRaw c = false) (hy : (pieces c).getLast? = some y) :
    isSpaceEdge (d'.lastTextChar? y) = isSpaceEdge (d.lastTextChar? c) := by
  rcases h.node_of_mem hc with hcopied | hcut
  · have htext := h.flatMap_closingText hc
    rw [hcopied.pieces_eq] at hy htext
    rw [List.getLast?_singleton, Option.some_inj] at hy
    subst hy
    rw [lastTextChar?_eq_closing, lastTextChar?_eq_closing, ← htext, List.flatMap_singleton]
  · have hpiece := (h.isText_piece hc (List.mem_of_getLast? hy)).trans hcut.isText
    rw [lastTextChar?_of_isText h.reachable' hpiece,
      lastTextChar?_of_isText h.reachable hcut.isText, hcut.last hraw y hy]

/-- The first piece of a node has a space before it where the node has. -/
theorem spaceBefore_piece (h : Transcribes d d' f pieces) (hc : c ∈ d.children p)
    (hraw : d.isRaw c = false) (hy : (pieces c).head? = some y) :
    d'.spaceBefore y = d.spaceBefore c := by
  obtain ⟨before, after, hsplit⟩ := List.append_of_mem hc
  obtain ⟨rest, hrest⟩ : ∃ rest, pieces c = y :: rest := List.head?_eq_some_iff.mp hy
  have hsplit' : d'.children (f p) =
      before.flatMap pieces ++ y :: (rest ++ after.flatMap pieces) := by
    rw [h.children_of_mem hc, hsplit, List.flatMap_append, List.flatMap_cons, hrest,
      List.cons_append]
  rw [spaceBefore, spaceBefore, previousSibling?_of_split hsplit,
    previousSibling?_of_split hsplit']
  rcases List.eq_nil_or_concat before with rfl | ⟨init, b, rfl⟩
  · rfl
  · rw [List.concat_eq_append] at hsplit ⊢
    have hb : b ∈ d.children p := by rw [hsplit]; simp
    obtain ⟨z, hz⟩ : ∃ z, (pieces b).getLast? = some z :=
      ⟨_, List.getLast?_eq_some_getLast (h.pieces_ne_nil hb)⟩
    have hrawb : d.isRaw b = false := by
      rw [isRaw_of_parent_eq ((parent_of_mem_children hb).trans
        (parent_of_mem_children hc).symm), hraw]
    rw [List.flatMap_append, List.flatMap_singleton, List.getLast?_append, hz, Option.some_or,
      List.getLast?_concat, Option.any_some, Option.any_some,
      h.isInline_piece hb (List.mem_of_getLast? hz), h.isSpaceEdge_last hb hrawb hz,
      h.isSpaceEdge_first hc hraw hy]

/-- The last piece of a node has a space after it where the node has. -/
theorem spaceAfter_piece (h : Transcribes d d' f pieces) (hc : c ∈ d.children p)
    (hraw : d.isRaw c = false) (hy : (pieces c).getLast? = some y) :
    d'.spaceAfter y = d.spaceAfter c := by
  obtain ⟨before, after, hsplit⟩ := List.append_of_mem hc
  obtain ⟨init, hinit⟩ : ∃ init, pieces c = init ++ [y] := List.getLast?_eq_some_iff.mp hy
  have hsplit' : d'.children (f p) =
      (before.flatMap pieces ++ init) ++ y :: after.flatMap pieces := by
    rw [h.children_of_mem hc, hsplit, List.flatMap_append, List.flatMap_cons, hinit]
    simp only [List.append_assoc, List.singleton_append]
  rw [spaceAfter, spaceAfter, nextSibling?_of_split hsplit, nextSibling?_of_split hsplit']
  cases after with
  | nil => rfl
  | cons b after =>
    have hb : b ∈ d.children p := by rw [hsplit]; simp
    obtain ⟨z, hz⟩ : ∃ z, (pieces b).head? = some z :=
      ⟨_, List.head?_eq_some_head (h.pieces_ne_nil hb)⟩
    have hrawb : d.isRaw b = false := by
      rw [isRaw_of_parent_eq ((parent_of_mem_children hb).trans
        (parent_of_mem_children hc).symm), hraw]
    rw [List.flatMap_cons, List.head?_append, hz, Option.some_or, List.head?_cons,
      Option.any_some, Option.any_some, h.isInline_piece hb (List.mem_of_head? hz),
      h.isSpaceEdge_first hb hrawb hz, h.isSpaceEdge_last hc hraw hy]

end Transcribes

end TreeMarkdown.Document
