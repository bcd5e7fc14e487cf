/-
Text nodes cut in two.

`IsCutIn d d' i j k u v f` says that `d'` is `d` with two text nodes `j` and `k` in the place of
one; a comment inside a text leaves such nodes behind. In preformatted text and code the
two give together what the one gives. So they do in the flow if no white space stands at the
cut, and then the document is written as before (`IsCutIn.write_halves_of_seamless`).

White space at the cut is seen from both sides: the first node asks for a space behind it, the
second for a space in front, and two spaces stand where there was one
(`IsCutIn.write_halves_of_seam`). Below the root nothing takes the second space away
again, so there the Markdown is another whenever text is cut at white space
(`Profile.convert_cutText`).
-/

import TreeMarkdown.Proofs.Rules.Extension
import TreeMarkdown.Proofs.Rules.TextNodes
import TreeMarkdown.Proofs.Rules.Transcribed

namespace TreeMarkdown

open Text

namespace Document

/-- What stands for node `c` when node `i` has been cut into `j` and `k`. -/
def halves (i j k : Nat) (f : Nat → Nat) (c : Nat) : List Nat :=
  if c = i then [j, k] else [f c]

/-- Document `d'` is document `d` with text node `i`, which holds `u` and then `v`, cut into
the text nodes `j` with `u` and `k` with `v`; every other node of `d` is a node of `d'`. -/
structure IsCutIn (d d' : Document) (i j k : Nat) (u v : Text) (f : Nat → Nat) : Prop where
  reachable : d.Reachable
  reachable' : d'.Reachable
  root_eq : f root = root
  isText : d.isText i = true
  value? : d.value? i = some (u ++ v)
  first : d'.node? j = (d.node? i).map fun n => { n with value := some u }
  second : d'.node? k = (d.node? i).map fun n => { n with value := some v }
  children_eq : ∀ p < d.size, p ≠ i → d'.children (f p) = (d.children p).flatMap (halves i j k f)
  node?_eq : ∀ c < d.size, c ≠ root → c ≠ i → d'.node? (f c) = d.node? c

/-- There is white space on either side of a cut between two texts. -/
def cutsSpace (u v : Text) : Bool :=
  isSpaceEdge u.getLast? || isSpaceEdge v.head?

namespace IsCutIn

variable {d d' : Document} {i j k c p : Nat} {u v : Text} {f : Nat → Nat}

theorem halves_self (i j k : Nat) (f : Nat → Nat) : halves i j k f i = [j, k] := if_pos rfl

theorem ne_root (h : d.IsCutIn d' i j k u v f) : i ≠ root := by
  rintro rfl
  have htext := h.isText
  rw [isText_root] at htext
  cases htext

theorem exists_parent (h : d.IsCutIn d' i j k u v f) : ∃ p, i ∈ d.children p := by
  obtain ⟨p, hp⟩ := Document.exists_parent (lt_size_of_satisfies h.isText) h.ne_root
  exact ⟨p, mem_children_iff.mpr hp⟩

theorem exists_node (h : d.IsCutIn d' i j k u v f) : ∃ n : Node, n.kind = .text ∧
    d.node? i = some { n with value := some (u ++ v) } ∧
      d'.node? j = some { n with value := some u } ∧
        d'.node? k = some { n with value := some v } := by
  obtain ⟨n, hn, hkind⟩ := satisfies_eq_true_iff.mp h.isText
  have hvalue := h.value?
  have hfirst := h.first
  have hsecond := h.second
  rw [Document.value?, hn, Option.bind_some] at hvalue
  rw [hn] at hfirst hsecond
  refine ⟨n, by simpa [Node.isText] using hkind, ?_, hfirst, hsecond⟩
  rw [hn, ← hvalue]

theorem ownText_eq (h : d.IsCutIn d' i j k u v f) :
    d.ownText i = u ++ v ∧ d'.ownText j = u ∧ d'.ownText k = v := by
  obtain ⟨n, -, hnode, hfirst, hsecond⟩ := h.exists_node
  simp [ownText, hnode, hfirst, hsecond, Node.ownText]

theorem isText_halves (h : d.IsCutIn d' i j k u v f) : d'.isText j = true ∧ d'.isText k = true := by
  obtain ⟨n, hkind, -, hfirst, hsecond⟩ := h.exists_node
  simp [Document.isText, satisfies, hfirst, hsecond, Node.isText, hkind]

/-- The two nodes hold the text of the one, with white space at the ends where it has. -/
theorem isCutInto (h : d.IsCutIn d' i j k u v f)
    (hedges : d.isRaw i = false → (u = [] → isSpaceEdge v.head? = false) ∧
      (v = [] → isSpaceEdge u.getLast? = false)) :
    d.IsCutInto i d' [j, k] := by
  obtain ⟨n, -, hnode, hfirst, hsecond⟩ := h.exists_node
  obtain ⟨hwhole, hu, hv⟩ := h.ownText_eq
  refine ⟨h.isText, List.cons_ne_nil _ _, ?_, ?_, ?_, ?_⟩
  · intro y hy
    rcases List.mem_pair.mp hy with rfl | rfl
    · exact ⟨n, _, _, hnode, hfirst⟩
    · exact ⟨n, _, _, hnode, hsecond⟩
  · rw [List.flatMap_cons, List.flatMap_singleton, hu, hv, hwhole]
  · intro hraw y hy
    cases hy
    rw [hu, hwhole]
    cases hnil : u with
    | nil => exact ((hedges hraw).1 hnil).symm
    | cons c u => rfl
  · intro hraw y hy
    obtain rfl : k = y := Option.some_inj.mp hy
    rw [hv, hwhole]
    rcases List.eq_nil_or_concat v with hnil | ⟨init, c, hconcat⟩
    · rw [hnil, List.append_nil]
      exact ((hedges hraw).2 hnil).symm
    · rw [hconcat, List.concat_eq_append, ← List.append_assoc, List.getLast?_concat,
        List.getLast?_concat]

theorem transcribes (h : d.IsCutIn d' i j k u v f)
    (hedges : d.isRaw i = false → (u = [] → isSpaceEdge v.head? = false) ∧
      (v = [] → isSpaceEdge u.getLast? = false)) :
    Transcribes d d' f (halves i j k f) where
  reachable := h.reachable
  reachable' := h.reachable'
  neutral := by
    rw [h.root_eq]
    exact isNeutral_from_root h.reachable'
  children_eq := by
    intro p hp htext
    refine h.children_eq p hp ?_
    rintro rfl
    rw [h.isText] at htext
    cases htext
  node := by
    intro c hc hroot
    by_cases hci : c = i
    · rw [hci, halves_self]
      exact Or.inr (h.isCutInto hedges)
    · exact Or.inl ⟨if_neg hci, h.node?_eq c hc hroot hci⟩

theorem isCopied (h : d.IsCutIn d' i j k u v f) (hc : c ∈ d.children p) (hne : c ≠ i) :
    IsCopied d d' f (halves i j k f) c :=
  ⟨if_neg hne, h.node?_eq c (lt_size_of_mem_children hc) (ne_root_of_mem_children hc) hne⟩

/-- No other node is cut. -/
theorem eq_of_not_isCopied (h : d.IsCutIn d' i j k u v f) (hc : c ∈ d.children p)
    (hnot : ¬ IsCopied d d' f (halves i j k f) c) : c = i := by
  by_contra hne
  exact hnot (h.isCopied hc hne)

/-- Outwards the two nodes have the boundaries of the one; between them there is white space on
both or on neither. -/
theorem boundaries (h : d.IsCutIn d' i j k u v f)
    (ht : Transcribes d d' f (halves i j k f)) (hraw : d.isRaw i = false) :
    d'.spaceBefore j = d.spaceBefore i ∧ d'.spaceAfter j = cutsSpace u v ∧
      d'.spaceBefore k = cutsSpace u v ∧ d'.spaceAfter k = d.spaceAfter i := by
  obtain ⟨p, hi⟩ := h.exists_parent
  obtain ⟨before, after, hsplit⟩ := List.append_of_mem hi
  have hsplit' : d'.children (f p) =
      before.flatMap (halves i j k f) ++ j :: k :: after.flatMap (halves i j k f) := by
    rw [ht.children_of_mem hi, hsplit, List.flatMap_append, List.flatMap_cons, halves_self]
    rfl
  obtain ⟨htextj, htextk⟩ := h.isText_halves
  obtain ⟨-, hu, hv⟩ := h.ownText_eq
  have hinline : d'.isInline j = true ∧ d'.isInline k = true := by
    rw [isInline, isInline, htextj, htextk]
    exact ⟨rfl, rfl⟩
  have hnext : d'.nextSibling? j = some k := nextSibling?_of_split hsplit'
  have hprevious : d'.previousSibling? k = some j := by
    rw [previousSibling?_of_split (hsplit'.trans (List.append_cons _ j _)), List.getLast?_concat]
  refine ⟨ht.spaceBefore_piece hi hraw (by rw [halves_self]; rfl), ?_, ?_,
    ht.spaceAfter_piece hi hraw (by rw [halves_self]; rfl)⟩
  · rw [spaceAfter, hnext, Option.any_some, hinline.2, Bool.true_and,
      Transcribes.firstTextChar?_of_isText h.reachable' htextk,
      Transcribes.lastTextChar?_of_isText h.reachable' htextj, hu, hv, Bool.or_comm]
    rfl
  · rw [spaceBefore, hprevious, Option.any_some, hinline.1, Bool.true_and,
      Transcribes.firstTextChar?_of_isText h.reachable' htextk,
      Transcribes.lastTextChar?_of_isText h.reachable' htextj, hu, hv]
    rfl

/-! ### What is written for the two nodes -/

variable {flavour : Flavour} {o : Options} {R R' : Nat → Text}

theorem write_halves (h : d.IsCutIn d' i j k u v f)
    (ht : Transcribes d d' f (halves i j k f))
    (hR' : ∀ c, (flavour.renderer o).convert d' c ((d'.children c).flatMap R') = .ok (R' c)) :
    (halves i j k f i).flatMap R' =
      if d.isRaw i then u ++ v
      else flanked (d.spaceBefore i) (cutsSpace u v) (flowed u) ++
        flanked (cutsSpace u v) (d.spaceAfter i) (flowed v) := by
  obtain ⟨p, hi⟩ := h.exists_parent
  have hrawj : d'.isRaw j = d.isRaw i := ht.isRaw_piece hi (by rw [halves_self]; simp)
  have hrawk : d'.isRaw k = d.isRaw i := ht.isRaw_piece hi (by rw [halves_self]; simp)
  obtain ⟨htextj, htextk⟩ := h.isText_halves
  obtain ⟨-, hu, hv⟩ := h.ownText_eq
  rw [halves_self, List.flatMap_cons, List.flatMap_singleton,
    Flavour.write_text h.reachable' hR' htextj, Flavour.write_text h.reachable' hR' htextk, hrawj,
    hrawk, hu, hv]
  cases hraw : d.isRaw i with
  | true => rfl
  | false =>
    obtain ⟨hbefore, hafterj, hbeforek, hafter⟩ := h.boundaries ht hraw
    rw [hbefore, hafterj, hbeforek, hafter]
    rfl

/-- In preformatted text and code, and elsewhere if there is no white space at the cut, the two
nodes give what the one gives. -/
theorem write_halves_of_seamless (h : d.IsCutIn d' i j k u v f)
    (ht : Transcribes d d' f (halves i j k f))
    (hR : ∀ c, (flavour.renderer o).convert d c ((d.children c).flatMap R) = .ok (R c))
    (hR' : ∀ c, (flavour.renderer o).convert d' c ((d'.children c).flatMap R') = .ok (R' c))
    (hseamless : d.isRaw i = true ∨ cutsSpace u v = false ∧
      (u ++ v = [] → d.spaceBefore i = true → d.spaceAfter i = false)) :
    (halves i j k f i).flatMap R' = R i := by
  rw [h.write_halves ht hR', Flavour.write_text h.reachable hR h.isText, h.ownText_eq.1]
  rcases hseamless with hraw | ⟨hseam, hroom⟩
  · rw [hraw]
    rfl
  · have hwhole := flowed_append hseam
    have hroom' : flowed (u ++ v) = [] → d.spaceBefore i = true → d.spaceAfter i = false := by
      intro hnil
      obtain ⟨hlast, hhead⟩ := Bool.or_eq_false_iff.mp hseam
      rw [hwhole] at hnil
      obtain ⟨hu, hv⟩ := List.append_eq_nil_iff.mp hnil
      apply hroom
      rw [eq_nil_of_trim_eq_nil (flowed_eq_nil_iff.mp hu) (Or.inr hlast),
        eq_nil_of_trim_eq_nil (flowed_eq_nil_iff.mp hv) (Or.inl hhead), List.append_nil]
    rw [hseam, flanked_of_isBare (isBare_flowed u) (fun _ _ => rfl),
      flanked_of_isBare (isBare_flowed v) (fun _ h => by cases h),
      flanked_of_isBare (isBare_flowed _) hroom', hwhole]
    simp only [gap_false, List.append_nil, List.nil_append, List.append_assoc]

/-- In the flow, white space at the cut makes one space two. -/
theorem write_halves_of_seam (h : d.IsCutIn d' i j k u v f)
    (ht : Transcribes d d' f (halves i j k f))
    (hR : ∀ c, (flavour.renderer o).convert d c ((d.children c).flatMap R) = .ok (R c))
    (hR' : ∀ c, (flavour.renderer o).convert d' c ((d'.children c).flatMap R') = .ok (R' c))
    (hraw : d.isRaw i = false) (hseam : cutsSpace u v = true) (hu : trim u ≠ [])
    (hv : trim v ≠ []) :
    ∃ front back, R i = front ++ " ".toList ++ back ∧
      (halves i j k f i).flatMap R' = front ++ "  ".toList ++ back := by
  refine ⟨gap (d.spaceBefore i) ++ flowed u, flowed v ++ gap (d.spaceAfter i), ?_, ?_⟩
  · have hwhole := flowed_append_of_ne_nil hu hv
    rw [show (isSpaceEdge u.getLast? || isSpaceEdge v.head?) = true from hseam] at hwhole
    have hne : flowed (u ++ v) ≠ [] := by
      rw [hwhole]
      simp
    rw [Flavour.write_text h.reachable hR h.isText, h.ownText_eq.1, hraw, if_neg (by decide),
      flanked_of_isBare (isBare_flowed _) fun hnil => absurd hnil hne, hwhole]
    simp only [gap_true, List.append_assoc]
    rfl
  · have hu' : flowed u ≠ [] := fun hnil => hu (flowed_eq_nil_iff.mp hnil)
    have hv' : flowed v ≠ [] := fun hnil => hv (flowed_eq_nil_iff.mp hnil)
    rw [h.write_halves ht hR', hraw, if_neg (by decide), hseam,
      flanked_of_isBare (isBare_flowed u) fun hnil => absurd hnil hu',
      flanked_of_isBare (isBare_flowed v) fun hnil => absurd hnil hv']
    simp only [gap_true, List.append_assoc]
    rfl

/-- Siblings of the node that is cut are written as before. -/
theorem write_sibling (h : d.IsCutIn d' i j k u v f)
    (ht : Transcribes d d' f (halves i j k f))
    (hR : ∀ c, (flavour.renderer o).convert d c ((d.children c).flatMap R) = .ok (R c))
    (hR' : ∀ c, (flavour.renderer o).convert d' c ((d'.children c).flatMap R') = .ok (R' c))
    (hi : i ∈ d.children p) (hc : c ∈ d.children p) (hne : c ≠ i) :
    (halves i j k f c).flatMap R' = R c := by
  refine ht.flatMap_recursion hR hR' ?_ hc
  intro q x hx hmem hnot
  exact absurd (self_mem_preorder d i)
    (disjoint_preorder_of_siblings hc hi hne (h.eq_of_not_isCopied hx hnot ▸ hmem))

/-- The siblings together are written with one space more, if the node is cut at white space. -/
theorem count_siblings (h : d.IsCutIn d' i j k u v f)
    (ht : Transcribes d d' f (halves i j k f))
    (hR : ∀ c, (flavour.renderer o).convert d c ((d.children c).flatMap R) = .ok (R c))
    (hR' : ∀ c, (flavour.renderer o).convert d' c ((d'.children c).flatMap R') = .ok (R' c))
    (hraw : d.isRaw i = false) (hseam : cutsSpace u v = true) (hu : trim u ≠ [])
    (hv : trim v ≠ []) (hi : i ∈ d.children p) :
    ((d.children p).flatMap fun c => (halves i j k f c).flatMap R').count ' ' =
      ((d.children p).flatMap R).count ' ' + 1 := by
  obtain ⟨before, after, hsplit⟩ := List.append_of_mem hi
  have hnodup := d.nodup_children p
  rw [hsplit, List.nodup_middle, List.nodup_cons] at hnodup
  have hsiblings : ∀ l : List Nat, l ⊆ before ++ after →
      (l.flatMap fun c => (halves i j k f c).flatMap R') = l.flatMap R := by
    intro l hl
    apply List.flatMap_congr
    intro c hc
    refine h.write_sibling ht hR hR' hi ?_ ?_
    · rw [hsplit]
      rcases List.mem_append.mp (hl hc) with hc | hc
      · exact List.mem_append_left _ hc
      · exact List.mem_append_right _ (List.mem_cons_of_mem i hc)
    · rintro rfl
      exact hnodup.1 (hl hc)
  obtain ⟨front, back, hwhole, hhalves⟩ := h.write_halves_of_seam ht hR hR' hraw hseam hu hv
  have hone : " ".toList.count ' ' = 1 := by decide
  have htwo : "  ".toList.count ' ' = 2 := by decide
  rw [hsplit, List.flatMap_append, List.flatMap_append, List.flatMap_cons, List.flatMap_cons,
    hsiblings before (List.subset_append_left _ _), hsiblings after (List.subset_append_right _ _),
    hwhole, hhalves]
  simp only [List.count_append, hone, htwo]
  omega

/-! ### The whole document -/

theorem transcribes_of_seamless (h : d.IsCutIn d' i j k u v f)
    (hseamless : d.isRaw i = true ∨ cutsSpace u v = false) :
    Transcribes d d' f (halves i j k f) := by
  apply h.transcribes
  intro hraw
  rcases hseamless with hraw' | hseam
  · rw [hraw] at hraw'
    cases hraw'
  · obtain ⟨hlast, hhead⟩ := Bool.or_eq_false_iff.mp hseam
    exact ⟨fun _ => hhead, fun _ => hlast⟩

theorem transcribes_of_visible (h : d.IsCutIn d' i j k u v f) (hu : trim u ≠ [])
    (hv : trim v ≠ []) : Transcribes d d' f (halves i j k f) := by
  apply h.transcribes
  intro _
  constructor
  · rintro rfl
    exact absurd rfl hu
  · rintro rfl
    exact absurd rfl hv

/-- The document with the cut is written as the halves of the children of the root are. -/
theorem convert_eq (h : d.IsCutIn d' i j k u v f)
    (hR' : ∀ c, (flavour.renderer o).render d' c = .ok (R' c)) :
    (Profile.ofFlavour flavour o).convert d' =
      .ok (tidy ((d.children root).flatMap fun c => (halves i j k f c).flatMap R')) := by
  have hchildren := h.children_eq root d.isTree.size_pos (Ne.symm h.ne_root)
  rw [h.root_eq] at hchildren
  rw [Profile.convert_ofFlavour, Renderer.convertDocument_of_render hR', hchildren,
    List.flatMap_assoc]

/-- Text right below the root is written otherwise when it is cut at white space. -/
theorem convert_ne (h : d.IsCutIn d' i j k u v f) (flavour : Flavour) (o : Options)
    (hraw : d.isRaw i = false) (hseam : cutsSpace u v = true) (hu : trim u ≠ [])
    (hv : trim v ≠ []) (hi : i ∈ d.children root) :
    (Profile.ofFlavour flavour o).convert d' ≠ (Profile.ofFlavour flavour o).convert d := by
  obtain ⟨R, hR⟩ := (flavour.neverFails o d).exists_render
  obtain ⟨R', hR'⟩ := (flavour.neverFails o d').exists_render
  have hcount := h.count_siblings (h.transcribes_of_visible hu hv) (fun c => (hR c).2)
    (fun c => (hR' c).2) hraw hseam hu hv hi
  intro heq
  rw [h.convert_eq fun c => (hR' c).1, Profile.convert_ofFlavour,
    Renderer.convertDocument_of_render fun c => (hR c).1, Except.ok.injEq] at heq
  -- tidying takes no space away
  rw [← count_tidy (by decide), heq, count_tidy (by decide)] at hcount
  exact Nat.succ_ne_self _ hcount.symm

end IsCutIn

end Document

/-- Cutting a text node in two. In preformatted text and code, and in the flow where there is no
white space at the cut, the document is written as before. (An empty text between two
spaces must not be cut: it is written as one space, and each half of it would be.) In the flow,
white space at the cut between texts that are not blank is written as two spaces instead of one;
all other nodes are written by their rules as before, and if the text stands right below the
root, the Markdown is another. -/
theorem Profile.convert_cutText (flavour : Flavour) (o : Options) (d d' : Document)
    (i j k : Nat) (u v : Text) (f : Nat → Nat) (h : d.IsCutIn d' i j k u v f) :
    ((d.isRaw i = true ∨ Document.cutsSpace u v = false ∧
        (u ++ v = [] → d.spaceBefore i = true → d.spaceAfter i = false)) →
      ∃ markdown, (Profile.ofFlavour flavour o).convert d = .ok markdown ∧
        (Profile.ofFlavour flavour o).convert d' = .ok markdown) ∧
    (d.isRaw i = false → Document.cutsSpace u v = true → trim u ≠ [] → trim v ≠ [] →
      ∃ R R' : Nat → Text,
        (∀ c, (flavour.renderer o).convert d c ((d.children c).flatMap R) = .ok (R c)) ∧
        (∀ p, ∀ c ∈ d.children p, c ≠ i →
          (flavour.renderer o).convert d c ((d.children c).flatMap R') = .ok (R' c)) ∧
        (∃ front back, R i = front ++ " ".toList ++ back ∧
          R' i = front ++ "  ".toList ++ back) ∧
        (Profile.ofFlavour flavour o).convert d =
          .ok (tidy ((d.children Document.root).flatMap R)) ∧
        (Profile.ofFlavour flavour o).convert d' =
          .ok (tidy ((d.children Document.root).flatMap R')) ∧
        (i ∈ d.children Document.root → (Profile.ofFlavour flavour o).convert d' ≠
          (Profile.ofFlavour flavour o).convert d)) := by
  obtain ⟨R, hR⟩ := (flavour.neverFails o d).exists_render
  obtain ⟨R', hR'⟩ := (flavour.neverFails o d').exists_render
  have hconvert : (Profile.ofFlavour flavour o).convert d =
      .ok (tidy ((d.children Document.root).flatMap R)) :=
    Renderer.convertDocument_of_render fun c => (hR c).1
  have hconvert' := h.convert_eq fun c => (hR' c).1
  constructor
  · intro hseamless
    have ht := h.transcribes_of_seamless (hseamless.imp_right And.left)
    refine ⟨_, hconvert, ?_⟩
    rw [hconvert', List.flatMap_congr fun c hc => ?_]
    refine ht.flatMap_recursion (fun c => (hR c).2) (fun c => (hR' c).2) ?_ hc
    intro q x hx _ hnot
    rw [h.eq_of_not_isCopied hx hnot]
    exact h.write_halves_of_seamless ht (fun c => (hR c).2) (fun c => (hR' c).2) hseamless
  · intro hraw hseam hu hv
    have ht := h.transcribes_of_visible hu hv
    refine ⟨R, fun c => (Document.halves i j k f c).flatMap R', fun c => (hR c).2, ?_,
      h.write_halves_of_seam ht (fun c => (hR c).2) (fun c => (hR' c).2) hraw hseam hu hv,
      hconvert, hconvert', h.convert_ne flavour o hraw hseam hu hv⟩
    intro p c hc hne
    exact ht.recursion (fun c => (hR' c).2) hc (h.isCopied hc hne)

/-- Two words in one text node, and a word in emphasis. -/
def sentence : Document :=
  Document.grown
    [(0, .text "a b".toList), (0, .element "em".toList []), (2, .text "c".toList)]

/-- The same with the text node cut behind the space. -/
def cutSentence : Document :=
  Document.grown
    [(0, .text "a ".toList), (0, .text "b".toList), (0, .element "em".toList []),
     (3, .text "c".toList)]

/-- The same with the word in emphasis cut, before anything has been written into it. -/
def cutWord : Document :=
  Document.grown
    [(0, .text "a b".toList), (0, .element "em".toList []), (2, .text "".toList),
     (2, .text "c".toList)]

theorem isCutIn_cutSentence :
    sentence.IsCutIn cutSentence 1 1 2 "a ".toList "b".toList
      (fun c => if c = 0 then 0 else c + 1) where
  reachable := Document.reachable_grown _
  reachable' := Document.reachable_grown _
  root_eq := rfl
  isText := by decide
  value? := by decide
  first := by decide
  second := by decide
  children_eq := by decide
  node?_eq := by decide

theorem isCutIn_cutWord : sentence.IsCutIn cutWord 3 3 4 "".toList "c".toList id where
  reachable := Document.reachable_grown _
  reachable' := Document.reachable_grown _
  root_eq := rfl
  isText := by decide
  value? := by decide
  first := by decide
  second := by decide
  children_eq := by decide
  node?_eq := by decide

theorem Profile.convert_cutText_sentence :
    (Profile.ofFlavour .gitHub {}).convert cutSentence ≠
        (Profile.ofFlavour .gitHub {}).convert sentence ∧
      ∃ markdown, (Profile.ofFlavour .gitHub {}).convert sentence = .ok markdown ∧
        (Profile.ofFlavour .gitHub {}).convert cutWord = .ok markdown := by
  constructor
  · obtain ⟨-, -, -, -, -, -, -, hne⟩ := (Profile.convert_cutText .gitHub {} sentence cutSentence
      1 1 2 "a ".toList "b".toList _ isCutIn_cutSentence).2 (by decide +kernel) (by decide)
      (by decide) (by decide)
    exact hne (by decide +kernel)
  · exact (Profile.convert_cutText .gitHub {} sentence cutWord 3 3 4 "".toList "c".toList _
      isCutIn_cutWord).1 (Or.inr ⟨by decide, fun h => by cases h⟩)

/-- Cutting a text node is not without consequences. -/
theorem Profile.convert_cutSentence_ne :
    ¬ ∀ (flavour : Flavour) (o : Options) (d d' : Document) (i j k : Nat) (u v : Text)
      (f : Nat → Nat), d.IsCutIn d' i j k u v f →
        (Profile.ofFlavour flavour o).convert d' = (Profile.ofFlavour flavour o).convert d := by
  intro hall
  exact isCutIn_cutSentence.convert_ne .commonMark {} (by decide +kernel) (by decide) (by decide)
    (by decide) (by decide +kernel) (hall _ _ _ _ _ _ _ _ _ _ isCutIn_cutSentence)

end TreeMarkdown
