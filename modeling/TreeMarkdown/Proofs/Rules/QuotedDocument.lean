/-
Documents in block quotes.

`IsQuotedIn d d' n f` says that `d'` has nothing but what `d` has, inside `n` block quotes. No
converter can tell that a node stands in a block quote, so the content of the innermost one is
written as the document is (`Document.Transcribes.flatMap_content`). From there outwards each
block quote quotes what is inside it, and the blank lines around a block quote do not survive
the next one. So the Markdown of the document in block quotes has the lines of the Markdown of
the document, each with one mark for each block quote (`Profile.convert_quoted`).
-/

import TreeMarkdown.Proofs.Markdown.Quoting
import TreeMarkdown.Proofs.Rules.Extension
import TreeMarkdown.Proofs.Rules.Transcribed

namespace TreeMarkdown

open Text Markdown

namespace Document

/-- Node `r` stands `n` block quotes below node `p`, each the only child of the one above. -/
inductive QuotedBelow (d : Document) : Nat → Nat → Nat → Prop where
  | here (p : Nat) : QuotedBelow d 0 p p
  | quote {n p q r : Nat} (hchildren : d.children p = [q])
      (hnamed : d.isNamed q "BLOCKQUOTE".toList = true) (h : QuotedBelow d n q r) :
      QuotedBelow d (n + 1) p r

/-- Document `d'` is document `d` inside `n` block quotes: the innermost stands for the root,
and every other node of `d` is a node of `d'`. -/
structure IsQuotedIn (d d' : Document) (n : Nat) (f : Nat → Nat) : Prop where
  reachable : d.Reachable
  reachable' : d'.Reachable
  quoted : d'.QuotedBelow n root (f root)
  children_eq : ∀ p < d.size, d'.children (f p) = (d.children p).map f
  node?_eq : ∀ c < d.size, c ≠ root → d'.node? (f c) = d.node? c

variable {d d' : Document} {n p r a : Nat} {f : Nat → Nat}

/-- Nothing is different below a block quote. -/
theorem isNeutral_of_blockquote (h : d.isNamed a "BLOCKQUOTE".toList = true) :
    d.IsNeutral a := by
  constructor
  · intro token htoken
    have hother : ∀ token ∈ contextTokens,
        Text.eqIgnoringCase "BLOCKQUOTE".toList token = false := by
      decide
    exact isNamed_eq_false_of_isNamed h (hother token htoken)
  · intro tag htag
    have hother : ∀ tag ∈ soughtTags,
        (Text.foldAscii "BLOCKQUOTE".toList == tag.toList) = false := by
      decide
    rw [hasTag, tagName_of_isNamed h (by decide) (by decide)]
    exact hother tag htag

theorem QuotedBelow.isNeutral (h : d.QuotedBelow n p r)
    (hp : ∀ a ∈ p :: d.ancestors p, d.IsNeutral a) :
    ∀ a ∈ r :: d.ancestors r, d.IsNeutral a := by
  induction h with
  | here => exact hp
  | @quote n p q r hchildren hnamed _ ih =>
    apply ih
    intro a ha
    have hparent : d.parent? q = some p := parent_of_mem_children (by rw [hchildren]; simp)
    rw [ancestors_of_parent hparent] at ha
    rcases List.mem_cons.mp ha with rfl | ha
    · exact isNeutral_of_blockquote hnamed
    · exact hp a ha

theorem IsQuotedIn.transcribes (h : d.IsQuotedIn d' n f) :
    Transcribes d d' f fun c => [f c] where
  reachable := h.reachable
  reachable' := h.reachable'
  neutral := h.quoted.isNeutral (isNeutral_from_root h.reachable')
  children_eq := fun p hp _ => (h.children_eq p hp).trans List.map_eq_flatMap
  node := fun c hc hroot => Or.inl ⟨rfl, h.node?_eq c hc hroot⟩

end Document

/-! ### Block quotes around a text -/

namespace Flavour

variable {flavour : Flavour} {o : Options} {d : Document} {i : Nat}

theorem places_blockquote (flavour : Flavour) :
    flavour.hasChain ["BLOCKQUOTE".toList] = true ∧
      flavour.places "BLOCKQUOTE".toList 1 = [5] := by
  rw [hasChain_eq, places_eq]
  cases flavour <;> decide

theorem entry_blockquote (flavour : Flavour) (o : Options) :
    (flavour.entries o)[5]? = some ("BLOCKQUOTE".toList, CommonMark.blockquote) := by
  cases flavour <;> rfl

/-- A block quote is written as a quote of what stands in it. -/
theorem convert_blockquote (flavour : Flavour) (o : Options)
    (hnamed : d.isNamed i "BLOCKQUOTE".toList = true) {content t : Text} (ht : t ≠ [])
    (hcontent : collapseNewlines (trim content) = t) :
    (flavour.renderer o).convert d i content =
      .ok ("\n\n".toList ++ quotedText t ++ "\n\n".toList) := by
  obtain ⟨hchain, hplaces⟩ := places_blockquote flavour
  rw [convert_of_name hchain hplaces (entry_blockquote flavour o) hnamed]
  exact writtenBy_total (quote_of_ne_nil hcontent ht) (by simp)

/-- What `n` block quotes inside each other make of the content of the innermost: each adds its
marks, and the outermost stands between blank lines. -/
theorem content_of_quotedBelow {R : Nat → Text} {n p r : Nat} {t : Text}
    (hR : (flavour.renderer o).Writes d R)
    (ht : IsSettled t) (hcontent : collapseNewlines (trim ((d.children r).flatMap R)) = t)
    (h : d.QuotedBelow n p r) :
    collapseNewlines (trim ((d.children p).flatMap R)) = quotedText^[n] t ∧
      (0 < n → (d.children p).flatMap R =
        "\n\n".toList ++ quotedText^[n] t ++ "\n\n".toList) := by
  induction h with
  | here => exact ⟨hcontent, fun h => absurd h (Nat.lt_irrefl 0)⟩
  | @quote n p q r hchildren hnamed _ ih =>
    obtain ⟨hinner, -⟩ := ih hcontent
    obtain ⟨hsettled, -⟩ := ht.iterate n
    have hquote := convert_blockquote flavour o hnamed hsettled.ne_nil hinner
    rw [hR q] at hquote
    have hwhole : (d.children p).flatMap R =
        "\n\n".toList ++ quotedText^[n + 1] t ++ "\n\n".toList := by
      rw [hchildren, List.flatMap_singleton, Except.ok.inj hquote, Function.iterate_succ_apply']
    refine ⟨?_, fun _ => hwhole⟩
    rw [hwhole]
    exact (ht.iterate (n + 1)).1.collapseNewlines_trim_block

end Flavour

/-! ### The whole document -/

/-- Block quotes are compositional. If the Markdown of a document has no carriage return and
is not blank, then the lines of the document inside block quotes are the lines of that
Markdown, trimmed, with a mark for each block quote. So every line begins with a mark, with a
space behind it unless the line ends there, and taking these off as often as there are block
quotes gives the lines of the document back. -/
theorem Profile.convert_quoted (flavour : Flavour) (o : Options) (d d' : Document) (n : Nat)
    (f : Nat → Nat) (h : d.IsQuotedIn d' (n + 1) f) :
    ∃ markdown, (Profile.ofFlavour flavour o).convert d = .ok markdown ∧
      ('\r' ∉ markdown → trim markdown ≠ [] →
        ∃ quoted, (Profile.ofFlavour flavour o).convert d' = .ok quoted ∧
          (∀ line ∈ lines quoted, line = ['>'] ∨ ['>', ' '] <+: line) ∧
          (lines quoted).map unquoteLine^[n + 1] = lines (trim markdown) ∧
          lines quoted = (lines (trim markdown)).map quoteLine^[n + 1]) := by
  obtain ⟨R, hR⟩ := (flavour.neverFails o d).exists_render
  obtain ⟨R', hR'⟩ := (flavour.neverFails o d').exists_render
  refine ⟨_, Renderer.convertDocument_of_render fun i => (hR i).1, ?_⟩
  intro hreturn hne
  have hsettled := isSettled_trim_tidy hne hreturn
  have hinner : (d'.children (f Document.root)).flatMap R' =
      (d.children Document.root).flatMap R :=
    h.transcribes.flatMap_content (fun c hc hroot => ⟨rfl, h.node?_eq c hc hroot⟩)
      (fun i => (hR i).2) fun i => (hR' i).2
  have hcontent := Flavour.content_of_quotedBelow (fun i => (hR' i).2) hsettled
    (by rw [hinner, ← trim_tidy]) h.quoted
  obtain ⟨hquoted, hlines⟩ := hsettled.iterate (n + 1)
  have hconvert : (Profile.ofFlavour flavour o).convert d' =
      .ok (quotedText^[n + 1] (trim (tidy ((d.children Document.root).flatMap R)))) := by
    rw [Profile.convert_ofFlavour, Renderer.convertDocument_of_render fun i => (hR' i).1,
      hcontent.2 (Nat.succ_pos n), hquoted.tidy_block]
  refine ⟨_, hconvert, ?_, ?_, hlines⟩
  · intro line hline
    rw [hlines, Function.iterate_succ'] at hline
    obtain ⟨l, -, rfl⟩ := List.mem_map.mp hline
    rw [Function.comp_apply, quoteLine]
    split
    · exact Or.inl rfl
    · exact Or.inr ⟨_, rfl⟩
  · rw [hlines, List.map_map]
    have hundo : Function.LeftInverse unquoteLine^[n + 1] quoteLine^[n + 1] :=
      Function.LeftInverse.iterate unquoteLine_quoteLine (n + 1)
    rw [hundo.comp_eq_id, List.map_id]

/-- A paragraph, a list and white space between them. -/
def paragraphAndList : Document :=
  Document.grown
    [(0, .text "\n".toList), (0, .element "p".toList []), (2, .text "a ".toList),
     (0, .element "ul".toList []), (4, .element "li".toList []), (5, .text "b".toList)]

/-- The same in two block quotes, the inner one appended before the outer is filled. -/
def quotedParagraphAndList : Document :=
  Document.grown
    [(0, .element "blockquote".toList []), (1, .element "blockquote".toList []),
     (2, .text "\n".toList), (2, .element "p".toList []), (4, .text "a ".toList),
     (2, .element "ul".toList []), (6, .element "li".toList []), (7, .text "b".toList)]

theorem isQuotedIn_paragraphAndList :
    paragraphAndList.IsQuotedIn quotedParagraphAndList 2 (· + 2) where
  reachable := Document.reachable_grown _
  reachable' := Document.reachable_grown _
  quoted := .quote (q := 1) (by decide) (by decide)
    (.quote (q := 2) (by decide) (by decide) (.here 2))
  children_eq := by decide
  node?_eq := by decide

theorem Profile.convert_quoted_paragraphAndList :
    ∃ quoted, (Profile.ofFlavour .gitHub {}).convert quotedParagraphAndList = .ok quoted ∧
      lines quoted = ["> > a".toList, "> >".toList, "> > *   b".toList] := by
  obtain ⟨markdown, hmarkdown, hquoted⟩ := Profile.convert_quoted .gitHub {} paragraphAndList
    quotedParagraphAndList 1 (· + 2) isQuotedIn_paragraphAndList
  have hconvert : (Profile.ofFlavour .gitHub {}).convert paragraphAndList =
      .ok "a\n\n*   b".toList := by
    decide +kernel
  rw [hconvert] at hmarkdown
  cases hmarkdown
  obtain ⟨quoted, hconvert, -, -, hlines⟩ := hquoted (by decide) (by decide +kernel)
  refine ⟨quoted, hconvert, ?_⟩
  rw [hlines]
  decide +kernel

end TreeMarkdown
