/-
Code in the flow of text, and that it can be read back.

Outside of preformatted text an element for code is written as a span of all the text below it,
however many nodes that is spread over and whatever is written for them. The span determines the
text (`Flavour.code_read_back`).
-/

import TreeMarkdown.Proofs.Markdown.Delimiting
import TreeMarkdown.Proofs.Rules.Dispatch
import TreeMarkdown.Proofs.Rules.Totality

namespace TreeMarkdown

open Text Markdown

/-- Node `i` is code outside of preformatted text, and there is some text in it. -/
structure Document.IsInlineCode (d : Document) (i : Nat) : Prop where
  named : d.isNamed i "CODE".toList = true
  outside : d.standsIn i ["PRE"] = false
  text : d.textContent i ≠ []

namespace Flavour

variable {flavour : Flavour} {o : Options} {d : Document} {i : Nat} {span : Text}

theorem place_of_codeSpan (flavour : Flavour) :
    flavour.isOuterPlace ["CODE"] ["PRE"] 15 = true := by
  cases flavour <;> decide

theorem entry_of_codeSpan (flavour : Flavour) (o : Options) :
    (flavour.entries o)[15]? = some ("CODE".toList, CommonMark.code) := by
  cases flavour <;> rfl

/-- Code is written as the span of its text. -/
theorem render_code (hi : d.IsInlineCode i) (hspan : codeSpan (d.textContent i) = some span) :
    (flavour.renderer o).render d i = .ok span := by
  have haction : (flavour.renderer o).action? d i = some CommonMark.code :=
    action?_outside (place_of_codeSpan flavour) (entry_of_codeSpan flavour o)
      ((Document.isOneOf_singleton "CODE").trans hi.named) hi.outside
  have hne : span ≠ [] := by
    rw [(isCodeSpan_codeSpan hspan).eq]
    simp [ticks, spanWidth]
  obtain ⟨R, hR⟩ := (flavour.neverFails o d).exists_render
  rw [(hR i).1, ← (hR i).2, convert_of_action? haction]
  exact writtenBy_total hspan hne

/-- Code in the flow of text can be read back. It is written as the text below it between two
delimiters of `k` backticks, which is more than there are in a row anywhere in the text, with a space
on either side of the text if `k` is not 1. No other code is written alike, in any document and
with any options, unless it has the same text. -/
theorem code_read_back (flavour : Flavour) (o : Options) (d : Document) (i : Nat)
    (hi : d.IsInlineCode i) :
    ∃ k span, IsCodeSpan k (d.textContent i) span ∧
      (∀ content, CommonMark.code d i content = .ok (some span)) ∧
      (flavour.renderer o).render d i = .ok span ∧
      ∀ (flavour' : Flavour) (o' : Options) (d' : Document) (j : Nat), d'.IsInlineCode j →
        (flavour'.renderer o').render d' j = .ok span → d'.textContent j = d.textContent i := by
  have hspan := codeSpan_eq hi.text
  refine ⟨spanWidth (d.textContent i), _, isCodeSpan_codeSpan hspan, fun content => ?_,
    render_code hi hspan, fun flavour' o' d' j hj hrender => ?_⟩
  · exact congrArg Except.ok hspan
  · have hspan' := codeSpan_eq hj.text
    have hsame := Except.ok.inj ((render_code hj hspan').symm.trans hrender)
    rw [hsame] at hspan'
    exact (isCodeSpan_codeSpan hspan).text_eq (isCodeSpan_codeSpan hspan')

/-- Code with a run of backticks that two nodes share, and one at its end. -/
def sharedRun : Document :=
  Document.grown
    [(0, .element "p".toList []), (1, .element "code".toList []), (2, .text "a\x60".toList),
     (2, .element "b".toList []), (4, .text "\x60 \x60".toList)]

theorem code_read_back_sharedRun :
    sharedRun.IsInlineCode 2 ∧
      IsCodeSpan 3 "a\x60\x60 \x60".toList "\x60\x60\x60 a\x60\x60 \x60 \x60\x60\x60".toList ∧
      (Flavour.gitHub.renderer {}).render sharedRun 2 =
        .ok "\x60\x60\x60 a\x60\x60 \x60 \x60\x60\x60".toList := by
  have htext : sharedRun.textContent 2 = "a\x60\x60 \x60".toList := by decide +kernel
  have hi : sharedRun.IsInlineCode 2 :=
    ⟨by decide +kernel, by decide +kernel, by rw [htext]; decide⟩
  obtain ⟨k, span, hspan, -, hrender, -⟩ := code_read_back .gitHub {} sharedRun 2 hi
  have hwritten : (Flavour.gitHub.renderer {}).render sharedRun 2 =
      .ok "\x60\x60\x60 a\x60\x60 \x60 \x60\x60\x60".toList := by
    decide +kernel
  obtain rfl := Except.ok.inj (hrender.symm.trans hwritten)
  have hk : 3 = k := (congrArg List.length hspan.opening).trans List.length_replicate
  rw [htext, ← hk] at hspan
  exact ⟨hi, hspan, hrender⟩

end Flavour

end TreeMarkdown
