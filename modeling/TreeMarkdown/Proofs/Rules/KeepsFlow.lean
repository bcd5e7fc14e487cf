/-
What a converter owes to the text of the subtree that it writes.

`KeepsFlow` says it for a converter and the keys under which it stands: on the nodes that
the keys name, given Markdown that keeps the text below the children, it writes Markdown
that keeps the text below the node, or abstains where the Markdown of the children does.
Away from text nodes it is enough to keep what is given (`KeepsGiven`), and most converters do so
for any node (`KeepsContent`); leaves have nothing to keep (`KeepsGiven.leaf`), and a text node has
its value (`KeepsFlow.ofText`).

Two conditions on the document stand behind this: `IsLeafy`, for the elements that are
written without their children, and `TextNamesText`, for the name of text nodes.
-/

import TreeMarkdown.Proofs.Document.Flow
import TreeMarkdown.Proofs.Document.Growth
import TreeMarkdown.Proofs.Document.Naming
import TreeMarkdown.Proofs.Markdown.Keeping

namespace TreeMarkdown

open Text (IsKept)
open Markdown (Keeps)

namespace Document

/-- Line breaks, thematic breaks and images have no children. -/
def IsLeafy (d : Document) : Prop :=
  ∀ i, d.isNamed i "BR".toList = true ∨ d.isNamed i "HR".toList = true ∨
    d.isNamed i "IMG".toList = true → d.children i = []

/-- No element bears the name that stands for text nodes. -/
def TextNamesText (d : Document) : Prop :=
  ∀ i, d.isElement i = true → d.isNamed i textRuleName = false

instance (d : Document) : Decidable d.IsLeafy :=
  decidable_of_iff
    (∀ i < d.size, d.isNamed i "BR".toList = true ∨ d.isNamed i "HR".toList = true ∨
      d.isNamed i "IMG".toList = true → d.children i = [])
    ⟨fun h i hnamed => h i (by
        rcases hnamed with hnamed | hnamed | hnamed <;> exact lt_size_of_satisfies hnamed) hnamed,
      fun h i _ => h i⟩

instance (d : Document) : Decidable d.TextNamesText :=
  decidable_of_iff
    (∀ i < d.size, d.isElement i = true → d.isNamed i textRuleName = false)
    ⟨fun h i helement => h i (lt_size_of_satisfies helement) helement, fun h i _ => h i⟩

theorem flowText_of_isText {d : Document} (hd : d.Reachable) {i : Nat} (h : d.isText i = true) :
    d.flowText i = d.ownText i := by
  rw [flowText_eq, ownFlow_of_isText h, hd.children_eq_nil_of_isText h, List.flatMap_nil,
    List.append_nil]

theorem flowText_of_not_isText {d : Document} {i : Nat} (h : d.isText i = false) :
    d.flowText i = (d.children i).flatMap d.flowText := by
  rw [flowText_eq, ownFlow_of_not_isText h, List.nil_append]

end Document

variable {d : Document} {keys : Text} {f : Converter}

/-! ### On any node -/

/-- On the nodes that the keys name, the converter keeps the text of the subtree if it is
given the text of the children. -/
def KeepsFlow (d : Document) (keys : Text) (f : Converter) : Prop :=
  ∀ s ∈ Selector.parseList keys, ∀ i, d.isNamed i s.target = true → ∀ content out,
    IsKept ((d.children i).flatMap d.flowText) content → f d i content = .ok out →
      IsKept (d.flowText i) (out.getD content)

/-- A converter for text nodes has to write their values. -/
theorem KeepsFlow.ofText (hd : d.Reachable) (hnames : d.TextNamesText)
    (hkeys : ∀ s ∈ Selector.parseList keys, s.target = textRuleName)
    (hf : ∀ i content out, f d i content = .ok out → IsKept (d.ownText i) (out.getD content)) :
    KeepsFlow d keys f := by
  intro s hs i hnamed content out _ hout
  rw [hkeys s hs] at hnamed
  have htext : d.isText i = true := by
    rcases Document.isText_or_isElement_of_isNamed hnamed with htext | helement
    · exact htext
    · rw [hnames i helement] at hnamed
      cases hnamed
  rw [Document.flowText_of_isText hd htext]
  exact hf i content out hout

/-! ### Away from text nodes -/

/-- On the nodes that the keys name, text nodes aside, the converter keeps the text of the
subtree if what it is given does. -/
def KeepsGiven (d : Document) (keys : Text) (f : Converter) : Prop :=
  ∀ s ∈ Selector.parseList keys, ∀ i, d.isNamed i s.target = true → d.isText i = false →
    ∀ content out, f d i content = .ok out → IsKept (d.flowText i) content →
      Keeps (d.flowText i) out

/-- No chain of the comma list is for text nodes. -/
def namesElements (keys : Text) : Bool :=
  (Selector.parseList keys).all fun s => !Document.namesText s.target

theorem KeepsFlow.of_keepsGiven (hkeys : namesElements keys = true) (h : KeepsGiven d keys f) :
    KeepsFlow d keys f := by
  intro s hs i hnamed content out hcontent hout
  have htarget : Document.namesText s.target = false := by
    simpa using List.all_eq_true.mp hkeys s hs
  have htext := Document.isText_eq_false_of_isNamed hnamed htarget
  rw [← Document.flowText_of_not_isText htext] at hcontent
  cases out with
  | none => exact hcontent
  | some written => exact h s hs i hnamed htext content (some written) hout hcontent written rfl

/-- What the converter writes, for whatever node, keeps the Markdown that it is given. -/
def KeepsContent (f : Converter) : Prop :=
  ∀ d i content out, f d i content = .ok out → Keeps content out

namespace KeepsContent

theorem total {g : Document → Nat → Text → Option Text}
    (hg : ∀ d i content, Keeps content (g d i content)) : KeepsContent (.total g) := by
  intro d i content out hout
  cases hout
  exact hg d i content

theorem ofContent {g : Text → Option Text} (hg : ∀ content, Keeps content (g content)) :
    KeepsContent (.ofContent g) :=
  total fun _ _ content => hg content

theorem keepsGiven (h : KeepsContent f) : KeepsGiven d keys f := by
  intro s _ i _ _ content out hout hcontent
  exact .of_isKept hcontent (h d i content out hout)

end KeepsContent

/-- Nothing stands below a leaf, whatever is written for it. -/
theorem KeepsGiven.leaf {tag : Text} (htag : ∀ s ∈ Selector.parseList keys, s.target = tag)
    (hleaf : ∀ i, d.isNamed i tag = true → d.children i = []) : KeepsGiven d keys f := by
  intro s hs i hnamed htext content out _ _ out' _
  rw [htag s hs] at hnamed
  rw [Document.flowText_of_not_isText htext, hleaf i hnamed]
  exact .of_visible_eq_nil rfl out'

end TreeMarkdown
