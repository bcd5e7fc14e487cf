/-
Renderers: rule tables whose actions write Markdown.

A converter gets a node and the Markdown of its children. It may abstain, by giving
nothing or an empty text, and then the Markdown of the children stands as it is; so it
does for a node without a rule. A converter may also fail, which fails the conversion.
-/

import TreeMarkdown.RuleTable

namespace TreeMarkdown

/-- Why a conversion failed. -/
inductive ConversionError where
  /-- A heading was asked for whose tag does not begin with a one-byte character, so that
  no level stands behind it. -/
  | headingTag (tag : Text)
deriving DecidableEq

/-- Writes the Markdown of a node, given that of its children. -/
abbrev Converter := Document → Nat → Text → Except ConversionError (Option Text)

namespace Converter

/-- A converter that never fails. -/
def total (f : Document → Nat → Text → Option Text) : Converter :=
  fun d i content => .ok (f d i content)

/-- A converter that looks only at the Markdown of the children. -/
def ofContent (f : Text → Option Text) : Converter :=
  total fun _ _ content => f content

/-- A converter that looks only at the node. -/
def ofNode (f : Document → Nat → Option Text) : Converter :=
  total fun d i _ => f d i

end Converter

/-- What the rule's converter writes; an empty text counts as nothing. -/
def Rule.convert (r : Rule Converter) (d : Document) (i : Nat) (content : Text) :
    Except ConversionError (Option Text) :=
  (r.action d i content).map (·.filter (!·.isEmpty))

/-- A table of converters. -/
abbrev Renderer := RuleTable Converter

namespace Renderer

/-- Adds a converter under every chain of a comma list. -/
def add (r : Renderer) (keys : Text) (f : Converter) : Renderer :=
  (r.insert keys f).2

/-- Adds converters in order. -/
def addAll (r : Renderer) (entries : List (Text × Converter)) : Renderer :=
  entries.foldl (fun r entry => r.add entry.1 entry.2) r

/-- A renderer with these converters, added in order. -/
def ofList (entries : List (Text × Converter)) : Renderer :=
  addAll RuleTable.empty entries

/-- Writes the rules of `other` over those of `r`. -/
def mix (r other : Renderer) : Renderer :=
  r.extend other

/-- The Markdown of node `i`, given that of its children: what the best rule writes, or
the Markdown of the children if there is no rule or it abstains. -/
def convert (r : Renderer) (d : Document) (i : Nat) (content : Text) :
    Except ConversionError Text :=
  match r.best? d i with
  | none => .ok content
  | some rule => (rule.convert d i content).map (·.getD content)

end Renderer

end TreeMarkdown
