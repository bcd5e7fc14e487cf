/-
Profiles: a flavour of Markdown with its options, open to further rules.

The options are those with which the profile was made; adding rules or mixing in another
renderer does not change them.
-/

import TreeMarkdown.Conversion
import TreeMarkdown.Rules.GitHub

namespace TreeMarkdown

/-- The flavours of Markdown that come with rules. -/
inductive Flavour where
  | commonMark
  | gitHub
deriving DecidableEq

/-- The renderer of a flavour. -/
def Flavour.renderer (o : Options) : Flavour → Renderer
  | .commonMark => CommonMark.renderer o
  | .gitHub => GitHub.renderer o

/-- A renderer together with the options it was made from. -/
structure Profile where
  options : Options
  renderer : Renderer

namespace Profile

/-- The profile of a flavour. -/
def ofFlavour (flavour : Flavour) (o : Options) : Profile :=
  ⟨o, flavour.renderer o⟩

/-- Adds converters in order. -/
def addAll (p : Profile) (entries : List (Text × Converter)) : Profile :=
  { p with renderer := p.renderer.addAll entries }

/-- Writes the rules of a renderer over those of the profile. -/
def mix (p : Profile) (r : Renderer) : Profile :=
  { p with renderer := p.renderer.mix r }

/-- The Markdown of a document. -/
def convert (p : Profile) (d : Document) : Except ConversionError Text :=
  p.renderer.convertDocument d

end Profile

end TreeMarkdown
