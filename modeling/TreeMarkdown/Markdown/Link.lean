/-
Links and images. Both have a target, without which there is none, and may have a title.
-/

import TreeMarkdown.Document.Navigation

namespace TreeMarkdown.Markdown

/-- The value of an attribute without white space at its ends; a missing one is empty. -/
def cleanAttribute (value : Option Text) : Text :=
  value.elim [] Text.strip

/-- The title behind a target. -/
def titlePart : Option Text → Text
  | none => []
  | some title => ' ' :: '"' :: title ++ ['"']

/-- A link or the part of an image behind its exclamation mark. -/
def reference (label target : Text) (title : Option Text) : Text :=
  '[' :: label ++ ']' :: '(' :: target ++ titlePart title ++ [')']

/-- A link. -/
def link (target : Text) (title : Option Text) (content : Text) : Option Text :=
  if target.isEmpty then none else some (reference content target title)

/-- An image. -/
def image (label target : Text) (title : Option Text) : Option Text :=
  if target.isEmpty then none else some ('!' :: reference label target title)

end TreeMarkdown.Markdown
