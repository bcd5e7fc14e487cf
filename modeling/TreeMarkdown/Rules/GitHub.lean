/-
The rules of GitHub flavour: strike-through, fenced code, tasks and tables, mixed over
the rules of CommonMark.
-/

import TreeMarkdown.Markdown.Table
import TreeMarkdown.Rules.CommonMark

namespace TreeMarkdown.GitHub

open Markdown

/-! ### Converters -/

/-- Deleted text. -/
def strikethrough : Converter :=
  .ofContent (span "~~".toList)

/-- Code that is a block, in fences whatever the style. -/
def codeBlock (o : Options) : Converter :=
  .total fun d i content => fencedCode o.fence (inheritedLanguage d i) content

/-- An item of a list, which may be a task. -/
def item (o : Options) : Converter :=
  .total fun d i content =>
    some (listItem (listMarker d o.bullet i ++ taskMark (taskState? d i)) content)

/-- A table. -/
def table : Converter :=
  .ofContent Markdown.table

/-- A row of a table. -/
def row : Converter :=
  .total fun d i content => some (tableRow d i content)

/-- A cell of a table. -/
def cell : Converter :=
  .ofContent fun content => some (Markdown.cell content)

/-! ### The table -/

/-- The converters with their keys, in order. -/
def entries (o : Options) : List (Text × Converter) :=
  [("DEL, S, STRIKE".toList, strikethrough),
   ("PRE CODE".toList, codeBlock o),
   ("UL LI, OL LI".toList, item o),
   ("TABLE".toList, table),
   ("TR".toList, row),
   ("TH, TD".toList, cell)]

/-- The renderer of GitHub flavour. -/
def renderer (o : Options) : Renderer :=
  (CommonMark.renderer o).mix (Renderer.ofList (entries o))

end TreeMarkdown.GitHub
