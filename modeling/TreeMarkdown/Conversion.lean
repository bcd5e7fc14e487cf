/-
Converting a whole document.

One cursor runs through the document. Writing the node under it takes as many steps as
the node has children, each step followed by writing the node it leads to; what comes of
that is the Markdown of the children. `render` is the same by recursion over the tree.
The depth of the recursion and the number of steps are bounded by the size of the
document.
-/

import TreeMarkdown.Document.Cursor
import TreeMarkdown.Renderer

namespace TreeMarkdown

/-- Takes newlines from both ends and keeps at most one blank line in a row. -/
def tidy (t : Text) : Text :=
  Text.collapseNewlines (Text.stripNewlines t)

namespace Renderer

/-! ### With a cursor -/

/-- Steps the cursor `n` times, or until there is nothing left, and writes with `write`
each node it comes to. Gives the Markdown and the cursor at the end. -/
def writeChildren (d : Document) (write : Cursor → Except ConversionError (Text × Cursor)) :
    Nat → Cursor → Except ConversionError (Text × Cursor)
  | 0, c => .ok ([], c)
  | n + 1, c =>
    match c.advance d with
    | .on i => do
      let (text, c) ← write (.on i)
      let (texts, c) ← writeChildren d write n c
      return (text ++ texts, c)
    | c => .ok ([], c)

/-- Writes the node under the cursor with everything below it, at most `depth` levels.
Gives the Markdown and the cursor at the end. -/
def writeNode (r : Renderer) (d : Document) :
    Nat → Cursor → Except ConversionError (Text × Cursor)
  | depth + 1, .on i => do
    let (content, c) ← writeChildren d (r.writeNode d depth) (d.children i).length (.on i)
    let text ← r.convert d i content
    return (text, c)
  | _, c => .ok ([], c)

/-- Steps the cursor until there is nothing left, at most `n` times, and writes each node
it comes to. -/
def writeFrom (r : Renderer) (d : Document) : Nat → Cursor → Except ConversionError Text
  | 0, _ => .ok []
  | n + 1, c =>
    match c.advance d with
    | .on i => do
      let (text, c) ← r.writeNode d d.size (.on i)
      let texts ← r.writeFrom d n c
      return text ++ texts
    | _ => .ok []

/-- The Markdown of a document. -/
def convertDocument (r : Renderer) (d : Document) : Except ConversionError Text :=
  (r.writeFrom d d.size .start).map tidy

/-! ### By recursion over the tree -/

/-- The Markdown of node `i`: its rule applied to the Markdown of its children. -/
def render (r : Renderer) (d : Document) (i : Nat) : Except ConversionError Text := do
  let texts ← (d.children i).attach.mapM fun ⟨c, _⟩ => r.render d c
  r.convert d i texts.flatten
termination_by d.size - i
decreasing_by
  rename_i h
  have := Document.lt_of_mem_children h
  have := Document.lt_size_of_mem_children h
  omega

theorem render_eq (r : Renderer) (d : Document) (i : Nat) :
    r.render d i = (do
      let texts ← (d.children i).mapM (r.render d)
      r.convert d i texts.flatten) := by
  rw [render]
  simp [List.mapM_subtype]

end Renderer

end TreeMarkdown
