/-
What every run of appends builds.

A `Call` appends a node, an element or a text node below a node of any number; `built`
performs calls from the empty document. The same calls run on bare cells as well
(`Arena`), which carry no proof that they are linked as a tree: each call there makes its
checks one after the other, puts the new cell and then links it. Both give the same cells
and the same answers (`Arena.append_cells`, `Arena.cells_built`). So what the calls build
is a tree whatever the calls were, and a refused call leaves the cells as they are.
-/

import TreeMarkdown.Proofs.Document.Growth
import TreeMarkdown.Proofs.Document.Naming
import TreeMarkdown.Proofs.Document.Subtree
import Mathlib.Data.List.Induction

namespace TreeMarkdown

namespace Document

/-! ### Calls -/

/-- A request to append below the node of a number, which may not exist. -/
inductive Call where
  | append (parent : Nat) (node : Node)
  | appendElement (parent : Nat) (tag : Text)
  | appendText (parent : Nat) (content : Text)

namespace Call

/-- The number to append to. -/
def parent : Call → Nat
  | append p _ | appendElement p _ | appendText p _ => p

/-- The new node. -/
def node : Call → Node
  | append _ n => n
  | appendElement _ tag => .element tag []
  | appendText _ content => .text content

/-- The answer to a call, with the document after it if it was successful. -/
def run (d : Document) : Call → Except AppendError (Nat × Document)
  | append p n => d.append p n
  | appendElement p tag => d.appendElement p tag
  | appendText p content => d.appendText p content

theorem run_eq (d : Document) (c : Call) : c.run d = d.append c.parent c.node := by
  cases c <;> rfl

end Call

/-- One call; a refused one leaves the document as it is. -/
def perform (d : Document) (c : Call) : Document :=
  match c.run d with
  | .ok (_, d') => d'
  | .error _ => d

/-- The document after a list of calls. -/
def built (calls : List Call) : Document :=
  calls.foldl perform empty

theorem perform_eq_grow (d : Document) (c : Call) : d.perform c = d.grow (c.parent, c.node) := by
  rw [perform, Call.run_eq]
  rfl

theorem built_concat (calls : List Call) (c : Call) :
    built (calls ++ [c]) = (built calls).perform c := by
  rw [built, List.foldl_append]
  rfl

theorem reachable_built (calls : List Call) : Reachable (built calls) := by
  induction calls using List.reverseRecOn with
  | nil => exact .empty
  | append_singleton calls c ih =>
    rw [built_concat, perform_eq_grow]
    exact .grow ih _

/-! ### Refusals -/

variable {d d' : Document} {p i : Nat} {n : Node}

theorem isText_of_cell {c : Cell} (h : d.cells[i]? = some c) : d.isText i = c.node.isText := by
  simp [isText, satisfies, node?_of_cell h]

theorem cells_eq_none_iff : d.cells[i]? = none ↔ d.size ≤ i :=
  Array.getElem?_eq_none_iff

/-- An append is refused for the first of these reasons that there is: no parent of that
number, a text node for a parent, a document node to append. -/
theorem append_eq_error_iff {e : AppendError} : d.append p n = .error e ↔
    (d.size ≤ p ∧ e = .unknownNode p) ∨
      (p < d.size ∧ d.isText p = true ∧ e = .textParent p) ∨
        (p < d.size ∧ d.isText p = false ∧ n.isDocument = true ∧ e = .documentChild) := by
  unfold append
  split
  · rename_i hnone
    have hsize := cells_eq_none_iff.mp hnone
    simp only [Except.error.injEq, hsize, true_and, Nat.not_lt.mpr hsize, false_and, or_false]
    exact eq_comm
  · rename_i above habove
    have hlt : p < d.size := (Array.getElem?_eq_some_iff.mp habove).1
    have hsize : ¬ d.size ≤ p := Nat.not_le.mpr hlt
    simp only [hsize, false_and, false_or, hlt, true_and, isText_of_cell habove]
    split
    · rename_i htext
      simp only [htext, true_and, Bool.true_eq_false, false_and, or_false, Except.error.injEq]
      exact eq_comm
    · rename_i htext
      simp only [htext, Bool.false_eq_true, false_and, false_or, true_and]
      split
      · rename_i hdocument
        simp only [hdocument, true_and, Except.error.injEq]
        exact eq_comm
      · rename_i hdocument
        simp [hdocument]

/-- An append for which there is no reason to refuse it is successful. -/
theorem exists_append (hp : p < d.size) (htext : d.isText p = false)
    (hn : n.isDocument = false) : ∃ d', d.append p n = .ok (d.size, d') := by
  cases happend : d.append p n with
  | error e =>
    rcases append_eq_error_iff.mp happend with ⟨hsize, -⟩ | ⟨-, htext', -⟩ | ⟨-, -, hdocument, -⟩
    · exact absurd hp (Nat.not_lt.mpr hsize)
    · rw [htext] at htext'
      cases htext'
    · rw [hn] at hdocument
      cases hdocument
  | ok result =>
    obtain ⟨i, d'⟩ := result
    obtain ⟨-, -, -, -, rfl, -⟩ := append_eq_ok happend
    exact ⟨d', rfl⟩

theorem size_of_append (h : d.append p n = .ok (i, d')) : d'.size = d.size + 1 := by
  obtain ⟨above, -, -, -, -, hcells⟩ := append_eq_ok h
  rw [size, hcells]
  simp [grownCells, size]

/-! ### The links of a tree -/

/-- Children have the larger numbers the later they were appended. -/
theorem Reachable.children_increasing (h : Reachable d) (p : Nat) :
    (d.children p).Pairwise (· < ·) := by
  refine Reachable.invariant (P := fun d => ∀ p, (d.children p).Pairwise (· < ·)) ?_ ?_ h p
  · intro p
    rw [children_empty]
    exact List.Pairwise.nil
  · intro d d' p n i ih happend j
    rw [children_of_append happend]
    split
    · rw [List.pairwise_append]
      refine ⟨ih p, List.pairwise_singleton _ _, ?_⟩
      intro c hc new hnew
      rw [List.mem_singleton.mp hnew]
      exact lt_size_of_mem_children hc
    · exact ih j

end Document

open Document

/-! ### Bare cells -/

/-- Cells without the proof that they are linked as a tree. -/
abbrev Arena := Array Cell

namespace Arena

/-- The cells of the empty document. -/
def fresh : Arena := #[⟨Node.document, none, 0, #[]⟩]

/-- Puts a cell for the node behind the others and then its number behind the children of
`p`, which has `k` of them. -/
def link (cells : Arena) (p k : Nat) (n : Node) : Arena :=
  (cells.push ⟨n, some p, k, #[]⟩).modify p fun c =>
    { c with children := c.children.push cells.size }

/-- The answer to an append and the cells after it. -/
def append (cells : Arena) (p : Nat) (n : Node) : Except AppendError Nat × Arena :=
  match cells[p]? with
  | none => (.error (.unknownNode p), cells)
  | some above =>
    if above.node.isText then (.error (.textParent p), cells)
    else if n.isDocument then (.error .documentChild, cells)
    else (.ok cells.size, link cells p above.children.size n)

/-- The answer to a call and the cells after it. -/
def call (cells : Arena) (c : Call) : Except AppendError Nat × Arena :=
  append cells c.parent c.node

/-- The cells after a list of calls. -/
def built (calls : List Call) : Arena :=
  calls.foldl (fun cells c => (call cells c).2) fresh

/-- A new cell may be linked before it is put. -/
theorem link_eq_grownCells {cells : Arena} {p : Nat} (hp : p < cells.size) (k : Nat) (n : Node) :
    link cells p k n = grownCells cells p k n := by
  apply Array.ext_getElem?
  intro i
  simp only [link, grownCells, Array.getElem?_modify, Array.getElem?_push, Array.size_modify]
  by_cases hi : i = cells.size
  · rw [if_pos hi, if_pos hi, if_neg (by omega)]
  · rw [if_neg hi, if_neg hi]

/-- Bare cells answer like the document, and change like it if the append is not
refused. -/
theorem append_cells (d : Document) (p : Nat) (n : Node) :
    append d.cells p n =
      match d.append p n with
      | .ok (i, d') => (.ok i, d'.cells)
      | .error e => (.error e, d.cells) := by
  unfold append
  cases happend : d.append p n with
  | error e =>
    rcases append_eq_error_iff.mp happend with ⟨hp, rfl⟩ | ⟨hp, htext, rfl⟩ |
      ⟨hp, htext, hdocument, rfl⟩
    · rw [cells_eq_none_iff.mpr hp]
    · obtain ⟨above, habove⟩ := exists_cell hp
      rw [isText_of_cell habove] at htext
      simp [habove, htext]
    · obtain ⟨above, habove⟩ := exists_cell hp
      rw [isText_of_cell habove] at htext
      simp [habove, htext, hdocument]
  | ok result =>
    obtain ⟨above, habove, htext, hdocument, hid, hcells⟩ := append_eq_ok happend
    have hp := lt_size_of_append happend
    simp only [habove, htext, hdocument, Bool.false_eq_true, if_false, hid, hcells,
      link_eq_grownCells hp]
    rfl

theorem call_cells (d : Document) (c : Call) : (call d.cells c).2 = (d.perform c).cells := by
  rw [call, append_cells, perform, Call.run_eq]
  cases d.append c.parent c.node <;> rfl

theorem cells_built (calls : List Call) : (Document.built calls).cells = built calls := by
  induction calls using List.reverseRecOn with
  | nil => rfl
  | append_singleton calls c ih =>
    rw [built_concat, ← call_cells, ih, built, built, List.foldl_append]
    rfl

end Arena

/-- Whatever was called, the cells form a tree: cell 0 is the only document node and the
only node without a parent; every other node has a parent of a smaller number and stands
in one place among all children, below its parent and at its index; children stand in
increasing order; text nodes have none. The next call is refused exactly if its parent has
no cell, or else is a text node, or else the new node is a document node, and then nothing
changes; otherwise it adds the node under the next free number. Cells that are linked in
place, without any proof that they form a tree, are these cells and give these answers. -/
theorem Document.appending_builds_a_tree (calls : List Call) :
    let d := built calls
    d.cells = Arena.built calls ∧
      (∀ i, d.isRoot i = true ↔ i = root) ∧
      (∀ i < d.size, d.parent? i = none ↔ i = root) ∧
      (∀ i < d.size, i ≠ root → ∃ p k, d.parent? i = some p ∧ p < i ∧ d.index? i = some k ∧
        ∀ q l, (d.children q)[l]? = some i ↔ q = p ∧ l = k) ∧
      (∀ p, (d.children p).Pairwise (· < ·)) ∧
      (∀ i, d.isText i = true → d.children i = []) ∧
      (∀ c : Call, ∀ e, c.run d = .error e ↔
        (d.size ≤ c.parent ∧ e = .unknownNode c.parent) ∨
          (c.parent < d.size ∧ d.isText c.parent = true ∧ e = .textParent c.parent) ∨
            (c.parent < d.size ∧ d.isText c.parent = false ∧ c.node.isDocument = true ∧
              e = .documentChild)) ∧
      (∀ c : Call, ∀ e, c.run d = .error e →
        built (calls ++ [c]) = d ∧ Arena.call d.cells c = (.error e, d.cells)) ∧
      ∀ c : Call, ∀ i d', c.run d = .ok (i, d') →
        i = d.size ∧ d'.size = d.size + 1 ∧ d'.node? i = some c.node ∧
          built (calls ++ [c]) = d' ∧ Arena.call d.cells c = (.ok i, d'.cells) := by
  have hreachable := reachable_built calls
  refine ⟨Arena.cells_built calls, fun i => isRoot_iff, fun i hi => parent?_eq_none_iff hi, ?_,
    hreachable.children_increasing, fun i => hreachable.children_eq_nil_of_isText, ?_, ?_, ?_⟩
  · intro i hi hroot
    obtain ⟨p, hp⟩ := exists_parent hi hroot
    obtain ⟨k, hk⟩ := Option.isSome_iff_exists.mp (isSome_index?_iff.mpr (by rw [hp]; rfl))
    refine ⟨p, k, hp, parent_lt hp, hk, ?_⟩
    intro q l
    rw [children_getElem?_iff, hp, hk, Option.some_inj, Option.some_inj, eq_comm,
      eq_comm (a := k)]
  · intro c e
    rw [Call.run_eq]
    exact append_eq_error_iff
  · intro c e h
    constructor
    · rw [built_concat, perform, h]
    · rw [Arena.call, Arena.append_cells, ← Call.run_eq, h]
  · intro c i d' h
    have happend := h
    rw [Call.run_eq] at happend
    obtain ⟨-, -, -, -, hid, -⟩ := append_eq_ok happend
    refine ⟨hid, size_of_append happend, ?_, ?_, ?_⟩
    · rw [node?_of_append happend, if_pos hid]
    · rw [built_concat, perform, h]
    · rw [Arena.call, Arena.append_cells, ← Call.run_eq, h]

end TreeMarkdown
