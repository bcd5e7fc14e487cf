/-
Documents as they grow.

`grown` runs a list of appends from the empty document, where a refused append leaves the
document as it is; `Reachable` documents are those that such a run gives. What one append
does is said once (`append_eq_ok`), and each observation of the grown document follows
from it: the new node, one more child for its parent, and nothing else. From that, text
nodes of reachable documents have no children (`children_eq_nil_of_isText`).
-/

import TreeMarkdown.Document.Navigation

namespace TreeMarkdown.Document

/-- One append; a refused one leaves the document as it is. -/
def grow (d : Document) (step : Nat × Node) : Document :=
  match d.append step.1 step.2 with
  | .ok (_, d') => d'
  | .error _ => d

/-- The document after a list of appends, each with the parent and the new node. -/
def grown (steps : List (Nat × Node)) : Document :=
  steps.foldl grow empty

/-- The documents that come about by appending. -/
inductive Reachable : Document → Prop where
  | empty : Reachable empty
  | grow {d : Document} (h : Reachable d) (step : Nat × Node) : Reachable (d.grow step)

theorem reachable_grown (steps : List (Nat × Node)) : Reachable (grown steps) := by
  suffices h : ∀ d, Reachable d → Reachable (steps.foldl grow d) from h empty .empty
  induction steps with
  | nil => exact fun _ hd => hd
  | cons step steps ih => exact fun _ hd => ih _ (.grow hd step)

/-! ### One append -/

variable {d d' : Document} {p i : Nat} {n : Node}

/-- A successful append found its parent, which is not a text node, and gave the next free
number to a node that is not a document node. -/
theorem append_eq_ok (h : d.append p n = .ok (i, d')) :
    ∃ above, d.cells[p]? = some above ∧ above.node.isText = false ∧ n.isDocument = false ∧
      i = d.size ∧ d'.cells = grownCells d.cells p above.children.size n := by
  unfold append at h
  split at h
  · cases h
  · rename_i above habove
    split at h
    · cases h
    · rename_i htext
      split at h
      · cases h
      · rename_i hdocument
        cases h
        exact ⟨above, habove, by simpa using htext, by simpa using hdocument, rfl, rfl⟩

theorem lt_size_of_append (h : d.append p n = .ok (i, d')) : p < d.size := by
  obtain ⟨above, habove, -⟩ := append_eq_ok h
  exact (Array.getElem?_eq_some_iff.mp habove).1

/-- The cells after a successful append. -/
theorem getElem?_of_append (h : d.append p n = .ok (i, d')) : ∃ above,
    d.cells[p]? = some above ∧ ∀ j : Nat, d'.cells[j]? =
      if j = d.size then some ⟨n, some p, above.children.size, #[]⟩
      else if j = p then some { above with children := above.children.push d.size }
      else d.cells[j]? := by
  obtain ⟨above, habove, _, _, _, hcells⟩ := append_eq_ok h
  refine ⟨above, habove, ?_⟩
  intro j
  rw [hcells, getElem?_grownCells habove]
  rfl

/-- An append adds its node and keeps the others. -/
theorem node?_of_append (h : d.append p n = .ok (i, d')) (j : Nat) :
    d'.node? j = if j = d.size then some n else d.node? j := by
  obtain ⟨above, habove, hcells⟩ := getElem?_of_append h
  unfold node?
  rw [hcells]
  split
  · rfl
  · split
    · rename_i hj
      rw [hj, habove]
      rfl
    · rfl

theorem cells_size (d : Document) : d.cells[d.size]? = none :=
  Array.getElem?_eq_none (Nat.le_refl _)

/-- An append puts its node behind the children of the parent and keeps all others. -/
theorem children_of_append (h : d.append p n = .ok (i, d')) (j : Nat) :
    d'.children j = if j = p then d.children p ++ [d.size] else d.children j := by
  obtain ⟨above, habove, hcells⟩ := getElem?_of_append h
  have hp := lt_size_of_append h
  unfold children childArray
  rw [hcells]
  by_cases hnew : j = d.size
  · rw [if_pos hnew, if_neg (by omega), hnew, cells_size]
    rfl
  · rw [if_neg hnew]
    by_cases hj : j = p
    · rw [if_pos hj, if_pos hj, habove]
      simp
    · rw [if_neg hj, if_neg hj]

/-- A property of the empty document that every append keeps holds of every reachable
document. -/
theorem Reachable.invariant {P : Document → Prop} (base : P .empty)
    (step : ∀ d d' p n i, P d → d.append p n = .ok (i, d') → P d') (h : Reachable d) : P d := by
  induction h with
  | empty => exact base
  | @grow d _ s ih =>
    unfold Document.grow
    cases happend : d.append s.1 s.2 with
    | error _ => exact ih
    | ok result => exact step d result.2 s.1 s.2 result.1 ih happend

theorem node?_root_of_reachable (h : d.Reachable) : d.node? root = some Node.document := by
  refine Reachable.invariant (P := fun d => d.node? root = some Node.document) rfl ?_ h
  intro d d' p n i ih happend
  have hpos : 0 < d.size := d.isTree.size_pos
  rw [node?_of_append happend, if_neg (by unfold root; omega), ih]

/-! ### Text nodes are leaves -/

theorem children_empty (j : Nat) : empty.children j = [] := by
  unfold children childArray
  rcases j with _ | j
  · rfl
  · rw [show Document.empty.cells[j + 1]? = none by simp [Document.empty]]
    rfl

theorem children_size (d : Document) : d.children d.size = [] := by
  unfold children childArray
  rw [cells_size]
  rfl

/-- A text node of a reachable document has no children. -/
theorem Reachable.children_eq_nil_of_isText (h : Reachable d) {j : Nat} (hj : d.isText j = true) :
    d.children j = [] := by
  refine Reachable.invariant (P := fun d => ∀ j, d.isText j = true → d.children j = [])
    ?_ ?_ h j hj
  · exact fun j _ => children_empty j
  · intro d d' p n i ih happend j htext
    obtain ⟨above, habove, htextp, -, -, -⟩ := append_eq_ok happend
    have hp : d.isText p = false := by
      simpa [isText, satisfies, node?, habove] using htextp
    have hlt := lt_size_of_append happend
    unfold isText satisfies at htext
    rw [node?_of_append happend] at htext
    rw [children_of_append happend]
    by_cases hnew : j = d.size
    · rw [if_neg (by omega), hnew, children_size]
    · rw [if_neg hnew] at htext
      have hne : j ≠ p := by
        rintro rfl
        rw [isText, satisfies, htext] at hp
        cases hp
      rw [if_neg hne]
      exact ih j htext

end TreeMarkdown.Document
