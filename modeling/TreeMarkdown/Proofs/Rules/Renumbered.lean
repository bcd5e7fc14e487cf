/-
The order of appending does not show.

A document under other numbers is a transcription of itself, the root standing for the root
(`Document.IsRenumbering.transcribes`). So whatever is asked of a document in numbers has the
corresponding answer: which rule of any table is for a node, where a walk goes next, and, number
for number, what the converters look at. The Markdown of the two documents is the same
(`Profile.convert_renumbered`).
-/

import TreeMarkdown.Proofs.Document.Renumbering
import TreeMarkdown.Proofs.Rules.Extension
import TreeMarkdown.Proofs.Rules.Transcribed

namespace TreeMarkdown

namespace Document.IsRenumbering

variable {d d' : Document} {f : Nat → Nat} {i : Nat}

/-- Every table has the same rule for corresponding nodes. -/
theorem best?_eq {α : Type} (h : d.IsRenumbering d' f) (t : RuleTable α) (hi : i < d.size) :
    t.best? d' (f i) = t.best? d i :=
  RuleTable.best?_congr fun rule _ => h.isMatch_eq hi rule.selector

theorem transcribes (h : d.IsRenumbering d' f) : Transcribes d d' f fun c => [f c] where
  reachable := h.reachable
  reachable' := h.reachable'
  neutral := h.root_eq.symm ▸ isNeutral_from_root h.reachable'
  children_eq := fun p hp _ => (h.children_eq p hp).trans List.map_eq_flatMap
  node := fun c hc _ => Or.inl ⟨rfl, h.node?_eq c hc⟩

/-- A flavour writes the two documents alike. -/
theorem convert_eq (h : d.IsRenumbering d' f) (flavour : Flavour) (o : Options) :
    (Profile.ofFlavour flavour o).convert d' = (Profile.ofFlavour flavour o).convert d := by
  obtain ⟨R, hR⟩ := (flavour.neverFails o d).exists_render
  obtain ⟨R', hR'⟩ := (flavour.neverFails o d').exists_render
  have hcontent := h.transcribes.flatMap_content (fun c hc _ => ⟨rfl, h.node?_eq c hc⟩)
    (fun i => (hR i).2) fun i => (hR' i).2
  rw [h.root_eq] at hcontent
  rw [Profile.convert_ofFlavour, Profile.convert_ofFlavour,
    Renderer.convertDocument_of_render fun i => (hR i).1,
    Renderer.convertDocument_of_render fun i => (hR' i).1, hcontent]

end Document.IsRenumbering

/-- The order in which a document is built does not matter. Take two documents that are the same
tree up to the numbers of the nodes. Then the numbers correspond one to one, every table of
rules has the same rule for corresponding nodes, walks through the documents are at corresponding
nodes after each step, and both flavours write the same Markdown for both, whatever the
options. -/
theorem Profile.convert_renumbered (d d' : Document) (f : Nat → Nat)
    (h : d.IsRenumbering d' f) :
    Set.BijOn f {i | i < d.size} {i | i < d'.size} ∧
      (∀ (α : Type) (t : RuleTable α), ∀ i < d.size, t.best? d' (f i) = t.best? d i) ∧
      (∀ k, (Cursor.after d' k).current? = (Cursor.after d k).current?.map f ∧
        (Walker.after d' k).node = (Walker.after d k).node.map f ∧
        (Walker.after d' k).next? d' = ((Walker.after d k).next? d).map f) ∧
      ∀ flavour o, ∃ markdown, (Profile.ofFlavour flavour o).convert d = .ok markdown ∧
        (Profile.ofFlavour flavour o).convert d' = .ok markdown := by
  refine ⟨h.bijOn, fun α t i hi => h.best?_eq t hi, fun k => ⟨h.current?_after k,
    h.walker_after k⟩, ?_⟩
  intro flavour o
  obtain ⟨markdown, hmarkdown⟩ := Profile.exists_convert_eq_ok flavour o d
  exact ⟨markdown, hmarkdown, (h.convert_eq flavour o).trans hmarkdown⟩

/-- An ordered list that begins with 3, and a table with a row of headers. -/
def listAndTable : Document :=
  Document.grown
    [(0, .element "ol".toList [("start".toList, "3".toList)]), (1, .element "li".toList []),
     (2, .text "a".toList), (1, .element "li".toList []), (4, .text "b".toList),
     (0, .element "table".toList []), (6, .element "tr".toList []),
     (7, .element "th".toList []), (8, .text "c".toList), (6, .element "tr".toList []),
     (10, .element "td".toList []), (11, .text "d".toList)]

/-- The same level by level. -/
def listAndTableByLevels : Document :=
  Document.grown
    [(0, .element "ol".toList [("start".toList, "3".toList)]), (0, .element "table".toList []),
     (1, .element "li".toList []), (1, .element "li".toList []), (2, .element "tr".toList []),
     (2, .element "tr".toList []), (4, .text "b".toList), (3, .text "a".toList),
     (6, .element "td".toList []), (5, .element "th".toList []), (9, .text "d".toList),
     (10, .text "c".toList)]

theorem isRenumbering_listAndTable :
    listAndTable.IsRenumbering listAndTableByLevels
      fun i => [0, 1, 3, 8, 4, 7, 2, 5, 10, 12, 6, 9, 11].getD i 0 where
  reachable := Document.reachable_grown _
  reachable' := Document.reachable_grown _
  root_eq := rfl
  children_eq := by decide
  node?_eq := by decide

theorem Profile.convert_renumbered_listAndTable :
    (Walker.after listAndTable 2).node = some 2 ∧
      (Walker.after listAndTableByLevels 2).node = some 3 ∧
      (Profile.ofFlavour .gitHub {}).convert listAndTableByLevels =
        .ok "3.  a\n4.  b\n\n| c |\n| --- |\n| d |".toList := by
  obtain ⟨-, -, hwalk, hconvert⟩ := Profile.convert_renumbered listAndTable listAndTableByLevels _
    isRenumbering_listAndTable
  have hnode : (Walker.after listAndTable 2).node = some 2 := by decide +kernel
  obtain ⟨-, hnode', -⟩ := hwalk 2
  obtain ⟨markdown, hmarkdown, hmarkdown'⟩ := hconvert .gitHub {}
  have hlisted : (Profile.ofFlavour .gitHub {}).convert listAndTable =
      .ok "3.  a\n4.  b\n\n| c |\n| --- |\n| d |".toList := by
    decide +kernel
  rw [hlisted] at hmarkdown
  rw [hnode] at hnode'
  exact ⟨hnode, hnode', hmarkdown'.trans hmarkdown.symm⟩

end TreeMarkdown
