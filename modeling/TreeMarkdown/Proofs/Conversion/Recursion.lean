/-
The conversion with a cursor is the recursion over the tree.

Writing a node and stepping the cursor are tied together loosely: the loop over the
children of a node only counts them, and trusts each round to leave the cursor where the
next step leads to the next child. The invariant that carries the loop is
`Cursor.StandsBefore`; a round keeps it because a written node leaves the cursor at the
end of its subtree (`writeChildren_eq`). By induction on the depth, `writeNode` writes what
`render` writes, failures included, and any bound on the depth that the document calls for
does (`writeNode_eq`). A renderer whose converters do not fail on the nodes that they are
chosen for writes every document (`NeverFails.exists_render`).
-/

import TreeMarkdown.Conversion
import TreeMarkdown.Proofs.Document.Growth
import TreeMarkdown.Proofs.Document.Order
import TreeMarkdown.Proofs.RuleTable.Choice
import TreeMarkdown.Proofs.Rules.Entries

namespace TreeMarkdown

/-! ### The cursor in the loop -/

/-- The cursor after the subtrees of some siblings, written one after the other. -/
def Cursor.behind (d : Document) (c : Cursor) (siblings : List Nat) : Cursor :=
  siblings.getLast?.elim c fun s => .on (d.lastInSubtree s)

theorem Cursor.behind_cons (d : Document) (c : Cursor) (s : Nat) (siblings : List Nat) :
    Cursor.behind d c (s :: siblings) =
      Cursor.behind d (.on (d.lastInSubtree s)) siblings := by
  unfold Cursor.behind
  cases siblings with
  | nil => rfl
  | cons s' siblings =>
    rw [List.getLast?_cons_cons]
    cases h : (s' :: siblings).getLast? with
    | none => simp at h
    | some l => rfl

/-- Behind all its children the cursor is at the end of the subtree of a node. -/
theorem Cursor.behind_children (d : Document) (i : Nat) :
    Cursor.behind d (.on i) (d.children i) = .on (d.lastInSubtree i) := by
  rcases List.eq_nil_or_concat (d.children i) with hnil | ⟨before, c, hconcat⟩
  · rw [hnil, Document.lastInSubtree_of_children_eq_nil hnil]
    rfl
  · rw [List.concat_eq_append] at hconcat
    rw [hconcat, Document.lastInSubtree_of_children_eq_concat hconcat, Cursor.behind,
      List.getLast?_concat]
    rfl

/-- Behind some of the children of a node the cursor stands before the others. -/
theorem Cursor.standsBefore_behind {d : Document} {p : Nat} {before after : List Nat}
    (h : d.children p = before ++ after) :
    Cursor.StandsBefore d p after (Cursor.behind d (.on p) before) := by
  rcases List.eq_nil_or_concat before with rfl | ⟨init, s, rfl⟩
  · rw [List.nil_append] at h
    rw [← h]
    exact Cursor.standsBefore_children d p
  · rw [List.concat_eq_append] at h ⊢
    rw [List.append_assoc, List.singleton_append] at h
    rw [Cursor.behind, List.getLast?_concat]
    exact Cursor.standsBefore_lastInSubtree h

namespace Renderer

variable {r : Renderer} {d : Document}

/-- `write` writes the subtree of node `i` and leaves the cursor at its end. -/
def WritesSubtree (r : Renderer) (d : Document)
    (write : Cursor → Except ConversionError (Text × Cursor)) (i : Nat) : Prop :=
  write (.on i) = (r.render d i).map fun text => (text, .on (d.lastInSubtree i))

/-- The loop writes the first `k` of the remaining children and stops behind them. -/
theorem writeChildren_eq {write : Cursor → Except ConversionError (Text × Cursor)}
    {p k : Nat} {before rest : List Nat} {cursor : Cursor}
    (hwrite : ∀ c ∈ d.children p, WritesSubtree r d write c)
    (hsplit : d.children p = before ++ rest) (hcursor : cursor.StandsBefore d p rest)
    (hk : k ≤ rest.length) :
    writeChildren d write k cursor = ((rest.take k).mapM (r.render d)).map fun texts =>
      (texts.flatten, cursor.behind d (rest.take k)) := by
  induction k generalizing before rest cursor with
  | zero => rfl
  | succ k ih =>
    cases rest with
    | nil => simp at hk
    | cons c rest =>
      have hc : WritesSubtree r d write c := hwrite c (by simp [hsplit])
      have hsplit' : d.children p = (before ++ [c]) ++ rest := by simp [hsplit]
      have hrest := ih hsplit' (Cursor.standsBefore_lastInSubtree hsplit) (by simpa using hk)
      rw [writeChildren, hcursor.advance_cons, List.take_succ_cons, List.mapM_cons,
        Cursor.behind_cons]
      simp only
      rw [hc]
      cases r.render d c with
      | error e => rfl
      | ok text =>
        simp only [Except.map, bind, Except.bind, hrest]
        cases (rest.take k).mapM (r.render d) with
        | error e => rfl
        | ok texts => rfl

/-- With enough depth for the nodes from `i` on, writing node `i` is rendering it. -/
theorem writeNode_eq (r : Renderer) (d : Document) {depth i : Nat} (hi : i < d.size)
    (hdepth : d.size ≤ i + depth) : WritesSubtree r d (r.writeNode d depth) i := by
  induction depth generalizing i with
  | zero => omega
  | succ depth ih =>
    have hchildren : ∀ c ∈ d.children i, WritesSubtree r d (r.writeNode d depth) c := by
      intro c hc
      have hlt := Document.lt_of_mem_children hc
      exact ih (Document.lt_size_of_mem_children hc) (by omega)
    have hloop := writeChildren_eq hchildren (List.nil_append _).symm
      (Cursor.standsBefore_children d i) (Nat.le_refl _)
    rw [List.take_length, Cursor.behind_children] at hloop
    unfold WritesSubtree
    rw [writeNode, hloop, render_eq]
    cases (d.children i).mapM (r.render d) with
    | error e => rfl
    | ok texts =>
      simp only [Except.map, bind, Except.bind]
      cases r.convert d i texts.flatten with
      | error e => rfl
      | ok text => rfl

/-- From before the last children of the root, the outer loop writes them and ends. -/
theorem writeFrom_eq (r : Renderer) (d : Document) {n : Nat} {before rest : List Nat}
    {cursor : Cursor} (hsplit : d.children Document.root = before ++ rest)
    (hcursor : cursor.StandsBefore d Document.root rest) (hn : rest.length ≤ n) :
    r.writeFrom d n cursor = (rest.mapM (r.render d)).map List.flatten := by
  induction n generalizing before rest cursor with
  | zero =>
    rw [List.length_eq_zero_iff.mp (Nat.le_zero.mp hn)]
    rfl
  | succ n ih =>
    cases rest with
    | nil =>
      rw [writeFrom, hcursor.advance_nil_root]
      rfl
    | cons c rest =>
      have hmem : c ∈ d.children Document.root := by simp [hsplit]
      have hc : WritesSubtree r d (r.writeNode d d.size) c :=
        writeNode_eq r d (Document.lt_size_of_mem_children hmem) (Nat.le_add_left _ _)
      have hsplit' : d.children Document.root = (before ++ [c]) ++ rest := by simp [hsplit]
      have hrest := ih hsplit' (Cursor.standsBefore_lastInSubtree hsplit) (by simpa using hn)
      rw [writeFrom, hcursor.advance_cons, List.mapM_cons]
      simp only
      rw [hc]
      cases r.render d c with
      | error e => rfl
      | ok text =>
        simp only [Except.map, bind, Except.bind, hrest]
        cases rest.mapM (r.render d) with
        | error e => rfl
        | ok texts => rfl

/-- A document is written by rendering the children of its root. -/
theorem convertDocument_eq (r : Renderer) (d : Document) :
    r.convertDocument d =
      ((d.children Document.root).mapM (r.render d)).map fun texts => tidy texts.flatten := by
  rw [convertDocument, writeFrom_eq r d (List.nil_append _).symm (Cursor.standsBefore_start d)
    (d.length_children_le_size Document.root)]
  cases (d.children Document.root).mapM (r.render d) <;> rfl

theorem mapM_ok {α β ε : Type} {f : α → Except ε β} {g : α → β} {l : List α}
    (h : ∀ x ∈ l, f x = .ok (g x)) : l.mapM f = .ok (l.map g) := by
  induction l with
  | nil => rfl
  | cons x l ih =>
    rw [List.mapM_cons, h x List.mem_cons_self, ih fun y hy => h y (List.mem_cons_of_mem _ hy)]
    rfl

theorem convertDocument_of_render {R : Nat → Text} (hR : ∀ i, r.render d i = .ok (R i)) :
    r.convertDocument d = .ok (tidy ((d.children Document.root).flatMap R)) := by
  rw [convertDocument_eq, mapM_ok fun i _ => hR i]
  rfl

/-! ### Renderers that do not fail -/

/-- No converter fails on a node of the document that its selector matches. -/
def NeverFails (r : Renderer) (d : Document) : Prop :=
  ∀ rule ∈ r.rules, ∀ i, rule.selector.isMatch d i = true → ∀ content,
    ∃ out, rule.action d i content = .ok out

/-- Total converters make a renderer that never fails. -/
theorem neverFails_ofList {entries : List (Text × Converter)} (d : Document)
    (h : ∀ entry ∈ entries, ∃ f, entry.2 = Converter.total f) : (ofList entries).NeverFails d := by
  intro rule hrule i _ content
  rw [rules_ofList] at hrule
  obtain ⟨entry, hentry, _, haction⟩ :=
    Rule.mem_ofEntries.mp ((RuleTable.lastWrites_sublist _).subset hrule)
  obtain ⟨f, hf⟩ := h entry hentry
  refine ⟨f d i content, ?_⟩
  rw [haction, hf]
  rfl

theorem NeverFails.exists_convert_eq_ok (h : r.NeverFails d) (i : Nat) (content : Text) :
    ∃ text, r.convert d i content = .ok text := by
  unfold convert
  cases hbest : r.best? d i with
  | none => exact ⟨content, rfl⟩
  | some rule =>
    obtain ⟨hmem, hmatch⟩ := RuleTable.best?_mem hbest
    obtain ⟨out, hout⟩ := h rule hmem i hmatch content
    refine ⟨(out.filter (!·.isEmpty)).getD content, ?_⟩
    simp only [Rule.convert, hout, Except.map]

/-- `R` gives what the renderer writes for each node, from what it gives for the children. -/
def Writes (r : Renderer) (d : Document) (R : Nat → Text) : Prop :=
  ∀ i, r.convert d i ((d.children i).flatMap R) = .ok (R i)

theorem Writes.eq_of_convert {R : Nat → Text} (hR : r.Writes d R) {i : Nat} {content text : Text}
    (hcontent : (d.children i).flatMap R = content) (h : r.convert d i content = .ok text) :
    R i = text := by
  have hi := hR i
  rw [hcontent, h] at hi
  exact (Except.ok.inj hi).symm

/-- A renderer that does not fail renders every node, each from its children. -/
theorem NeverFails.exists_render (h : r.NeverFails d) :
    ∃ R : Nat → Text, ∀ i, r.render d i = .ok (R i) ∧
      r.convert d i ((d.children i).flatMap R) = .ok (R i) := by
  have hok : ∀ i, ∃ text, r.render d i = .ok text := by
    intro i
    induction i using d.childrenInduction with
    | step i ih =>
      choose! R hR using ih
      obtain ⟨text, htext⟩ := h.exists_convert_eq_ok i ((d.children i).map R).flatten
      refine ⟨text, ?_⟩
      rw [render_eq, mapM_ok hR]
      exact htext
  choose R hR using hok
  refine ⟨R, fun i => ⟨hR i, ?_⟩⟩
  have hi := hR i
  rw [render_eq, mapM_ok fun c _ => hR c] at hi
  exact hi

/-- With a renderer that does not fail, the conversion with one cursor is the recursion
over the tree: `R i` is the rule of node `i` applied to what its children give, and a
document is what the children of its root give, tidied. Writing node `i` gives `R i` and
leaves the cursor on the last node of its subtree; and after `k` rounds of the loop over
the children the next step leads to child `k`, so that no round is cut short. -/
theorem conversion_is_recursion (r : Renderer) (d : Document) (h : r.NeverFails d) :
    ∃ R : Nat → Text,
      (∀ i, r.convert d i ((d.children i).flatMap R) = .ok (R i)) ∧
      (∀ i, r.render d i = .ok (R i)) ∧
      r.convertDocument d = .ok (tidy ((d.children Document.root).flatMap R)) ∧
      ∀ i depth, i < d.size → d.size ≤ i + (depth + 1) →
        r.writeNode d (depth + 1) (.on i) = .ok (R i, .on (d.lastInSubtree i)) ∧
        ∀ k, ∀ hk : k < (d.children i).length, ∃ c : Cursor,
          writeChildren d (r.writeNode d depth) k (.on i) =
            .ok (((d.children i).take k).flatMap R, c) ∧
          c.advance d = .on (d.children i)[k] := by
  obtain ⟨R, hR⟩ := h.exists_render
  have hmap : ∀ siblings : List Nat, siblings.mapM (r.render d) = .ok (siblings.map R) :=
    fun siblings => mapM_ok fun i _ => (hR i).1
  refine ⟨R, fun i => (hR i).2, fun i => (hR i).1,
    convertDocument_of_render fun i => (hR i).1, ?_⟩
  intro i depth hi hdepth
  constructor
  · have hnode := writeNode_eq r d hi hdepth
    rw [WritesSubtree, (hR i).1] at hnode
    exact hnode
  · intro k hk
    have hchildren : ∀ c ∈ d.children i, WritesSubtree r d (r.writeNode d depth) c := by
      intro c hc
      have hlt := Document.lt_of_mem_children hc
      exact writeNode_eq r d (Document.lt_size_of_mem_children hc) (by omega)
    have hloop := writeChildren_eq hchildren (List.nil_append _).symm
      (Cursor.standsBefore_children d i) (Nat.le_of_lt hk)
    have hsplit : d.children i =
        (d.children i).take k ++ (d.children i)[k] :: (d.children i).drop (k + 1) := by
      rw [← List.drop_eq_getElem_cons hk, List.take_append_drop]
    rw [hmap] at hloop
    exact ⟨_, hloop, (Cursor.standsBefore_behind hsplit).advance_cons⟩

/-- Text as it is, in angles for a paragraph and in bars for emphasis inside one. -/
def bracketing : Renderer :=
  ofList
    [("TEXT_NODE".toList, .ofNode fun d i => d.value? i),
     ("P".toList, .ofContent fun content => some ('<' :: content ++ ['>'])),
     ("P EM".toList, .ofContent fun content => some ('|' :: content ++ ['|']))]

/-- Two paragraphs, the first with emphasis at its end. -/
def twoParagraphs : Document :=
  Document.grown
    [(0, .element "p".toList []), (1, .text "a".toList), (1, .element "em".toList []),
     (3, .text "b".toList), (0, .element "p".toList []), (5, .text "c".toList)]

theorem conversion_is_recursion_bracketing :
    bracketing.NeverFails twoParagraphs ∧
      bracketing.convertDocument twoParagraphs = .ok "<a|b|><c>".toList ∧
      ∃ R : Nat → Text,
        bracketing.convertDocument twoParagraphs =
          .ok (tidy ((twoParagraphs.children Document.root).flatMap R)) ∧
        bracketing.writeNode twoParagraphs 6 (.on 1) = .ok (R 1, .on 4) := by
  have htotal : bracketing.NeverFails twoParagraphs := by
    refine neverFails_ofList _ ?_
    simp only [List.forall_mem_cons]
    exact ⟨⟨_, rfl⟩, ⟨_, rfl⟩, ⟨_, rfl⟩, by simp⟩
  obtain ⟨R, -, -, hdocument, hnode⟩ :=
    conversion_is_recursion bracketing twoParagraphs htotal
  have hwritten := (hnode 1 5 (by decide +kernel) (by decide +kernel)).1
  have hlast : twoParagraphs.lastInSubtree 1 = 4 := by decide +kernel
  rw [hlast] at hwritten
  exact ⟨htotal, by decide +kernel, R, hdocument, hwritten⟩

end Renderer

end TreeMarkdown
