/-
Texts up to their spacing: which words stand in a text, and where it has white space.

`spaceWords` are the maximal pieces without ordinary white space; they depend on where
the white space stands, but not on how much of it there is (`Alike.spaceWords_eq`). `Alike`
texts have the same words and the same white space between them and at their ends.
Having the same words is not kept by concatenation, being alike is (`Alike.append`), because
it says how a run of white space at the end of one text goes on in the next. White space
next to white space makes no difference (`Alike.absorb_front`, `Alike.absorb_back`), so of
all that stands where two texts meet it is enough to know whether there is any
(`Alike.append_at_gap`).

Taking single white space characters out of a text joins words, but neither cuts nor loses
any (`LosesSpaces.runTogether`). Escaping a text escapes its words (`spaceWords_escape`).
-/

import TreeMarkdown.Conversion
import TreeMarkdown.Document.Inline
import TreeMarkdown.Proofs.Text.Lines
import TreeMarkdown.Text.Escape

namespace TreeMarkdown

namespace Text

/-- The maximal pieces of a text that hold no ordinary white space. -/
def spaceWords (t : Text) : List Text :=
  (t.splitOnP isSpace).filter (!·.isEmpty)

@[simp] theorem spaceWords_nil : spaceWords [] = [] := by
  simp [spaceWords, List.splitOnP_nil]

theorem ne_nil_of_mem_spaceWords {t w : Text} (h : w ∈ spaceWords t) : w ≠ [] := by
  simpa using (List.mem_filter.mp h).2

/-- Words end at white space. -/
theorem spaceWords_append_cons {c : Char} (h : isSpace c = true) (s t : Text) :
    spaceWords (s ++ c :: t) = spaceWords s ++ spaceWords t := by
  unfold spaceWords
  rw [List.splitOnP_append_cons s t h, List.filter_append]

theorem spaceWords_cons_of_isSpace {c : Char} (h : isSpace c = true) (t : Text) :
    spaceWords (c :: t) = spaceWords t := by
  have hsplit := spaceWords_append_cons h [] t
  rwa [List.nil_append, spaceWords_nil, List.nil_append] at hsplit

theorem spaceWords_concat_of_isSpace {c : Char} (h : isSpace c = true) (t : Text) :
    spaceWords (t ++ [c]) = spaceWords t := by
  have hsplit := spaceWords_append_cons h t []
  rwa [spaceWords_nil, List.append_nil] at hsplit

theorem isSpaceEdge_eq_false_iff {o : Option Char} :
    isSpaceEdge o = false ↔ ∀ c ∈ o, isSpace c = false := by
  cases o <;> simp [isSpaceEdge]

/-- The text goes on with the word that stands before it. -/
def goesOn (t : Text) : Bool :=
  t.head?.any (!isSpace ·)

/-- Another character begins a word of its own or joins the word that goes on behind it. -/
theorem spaceWords_cons_of_not_isSpace {c : Char} (h : isSpace c = false) (t : Text) :
    spaceWords (c :: t) =
      if goesOn t then (spaceWords t).modifyHead (c :: ·) else [c] :: spaceWords t := by
  unfold spaceWords
  rw [List.splitOnP_cons_eq_if_modifyHead, if_neg (by simp [h])]
  cases t with
  | nil => simp [goesOn, List.splitOnP_nil]
  | cons x t =>
    rw [List.splitOnP_cons_eq_if_modifyHead]
    cases hx : isSpace x with
    | true => simp [goesOn, hx]
    | false =>
      obtain ⟨first, others, hsplit⟩ :=
        List.exists_cons_of_ne_nil (List.splitOnP_ne_nil isSpace t)
      simp [goesOn, hx, hsplit]

theorem spaceWords_ne_nil_of_goesOn {t : Text} (h : goesOn t = true) : spaceWords t ≠ [] := by
  cases t with
  | nil => cases h
  | cons c t =>
    have hc : isSpace c = false := by simpa [goesOn] using h
    rw [spaceWords_cons_of_not_isSpace hc]
    split
    · rename_i hgoes
      have ih := spaceWords_ne_nil_of_goesOn hgoes
      obtain ⟨w, ws, hws⟩ := List.exists_cons_of_ne_nil ih
      simp [hws]
    · simp

/-- White space at the ends belongs to no word. -/
theorem spaceWords_dropWhile {p : Char → Bool} (hp : ∀ c, p c = true → isSpace c = true)
    (t : Text) : spaceWords (t.dropWhile p) = spaceWords t := by
  induction t with
  | nil => rfl
  | cons c t ih =>
    by_cases h : p c = true
    · rw [List.dropWhile_cons_of_pos h, ih, spaceWords_cons_of_isSpace (hp c h)]
    · rw [List.dropWhile_cons_of_neg h]

theorem spaceWords_append_of_forall {r : Text} (h : ∀ c ∈ r, isSpace c = true) (t : Text) :
    spaceWords (t ++ r) = spaceWords t := by
  induction r generalizing t with
  | nil => rw [List.append_nil]
  | cons c r ih =>
    rw [List.append_cons, ih fun x hx => h x (List.mem_cons_of_mem c hx)]
    exact spaceWords_concat_of_isSpace (h c List.mem_cons_self) t

theorem spaceWords_stripBy {p : Char → Bool} (hp : ∀ c, p c = true → isSpace c = true)
    (t : Text) : spaceWords (stripBy p t) = spaceWords t := by
  obtain ⟨r, hr, hall⟩ := exists_dropEndWhile p (t.dropWhile p)
  rw [← spaceWords_dropWhile hp t, hr, spaceWords_append_of_forall fun c hc => hp c (hall c hc)]
  rfl

/-! ### Folded texts -/

/-- The text ends in a run of white space, where `inRun` says so of what stands before
it. -/
def endsInRun (inRun : Bool) (t : Text) : Bool :=
  t.getLast?.elim inRun isSpace

theorem endsInRun_cons (inRun : Bool) (c : Char) (t : Text) :
    endsInRun inRun (c :: t) = endsInRun (isSpace c) t := by
  cases t with
  | nil => rfl
  | cons x t =>
    unfold endsInRun
    rw [List.getLast?_cons_cons]
    cases h : (x :: t).getLast? with
    | none => simp at h
    | some l => rfl

theorem endsInRun_append (inRun : Bool) (s t : Text) :
    endsInRun inRun (s ++ t) = endsInRun (endsInRun inRun s) t := by
  induction s generalizing inRun with
  | nil => rfl
  | cons c s ih => rw [List.cons_append, endsInRun_cons, endsInRun_cons, ih]

theorem collapseSpacesFrom_cons (inRun : Bool) (c : Char) (t : Text) :
    collapseSpacesFrom inRun (c :: t) =
      (if isSpace c then if inRun then [] else [' '] else [c]) ++
        collapseSpacesFrom (isSpace c) t := by
  rw [collapseSpacesFrom]
  cases isSpace c <;> cases inRun <;> rfl

theorem collapseSpacesFrom_append (inRun : Bool) (s t : Text) :
    collapseSpacesFrom inRun (s ++ t) =
      collapseSpacesFrom inRun s ++ collapseSpacesFrom (endsInRun inRun s) t := by
  induction s generalizing inRun with
  | nil => rfl
  | cons c s ih =>
    rw [List.cons_append, collapseSpacesFrom_cons, collapseSpacesFrom_cons, ih, endsInRun_cons,
      List.append_assoc]

theorem goesOn_collapseSpacesFrom (t : Text) :
    goesOn (collapseSpacesFrom false t) = goesOn t := by
  cases t with
  | nil => rfl
  | cons c t =>
    rw [collapseSpacesFrom_cons]
    cases h : isSpace c with
    | true => simp [goesOn, h, show isSpace ' ' = true from rfl]
    | false => simp [goesOn, h]

/-- Folding keeps the words. -/
theorem spaceWords_collapseSpacesFrom (inRun : Bool) (t : Text) :
    spaceWords (collapseSpacesFrom inRun t) = spaceWords t := by
  induction t generalizing inRun with
  | nil => rfl
  | cons c t ih =>
    rw [collapseSpacesFrom_cons]
    cases h : isSpace c with
    | true =>
      rw [spaceWords_cons_of_isSpace h]
      cases inRun with
      | true => exact ih true
      | false => exact (spaceWords_cons_of_isSpace rfl _).trans (ih true)
    | false =>
      show spaceWords (c :: collapseSpacesFrom false t) = _
      rw [spaceWords_cons_of_not_isSpace h, spaceWords_cons_of_not_isSpace h, ih,
        goesOn_collapseSpacesFrom]

/-- Newlines that are dropped from a run make no difference once the run is folded. -/
theorem collapseSpacesFrom_collapseNewlinesFrom {inRun : Bool} {seen : Nat}
    (h : 0 < seen → inRun = true) (t : Text) :
    collapseSpacesFrom inRun (collapseNewlinesFrom seen t) = collapseSpacesFrom inRun t := by
  induction t generalizing inRun seen with
  | nil => rfl
  | cons c t ih =>
    rw [collapseNewlinesFrom]
    by_cases hc : c = '\n'
    · subst hc
      rw [if_pos rfl]
      by_cases hseen : seen < 2
      · rw [if_pos hseen, collapseSpacesFrom_cons, collapseSpacesFrom_cons]
        exact congrArg _ (ih fun _ => rfl)
      · have hrun : inRun = true := h (by omega)
        rw [if_neg hseen, ih h, hrun]
        rfl
    · rw [if_neg hc, collapseSpacesFrom_cons, collapseSpacesFrom_cons,
        ih fun hpos => absurd hpos (Nat.lt_irrefl 0)]

theorem spaceWords_collapseNewlines (t : Text) :
    spaceWords (collapseNewlines t) = spaceWords t := by
  have hfolded : collapseSpacesFrom false (collapseNewlinesFrom 0 t) =
      collapseSpacesFrom false t :=
    collapseSpacesFrom_collapseNewlinesFrom (fun h => absurd h (Nat.lt_irrefl 0)) t
  rw [← spaceWords_collapseSpacesFrom false (collapseNewlines t), collapseNewlines, hfolded,
    spaceWords_collapseSpacesFrom]

/-! ### Texts that are alike -/

/-- The texts differ in nothing but the kind and the length of their runs of white space,
whatever stands before them. -/
def Alike (s t : Text) : Prop :=
  ∀ inRun, collapseSpacesFrom inRun s = collapseSpacesFrom inRun t ∧
    endsInRun inRun s = endsInRun inRun t

namespace Alike

variable {s s' t t' u : Text}

theorem refl (t : Text) : Alike t t :=
  fun _ => ⟨rfl, rfl⟩

theorem symm (h : Alike s t) : Alike t s :=
  fun inRun => ⟨(h inRun).1.symm, (h inRun).2.symm⟩

theorem trans (hst : Alike s t) (htu : Alike t u) : Alike s u :=
  fun inRun => ⟨(hst inRun).1.trans (htu inRun).1, (hst inRun).2.trans (htu inRun).2⟩

theorem append (hs : Alike s s') (ht : Alike t t') : Alike (s ++ t) (s' ++ t') := by
  intro inRun
  rw [collapseSpacesFrom_append, collapseSpacesFrom_append, endsInRun_append, endsInRun_append,
    (hs inRun).1, (hs inRun).2]
  exact ⟨congrArg _ (ht _).1, (ht _).2⟩

theorem spaceWords_eq (h : Alike s t) : spaceWords s = spaceWords t := by
  rw [← spaceWords_collapseSpacesFrom false s, (h false).1, spaceWords_collapseSpacesFrom]

theorem getLast? (h : Alike s t) : isSpaceEdge s.getLast? = isSpaceEdge t.getLast? := by
  have hlast : ∀ u : Text, isSpaceEdge u.getLast? = endsInRun false u := by
    intro u
    unfold isSpaceEdge endsInRun
    cases u.getLast? <;> rfl
  rw [hlast, hlast, (h false).2]

theorem head? (h : Alike s t) : isSpaceEdge s.head? = isSpaceEdge t.head? := by
  have hhead : ∀ u : Text,
      isSpaceEdge u.head? = isSpaceEdge (collapseSpacesFrom false u).head? := by
    intro u
    cases u with
    | nil => rfl
    | cons c u =>
      rw [collapseSpacesFrom_cons]
      cases hc : isSpace c with
      | true =>
        show isSpace c = isSpace ' '
        rw [hc]
        rfl
      | false => rfl
  rw [hhead s, hhead t, (h false).1]

theorem cons (c : Char) (h : Alike s t) : Alike (c :: s) (c :: t) :=
  append (refl [c]) h

/-- All white space is alike. -/
theorem of_isSpace {c : Char} (h : isSpace c = true) : Alike [c] [' '] := by
  intro inRun
  rw [collapseSpacesFrom_cons, collapseSpacesFrom_cons, endsInRun_cons, endsInRun_cons, h]
  exact ⟨rfl, rfl⟩

/-- Two spaces are like one. -/
theorem double : Alike [' ', ' '] [' '] := by
  intro inRun
  cases inRun <;> exact ⟨rfl, rfl⟩

/-- White space in front of white space makes no difference. -/
theorem absorb_front (h : isSpaceEdge t.head? = true) : Alike (' ' :: t) t := by
  cases t with
  | nil => cases h
  | cons c t =>
    have hc : Alike [c] [' '] := of_isSpace h
    have hpair : Alike [' ', c] [c] := ((hc.cons ' ').trans double).trans hc.symm
    exact hpair.append (refl t)

/-- White space behind white space makes no difference. -/
theorem absorb_back (h : isSpaceEdge t.getLast? = true) : Alike (t ++ [' ']) t := by
  rcases List.eq_nil_or_concat t with rfl | ⟨init, c, rfl⟩
  · cases h
  · rw [List.concat_eq_append] at h ⊢
    rw [List.getLast?_concat] at h
    have hc : Alike [c] [' '] := of_isSpace h
    have hpair : Alike ([c] ++ [' ']) [c] := ((hc.append (refl [' '])).trans double).trans hc.symm
    rw [List.append_assoc]
    exact (refl init).append hpair

/-- Folding makes no difference. -/
theorem collapseSpaces (t : Text) : Alike (collapseSpaces t) t := by
  -- inside a run of white space the space that stands for it has been written
  suffices h : Alike (collapseSpacesFrom false t) t ∧
      Alike (' ' :: collapseSpacesFrom true t) (' ' :: t) from h.1
  induction t with
  | nil => exact ⟨refl [], refl [' ']⟩
  | cons c t ih =>
    rw [collapseSpacesFrom_cons, collapseSpacesFrom_cons]
    cases hc : isSpace c with
    | true =>
      have hspace : Alike [' '] [c] := (of_isSpace hc).symm
      have hrun : Alike [' '] [' ', c] := double.symm.trans (hspace.cons ' ')
      exact ⟨ih.2.trans (hspace.append (refl t)), ih.2.trans (hrun.append (refl t))⟩
    | false => exact ⟨ih.1.cons c, (ih.1.cons c).cons ' '⟩

end Alike

/-! ### Borders -/

/-- A space or nothing. -/
def gap (b : Bool) : Text :=
  if b then [' '] else []

@[simp] theorem gap_true : gap true = [' '] := rfl

@[simp] theorem gap_false : gap false = [] := rfl

theorem gap_eq_space_iff {b : Bool} : gap b = [' '] ↔ b = true := by
  cases b <;> simp

theorem gap_eq_space_or_nil (b : Bool) : gap b = [' '] ∨ gap b = [] := by
  cases b <;> simp

theorem ite_withSpaceBefore (b : Bool) (t : Text) :
    (if b then withSpaceBefore t else t) = gap (b && t.head? != some ' ') ++ t := by
  cases b with
  | false => rfl
  | true =>
    rw [if_pos rfl, withSpaceBefore, Bool.true_and]
    split
    · rename_i hhead
      rw [hhead]
      rfl
    · rename_i hhead
      rw [bne_iff_ne.mpr hhead]
      rfl

theorem ite_withSpaceAfter (b : Bool) (t : Text) :
    (if b then withSpaceAfter t else t) = t ++ gap (b && t.getLast? != some ' ') := by
  cases b with
  | false => exact (List.append_nil t).symm
  | true =>
    rw [if_pos rfl, withSpaceAfter, Bool.true_and]
    split
    · rename_i hlast
      rw [hlast]
      exact (List.append_nil t).symm
    · rename_i hlast
      rw [bne_iff_ne.mpr hlast]
      rfl

theorem alike_gap_append (a b : Bool) : Alike (gap a ++ gap b) (gap (a || b)) := by
  cases a <;> cases b
  · exact .refl []
  · exact .refl [' ']
  · exact .refl [' ']
  · exact .double

/-- Where two texts meet, the space behind the one and the space in front of the other are
like one. -/
theorem Alike.append_at_gap {s t u v : Text} {a b : Bool} (hs : Alike s (u ++ gap a))
    (ht : Alike t (gap b ++ v)) : Alike (s ++ t) (u ++ gap (a || b) ++ v) := by
  have hboth := hs.append ht
  have hmerged := ((refl u).append (alike_gap_append a b)).append (refl v)
  simp only [List.append_assoc] at hboth hmerged ⊢
  exact hboth.trans hmerged

theorem alike_gap_of_forall {t : Text} (h : ∀ c ∈ t, isSpace c = true) :
    Alike t (gap (!t.isEmpty)) := by
  induction t with
  | nil => exact .refl []
  | cons c t ih =>
    have hc : Alike [c] (gap true) := .of_isSpace (h c List.mem_cons_self)
    have ht := ih fun x hx => h x (List.mem_cons_of_mem c hx)
    exact (hc.append ht).trans (alike_gap_append true _)

theorem Alike.absorb_gap_front {t : Text} {b : Bool} (h : b = true → isSpaceEdge t.head? = true) :
    Alike (gap b ++ t) t := by
  cases b with
  | false => exact .refl t
  | true => exact .absorb_front (h rfl)

theorem Alike.absorb_gap_back {t : Text} {b : Bool}
    (h : b = true → isSpaceEdge t.getLast? = true) : Alike (t ++ gap b) t := by
  cases b with
  | false =>
    rw [gap_false, List.append_nil]
    exact .refl t
  | true => exact .absorb_back (h rfl)

/-- A text between borders that it is alike to has white space at its ends where it has
it itself. -/
theorem Alike.bordered {t u : Text} {a b : Bool} (h : Alike t (gap a ++ u ++ gap b)) :
    Alike t (gap (isSpaceEdge t.head?) ++ u ++ gap (isSpaceEdge t.getLast?)) := by
  have hfront : a = true → isSpaceEdge t.head? = true := by
    rintro rfl
    rw [h.head?]
    rfl
  have hback : b = true → isSpaceEdge t.getLast? = true := by
    rintro rfl
    rw [h.getLast?]
    show isSpaceEdge (gap a ++ u ++ [' ']).getLast? = true
    rw [List.getLast?_concat]
    rfl
  have hwider : Alike (gap (isSpaceEdge t.head?) ++ t ++ gap (isSpaceEdge t.getLast?)) t :=
    ((absorb_gap_front fun h => h).append (refl _)).trans (absorb_gap_back fun h => h)
  have hinner := ((refl (gap (isSpaceEdge t.head?))).append h).append
    (refl (gap (isSpaceEdge t.getLast?)))
  -- the borders of the text swallow the given ones
  have hleft : Alike (gap (isSpaceEdge t.head?) ++ gap a) (gap (isSpaceEdge t.head?)) :=
    absorb_gap_back fun ha => by rw [hfront ha]; rfl
  have hright : Alike (gap b ++ gap (isSpaceEdge t.getLast?)) (gap (isSpaceEdge t.getLast?)) :=
    absorb_gap_front fun hb => by rw [hback hb]; rfl
  have hswallowed := (hleft.append (refl u)).append hright
  simp only [List.append_assoc] at hwider hinner hswallowed ⊢
  exact (hwider.symm.trans hinner).trans hswallowed

theorem eq_space_of_mem_gap {b : Bool} {c : Char} (h : c ∈ gap b) : c = ' ' := by
  cases b with
  | false => cases h
  | true => exact List.mem_singleton.mp h

theorem isSpace_of_mem_gap {b : Bool} {c : Char} (h : c ∈ gap b) : isSpace c = true := by
  rw [eq_space_of_mem_gap h]
  rfl

/-- White space at the borders belongs to no word. -/
theorem spaceWords_bordered (a b : Bool) (t : Text) :
    spaceWords (gap a ++ t ++ gap b) = spaceWords t := by
  rw [spaceWords_append_of_forall fun c => isSpace_of_mem_gap]
  cases a with
  | false => rfl
  | true => exact spaceWords_cons_of_isSpace rfl t

/-- A folded and trimmed text is like the text without its borders. -/
theorem exists_bordered_trim (t : Text) :
    ∃ a b, Alike t (gap a ++ trim (collapseSpaces t) ++ gap b) := by
  obtain ⟨r, hr, hrall⟩ := exists_dropEndWhile isSpace ((collapseSpaces t).dropWhile isSpace)
  have hsplit : collapseSpaces t =
      (collapseSpaces t).takeWhile isSpace ++ trim (collapseSpaces t) ++ r := by
    rw [List.append_assoc, trim, stripBy, ← hr, List.takeWhile_append_dropWhile]
  have hl : ∀ c ∈ (collapseSpaces t).takeWhile isSpace, isSpace c = true :=
    fun c hc => List.all_eq_true.mp List.all_takeWhile c hc
  have hparts := ((alike_gap_of_forall hl).append (.refl (trim (collapseSpaces t)))).append
    (alike_gap_of_forall hrall)
  exact ⟨_, _, (hsplit ▸ (Alike.collapseSpaces t).symm).trans hparts⟩

/-! ### Running words together -/

/-- The second words are the first ones in order, run together in groups. -/
def RunTogether (ws ws' : List Text) : Prop :=
  ∃ groups : List (List Text),
    groups.flatten = ws ∧ [] ∉ groups ∧ ws' = groups.map List.flatten

namespace RunTogether

variable {ws ws' : List Text}

theorem nil : RunTogether [] [] :=
  ⟨[], rfl, List.not_mem_nil, rfl⟩

theorem cons (h : RunTogether ws ws') (w : Text) : RunTogether (w :: ws) (w :: ws') := by
  obtain ⟨groups, rfl, hne, rfl⟩ := h
  exact ⟨[w] :: groups, rfl, by simpa using hne, by simp⟩

/-- Where there are words, the first of them begins the first group. -/
theorem exists_first_group (h : RunTogether ws ws') (hws' : ws' ≠ []) :
    ∃ (w : Text) (group : List Text) (groups : List (List Text)),
      ws = w :: (group ++ groups.flatten) ∧ [] ∉ groups ∧
        ws' = (w ++ group.flatten) :: groups.map List.flatten := by
  obtain ⟨groups, rfl, hne, rfl⟩ := h
  cases groups with
  | nil => exact absurd rfl hws'
  | cons first groups =>
    rw [List.mem_cons, not_or] at hne
    obtain ⟨w, group, rfl⟩ := List.exists_cons_of_ne_nil (Ne.symm hne.1)
    exact ⟨w, group, groups, rfl, hne.2, rfl⟩

/-- The first words may both have another character in front. -/
theorem grow (h : RunTogether ws ws') (hws' : ws' ≠ []) (c : Char) :
    RunTogether (ws.modifyHead (c :: ·)) (ws'.modifyHead (c :: ·)) := by
  obtain ⟨w, group, groups, rfl, hne, rfl⟩ := h.exists_first_group hws'
  exact ⟨((c :: w) :: group) :: groups, by simp, by simpa using hne, by simp⟩

/-- A word of one character may join the first group. -/
theorem join (h : RunTogether ws ws') (hws' : ws' ≠ []) (c : Char) :
    RunTogether ([c] :: ws) (ws'.modifyHead (c :: ·)) := by
  obtain ⟨w, group, groups, rfl, hne, rfl⟩ := h.exists_first_group hws'
  exact ⟨([c] :: w :: group) :: groups, by simp, by simpa using hne, by simp⟩

end RunTogether

/-! ### Taking white space out -/

/-- The second text is the first without some of its white space characters. -/
inductive LosesSpaces : Text → Text → Prop where
  | nil : LosesSpaces [] []
  | keep (c : Char) {s t : Text} (h : LosesSpaces s t) : LosesSpaces (c :: s) (c :: t)
  | lose {c : Char} (hc : isSpace c = true) {s t : Text} (h : LosesSpaces s t) :
      LosesSpaces (c :: s) t

namespace LosesSpaces

variable {s s' t t' : Text}

theorem refl (t : Text) : LosesSpaces t t := by
  induction t with
  | nil => exact .nil
  | cons c t ih => exact .keep c ih

theorem append (hs : LosesSpaces s s') (ht : LosesSpaces t t') :
    LosesSpaces (s ++ t) (s' ++ t') := by
  induction hs with
  | nil => exact ht
  | keep c _ ih => exact .keep c ih
  | lose hc _ ih => exact .lose hc ih

theorem gap {a b : Bool} (h : b = true → a = true) : LosesSpaces (gap a) (gap b) := by
  cases b with
  | true =>
    rw [h rfl]
    exact .refl _
  | false =>
    cases a with
    | false => exact .nil
    | true => exact .lose rfl .nil

theorem goesOn (h : LosesSpaces s t) (hs : goesOn s = true) : Text.goesOn t = true := by
  cases h with
  | nil => exact hs
  | keep c _ => exact hs
  | lose hc _ => simp [Text.goesOn, hc] at hs

/-- The words that are left are the old ones, run together in groups. -/
theorem runTogether (h : LosesSpaces s t) : RunTogether (spaceWords s) (spaceWords t) := by
  induction h with
  | nil => exact .nil
  | lose hc _ ih =>
    rw [spaceWords_cons_of_isSpace hc]
    exact ih
  | @keep c s t h ih =>
    cases hc : isSpace c with
    | true =>
      rw [spaceWords_cons_of_isSpace hc, spaceWords_cons_of_isSpace hc]
      exact ih
    | false =>
      rw [spaceWords_cons_of_not_isSpace hc, spaceWords_cons_of_not_isSpace hc]
      cases ht : Text.goesOn t with
      | false =>
        have hs : Text.goesOn s = false := by
          cases hs : Text.goesOn s with
          | false => rfl
          | true => rw [h.goesOn hs] at ht; cases ht
        rw [hs]
        exact ih.cons [c]
      | true =>
        have hne := spaceWords_ne_nil_of_goesOn ht
        cases Text.goesOn s with
        | true => exact ih.grow hne c
        | false => exact ih.join hne c

end LosesSpaces

/-! ### Escaped texts -/

theorem escape_gap (b : Bool) : escape (gap b) = gap b := by
  cases b <;> rfl

theorem isSpecial_eq_false_of_isSpace {c : Char} (h : isSpace c = true) :
    isSpecial c = false := by
  simp only [isSpace, Bool.or_eq_true, beq_iff_eq] at h
  rcases h with ((rfl | rfl) | rfl) | rfl <;> decide

theorem goesOn_escape (t : Text) : goesOn (escape t) = goesOn t := by
  cases t with
  | nil => rfl
  | cons c t =>
    rw [escape_cons, escapeChar]
    cases hspecial : isSpecial c with
    | false => rfl
    | true =>
      have hc : isSpace c = false := by
        cases hc : isSpace c with
        | false => rfl
        | true => rw [isSpecial_eq_false_of_isSpace hc] at hspecial; cases hspecial
      simp [goesOn, hc, show isSpace '\\' = false from rfl]

/-- The words of an escaped text are the escaped words. -/
theorem spaceWords_escape (t : Text) : spaceWords (escape t) = (spaceWords t).map escape := by
  induction t with
  | nil => rfl
  | cons c t ih =>
    rw [escape_cons]
    cases hc : isSpace c with
    | true =>
      rw [escapeChar, isSpecial_eq_false_of_isSpace hc]
      show spaceWords (c :: escape t) = _
      rw [spaceWords_cons_of_isSpace hc, spaceWords_cons_of_isSpace hc, ih]
    | false =>
      have hchar : spaceWords (escapeChar c ++ escape t) =
          if goesOn t then (spaceWords (escape t)).modifyHead (escapeChar c ++ ·)
          else escapeChar c :: spaceWords (escape t) := by
        unfold escapeChar
        cases isSpecial c with
        | false =>
          show spaceWords (c :: escape t) = _
          rw [spaceWords_cons_of_not_isSpace hc, goesOn_escape]
          rfl
        | true =>
          have hgoes : goesOn (c :: escape t) = true := by simp [goesOn, hc]
          show spaceWords ('\\' :: c :: escape t) = _
          rw [spaceWords_cons_of_not_isSpace rfl, hgoes, spaceWords_cons_of_not_isSpace hc,
            goesOn_escape]
          cases goesOn t with
          | false => rfl
          | true => simp [List.modifyHead_modifyHead, Function.comp_def]
      rw [hchar, spaceWords_cons_of_not_isSpace hc, ih]
      cases goesOn t with
      | false => simp [escape]
      | true =>
        cases spaceWords t with
        | nil => rfl
        | cons w ws => simp [escape_cons]

end Text

end TreeMarkdown
