/-
Folding, known by the runs of a text.

A text is cut into its runs, the maximal stretches inside and outside a class of characters, and
there is one way to do so (`areRuns_iff`). A folding reads a text character by character, but what
it makes of a run does not depend on what stands around the run; so it is known by what it makes
of single runs (`AreRuns.eq_flatMap`): of white space it leaves one space
(`collapseSpaces_eq_flatMap_runs`), of newlines at most two (`collapseNewlines_eq_flatMap_runs`).
For the same reason the foldings are replacements of all stretches that are long enough, found from
left to right and each taken as long as it is (`collapseSpaces_eq_replaceRuns`,
`collapseNewlines_eq_replaceRuns`).

Trimming and folding commute (`trim_collapseSpaces`), and a text that has been folded and trimmed
is its words with single spaces between them (`trim_collapseSpaces_eq_intercalate`).
-/

import Mathlib.Data.List.SplitBy
import TreeMarkdown.Proofs.Text.Clipping

namespace TreeMarkdown.Text

open Markdown (isFilled)

variable {p : Char → Bool} {s t : Text} {c : Char}

/-! ### Runs -/

/-- The maximal stretches of a text that lie inside or outside the class `p`. -/
def runs (p : Char → Bool) (t : Text) : List Text :=
  t.splitBy fun a b => p a == p b

/-- No stretch is empty or goes over the border of the class, and neighbours lie on different
sides of it. -/
structure AreRuns (p : Char → Bool) (rs : List Text) : Prop where
  ne_nil : ∀ r ∈ rs, r ≠ []
  uniform : ∀ r ∈ rs, ∃ b, ∀ c ∈ r, p c = b
  maximal : rs.IsChain fun r s => ∀ a ∈ r, ∀ b ∈ s, p a ≠ p b

theorem exists_class_of_isChain {r : Text} (h : r.IsChain fun a b => (p a == p b) = true) :
    ∃ b, ∀ c ∈ r, p c = b := by
  induction r with
  | nil => exact ⟨true, by simp⟩
  | cons a r ih =>
    obtain ⟨hfirst, hrest⟩ := List.isChain_cons.mp h
    obtain ⟨b, hb⟩ := ih hrest
    refine ⟨p a, fun c hc => ?_⟩
    rcases List.mem_cons.mp hc with rfl | hc
    · rfl
    · cases r with
      | nil => cases hc
      | cons x r =>
        have hax : p a = p x := beq_iff_eq.mp (hfirst x rfl)
        rw [hb c hc, hax, hb x List.mem_cons_self]

theorem flatten_runs (p : Char → Bool) (t : Text) : (runs p t).flatten = t :=
  List.flatten_splitBy _ t

theorem areRuns_runs (p : Char → Bool) (t : Text) : AreRuns p (runs p t) := by
  have huniform : ∀ r ∈ runs p t, ∃ b, ∀ c ∈ r, p c = b := fun r hr =>
    exists_class_of_isChain (List.isChain_of_mem_splitBy hr)
  refine ⟨fun r hr => List.ne_nil_of_mem_splitBy hr, huniform, ?_⟩
  refine List.IsChain.imp_of_mem_imp ?_ (List.isChain_getLast_head_splitBy _ t)
  rintro r s hr hs ⟨hrne, hsne, hdiffer⟩ a ha b hb
  obtain ⟨x, hx⟩ := huniform r hr
  obtain ⟨y, hy⟩ := huniform s hs
  rw [hx _ (List.getLast_mem hrne), hy _ (List.head_mem hsne)] at hdiffer
  rw [hx a ha, hy b hb]
  exact beq_eq_false_iff_ne.mp hdiffer

/-- A text is cut into its runs in one way only. -/
theorem areRuns_iff {rs : List Text} : AreRuns p rs ∧ rs.flatten = t ↔ rs = runs p t := by
  constructor
  · rintro ⟨h, rfl⟩
    symm
    refine List.splitBy_eq_iff.mpr ⟨rfl, fun hnil => h.ne_nil [] hnil rfl, ?_, ?_⟩
    · intro r hr
      obtain ⟨b, hb⟩ := h.uniform r hr
      refine (List.pairwise_of_forall_mem_list fun x hx y hy => ?_).isChain
      exact beq_iff_eq.mpr ((hb x hx).trans (hb y hy).symm)
    · refine h.maximal.imp_of_mem_imp fun r s hr hs hdiffer => ?_
      refine ⟨h.ne_nil r hr, h.ne_nil s hs, ?_⟩
      exact beq_eq_false_iff_ne.mpr
        (hdiffer _ (List.getLast_mem _) _ (List.head_mem _))
  · rintro rfl
    exact ⟨areRuns_runs p t, flatten_runs p t⟩

/-- What turns each run into a piece of its own, whatever stands behind it, is known by these
pieces. -/
theorem AreRuns.eq_flatMap {β : Type} {f g : Text → List β} {rs : List Text} (h : AreRuns p rs)
    (hnil : f [] = [])
    (hrun : ∀ b r t, r ≠ [] → (∀ c ∈ r, p c = b) → (∀ c ∈ t.head?, p c ≠ b) →
      f (r ++ t) = g r ++ f t) : f rs.flatten = rs.flatMap g := by
  obtain ⟨hne, huniform, hmaximal⟩ := h
  induction rs with
  | nil => exact hnil
  | cons r rs ih =>
    obtain ⟨hnext, hrest⟩ := List.isChain_cons.mp hmaximal
    have ih := ih (fun s hs => hne s (List.mem_cons_of_mem r hs))
      (fun s hs => huniform s (List.mem_cons_of_mem r hs)) hrest
    obtain ⟨b, hb⟩ := huniform r List.mem_cons_self
    have hrne := hne r List.mem_cons_self
    rw [List.flatten_cons, List.flatMap_cons, ← ih]
    refine hrun b r rs.flatten hrne hb fun c hc hcb => ?_
    cases rs with
    | nil => cases hc
    | cons s rs =>
      -- the text behind the run begins as the next run does
      have hsne := hne s (List.mem_cons_of_mem r List.mem_cons_self)
      rw [List.flatten_cons, List.head?_append_of_ne_nil _ hsne] at hc
      obtain ⟨a, ha⟩ := List.exists_mem_of_ne_nil r hrne
      exact hnext s rfl a ha c (List.mem_of_mem_head? hc) ((hb a ha).trans hcb.symm)

theorem any_eq_of_forall {b : Bool} {r : Text} (hne : r ≠ []) (hr : ∀ c ∈ r, p c = b) :
    r.any p = b := by
  obtain ⟨a, ha⟩ := List.exists_mem_of_ne_nil r hne
  cases b with
  | true => exact List.any_eq_true.mpr ⟨a, ha, hr a ha⟩
  | false => exact List.any_eq_false.mpr fun c hc => by simp [hr c hc]

theorem eq_flatMap_runs {β : Type} {f g : Text → List β} (hnil : f [] = [])
    (hrun : ∀ b r t, r ≠ [] → (∀ c ∈ r, p c = b) → (∀ c ∈ t.head?, p c ≠ b) →
      f (r ++ t) = g r ++ f t) (t : Text) : f t = (runs p t).flatMap g := by
  have hruns := (areRuns_runs p t).eq_flatMap hnil hrun
  rwa [flatten_runs] at hruns

/-- Words are the runs outside white space. -/
theorem spaceWords_eq_filter_runs (t : Text) :
    spaceWords t = (runs isSpace t).filter fun r => !r.any isSpace := by
  have hfilter : ∀ rs : List Text, rs.filter (fun r => !r.any isSpace) =
      rs.flatMap fun r => if r.any isSpace then [] else [r] := by
    intro rs
    induction rs with
    | nil => rfl
    | cons r rs ih =>
      rw [List.filter_cons, List.flatMap_cons, ih]
      cases r.any isSpace <;> rfl
  rw [hfilter]
  refine eq_flatMap_runs spaceWords_nil ?_ t
  intro b r t hne hr ht
  rw [any_eq_of_forall hne hr]
  cases b with
  | true =>
    rw [← spaceWords_dropWhile (fun _ => id) (r ++ t), List.dropWhile_append_of_pos hr,
      spaceWords_dropWhile fun _ => id]
    rfl
  | false =>
    have hword : spaceWords r = [r] := by
      rw [spaceWords, List.splitOnP_eq_singleton hr]
      simp [hne]
    cases t with
    | nil => simp [hword]
    | cons c t =>
      have hc : isSpace c = true := by simpa using ht c rfl
      rw [spaceWords_append_cons hc, spaceWords_cons_of_isSpace hc, hword]
      rfl

/-! ### Replaced stretches -/

/-- Puts `new` for every stretch of at least `least` characters of the class `p`, going from left
to right and taking each stretch as long as it is. -/
def replaceRuns (p : Char → Bool) (least : Nat) (new : Text) : Text → Text
  | [] => []
  | c :: t =>
    if p c && least ≤ (t.takeWhile p).length + 1 then
      new ++ replaceRuns p least new (t.dropWhile p)
    else c :: replaceRuns p least new t
termination_by t => t.length
decreasing_by
  · exact Nat.lt_succ_of_le (List.dropWhile_sublist p).length_le
  · exact Nat.lt_succ_self t.length

section replaceRuns

variable {least : Nat} {new r : Text}

theorem replaceRuns_append_of_forall_not (hr : ∀ c ∈ r, p c = false) (t : Text) :
    replaceRuns p least new (r ++ t) = r ++ replaceRuns p least new t := by
  induction r with
  | nil => rfl
  | cons c r ih =>
    rw [List.cons_append, replaceRuns, hr c List.mem_cons_self,
      ih fun x hx => hr x (List.mem_cons_of_mem c hx)]
    rfl

theorem takeWhile_run (hr : ∀ c ∈ r, p c = true) (ht : ∀ c ∈ t.head?, p c ≠ true) :
    (r ++ t).takeWhile p = r := by
  rw [List.takeWhile_append_of_pos hr]
  cases t with
  | nil => exact List.append_nil r
  | cons c t => rw [List.takeWhile_cons_of_neg (ht c rfl), List.append_nil]

/-- A run of the class is replaced as a whole or not at all. -/
theorem replaceRuns_append_of_forall (hne : r ≠ []) (hr : ∀ c ∈ r, p c = true)
    (ht : ∀ c ∈ t.head?, p c ≠ true) :
    replaceRuns p least new (r ++ t) =
      (if least ≤ r.length then new else r) ++ replaceRuns p least new t := by
  induction r with
  | nil => exact absurd rfl hne
  | cons c r ih =>
    have hrest : ∀ x ∈ r, p x = true := fun x hx => hr x (List.mem_cons_of_mem c hx)
    rw [List.cons_append, replaceRuns, hr c List.mem_cons_self, takeWhile_run hrest ht,
      List.length_cons]
    by_cases hleast : least ≤ r.length + 1
    · have hdrop : (r ++ t).dropWhile p = t :=
        dropWhile_border hrest fun c hc => Bool.eq_false_iff.mpr (ht c hc)
      rw [if_pos hleast, if_pos (by simpa using hleast), hdrop]
    · rw [if_neg hleast, if_neg (by simpa using hleast)]
      cases hnil : r with
      | nil => rfl
      | cons x r' =>
        rw [← hnil, ih (by simp [hnil]) hrest, if_neg (by omega)]
        rfl

theorem replaceRuns_eq_flatMap_runs (t : Text) :
    replaceRuns p least new t =
      (runs p t).flatMap fun r => if r.any p && least ≤ r.length then new else r := by
  refine eq_flatMap_runs (by rw [replaceRuns]) ?_ t
  intro b r t hne hr ht
  rw [any_eq_of_forall hne hr]
  cases b with
  | true => simpa using replaceRuns_append_of_forall hne hr ht
  | false => simpa using replaceRuns_append_of_forall_not hr t

end replaceRuns

/-! ### Folded white space -/

theorem collapseSpaces_eq_nil_iff : collapseSpaces t = [] ↔ t = [] := by
  constructor
  · intro h
    cases t with
    | nil => rfl
    | cons c t =>
      rw [collapseSpaces, collapseSpacesFrom_cons] at h
      cases hc : isSpace c <;> simp [hc] at h
  · rintro rfl
    rfl

/-- In front of a character that is not white space, it makes no difference whether a run of
white space has been written. -/
theorem collapseSpacesFrom_of_head (h : isSpaceEdge t.head? = false) (inRun : Bool) :
    collapseSpacesFrom inRun t = collapseSpaces t := by
  cases t with
  | nil => rfl
  | cons c t =>
    have hc : isSpace c = false := h
    rw [collapseSpaces, collapseSpacesFrom_cons, collapseSpacesFrom_cons, hc]
    rfl

/-- Behind a character that is not white space, folding begins anew. -/
theorem collapseSpaces_append (hs : isSpaceEdge s.getLast? = false) (t : Text) :
    collapseSpaces (s ++ t) = collapseSpaces s ++ collapseSpaces t := by
  have hend : endsInRun false s = false := by
    rw [endsInRun]
    cases hlast : s.getLast? with
    | none => rfl
    | some c =>
      rw [hlast] at hs
      exact hs
  rw [collapseSpaces, collapseSpacesFrom_append, hend]
  rfl

/-- Of white space a single space is left, unless there has been one. -/
theorem collapseSpacesFrom_of_forall (h : ∀ c ∈ t, isSpace c = true) (inRun : Bool) :
    collapseSpacesFrom inRun t = gap (!inRun && !t.isEmpty) := by
  induction t generalizing inRun with
  | nil => cases inRun <;> rfl
  | cons c t ih =>
    rw [collapseSpacesFrom_cons, h c List.mem_cons_self,
      ih (fun x hx => h x (List.mem_cons_of_mem c hx)) true]
    cases inRun <;> rfl

theorem collapseSpaces_of_forall_not (h : ∀ c ∈ t, isSpace c = false) :
    collapseSpaces t = t := by
  induction t with
  | nil => rfl
  | cons c t ih =>
    rw [collapseSpaces, collapseSpacesFrom_cons, h c List.mem_cons_self]
    exact congrArg (c :: ·) (ih fun x hx => h x (List.mem_cons_of_mem c hx))

/-- Of each run of white space a single space is left. -/
theorem collapseSpaces_eq_flatMap_runs (t : Text) :
    collapseSpaces t = (runs isSpace t).flatMap fun r => if r.any isSpace then [' '] else r := by
  refine eq_flatMap_runs rfl ?_ t
  intro b r t hne hr ht
  rw [any_eq_of_forall hne hr]
  cases b with
  | true =>
    have hhead : isSpaceEdge t.head? = false :=
      isSpaceEdge_eq_false_iff.mpr fun c hc => Bool.eq_false_iff.mpr (ht c hc)
    rw [collapseSpaces, collapseSpacesFrom_append, collapseSpacesFrom_of_forall hr,
      collapseSpacesFrom_of_head hhead, List.isEmpty_eq_false_iff.mpr hne]
    rfl
  | false =>
    have hlast : isSpaceEdge r.getLast? = false :=
      isSpaceEdge_eq_false_iff.mpr fun c hc => hr c (List.mem_of_getLast? hc)
    rw [collapseSpaces_append hlast, collapseSpaces_of_forall_not hr]
    rfl

theorem collapseSpaces_eq_replaceRuns (t : Text) :
    collapseSpaces t = replaceRuns isSpace 1 [' '] t := by
  rw [collapseSpaces_eq_flatMap_runs, replaceRuns_eq_flatMap_runs]
  refine List.flatMap_congr fun r hr => ?_
  have hlength : 1 ≤ r.length :=
    List.length_pos_iff.mpr ((areRuns_runs isSpace t).ne_nil r hr)
  simp [hlength]

/-- Folding again changes nothing. -/
theorem collapseSpaces_collapseSpaces (t : Text) :
    collapseSpaces (collapseSpaces t) = collapseSpaces t :=
  (Alike.collapseSpaces t false).1

/-- The only white space in a folded text is spaces. -/
theorem eq_space_of_mem_collapseSpacesFrom {inRun : Bool} (h : c ∈ collapseSpacesFrom inRun t)
    (hc : isSpace c = true) : c = ' ' := by
  induction t generalizing inRun with
  | nil => cases h
  | cons x t ih =>
    rw [collapseSpacesFrom_cons] at h
    rcases List.mem_append.mp h with h | h
    · cases hx : isSpace x with
      | false =>
        rw [hx] at h
        rw [List.mem_singleton.mp h, hx] at hc
        cases hc
      | true =>
        rw [hx] at h
        cases inRun with
        | false => exact List.mem_singleton.mp h
        | true => cases h
    · exact ih h

theorem isBare_collapseSpaces (h : IsBare isSpace t) : IsBare isSpace (collapseSpaces t) := by
  have hhead := isSpaceEdge_eq_false_iff.mpr h.head
  have hlast := isSpaceEdge_eq_false_iff.mpr h.last
  rw [← (Alike.collapseSpaces t).head?] at hhead
  rw [← (Alike.collapseSpaces t).getLast?] at hlast
  exact ⟨isSpaceEdge_eq_false_iff.mp hhead, isSpaceEdge_eq_false_iff.mp hlast⟩

/-- Trimming and folding commute. -/
theorem trim_collapseSpaces (t : Text) : trim (collapseSpaces t) = collapseSpaces (trim t) := by
  obtain ⟨a, b, ht, ha, hb⟩ := exists_borders isSpace t
  have hbare : IsBare isSpace (trim t) := isBare_stripBy isSpace t
  change t = a ++ trim t ++ b at ht
  have hfold : collapseSpaces t = collapseSpacesFrom false a ++ collapseSpaces (trim t) ++
      collapseSpacesFrom (endsInRun false (a ++ trim t)) b := by
    conv_lhs => rw [ht]
    rw [collapseSpaces, collapseSpacesFrom_append, collapseSpacesFrom_append,
      collapseSpacesFrom_of_head (isSpaceEdge_eq_false_iff.mpr hbare.head)]
  rw [hfold, collapseSpacesFrom_of_forall ha, collapseSpacesFrom_of_forall hb]
  exact stripBy_borders (fun c => isSpace_of_mem_gap) (fun c => isSpace_of_mem_gap)
    (isBare_collapseSpaces hbare)

theorem dropEndWhile_cons_of_not_isSpace (hc : isSpace c = false) (t : Text) :
    dropEndWhile isSpace (c :: t) = c :: dropEndWhile isSpace t := by
  rw [← List.singleton_append, dropEndWhile_append_eq]
  cases ht : isFilled t with
  | true => rfl
  | false =>
    rw [dropEndWhile_eq_nil_iff.mpr ht]
    simp [dropEndWhile, hc]

/-- A space stands in front of the next word unless that goes on at once. -/
theorem dropEndWhile_collapseSpaces (t : Text) :
    dropEndWhile isSpace (collapseSpaces t) =
      gap (!goesOn t && isFilled (collapseSpacesFrom true t)) ++
        dropEndWhile isSpace (collapseSpacesFrom true t) := by
  cases hgoes : goesOn t with
  | true =>
    have hhead : isSpaceEdge t.head? = false := by
      cases t with
      | nil => rfl
      | cons x t => simpa [goesOn, isSpaceEdge] using hgoes
    rw [collapseSpacesFrom_of_head hhead true]
    rfl
  | false =>
    cases t with
    | nil => rfl
    | cons x t =>
      have hx : isSpace x = true := by simpa [goesOn] using hgoes
      have hfold : ∀ inRun, collapseSpacesFrom inRun (x :: t) =
          gap (!inRun) ++ collapseSpacesFrom true t := by
        intro inRun
        rw [collapseSpacesFrom_cons, hx]
        cases inRun <;> rfl
      rw [collapseSpaces, hfold false, hfold true, dropEndWhile_append_eq]
      cases hfilled : isFilled (collapseSpacesFrom true t) with
      | true => simp [hfilled]
      | false =>
        have hspace : dropEndWhile isSpace [' '] = [] := rfl
        simp [hfilled, hspace, dropEndWhile_eq_nil_iff.mpr hfilled]

/-- Behind white space, folding leaves the words with single spaces between them and perhaps one
at the end. -/
theorem dropEndWhile_collapseSpacesFrom_true (t : Text) :
    dropEndWhile isSpace (collapseSpacesFrom true t) = [' '].intercalate (spaceWords t) := by
  induction t with
  | nil => rfl
  | cons c t ih =>
    rw [collapseSpacesFrom_cons]
    cases hc : isSpace c with
    | true =>
      rw [spaceWords_cons_of_isSpace hc]
      exact ih
    | false =>
      have hnone : isFilled (collapseSpacesFrom true t) = false ↔ spaceWords t = [] := by
        rw [← dropEndWhile_eq_nil_iff, ih]
        exact intercalate_eq_nil_iff fun _ => ne_nil_of_mem_spaceWords
      show dropEndWhile isSpace (c :: collapseSpaces t) = _
      rw [dropEndWhile_cons_of_not_isSpace hc, dropEndWhile_collapseSpaces, ih,
        spaceWords_cons_of_not_isSpace hc]
      cases hgoes : goesOn t with
      | true =>
        obtain ⟨w, ws, hwords⟩ := List.exists_cons_of_ne_nil (spaceWords_ne_nil_of_goesOn hgoes)
        rw [hwords]
        cases ws <;> rfl
      | false =>
        cases hwords : spaceWords t with
        | nil =>
          rw [hnone.mpr hwords]
          rfl
        | cons w ws =>
          have hfilled : isFilled (collapseSpacesFrom true t) = true :=
            Bool.ne_false_iff.mp fun h => List.cons_ne_nil w ws (hwords ▸ hnone.mp h)
          rw [hfilled]
          rfl

theorem dropWhile_collapseSpacesFrom (inRun : Bool) (t : Text) :
    (collapseSpacesFrom inRun t).dropWhile isSpace = collapseSpacesFrom true t := by
  induction t generalizing inRun with
  | nil => rfl
  | cons c t ih =>
    rw [collapseSpacesFrom_cons, collapseSpacesFrom_cons]
    cases hc : isSpace c with
    | true => cases inRun <;> exact ih true
    | false => exact List.dropWhile_cons_of_neg (by simp [hc])

/-- A text that is folded and trimmed is its words with single spaces between them. -/
theorem trim_collapseSpaces_eq_intercalate (t : Text) :
    trim (collapseSpaces t) = [' '].intercalate (spaceWords t) := by
  rw [← dropEndWhile_collapseSpacesFrom_true, ← dropWhile_collapseSpacesFrom false]
  rfl

/-! ### Folded newlines -/

theorem collapseNewlinesFrom_replicate (seen m : Nat) :
    collapseNewlinesFrom seen (List.replicate m '\n') =
      List.replicate (min m (2 - seen)) '\n' := by
  induction m generalizing seen with
  | zero => simp [collapseNewlinesFrom]
  | succ m ih =>
    rw [List.replicate_succ, collapseNewlinesFrom, if_pos rfl]
    split
    · have hcount : min (m + 1) (2 - seen) = min m (2 - (seen + 1)) + 1 := by omega
      rw [ih, hcount, List.replicate_succ]
    · have hcount : min (m + 1) (2 - seen) = min m (2 - seen) := by omega
      rw [ih, hcount]

/-- Of each run of newlines at most two are left. -/
theorem collapseNewlines_eq_flatMap_runs (t : Text) :
    collapseNewlines t = (runs (· == '\n') t).flatMap fun r =>
      if '\n' ∈ r then List.replicate (min r.length 2) '\n' else r := by
  refine eq_flatMap_runs rfl ?_ t
  intro b r t hne hr ht
  cases b with
  | true =>
    have hnewlines : r = List.replicate r.length '\n' :=
      List.eq_replicate_of_mem fun c hc => beq_iff_eq.mp (hr c hc)
    have hmem : '\n' ∈ r := by
      rw [hnewlines]
      simp [hne]
    have hhead : t.head? ≠ some '\n' := fun hc => ht '\n' hc rfl
    rw [if_pos hmem, collapseNewlines, collapseNewlinesFrom_append_of_head hhead]
    conv_lhs => rw [hnewlines, collapseNewlinesFrom_replicate]
  | false =>
    have hnewline : '\n' ∉ r := fun hmem => by cases hr '\n' hmem
    rw [if_neg hnewline, collapseNewlines, collapseNewlinesFrom_append_of_notMem hne hnewline]
    rfl

theorem collapseNewlines_eq_replaceRuns (t : Text) :
    collapseNewlines t = replaceRuns (· == '\n') 3 ['\n', '\n'] t := by
  rw [collapseNewlines_eq_flatMap_runs, replaceRuns_eq_flatMap_runs]
  refine List.flatMap_congr fun r hr => ?_
  have hruns := areRuns_runs (· == '\n') t
  have hne := hruns.ne_nil r hr
  obtain ⟨b, hb⟩ := hruns.uniform r hr
  rw [any_eq_of_forall hne hb]
  cases b with
  | true =>
    obtain ⟨m, rfl⟩ : ∃ m, r = List.replicate m '\n' :=
      ⟨_, List.eq_replicate_of_mem fun c hc => beq_iff_eq.mp (hb c hc)⟩
    rw [if_pos (by simpa using hne), List.length_replicate, Bool.true_and]
    by_cases hm : 3 ≤ m
    · have hmin : min m 2 = 2 := by omega
      rw [if_pos (by simpa using hm), hmin]
      rfl
    · have hmin : min m 2 = m := by omega
      rw [if_neg (by simpa using hm), hmin]
  | false =>
    have hnewline : '\n' ∉ r := fun hmem => by cases hb '\n' hmem
    rw [if_neg hnewline]
    rfl

end TreeMarkdown.Text
