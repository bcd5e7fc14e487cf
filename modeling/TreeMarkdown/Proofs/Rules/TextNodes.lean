/-
What is written for a text node.

Text in preformatted text or code is written as it is; other text is folded, trimmed, escaped
(`flowed`) and then flanked by the spaces that its boundaries call for (`Flavour.write_text`).
A flowed text has no white space at its ends and no newline inside, so flanking it is putting
spaces there (`flanked_of_isBare`). Trimming and folding commute (`trim_collapseSpaces`), so
where two texts meet a single space is written for all the white space on either side
(`flowed_append_of_ne_nil`).
-/

import TreeMarkdown.Proofs.Rules.Chosen
import TreeMarkdown.Proofs.Text.Folding
import TreeMarkdown.Proofs.Text.Unescaping

namespace TreeMarkdown

namespace Text

variable {p : Char → Bool} {s t : Text} {c : Char}

/-! ### Trimming two texts at once -/

/-- A text with something visible has white space at an end if trimming takes something off
there. -/
theorem exists_trim_borders (ht : trim t ≠ []) : ∃ a b, t = a ++ trim t ++ b ∧
    (∀ c ∈ a, isSpace c = true) ∧ (∀ c ∈ b, isSpace c = true) ∧
      isSpaceEdge t.head? = !a.isEmpty ∧ isSpaceEdge t.getLast? = !b.isEmpty := by
  obtain ⟨a, b, hsplit, ha, hb⟩ := exists_borders isSpace t
  have hbare : IsBare isSpace (trim t) := isBare_stripBy isSpace t
  change t = a ++ trim t ++ b at hsplit
  refine ⟨a, b, hsplit, ha, hb, ?_, ?_⟩
  · rw [hsplit]
    cases a with
    | nil =>
      rw [List.nil_append, List.head?_append_of_ne_nil _ ht]
      exact isSpaceEdge_eq_false_iff.mpr hbare.head
    | cons x a => exact ha x List.mem_cons_self
  · rw [hsplit]
    rcases List.eq_nil_or_concat b with rfl | ⟨init, x, rfl⟩
    · rw [List.append_nil, List.getLast?_append_of_ne_nil _ ht]
      exact isSpaceEdge_eq_false_iff.mpr hbare.last
    · have hne : (init ++ [x]).isEmpty = false := by simp
      rw [List.concat_eq_append] at hb ⊢
      rw [← List.append_assoc, List.getLast?_concat, hne]
      exact hb x (by simp)

/-- What stands between the first and the last visible character of two texts is not touched
when they are trimmed as one. -/
theorem exists_trim_append (hs : trim s ≠ []) (ht : trim t ≠ []) :
    ∃ between, trim (s ++ t) = trim s ++ between ++ trim t ∧
      (∀ c ∈ between, isSpace c = true) ∧
      (!between.isEmpty) = (isSpaceEdge s.getLast? || isSpaceEdge t.head?) := by
  obtain ⟨a, b, hsplit, ha, hb, -, hlast⟩ := exists_trim_borders hs
  obtain ⟨a', b', hsplit', ha', hb', hhead, -⟩ := exists_trim_borders ht
  refine ⟨b ++ a', ?_, ?_, ?_⟩
  · have hmiddle : IsBare isSpace (trim s ++ (b ++ a') ++ trim t) := by
      constructor
      · rw [List.append_assoc, List.head?_append_of_ne_nil _ hs]
        exact (isBare_stripBy isSpace s).head
      · rw [List.getLast?_append_of_ne_nil _ ht]
        exact (isBare_stripBy isSpace t).last
    have hwhole : s ++ t = a ++ (trim s ++ (b ++ a') ++ trim t) ++ b' := by
      conv_lhs => rw [hsplit, hsplit']
      simp only [List.append_assoc]
    rw [hwhole]
    exact stripBy_borders ha hb' hmiddle
  · intro c hc
    rcases List.mem_append.mp hc with hc | hc
    · exact hb c hc
    · exact ha' c hc
  · rw [hlast, hhead]
    cases b <;> rfl

/-! ### Escaped texts -/

theorem mem_escape (h : c ∈ escape t) : c = '\\' ∨ c ∈ t := by
  obtain ⟨x, hx, hc⟩ := List.mem_flatMap.mp h
  rw [escapeChar] at hc
  split at hc
  · rcases List.mem_pair.mp hc with rfl | rfl
    · exact Or.inl rfl
    · exact Or.inr hx
  · rw [List.mem_singleton.mp hc]
    exact Or.inr hx

theorem escape_eq_nil_iff : escape t = [] ↔ t = [] := by
  constructor
  · intro h
    exact escape_injective h
  · rintro rfl
    rfl

/-- A text that begins and ends with something other than white space still does so when it is
escaped. -/
theorem IsBare.escape (h : IsBare isSpace t) : IsBare isSpace (escape t) := by
  constructor
  · cases t with
    | nil => simp [Text.escape]
    | cons c t =>
      have hc := h.head c rfl
      intro x hx
      rw [escape_cons, escapeChar] at hx
      split at hx
      · cases hx
        rfl
      · cases hx
        exact hc
  · rcases List.eq_nil_or_concat t with rfl | ⟨init, c, rfl⟩
    · simp [Text.escape]
    · rw [List.concat_eq_append] at h ⊢
      have hc := h.last c (by rw [List.getLast?_concat]; rfl)
      have hend : (escapeChar c).getLast? = some c := by
        rw [escapeChar]
        split <;> rfl
      intro x hx
      rw [escape_append, show Text.escape [c] = escapeChar c from List.flatMap_singleton ..,
        List.getLast?_append, hend] at hx
      cases hx
      exact hc

/-! ### Flowed texts -/

/-- Text in the flow: folded, trimmed and escaped. -/
def flowed (t : Text) : Text :=
  escape (trim (collapseSpaces t))

theorem isBare_flowed (t : Text) : IsBare isSpace (flowed t) :=
  (isBare_stripBy isSpace _).escape

theorem newline_notMem_flowed (t : Text) : '\n' ∉ flowed t := by
  intro hmem
  rcases mem_escape hmem with hc | hmem
  · cases hc
  · obtain ⟨a, b, hsplit, -, -⟩ := exists_borders isSpace (collapseSpaces t)
    have hfolded : '\n' ∈ collapseSpaces t := by
      rw [hsplit]
      exact List.mem_append_left _ (List.mem_append_right _ hmem)
    have hspace := eq_space_of_mem_collapseSpacesFrom hfolded isSpace_newline
    cases hspace

theorem flowed_eq_nil_iff : flowed t = [] ↔ trim t = [] := by
  rw [flowed, escape_eq_nil_iff, trim_collapseSpaces, collapseSpaces_eq_nil_iff]

/-- Where two texts meet, one space is written if there is white space on either side, and
otherwise none. -/
theorem flowed_append_of_ne_nil (hs : trim s ≠ []) (ht : trim t ≠ []) :
    flowed (s ++ t) =
      flowed s ++ gap (isSpaceEdge s.getLast? || isSpaceEdge t.head?) ++ flowed t := by
  obtain ⟨between, htrim, hspaces, hseam⟩ := exists_trim_append hs ht
  have hlast : isSpaceEdge (trim s).getLast? = false :=
    isSpaceEdge_eq_false_iff.mpr (isBare_stripBy isSpace s).last
  have hhead : isSpaceEdge (trim t).head? = false :=
    isSpaceEdge_eq_false_iff.mpr (isBare_stripBy isSpace t).head
  have hfold : collapseSpaces (between ++ trim t) =
      gap (isSpaceEdge s.getLast? || isSpaceEdge t.head?) ++ collapseSpaces (trim t) := by
    rw [collapseSpaces, collapseSpacesFrom_append, collapseSpacesFrom_of_forall hspaces,
      collapseSpacesFrom_of_head hhead, Bool.not_false, Bool.true_and, hseam]
  rw [flowed, flowed, flowed, trim_collapseSpaces, trim_collapseSpaces, trim_collapseSpaces, htrim,
    List.append_assoc, collapseSpaces_append hlast, hfold, escape_append, escape_append, escape_gap,
    List.append_assoc]

/-- A text that is all white space, but not at one of its ends, is empty. -/
theorem eq_nil_of_trim_eq_nil (h : trim t = [])
    (hedge : isSpaceEdge t.head? = false ∨ isSpaceEdge t.getLast? = false) : t = [] := by
  have hall := stripBy_eq_nil_iff.mp h
  by_contra hne
  rcases hedge with hhead | hlast
  · have hspace : isSpaceEdge t.head? = true := by
      rw [List.head?_eq_some_head hne]
      exact hall _ (List.head_mem hne)
    rw [hhead] at hspace
    cases hspace
  · have hspace : isSpaceEdge t.getLast? = true := by
      rw [List.getLast?_eq_some_getLast hne]
      exact hall _ (List.getLast_mem hne)
    rw [hlast] at hspace
    cases hspace

/-- Where there is no white space at the seam, the whole is written as its parts are. -/
theorem flowed_append (hseam : (isSpaceEdge s.getLast? || isSpaceEdge t.head?) = false) :
    flowed (s ++ t) = flowed s ++ flowed t := by
  obtain ⟨hlast, hhead⟩ := Bool.or_eq_false_iff.mp hseam
  by_cases hs : trim s = []
  · rw [eq_nil_of_trim_eq_nil hs (Or.inr hlast)]
    rfl
  · by_cases ht : trim t = []
    · rw [eq_nil_of_trim_eq_nil ht (Or.inl hhead), List.append_nil]
      exact (List.append_nil _).symm
    · rw [flowed_append_of_ne_nil hs ht, hseam, gap_false, List.append_nil]

/-! ### Flanked texts -/

/-- A text with a space in front and a space behind, where it is to have one. -/
def flanked (before after : Bool) (t : Text) : Text :=
  let t := if before then withSpaceBefore t else t
  if after then withSpaceAfter t else t

/-- Flanking a text without white space at its ends is putting the spaces there. -/
theorem flanked_of_isBare (h : IsBare isSpace t) {before after : Bool}
    (hroom : t = [] → before = true → after = false) :
    flanked before after t = gap before ++ t ++ gap after := by
  have hhead : t.head? ≠ some ' ' := fun hc => by cases h.head ' ' hc
  rw [flanked, ite_withSpaceBefore, ite_withSpaceAfter, bne_iff_ne.mpr hhead, Bool.and_true]
  cases after with
  | false => rfl
  | true =>
    have hlast : (gap before ++ t).getLast? ≠ some ' ' := by
      rcases List.eq_nil_or_concat t with hnil | ⟨init, c, hconcat⟩
      · cases before with
        | false => simp [hnil]
        | true => cases hroom hnil rfl
      · rw [List.concat_eq_append] at hconcat
        rw [hconcat, ← List.append_assoc, List.getLast?_concat]
        rintro ⟨⟩
        cases h.last ' ' (by rw [hconcat, List.getLast?_concat]; rfl)
    rw [bne_iff_ne.mpr hlast, Bool.true_and]

/-- Nothing but spaces comes with flanking. -/
theorem mem_flanked {before after : Bool} (h : c ∈ flanked before after t) : c = ' ' ∨ c ∈ t := by
  rw [flanked, ite_withSpaceBefore, ite_withSpaceAfter, List.mem_append, List.mem_append] at h
  rcases h with (h | h) | h
  · exact Or.inl (eq_space_of_mem_gap h)
  · exact Or.inr h
  · exact Or.inl (eq_space_of_mem_gap h)

end Text

open Text

/-- A text node is written as it is in preformatted text and code, and otherwise flowed and
flanked. -/
theorem Flavour.write_text {flavour : Flavour} {o : Options} {d : Document} {R : Nat → Text}
    {x : Nat} (hd : d.Reachable) (hR : (flavour.renderer o).Writes d R)
    (hx : d.isText x = true) :
    R x = if d.isRaw x then d.ownText x
      else flanked (d.spaceBefore x) (d.spaceAfter x) (flowed (d.ownText x)) := by
  have hnamed := Document.isNamed_textRuleName hx
  have hwritten := hR x
  rw [hd.children_eq_nil_of_isText hx, List.flatMap_nil] at hwritten
  -- an empty text counts as abstaining, but there are no children to write instead
  have habstains : ∀ t : Option Text, (t.filter (!·.isEmpty)).getD [] = t.getD [] := by
    rintro (_ | _ | _) <;> rfl
  cases hraw : d.isRaw x with
  | true =>
    rw [convert_of_isRaw flavour o hnamed hraw] at hwritten
    rw [if_pos rfl, ← Document.value?_getD, ← habstains]
    exact (Except.ok.inj hwritten).symm
  | false =>
    rw [convert_of_not_isRaw flavour o hnamed hraw] at hwritten
    exact (Except.ok.inj hwritten).symm.trans (habstains (some _))

end TreeMarkdown
