/-
Letter case within ASCII.

Folding ASCII neither makes nor removes characters beyond ASCII (`isAscii_foldAscii`), and
on ASCII the full mapping to small letters is that folding (`lower_eq_foldAscii`). So a name
that equals an ASCII word up to case has that word for its tag. Beyond ASCII the full mapping
does more than the folding, but nothing that the folding before it could change
(`lower_foldAscii`): the properties of characters that it looks at are those of letters in
either case.
-/

import TreeMarkdown.Text.Case

namespace TreeMarkdown.Text

/-- Every character is an ASCII character. -/
def isAscii (t : Text) : Bool :=
  t.all (·.toNat < 128)

/-- Only the ASCII capitals are mapped, to characters that stand 32 code points behind them. -/
theorem toNat_toLower (c : Char) :
    c.toLower.toNat = if 65 ≤ c.toNat ∧ c.toNat ≤ 90 then c.toNat + 32 else c.toNat := by
  unfold Char.toLower
  split
  · rename_i hupper
    simp only [UInt32.le_iff_toNat_le, ge_iff_le] at hupper
    simp only [Char.toNat, UInt32.toNat_add]
    simp at hupper ⊢
    rw [if_pos hupper]
    omega
  · rename_i hupper
    simp only [UInt32.le_iff_toNat_le, ge_iff_le] at hupper
    simp at hupper
    rw [if_neg (by omega)]

theorem toNat_toLower_lt_iff {c : Char} : c.toLower.toNat < 128 ↔ c.toNat < 128 := by
  rw [toNat_toLower]
  split <;> omega

theorem isAscii_foldAscii (t : Text) : isAscii (foldAscii t) = isAscii t := by
  unfold isAscii foldAscii
  rw [List.all_map]
  congr 1
  funext c
  exact decide_eq_decide.mpr toNat_toLower_lt_iff

theorem lowerFrom_eq_foldAscii {t : Text} (h : isAscii t = true) (before : Text) :
    lowerFrom before t = foldAscii t := by
  induction t generalizing before with
  | nil => rfl
  | cons c t ih =>
    rw [isAscii, List.all_cons, Bool.and_eq_true, decide_eq_true_eq] at h
    have hsigma : c ≠ 'Σ' := by
      rintro rfl
      exact absurd h.1 (by decide)
    rw [lowerFrom, ih h.2, if_neg hsigma, lowerChar, if_pos h.1]
    rfl

/-- On ASCII the two ways to small letters agree. -/
theorem lower_eq_foldAscii {t : Text} (h : isAscii t = true) : lower t = foldAscii t :=
  lowerFrom_eq_foldAscii h []

/-- A text that equals an ASCII text up to case is that text in small letters. -/
theorem lower_of_eqIgnoringCase {s t : Text} (h : eqIgnoringCase s t = true)
    (ht : isAscii t = true) : lower s = foldAscii t := by
  rw [eqIgnoringCase_iff] at h
  have hs : isAscii s = true := by rw [← isAscii_foldAscii, h, isAscii_foldAscii, ht]
  rw [lower_eq_foldAscii hs, h]

/-! ### Names beyond ASCII -/

/-- What is the same for the two cases of each ASCII letter is the same before and after
folding. -/
theorem apply_toLower {α : Type} {f : Char → α}
    (h : ∀ n < 26, f (Char.ofNat (n + 97)) = f (Char.ofNat (n + 65))) (c : Char) :
    f c.toLower = f c := by
  have hcode := toNat_toLower c
  split at hcode
  · rename_i hupper
    have hcapital := h (c.toNat - 65) (by omega)
    rwa [show c.toNat - 65 + 97 = c.toLower.toNat by omega, Nat.sub_add_cancel hupper.1,
      Char.ofNat_toNat, Char.ofNat_toNat] at hcapital
  · rw [Char.toNat_inj.mp hcode]

theorem isCased_toLower (c : Char) : isCased c.toLower = isCased c :=
  apply_toLower (by decide) c

/-- No ASCII letter is ignorable for case. -/
theorem isCaseIgnorable_eq_false {c : Char}
    (h : 65 ≤ c.toNat ∧ c.toNat ≤ 90 ∨ 97 ≤ c.toNat ∧ c.toNat ≤ 122) :
    isCaseIgnorable c = false := by
  have havoids : ∀ range ∈ caseIgnorableRanges,
      range.2 < 65 ∨ 90 < range.1 ∧ (range.2 < 97 ∨ 122 < range.1) := by
    decide +kernel
  rw [isCaseIgnorable, inRanges, List.any_eq_false]
  intro range hrange
  have hrange := havoids range hrange
  simp only [Bool.and_eq_true, decide_eq_true_eq]
  omega

theorem isCaseIgnorable_toLower (c : Char) : isCaseIgnorable c.toLower = isCaseIgnorable c := by
  have hcode := toNat_toLower c
  split at hcode
  · rw [isCaseIgnorable_eq_false (by omega), isCaseIgnorable_eq_false (by omega)]
  · rw [Char.toNat_inj.mp hcode]

theorem lowerChar_toLower (c : Char) : lowerChar c.toLower = lowerChar c :=
  apply_toLower (by decide) c

theorem toLower_eq_sigma_iff {c : Char} : c.toLower = 'Σ' ↔ c = 'Σ' :=
  decide_eq_decide.mp (apply_toLower (f := fun c => decide (c = 'Σ')) (by decide) c)

theorem foldAscii_foldAscii (t : Text) : foldAscii (foldAscii t) = foldAscii t := by
  rw [foldAscii, foldAscii, List.map_map]
  exact List.map_congr_left fun c _ => apply_toLower (f := Char.toLower) (by decide) c

theorem eqIgnoringCase_foldAscii (s t : Text) :
    eqIgnoringCase (foldAscii s) t = eqIgnoringCase s t := by
  rw [eqIgnoringCase, eqIgnoringCase, foldAscii_foldAscii]

theorem startsCased_foldAscii (t : Text) : startsCased (foldAscii t) = startsCased t := by
  have hignorable : isCaseIgnorable ∘ Char.toLower = isCaseIgnorable :=
    funext isCaseIgnorable_toLower
  rw [startsCased, startsCased, foldAscii, List.dropWhile_map, hignorable, List.head?_map,
    Option.any_map]
  simp only [isCased_toLower]

/-- A capital sigma is at the end of a word whatever the case of the ASCII letters around it. -/
theorem lowerFrom_foldAscii (before t : Text) :
    lowerFrom (foldAscii before) (foldAscii t) = lowerFrom before t := by
  induction t generalizing before with
  | nil => rfl
  | cons c t ih =>
    have hbefore : c.toLower :: foldAscii before = foldAscii (c :: before) := rfl
    have ht : foldAscii (c :: t) = c.toLower :: foldAscii t := rfl
    rw [ht, lowerFrom, lowerFrom, hbefore, ih, startsCased_foldAscii, startsCased_foldAscii,
      lowerChar_toLower]
    simp only [toLower_eq_sigma_iff]

/-- Folding first makes no difference to the full mapping. -/
theorem lower_foldAscii (t : Text) : lower (foldAscii t) = lower t :=
  lowerFrom_foldAscii [] t

/-! ### Names read back

The full mapping takes a character beyond ASCII to a text that is not all ASCII. The one exception
is the Kelvin sign, whose small letter is `k`. So a text in small letters that is ASCII and has no
`k` comes from ASCII. -/

theorem beyond_ascii_of_lowerRuns : ∀ r ∈ lowerRuns,
    128 ≤ r.image ∧ r.image + (r.last - r.first) < 0xD800 ∨
      0xE000 ≤ r.image ∧ r.image + (r.last - r.first) < 0x110000 ∨
        r.first = r.last ∧ r.image = 'k'.toNat := by
  decide +kernel

theorem beyond_ascii_of_lowerExpansions : ∀ e ∈ lowerExpansions, ∃ n ∈ e.2,
    128 ≤ (Char.ofNat n).toNat := by
  decide

theorem exists_mem_lowerChar {c : Char} (h : 128 ≤ c.toNat) :
    ∃ x ∈ lowerChar c, 128 ≤ x.toNat ∨ x = 'k' := by
  rw [lowerChar, if_neg (Nat.not_lt.mpr h), mapCase]
  split
  · rename_i expansion hfind
    obtain ⟨n, hn, hbeyond⟩ :=
      beyond_ascii_of_lowerExpansions expansion (List.mem_of_find?_eq_some hfind)
    exact ⟨_, List.mem_map_of_mem hn, Or.inl hbeyond⟩
  split
  · rename_i code hcode
    obtain ⟨r, hr, hcode⟩ := List.exists_of_findSome?_eq_some hcode
    unfold CaseRun.imageOf? at hcode
    split at hcode
    · rename_i hrange
      cases hcode
      refine ⟨_, List.mem_singleton_self _, ?_⟩
      rcases beyond_ascii_of_lowerRuns r hr with hlow | hhigh | ⟨hsingle, himage⟩
      · rw [toNat_ofNat (Or.inl (by omega))]
        exact Or.inl (by omega)
      · rw [toNat_ofNat (Or.inr (by omega))]
        exact Or.inl (by omega)
      · rw [show r.image + (c.toNat - r.first) = 'k'.toNat by omega]
        exact Or.inr rfl
    · cases hcode
  · exact ⟨c, List.mem_singleton_self c, Or.inl h⟩

theorem isAscii_of_lowerFrom {before t : Text} (h : isAscii (lowerFrom before t) = true)
    (hkelvin : 'k' ∉ lowerFrom before t) : isAscii t = true := by
  induction t generalizing before with
  | nil => rfl
  | cons c t ih =>
    rw [lowerFrom] at h hkelvin
    rw [isAscii, List.all_append, Bool.and_eq_true] at h
    rw [List.mem_append, not_or] at hkelvin
    rw [isAscii, List.all_cons, Bool.and_eq_true, decide_eq_true_eq]
    refine ⟨Nat.lt_of_not_le fun hbeyond => ?_, ih h.2 hkelvin.2⟩
    obtain ⟨x, hx, hxbeyond⟩ : ∃ x ∈ if c = 'Σ' then
        [if startsCased before && !startsCased t then 'ς' else 'σ'] else lowerChar c,
        128 ≤ x.toNat ∨ x = 'k' := by
      split
      · refine ⟨_, List.mem_singleton_self _, Or.inl ?_⟩
        split <;> decide
      · exact exists_mem_lowerChar hbeyond
    rcases hxbeyond with hxbeyond | rfl
    · exact absurd (decide_eq_true_eq.mp (List.all_eq_true.mp h.1 x hx)) (Nat.not_lt.mpr hxbeyond)
    · exact hkelvin.1 hx

/-- A text whose small letters are those of an ASCII text without a `k` is that text up to
case. -/
theorem eqIgnoringCase_of_lower {s t : Text} (h : lower s = foldAscii t) (ht : isAscii t = true)
    (hkelvin : 'k' ∉ foldAscii t) : eqIgnoringCase s t = true := by
  have hlower : isAscii (lower s) = true := by rw [h, isAscii_foldAscii, ht]
  rw [← h] at hkelvin
  have hs : isAscii s = true := isAscii_of_lowerFrom hlower hkelvin
  rw [eqIgnoringCase_iff, ← lower_eq_foldAscii hs, h]

end TreeMarkdown.Text
