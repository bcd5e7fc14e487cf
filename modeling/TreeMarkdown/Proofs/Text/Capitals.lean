/-
Texts in capitals.

A capital is a character that is its own upper case form. Upper case gives nothing but capitals
(`isCapital_of_mem_upper`): what a run of the table maps to is in no other run, nor does it have
an expansion. So a text in capitals stays as it is, and upper case taken twice is upper case
(`upper_upper`). Texts that agree up to the case of ASCII letters have the same upper case form
(`upper_eq_of_eqIgnoringCase`), but not the other way round, as a small letter beyond ASCII shows.
-/

import Mathlib.Data.List.Basic
import TreeMarkdown.Proofs.Text.Ascii

namespace TreeMarkdown.Text

variable {c x : Char} {s t : Text}

/-- The character is its own upper case form. -/
def IsCapital (c : Char) : Prop :=
  upperChar c = [c]

instance : DecidablePred IsCapital := fun c =>
  inferInstanceAs (Decidable (upperChar c = [c]))

/-! ### Runs -/

/-- The run `s` holds no image of the run `r`: their intervals are apart, or `s` holds every other
code point and the images are the ones in between. -/
def CaseRun.avoids (r s : CaseRun) : Bool :=
  (r.image + (r.last - r.first)).blt s.first || s.last.blt r.image ||
    (r.step == 2 || r.first == r.last) && s.step == 2 && r.image % 2 != s.first % 2

theorem CaseRun.imageOf?_eq_some_iff {r : CaseRun} {n m : Nat} :
    r.imageOf? n = some m ↔
      r.first ≤ n ∧ n ≤ r.last ∧ (n - r.first) % r.step = 0 ∧ r.image + (n - r.first) = m := by
  unfold imageOf?
  split
  · simp [*]
  · rename_i hout
    constructor
    · intro h
      cases h
    · exact fun ⟨hfirst, hlast, hstep, _⟩ => absurd ⟨hfirst, hlast, hstep⟩ hout

theorem CaseRun.imageOf?_eq_none_of_avoids {r s : CaseRun} {n m : Nat} (h : r.avoids s = true)
    (hm : r.imageOf? n = some m) : s.imageOf? m = none := by
  obtain ⟨hfirst, hlast, hstep, rfl⟩ := imageOf?_eq_some_iff.mp hm
  refine Option.eq_none_iff_forall_ne_some.mpr fun k hk => ?_
  obtain ⟨hfirst', hlast', hstep', -⟩ := imageOf?_eq_some_iff.mp hk
  simp only [avoids, Bool.or_eq_true, Bool.and_eq_true, beq_iff_eq, bne_iff_ne,
    Nat.blt_eq] at h
  rcases h with (hbelow | habove) | ⟨⟨htwo | hone, htwo'⟩, hparity⟩
  · omega
  · omega
  · rw [htwo] at hstep
    rw [htwo'] at hstep'
    omega
  · rw [htwo'] at hstep'
    omega

theorem avoids_upperRuns : (upperRuns.all fun r => upperRuns.all r.avoids) = true := by
  decide +kernel

/-- No image of the run has an expansion. -/
def CaseRun.avoidsExpansions (r : CaseRun) : Bool :=
  upperExpansions.all fun e => e.1.blt r.image || (r.image + (r.last - r.first)).blt e.1

theorem avoidsExpansions_upperRuns : upperRuns.all CaseRun.avoidsExpansions = true := by
  decide +kernel

/-- Two small letters beyond ASCII have their capitals within it. -/
theorem beyond_ascii_or_isCapital : ∀ r ∈ upperRuns,
    128 ≤ r.image ∨ r.first = r.last ∧ IsCapital (Char.ofNat r.image) := by
  decide +kernel

theorem isCapital_of_mem_upperExpansions : ∀ e ∈ upperExpansions, ∀ n ∈ e.2,
    IsCapital (Char.ofNat n) := by
  decide +kernel

theorem isCapital_toUpper (h : c.toNat < 128) : IsCapital c.toUpper := by
  have hall : ∀ n < 128, IsCapital (Char.ofNat n).toUpper := by decide
  have hc := hall c.toNat h
  rwa [Char.ofNat_toNat] at hc

/-! ### Images -/

/-- A character beyond ASCII that no table holds is its own upper case form. -/
theorem isCapital_of_absent (hbeyond : 128 ≤ c.toNat)
    (hruns : ∀ r ∈ upperRuns, r.imageOf? c.toNat = none)
    (hexpansions : ∀ e ∈ upperExpansions, e.1 ≠ c.toNat) : IsCapital c := by
  have hfind : upperExpansions.find? (·.1 == c.toNat) = none :=
    List.find?_eq_none.mpr fun e he => by simpa using hexpansions e he
  have hfindSome : upperRuns.findSome? (·.imageOf? c.toNat) = none :=
    List.findSome?_eq_none_iff.mpr hruns
  rw [IsCapital, upperChar, if_neg (Nat.not_lt.mpr hbeyond), mapCase, hfind, hfindSome]

theorem isCapital_of_imageOf? {r : CaseRun} {n m : Nat} (hr : r ∈ upperRuns)
    (hm : r.imageOf? n = some m) : IsCapital (Char.ofNat m) := by
  obtain ⟨hfirst, hlast, -, himage⟩ := CaseRun.imageOf?_eq_some_iff.mp hm
  rcases beyond_ascii_or_isCapital r hr with hbeyond | ⟨hsingle, hcapital⟩
  · by_cases hvalid : m.isValidChar
    · have hcode : (Char.ofNat m).toNat = m := toNat_ofNat hvalid
      refine isCapital_of_absent (by omega) (fun s hs => ?_) fun e he => ?_
      · rw [hcode]
        have havoids := List.all_eq_true.mp (List.all_eq_true.mp avoids_upperRuns r hr) s hs
        exact CaseRun.imageOf?_eq_none_of_avoids havoids hm
      · have hrun := List.all_eq_true.mp avoidsExpansions_upperRuns r hr
        have havoids := List.all_eq_true.mp hrun e he
        rw [Bool.or_eq_true, Nat.blt_eq, Nat.blt_eq] at havoids
        omega
    · -- no image is a surrogate, but what stands for one would be a capital too
      rw [Char.ofNat, dif_neg hvalid]
      decide
  · rwa [show m = r.image by omega]

/-- The upper case form of a character is made of capitals. -/
theorem isCapital_of_mem_upperChar (hx : x ∈ upperChar c) : IsCapital x := by
  unfold upperChar mapCase at hx
  split at hx
  · rename_i hascii
    rw [List.mem_singleton.mp hx]
    exact isCapital_toUpper hascii
  · rename_i hbeyond
    split at hx
    · rename_i expansion hfind
      obtain ⟨n, hn, rfl⟩ := List.mem_map.mp hx
      exact isCapital_of_mem_upperExpansions expansion (List.mem_of_find?_eq_some hfind) n hn
    · rename_i hexpansions
      split at hx
      · rename_i code hcode
        obtain ⟨r, hr, hcode⟩ := List.exists_of_findSome?_eq_some hcode
        rw [List.mem_singleton.mp hx]
        exact isCapital_of_imageOf? hr hcode
      · rename_i hruns
        rw [List.mem_singleton.mp hx]
        have habsent := List.findSome?_eq_none_iff.mp hruns
        refine isCapital_of_absent (Nat.le_of_not_lt hbeyond) habsent fun e he hcode => ?_
        exact List.find?_eq_none.mp hexpansions e he (beq_iff_eq.mpr hcode)

/-! ### Texts -/

theorem isCapital_of_mem_upper (hx : x ∈ upper t) : IsCapital x := by
  obtain ⟨c, -, hx⟩ := List.mem_flatMap.mp hx
  exact isCapital_of_mem_upperChar hx

theorem upper_eq_self (h : ∀ c ∈ t, IsCapital c) : upper t = t := by
  rw [upper, List.flatMap_congr h]
  exact List.flatMap_singleton' t

/-- Upper case taken twice is upper case. -/
theorem upper_upper (t : Text) : upper (upper t) = upper t :=
  upper_eq_self fun _ => isCapital_of_mem_upper

theorem upperChar_toLower (c : Char) : upperChar c.toLower = upperChar c :=
  apply_toLower (by decide) c

theorem upper_foldAscii (t : Text) : upper (foldAscii t) = upper t := by
  rw [upper, upper, foldAscii, List.flatMap_map]
  exact List.flatMap_congr fun c _ => upperChar_toLower c

/-- Upper case does away with the case of ASCII letters. -/
theorem upper_eq_of_eqIgnoringCase (h : eqIgnoringCase s t = true) : upper s = upper t := by
  rw [← upper_foldAscii s, eqIgnoringCase_iff.mp h, upper_foldAscii]

end TreeMarkdown.Text
