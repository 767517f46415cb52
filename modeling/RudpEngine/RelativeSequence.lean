import RudpEngine.Connection

/-!
# Relative sequence reconstruction

`MakeRelative` as the processor computes it, in `int32_t` and with a mask. As
long as nothing overflows this is the integer `makeRelative`, the one number
within half of `Max` of the reference that has the residue of `Value`.
-/

namespace RudpEngine

namespace NetConnectionHelper

def bestSignedDifference (value reference max : Int32) : Int32 :=
  ((value - reference + max / 2) &&& (max - 1)) - max / 2

def makeRelative (value reference max : Int32) : Int32 :=
  reference + bestSignedDifference value reference max

end NetConnectionHelper

namespace NetConnection

def FitsInt32 (x : ℤ) : Prop := -2 ^ 31 ≤ x ∧ x < 2 ^ 31

instance (x : ℤ) : Decidable (FitsInt32 x) := inferInstanceAs (Decidable (_ ∧ _))

/-- No step of `MakeRelative` leaves the range of an `int32_t`. -/
structure RelativeFits (value reference max : ℤ) : Prop where
  sub : FitsInt32 (value - reference)
  shifted : FitsInt32 (value - reference + max / 2)
  result : FitsInt32 (makeRelative value reference max)

/-! ## The residue nearest the reference -/

theorem makeRelative_modEq (value reference max : ℤ) :
    makeRelative value reference max ≡ value [ZMOD max] := by
  have h : makeRelative value reference max =
      (value - reference + max / 2) % max + (reference - max / 2) := by
    unfold makeRelative bestSignedDifference; ring
  calc makeRelative value reference max
      ≡ (value - reference + max / 2) + (reference - max / 2) [ZMOD max] := by
        rw [h]; exact (Int.mod_modEq _ _).add_right _
    _ = value := by ring

section
variable {value reference max : ℤ} {k : ℕ} (hmax : max = 2 ^ (k + 1))
include hmax

theorem half_max : max = 2 * (max / 2) ∧ 0 < max / 2 := by
  have hpos : (0 : ℤ) < 2 ^ k := by positivity
  rw [pow_succ] at hmax
  omega

theorem makeRelative_bounds : reference - max / 2 ≤ makeRelative value reference max ∧
    makeRelative value reference max < reference + max / 2 := by
  obtain ⟨hm, hh⟩ := half_max hmax
  have h0 := Int.emod_nonneg (value - reference + max / 2) (b := max) (by omega)
  have h1 := Int.emod_lt_of_pos (value - reference + max / 2) (b := max) (by omega)
  unfold makeRelative bestSignedDifference
  omega

theorem eq_of_modEq_of_half {x y : ℤ} (h : x ≡ y [ZMOD max])
    (hx : reference - max / 2 ≤ x ∧ x < reference + max / 2)
    (hy : reference - max / 2 ≤ y ∧ y < reference + max / 2) : x = y := by
  obtain ⟨hm, -⟩ := half_max hmax
  have hlt : |y - x| < max := by rw [abs_lt]; omega
  have := Int.eq_zero_of_abs_lt_dvd h.dvd hlt
  omega

/-- A number with the residue of the value is the result exactly in the interval. -/
theorem makeRelative_eq_iff {full : ℤ} (h : full ≡ value [ZMOD max]) :
    makeRelative value reference max = full ↔
      reference - max / 2 ≤ full ∧ full < reference + max / 2 := by
  have hb : reference - max / 2 ≤ makeRelative value reference max ∧
      makeRelative value reference max < reference + max / 2 := makeRelative_bounds hmax
  refine ⟨fun he => he ▸ hb, fun hf => ?_⟩
  exact eq_of_modEq_of_half hmax ((makeRelative_modEq _ _ _).trans h.symm) hb hf

end

/-! ## The 32-bit arithmetic -/

theorem FitsInt32.bmod {x : ℤ} (h : FitsInt32 x) : x.bmod (2 ^ 32) = x := by
  obtain ⟨h0, h1⟩ := h
  exact Int.bmod_eq_of_le_mul_two (by push_cast; omega) (by push_cast; omega)

theorem toNat_modEq_toInt (x : Int32) : (x.toBitVec.toNat : ℤ) ≡ x.toInt [ZMOD 2 ^ 32] := by
  rw [← Int32.toInt_toBitVec, BitVec.toInt_eq_toNat_bmod]
  exact (Int.bmod_emod (x := x.toBitVec.toNat) (m := 2 ^ 32)).symm

theorem toNat_of_nonneg {x : Int32} (h : 0 ≤ x.toInt) : (x.toBitVec.toNat : ℤ) = x.toInt := by
  have hlt := x.toInt_lt
  have hn : (x.toBitVec.toNat : ℤ) < 2 ^ 32 := by exact_mod_cast x.toBitVec.isLt
  have := toNat_modEq_toInt x
  rwa [Int.ModEq, Int.emod_eq_of_lt (by omega) hn, Int.emod_eq_of_lt h (by omega)] at this

section
variable {k : ℕ} {value reference max : Int32} (hmax : max.toInt = 2 ^ (k + 1))
include hmax

theorem max_lt : k + 1 < 31 := by
  have hlt := max.toInt_lt
  rw [hmax] at hlt
  exact (Nat.pow_lt_pow_iff_right (a := 2) (by decide)).mp (by exact_mod_cast hlt)

theorem toNat_mask : (max - 1).toBitVec.toNat = 2 ^ (k + 1) - 1 := by
  have hlt := max.toInt_lt
  have hpos : (0 : ℤ) < 2 ^ (k + 1) := by positivity
  have h1 : (max - 1).toInt = max.toInt - 1 := by
    rw [Int32.toInt_sub, Int32.toInt_one]
    exact FitsInt32.bmod ⟨by omega, by omega⟩
  have h2 := toNat_of_nonneg (x := max - 1) (by omega)
  rw [h1, hmax] at h2
  have : ((2 ^ (k + 1) : ℕ) : ℤ) = 2 ^ (k + 1) := by push_cast; rfl
  omega

theorem toInt_land_mask (x : Int32) : (x &&& (max - 1)).toInt = x.toInt % max.toInt := by
  have hand : (x &&& (max - 1)).toBitVec.toNat = x.toBitVec.toNat % 2 ^ (k + 1) := by
    rw [Int32.toBitVec_and, BitVec.toNat_and, toNat_mask hmax, Nat.and_two_pow_sub_one_eq_mod]
  have hsmall : x.toBitVec.toNat % 2 ^ (k + 1) < 2 ^ 30 :=
    (Nat.mod_lt _ (by positivity)).trans_le (Nat.pow_le_pow_right (by decide) (by have := max_lt hmax; omega))
  have hdvd : (2 : ℤ) ^ (k + 1) ∣ 2 ^ 32 := pow_dvd_pow 2 (by have := max_lt hmax; omega)
  calc (x &&& (max - 1)).toInt
      = ((x &&& (max - 1)).toBitVec.toNat : ℤ) := by
        rw [← Int32.toInt_toBitVec, BitVec.toInt_eq_toNat_of_lt (by omega)]
    _ = (x.toBitVec.toNat : ℤ) % 2 ^ (k + 1) := by rw [hand]; push_cast; rfl
    _ = x.toInt % max.toInt := by rw [hmax]; exact (toNat_modEq_toInt x).of_dvd hdvd

theorem toInt_half_max : (max / 2).toInt = max.toInt / 2 := by
  have hlt := max.toInt_lt
  have hpos : (0 : ℤ) < 2 ^ (k + 1) := by positivity
  rw [Int32.toInt_div, show (2 : Int32).toInt = 2 by decide, Int.tdiv_eq_ediv_of_nonneg (by omega)]
  exact FitsInt32.bmod ⟨by omega, by omega⟩

/-- **The 32-bit reconstruction computes the integer one** where no step overflows. -/
theorem toInt_makeRelative (hfit : RelativeFits value.toInt reference.toInt max.toInt) :
    (NetConnectionHelper.makeRelative value reference max).toInt =
      makeRelative value.toInt reference.toInt max.toInt := by
  obtain ⟨hm, hh⟩ := half_max hmax
  have hlt := max.toInt_lt
  have hshift : (value - reference + max / 2).toInt = value.toInt - reference.toInt + max.toInt / 2 := by
    rw [Int32.toInt_add, Int32.toInt_sub, hfit.sub.bmod, toInt_half_max hmax, hfit.shifted.bmod]
  have hbest : (NetConnectionHelper.bestSignedDifference value reference max).toInt =
      bestSignedDifference value.toInt reference.toInt max.toInt := by
    have h0 := Int.emod_nonneg (value.toInt - reference.toInt + max.toInt / 2) (b := max.toInt) (by omega)
    have h1 := Int.emod_lt_of_pos (value.toInt - reference.toInt + max.toInt / 2) (b := max.toInt) (by omega)
    rw [NetConnectionHelper.bestSignedDifference, Int32.toInt_sub, toInt_land_mask hmax, hshift, toInt_half_max hmax]
    exact FitsInt32.bmod ⟨by omega, by omega⟩
  rw [NetConnectionHelper.makeRelative, Int32.toInt_add, hbest]
  exact hfit.result.bmod

end

/-- **A sequence number is reconstructed from its residue**: where the 32-bit
arithmetic does not overflow, the result is the one number with the residue of
the value in the half range around the reference. So a full number comes back
exactly when it is in that range, from itself as from its remainder. -/
theorem makeRelative_reconstructs {k : ℕ} {value reference max : Int32}
    (hmax : max.toInt = 2 ^ (k + 1)) (hfit : RelativeFits value.toInt reference.toInt max.toInt) :
    let result := (NetConnectionHelper.makeRelative value reference max).toInt
    let Near (x : ℤ) := reference.toInt - max.toInt / 2 ≤ x ∧ x < reference.toInt + max.toInt / 2
    (result ≡ value.toInt [ZMOD max.toInt] ∧ Near result) ∧
    (∀ x, x ≡ value.toInt [ZMOD max.toInt] → Near x → x = result) ∧
    (result = value.toInt ↔ Near value.toInt) ∧
    ∀ full : ℤ, value.toInt = full % max.toInt → (result = full ↔ Near full) := by
  intro result Near
  have hr : result = makeRelative value.toInt reference.toInt max.toInt := toInt_makeRelative hmax hfit
  rw [hr]
  refine ⟨⟨makeRelative_modEq _ _ _, makeRelative_bounds hmax⟩, ?_, makeRelative_eq_iff hmax rfl, ?_⟩
  · intro x hx hnear
    exact ((makeRelative_eq_iff hmax hx).mpr hnear).symm
  · intro full hfull
    refine makeRelative_eq_iff hmax ?_
    rw [hfull]
    exact (Int.mod_modEq full max.toInt).symm

/-- Number 1030 behind reference 1020, of which a bunch header modulo 1024 holds 6. -/
theorem makeRelative_reconstructs_wrapped :
    (NetConnectionHelper.makeRelative 6 1020 1024).toInt = 1030 := by
  have h := @makeRelative_reconstructs 9 6 1020 1024 (by decide)
    ⟨by decide, by decide, by decide⟩
  exact (h.2.2.2 1030 (by decide)).mpr (by decide)

end NetConnection

end RudpEngine
