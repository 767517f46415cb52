import RudpEngine.HalfRange

/-!
# Wrapping sequence numbers

`TSequenceNumber<NumBits, uint16_t>`: a packet number modulo `2 ^ numBits`.
Every comparison is one of half range, so it agrees with the order of the
unwrapped integers as long as they are less than `2 ^ (numBits - 1)` apart.
-/

namespace RudpEngine

/-- A sequence number of `numBits` bits; the mask of the constructor is the field `lt`. -/
structure SequenceNumber (numBits : ℕ) where
  value : ℕ
  lt : value < 2 ^ numBits
  deriving DecidableEq, Repr

namespace SequenceNumber

variable {n : ℕ}

/-- `TSequenceNumber(SequenceT ValueIn)`: the conversion to `uint16_t`, then the mask. -/
def ofInt (n : ℕ) (valueIn : ℤ) : SequenceNumber n :=
  ⟨(valueIn % 65536).toNat % 2 ^ n, Nat.mod_lt _ (Nat.two_pow_pos n)⟩

/-- `operator>`; the difference of the promoted values, masked, is its remainder. -/
def gt (a b : SequenceNumber n) : Bool :=
  a.value != b.value && ((a.value : ℤ) - b.value) % 2 ^ n < 2 ^ (n - 1)

def ge (a b : SequenceNumber n) : Bool :=
  ((a.value : ℤ) - b.value) % 2 ^ n < 2 ^ (n - 1)

def lt' (a b : SequenceNumber n) : Bool := !a.ge b

def le (a b : SequenceNumber n) : Bool := !a.gt b

def inc (a : SequenceNumber n) : SequenceNumber n := ofInt n (a.value + 1)

/-- `operator+` with a number of the base type, which the argument is converted to. -/
def add (a : SequenceNumber n) (rhs : ℤ) : SequenceNumber n := ofInt n (a.value + rhs % 65536)

/-- `Diff`: the difference shifted to the top of an `int32_t` and back, so that
its sign bit is extended. -/
def diff (a b : SequenceNumber n) : ℤ :=
  (((a.value : ℤ) - b.value) * 2 ^ (32 - n)).bmod (2 ^ 32) / 2 ^ (32 - n)

@[ext] theorem ext {a b : SequenceNumber n} (h : a.value = b.value) : a = b := by
  cases a; cases b; cases h; rfl

theorem add_eq_ofInt (a : SequenceNumber n) (rhs : ℤ) : a.add rhs = ofInt n (a.value + rhs) := by
  apply ext
  simp only [add, ofInt, Int.add_emod_emod]

/-! ## Lifting to the integers -/

section
variable (hn : 1 ≤ n ∧ n ≤ 15)
include hn

theorem two_pow_half : (2 : ℤ) ^ n = 2 * 2 ^ (n - 1) := by
  rw [← pow_succ', Nat.sub_add_cancel hn.1]

theorem ofInt_value (x : ℤ) : ((ofInt n x).value : ℤ) = x % 2 ^ n := by
  have hd : ((2 ^ n : ℕ) : ℤ) ∣ 65536 := by
    rw [show (65536 : ℤ) = ((2 ^ 16 : ℕ) : ℤ) by norm_num]
    exact Int.natCast_dvd_natCast.mpr (Nat.pow_dvd_pow 2 (by omega))
  simp only [ofInt, Int.natCast_mod, Int.toNat_of_nonneg (Int.emod_nonneg x (by decide : (65536 : ℤ) ≠ 0))]
  rw [Int.emod_emod_of_dvd _ hd]
  push_cast; rfl

theorem ofInt_value_self (a : SequenceNumber n) : ofInt n a.value = a := by
  apply ext
  have := ofInt_value hn a.value
  have hlt : (a.value : ℤ) < 2 ^ n := by exact_mod_cast a.lt
  rw [Int.emod_eq_of_lt (by omega) hlt] at this
  omega

theorem ofInt_eq_iff (x y : ℤ) : ofInt n x = ofInt n y ↔ x % 2 ^ n = y % 2 ^ n := by
  rw [SequenceNumber.ext_iff, ← ofInt_value hn, ← ofInt_value hn, Int.natCast_inj]

theorem inc_ofInt (x : ℤ) : (ofInt n x).inc = ofInt n (x + 1) := by
  rw [inc, ofInt_eq_iff hn, ofInt_value hn, Int.emod_add_emod]

theorem iterate_inc_ofInt (x : ℤ) (k : ℕ) : inc^[k] (ofInt n x) = ofInt n (x + k) := by
  induction k with
  | zero => simp
  | succ k ih =>
    rw [Function.iterate_succ_apply', ih, inc_ofInt hn, Nat.cast_add_one, add_assoc]

theorem sub_value_emod (x y : ℤ) :
    (((ofInt n x).value : ℤ) - (ofInt n y).value) % 2 ^ n = (x - y) % 2 ^ n := by
  rw [ofInt_value hn, ofInt_value hn, ← Int.sub_emod]

/-- The sign-extended difference is the balanced remainder of the difference. -/
theorem diff_eq_bmod (a b : SequenceNumber n) : a.diff b = ((a.value : ℤ) - b.value).bmod (2 ^ n) := by
  have h32 : (2 : ℕ) ^ 32 = 2 * 2 ^ (n - 1) * 2 ^ (32 - n) := by
    rw [← pow_succ', ← pow_add]; congr 1; omega
  have hn2 : (2 : ℕ) ^ n = 2 * 2 ^ (n - 1) := by rw [← pow_succ']; congr 1; omega
  have := bmod_mul_ediv ((a.value : ℤ) - b.value) (Nat.two_pow_pos (n - 1)) (Nat.two_pow_pos (32 - n))
  rw [← h32, ← hn2] at this
  rw [← this, diff]; push_cast; rfl

theorem diff_emod (a b : SequenceNumber n) : (a.diff b) % 2 ^ n = ((a.value : ℤ) - b.value) % 2 ^ n := by
  rw [diff_eq_bmod hn]
  have := Int.bmod_emod (x := (a.value : ℤ) - b.value) (m := 2 ^ n)
  push_cast at this; exact this

theorem diff_bounds (a b : SequenceNumber n) : -2 ^ (n - 1) ≤ a.diff b ∧ a.diff b < 2 ^ (n - 1) := by
  have hm : ((2 ^ n : ℕ) : ℤ) = 2 * 2 ^ (n - 1) := by push_cast; exact two_pow_half hn
  have lo := Int.le_bmod (x := (a.value : ℤ) - b.value) (m := 2 ^ n) (by positivity)
  have hi := Int.bmod_lt (x := (a.value : ℤ) - b.value) (m := 2 ^ n) (by positivity)
  rw [diff_eq_bmod hn]
  omega

theorem ofInt_add_diff (a : SequenceNumber n) (x : ℤ) : ofInt n (x + a.diff (ofInt n x)) = a := by
  have hd := diff_emod hn a (ofInt n x)
  rw [← ofInt_value_self hn a, ofInt_eq_iff hn, ofInt_value_self hn a, Int.add_emod, hd, ofInt_value hn, ← Int.add_emod]
  rw [Int.add_emod, Int.sub_emod, Int.emod_emod_of_dvd _ dvd_rfl, ← Int.sub_emod, ← Int.add_emod]
  congr 1; ring

section
variable {x y : ℤ} (h0 : -2 ^ (n - 1) ≤ x - y) (h1 : x - y < 2 ^ (n - 1))
include h0 h1

theorem ge_ofInt : (ofInt n x).ge (ofInt n y) = decide (y ≤ x) := by
  rw [ge, sub_value_emod hn, two_pow_half hn]
  exact decide_eq_decide.mpr ((half_emod_lt_iff h0 h1).trans (by omega))

theorem ofInt_inj : ofInt n x = ofInt n y ↔ x = y := by
  rw [ofInt_eq_iff hn, ← Int.emod_emod_of_dvd x dvd_rfl, Int.emod_emod_of_dvd x dvd_rfl,
    Int.emod_eq_emod_iff_emod_sub_eq_zero, two_pow_half hn, half_emod_eq_zero_iff h0 h1]
  omega

theorem gt_ofInt : (ofInt n x).gt (ofInt n y) = decide (y < x) := by
  have hge := ge_ofInt hn h0 h1
  have hinj := ofInt_inj hn h0 h1
  rw [SequenceNumber.ext_iff] at hinj
  simp only [ge] at hge
  rw [gt, hge, Bool.eq_iff_iff]
  simp only [Bool.and_eq_true, bne_iff_ne, ne_eq, decide_eq_true_eq]
  rw [hinj]; omega

theorem diff_ofInt : (ofInt n x).diff (ofInt n y) = x - y := by
  have hm : ((2 ^ n : ℕ) : ℤ) = 2 * 2 ^ (n - 1) := by push_cast; exact two_pow_half hn
  rw [diff_eq_bmod hn, ← bmod_half hm h0 h1, ← Int.emod_bmod, ← Int.emod_bmod (x := x - y)]
  congr 1
  push_cast; exact sub_value_emod hn x y

end

theorem ge_iff_diff (a b : SequenceNumber n) : a.ge b = true ↔ 0 ≤ a.diff b := by
  obtain ⟨lo, hi⟩ := diff_bounds hn a b
  have ha := ofInt_add_diff hn a b.value
  rw [ofInt_value_self hn b] at ha
  have hge := ge_ofInt hn (x := b.value + a.diff b) (y := b.value) (by omega) (by omega)
  rw [ha, ofInt_value_self hn b] at hge
  rw [hge, decide_eq_true_eq]
  omega

theorem gt_iff_diff (a b : SequenceNumber n) : a.gt b = true ↔ 0 < a.diff b := by
  obtain ⟨lo, hi⟩ := diff_bounds hn a b
  have ha := ofInt_add_diff hn a b.value
  rw [ofInt_value_self hn b] at ha
  have hgt := gt_ofInt hn (x := b.value + a.diff b) (y := b.value) (by omega) (by omega)
  rw [ha, ofInt_value_self hn b] at hgt
  rw [hgt, decide_eq_true_eq]
  omega

theorem add_diff (a b : SequenceNumber n) : b.add (a.diff b) = a := by
  have h := ofInt_add_diff hn a b.value
  rw [ofInt_value_self hn b] at h
  rw [add_eq_ofInt, h]

end

/-- **The sequence numbers of integers less than half the range apart behave as
these integers do**: their difference, the four comparisons and the increments.
Any two sequence numbers are a signed difference in the half range apart. -/
theorem lifts_to_integers {N : ℕ} (hN : 2 ≤ N ∧ N ≤ 15) :
    (∀ a b : ℤ, |a - b| < 2 ^ (N - 1) →
      (ofInt N a).diff (ofInt N b) = a - b ∧
      ((ofInt N a).gt (ofInt N b) ↔ a > b) ∧
      ((ofInt N a).ge (ofInt N b) ↔ a ≥ b) ∧
      ((ofInt N a).lt' (ofInt N b) ↔ a < b) ∧
      ((ofInt N a).le (ofInt N b) ↔ a ≤ b)) ∧
    (∀ (a : ℤ) (k : ℕ), inc^[k] (ofInt N a) = ofInt N (a + k)) ∧
    ∀ A B : SequenceNumber N,
      -2 ^ (N - 1) ≤ A.diff B ∧ A.diff B < 2 ^ (N - 1) ∧ B.add (A.diff B) = A := by
  have hn : 1 ≤ N ∧ N ≤ 15 := ⟨by omega, hN.2⟩
  refine ⟨fun a b hab => ?_, iterate_inc_ofInt hn, fun A B => ?_⟩
  · obtain ⟨h0, h1⟩ := abs_lt.mp hab
    have hge := ge_ofInt hn h0.le h1
    have hgt := gt_ofInt hn h0.le h1
    refine ⟨diff_ofInt hn h0.le h1, ?_, ?_, ?_, ?_⟩
    · rw [hgt, decide_eq_true_iff]
    · rw [hge, decide_eq_true_iff]
    · rw [lt', hge, Bool.not_eq_true', decide_eq_false_iff_not, not_le]
    · rw [le, hgt, Bool.not_eq_true', decide_eq_false_iff_not, not_lt]
  · obtain ⟨h0, h1⟩ := diff_bounds hn A B
    exact ⟨h0, h1, add_diff hn A B⟩

/-- Around the wrap of a 14-bit number: 16388 is kept as 4 and is 8191 ahead of 8197. -/
theorem lifts_to_integers_wrapped :
    (ofInt 14 16388).value = 4 ∧ (ofInt 14 16388).diff (ofInt 14 8197) = 8191 ∧
      ((ofInt 14 16388).gt (ofInt 14 8197) ↔ (16388 : ℤ) > 8197) := by
  obtain ⟨hd, hgt, -⟩ := (lifts_to_integers (N := 14) (by decide)).1 16388 8197 (by decide)
  exact ⟨by decide, hd, hgt⟩

end SequenceNumber

end RudpEngine
