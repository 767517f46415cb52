import Mathlib.Data.Int.ModEq
import Mathlib.Tactic.Linarith
import Mathlib.Tactic.Ring

/-!
# Half-range comparison

Numbers kept modulo `2 * h` are compared by their difference modulo `2 * h`:
below `h` it counts as forward, from `h` on as backward. For integers less
than `h` apart this is the order of the integers themselves.
-/

namespace RudpEngine

variable {h d : ℤ}

theorem half_emod_of_nonneg (h0 : 0 ≤ d) (h1 : d < h) : d % (2 * h) = d :=
  Int.emod_eq_of_lt h0 (by omega)

theorem half_emod_of_neg (h0 : d < 0) (h1 : -h ≤ d) : d % (2 * h) = d + 2 * h := by
  rw [← Int.add_emod_right, Int.emod_eq_of_lt (by omega) (by omega)]

theorem half_emod_lt_iff (h0 : -h ≤ d) (h1 : d < h) : d % (2 * h) < h ↔ 0 ≤ d := by
  rcases Int.lt_or_le d 0 with hd | hd
  · rw [half_emod_of_neg hd h0]; omega
  · rw [half_emod_of_nonneg hd h1]; omega

theorem half_emod_eq_zero_iff (h0 : -h ≤ d) (h1 : d < h) : d % (2 * h) = 0 ↔ d = 0 := by
  rcases Int.lt_or_le d 0 with hd | hd
  · rw [half_emod_of_neg hd h0]; omega
  · rw [half_emod_of_nonneg hd h1]

theorem bmod_half {m : ℕ} (hm : (m : ℤ) = 2 * h) (h0 : -h ≤ d) (h1 : d < h) : d.bmod m = d :=
  Int.bmod_eq_of_le_mul_two (by omega) (by omega)

/-- The balanced remainder, shifted up to the top bits and back down. -/
theorem bmod_mul_ediv (d : ℤ) {h k : ℕ} (hh : 0 < h) (hk : 0 < k) :
    (d * k).bmod (2 * h * k) / k = d.bmod (2 * h) := by
  have hr : (d * k).bmod (2 * h * k) = d.bmod (2 * h) * k := by
    have hd : d * k = d.bmod (2 * h) * k + (2 * h * k : ℕ) * d.bdiv (2 * h) := by
      have hdm := Int.bmod_add_bdiv d (2 * h)
      calc d * k = (d.bmod (2 * h) + (2 * h : ℕ) * d.bdiv (2 * h)) * k := by rw [hdm]
        _ = _ := by push_cast; ring
    have lo := Int.le_bmod (x := d) (m := 2 * h) (by omega)
    have hi := Int.bmod_lt (x := d) (m := 2 * h) (by omega)
    have lo' : -(h : ℤ) * k ≤ d.bmod (2 * h) * k := Int.mul_le_mul_of_nonneg_right (by omega) (by omega)
    have hi' : d.bmod (2 * h) * k < (h : ℤ) * k := Int.mul_lt_mul_of_pos_right (by omega) (by omega)
    rw [hd, Int.add_mul_bmod_self_left]
    apply Int.bmod_eq_of_le_mul_two
    · push_cast; linarith
    · push_cast; linarith
  rw [hr, Int.mul_ediv_cancel _ (by omega)]

end RudpEngine
