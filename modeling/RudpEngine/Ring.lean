import Mathlib.Data.List.Rotate
import Mathlib.Logic.Function.Basic
import Mathlib.Data.Fin.Basic

/-!
# A ring of the last values

Values are written to the slots of a ring one after the other. Read from the
next slot on, the ring gives the values that are left in the order in which
they came.
-/

namespace Ring

variable {α : Type} {N : ℕ}

/-- Behind the values `written` the ring holds the last ones, each in the slot of its number. -/
def Holds (slots : Fin N → α) (written : List α) : Prop :=
  ∀ k (hk : k < written.length) (i : Fin N), written.length ≤ k + N → k % N = i → slots i = written[k]

def used (slots : Fin N → α) (count : ℕ) (h : count ≤ N) : List α :=
  List.ofFn fun i : Fin count => slots (i.castLE h)

variable {slots : Fin N → α} {written : List α} {next : Fin N}

theorem Holds.nil : Holds slots ([] : List α) := by
  intro k hk
  simp at hk

theorem Holds.write (h : Holds slots written) (hnext : next = written.length % N) (x : α) :
    Holds (Function.update slots next x) (written ++ [x]) := by
  intro k hk i hlast hi
  rw [List.length_append, List.length_singleton] at hk hlast
  rcases Nat.lt_succ_iff_lt_or_eq.mp hk with hlt | rfl
  · have hne : i ≠ next := by
      rintro rfl
      have hmod : (written.length - k) % N = 0 := Nat.sub_mod_eq_zero_of_mod_eq (hnext.symm.trans hi.symm)
      rw [Nat.mod_eq_of_lt (by omega)] at hmod
      omega
    rw [Function.update_of_ne hne, List.getElem_append_left hlt]
    exact h k hlt i (by omega) hi
  · have heq : i = next := Fin.ext (hi.symm.trans hnext.symm)
    subst heq
    simp

/-- Read from the next slot on, the ring gives the last values in their order. -/
theorem Holds.rotate_used (h : Holds slots written) (hnext : next = written.length % N)
    {count : ℕ} (hcount : count = min written.length N) (hle : count ≤ N) :
    (used slots count hle).rotate next = written.drop (written.length - N) := by
  have hlen : (used slots count hle).length = count := by simp [used]
  apply List.ext_getElem
  · rw [List.length_rotate, hlen, List.length_drop]
    omega
  · intro k hk hk'
    rw [List.length_rotate, hlen] at hk
    have hslot : (written.length - N + k) % N = (k + next) % count := by
      rcases Nat.lt_or_ge written.length N with hlt | hge
      · rw [hnext, Nat.mod_eq_of_lt hlt, hcount, Nat.min_eq_left hlt.le, Nat.add_mod_right]
        rw [Nat.mod_eq_of_lt (by omega), Nat.mod_eq_of_lt (by omega)]
        omega
      · have hshift : k + written.length = written.length - N + k + N := by omega
        rw [hnext, hcount, Nat.min_eq_right hge, Nat.add_mod_mod, hshift, Nat.add_mod_right]
    rw [List.getElem_rotate, List.getElem_drop]
    simp only [used, List.getElem_ofFn, List.length_ofFn]
    exact h _ _ _ (by omega) hslot

end Ring
