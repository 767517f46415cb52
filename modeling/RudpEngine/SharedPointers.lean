import Mathlib.Data.List.Count
import Mathlib.Logic.Function.Basic
import Mathlib.Tactic.Common

/-!
# Shared pointers

How many `shared_ptr` an object has, and the objects whose last one went away.
A copy adds one, the end of a pointer takes one, and the deleter is called when
none is left. An object is in use or it is with the deleter, never both: what a
pointer takes from the one side it gives to the other.
-/

namespace RudpEngine

structure SharedPointers (ι : Type) where
  useCount : ι → ℕ
  /-- The objects that were given to the deleter, in order. -/
  released : List ι

namespace SharedPointers

variable {ι : Type} [DecidableEq ι] (s : SharedPointers ι) (p q : ι)

def none : SharedPointers ι := ⟨fun _ => 0, []⟩

def copy : SharedPointers ι := { s with useCount := Function.update s.useCount p (s.useCount p + 1) }

def copyAll (ps : List ι) : SharedPointers ι := ps.foldl copy s

def reset : SharedPointers ι :=
  if s.useCount p = 0 then s
  else if s.useCount p = 1 then ⟨Function.update s.useCount p 0, s.released ++ [p]⟩
  else { s with useCount := Function.update s.useCount p (s.useCount p - 1) }

def resetAll (ps : List ι) : SharedPointers ι := ps.foldl reset s

def reclaim (i : ℕ) : SharedPointers ι := { s with released := s.released.eraseIdx i }

def inUse : ℕ := if 0 < s.useCount p then 1 else 0

/-! ## What the operations make of the counts -/

@[simp] theorem useCount_copy : (s.copy p).useCount q = s.useCount q + if p = q then 1 else 0 := by
  unfold copy
  by_cases h : p = q
  · subst h
    simp
  · simp [h, Ne.symm h]

@[simp] theorem released_copy : (s.copy p).released = s.released := rfl

@[simp] theorem useCount_reset : (s.reset p).useCount q = s.useCount q - if p = q then 1 else 0 := by
  unfold reset
  by_cases h : p = q
  · subst h
    rw [if_pos rfl]
    by_cases h0 : s.useCount p = 0
    · rw [if_pos h0]
      omega
    · rw [if_neg h0]
      by_cases h1 : s.useCount p = 1
      · simp [h1]
      · simp [h1]
  · rw [if_neg h]
    split_ifs <;> simp [Ne.symm h]

theorem useCount_copyAll (ps : List ι) : (s.copyAll ps).useCount q = s.useCount q + ps.count q := by
  induction ps generalizing s with
  | nil => rfl
  | cons p ps ih =>
    show ((s.copy p).copyAll ps).useCount q = _
    rw [ih, useCount_copy, List.count_cons, Nat.add_assoc, Nat.add_comm (ps.count q)]
    simp only [beq_iff_eq]

@[simp] theorem released_copyAll (ps : List ι) : (s.copyAll ps).released = s.released := by
  induction ps generalizing s with
  | nil => rfl
  | cons p ps ih => exact ih (s.copy p)

theorem useCount_resetAll (ps : List ι) : (s.resetAll ps).useCount q = s.useCount q - ps.count q := by
  induction ps generalizing s with
  | nil => rfl
  | cons p ps ih =>
    show ((s.reset p).resetAll ps).useCount q = _
    rw [ih, useCount_reset, List.count_cons, Nat.sub_sub, Nat.add_comm (ps.count q)]
    simp only [beq_iff_eq]

theorem resetAll_append (ps qs : List ι) : (s.resetAll ps).resetAll qs = s.resetAll (ps ++ qs) := List.foldl_append.symm

/-! ## In use, or with the deleter -/

theorem count_released_reset : (s.reset p).released.count q + (s.reset p).inUse q = s.released.count q + s.inUse q := by
  unfold inUse
  rw [useCount_reset]
  unfold reset
  by_cases h : p = q
  · subst h
    rw [if_pos rfl]
    by_cases h0 : s.useCount p = 0
    · simp [h0]
    · by_cases h1 : s.useCount p = 1
      · simp [h1]
      · rw [if_neg h0, if_neg h1, if_pos (by omega), if_pos (by omega)]
  · rw [if_neg h]
    split_ifs <;> simp_all

theorem count_released_resetAll (ps : List ι) :
    (s.resetAll ps).released.count q + (s.resetAll ps).inUse q = s.released.count q + s.inUse q := by
  induction ps generalizing s with
  | nil => rfl
  | cons p ps ih => exact (ih (s.reset p)).trans (s.count_released_reset p q)

theorem inUse_copyAll {ps : List ι} (h : ∀ p ∈ ps, 0 < s.useCount p) : (s.copyAll ps).inUse q = s.inUse q := by
  unfold inUse
  rw [useCount_copyAll]
  by_cases hq : q ∈ ps
  · rw [if_pos (h q hq), if_pos (Nat.add_pos_left (h q hq) _)]
  · rw [List.count_eq_zero.mpr hq, Nat.add_zero]

theorem inUse_copy_of_unused (h : s.useCount p = 0) : (s.copy p).inUse q = s.inUse q + if p = q then 1 else 0 := by
  unfold inUse
  rw [useCount_copy]
  by_cases hq : p = q
  · subst hq
    simp [h]
  · simp [hq]

omit [DecidableEq ι] in
theorem inUse_eq_zero : s.inUse p = 0 ↔ s.useCount p = 0 := by
  unfold inUse
  split_ifs with h
  · exact iff_of_false id (Nat.ne_of_gt h)
  · exact iff_of_true rfl (Nat.eq_zero_of_not_pos h)

end SharedPointers

end RudpEngine
