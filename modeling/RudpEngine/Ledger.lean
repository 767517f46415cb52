import Mathlib.Data.List.Count
import Mathlib.Data.List.Perm.Basic
import Mathlib.Data.List.Nodup

/-!
# Ledgers

What has become of the items that were handed to a component: an item waits, is
carried somewhere, or was given back. A step may move items on and may lose some,
but it never makes one. Items are counted, so that a copy would show.
-/

namespace RudpEngine

/-- `outside` are the items on the loads that left: those are carried too, until they are lost or given up. -/
structure Ledger (M : Type) where
  accepted : List M
  waiting : List M
  carried : List M
  released : List M
  outside : List M

namespace Ledger

variable {M : Type} [DecidableEq M]

def total (l : Ledger M) (m : M) : ℕ := l.waiting.count m + l.carried.count m + l.released.count m

/-- Every item was accepted once and is in one place; what left is not given back. -/
structure Sound (l : Ledger M) : Prop where
  nodup : l.accepted.Nodup
  total_le : ∀ m, l.total m ≤ l.accepted.count m
  outside : ∀ m ∈ l.outside, m ∈ l.accepted ∧ m ∉ l.waiting ∧ m ∉ l.released

def Settled (owed : M → Prop) (l : Ledger M) : Prop := ∀ m ∈ l.accepted, owed m → l.total m = 1

/-- Items wait, are carried from there on, are given back from where they wait, or are lost. -/
structure Step (l l' : Ledger M) : Prop where
  accepted : l'.accepted = l.accepted
  waiting : ∀ m, l'.waiting.count m + l'.released.count m ≤ l.waiting.count m + l.released.count m
  total : ∀ m, l'.total m ≤ l.total m
  outside : ∀ m ∈ l'.outside, m ∈ l.outside ∨ m ∈ l.carried

structure Accept (m : M) (l l' : Ledger M) : Prop where
  fresh : m ∉ l.accepted
  accepted : l'.accepted = l.accepted ++ [m]
  waiting : ∀ x, l'.waiting.count x = l.waiting.count x + [m].count x
  carried : ∀ x, l'.carried.count x = l.carried.count x
  released : l'.released = l.released
  outside : l'.outside = l.outside

variable {l l' : Ledger M} {owed : M → Prop} {m : M}

theorem Sound.total_le_one (h : l.Sound) (m : M) : l.total m ≤ 1 :=
  Nat.le_trans (h.total_le m) (List.nodup_iff_count_le_one.mp h.nodup m)

theorem Sound.accepted_of_total (h : l.Sound) (hm : 0 < l.total m) : m ∈ l.accepted := by
  apply List.count_pos_iff.mp
  have := h.total_le m
  omega

theorem Sound.released_once (h : l.Sound) (m : M) : l.released.count m ≤ 1 := by
  have := h.total_le_one m
  unfold total at this
  omega

theorem Sound.released_gone (h : l.Sound) (hm : m ∈ l.released) : m ∉ l.waiting ∧ m ∉ l.carried ∧ m ∉ l.outside := by
  have hone := h.total_le_one m
  have hpos := List.count_pos_iff.mpr hm
  unfold total at hone
  refine ⟨?_, ?_, fun hout => (h.outside m hout).2.2 hm⟩
  · apply List.count_eq_zero.mp
    omega
  · apply List.count_eq_zero.mp
    omega

theorem Settled.released (h : Settled owed l) (hm : m ∈ l.accepted) (ho : owed m) (hw : m ∉ l.waiting)
    (hc : m ∉ l.carried) : l.released.count m = 1 := by
  have ht := h m hm ho
  rw [total, List.count_eq_zero.mpr hw, List.count_eq_zero.mpr hc] at ht
  omega

theorem Sound.step (h : l.Sound) (hs : l.Step l') : l'.Sound := by
  constructor
  · rw [hs.accepted]; exact h.nodup
  · intro m
    rw [hs.accepted]
    exact Nat.le_trans (hs.total m) (h.total_le m)
  · intro m hm
    rw [hs.accepted]
    have hw := hs.waiting m
    -- neither waiting nor given back before, so neither is it now
    have key : l.waiting.count m = 0 ∧ l.released.count m = 0 → m ∉ l'.waiting ∧ m ∉ l'.released := by
      intro h0
      exact ⟨List.count_eq_zero.mp (by omega), List.count_eq_zero.mp (by omega)⟩
    rcases hs.outside m hm with hout | hcar
    · obtain ⟨ha, hnw, hnr⟩ := h.outside m hout
      exact ⟨ha, key ⟨List.count_eq_zero.mpr hnw, List.count_eq_zero.mpr hnr⟩⟩
    · have hpos := List.count_pos_iff.mpr hcar
      have hone := h.total_le_one m
      have ha : m ∈ l.accepted := h.accepted_of_total (by unfold total; omega)
      unfold total at hone
      exact ⟨ha, key ⟨by omega, by omega⟩⟩

theorem Settled.step (h : Settled owed l) (hsound : l.Sound) (hs : l.Step l') (hkeep : ∀ m, owed m → l.total m ≤ l'.total m) :
    Settled owed l' := by
  intro m hm ho
  rw [hs.accepted] at hm
  have hone := h m hm ho
  have := (hsound.step hs).total_le_one m
  have := hkeep m ho
  omega

theorem Accept.total (h : Accept m l l') (x : M) : l'.total x = l.total x + [m].count x := by
  rw [Ledger.total, Ledger.total, h.waiting, h.carried, h.released]
  omega

theorem Sound.accept (h : l.Sound) (hs : Accept m l l') : l'.Sound := by
  constructor
  · rw [hs.accepted]
    exact List.Nodup.append h.nodup (List.nodup_singleton m) (by simpa using hs.fresh)
  · intro x
    rw [hs.total, hs.accepted, List.count_append]
    have := h.total_le x
    omega
  · intro x hx
    rw [hs.outside] at hx
    obtain ⟨ha, hnw, hnr⟩ := h.outside x hx
    have hne : x ≠ m := by
      rintro rfl
      exact hs.fresh ha
    refine ⟨?_, ?_, ?_⟩
    · rw [hs.accepted]
      exact List.mem_append_left _ ha
    · apply List.count_eq_zero.mp
      rw [hs.waiting, List.count_eq_zero.mpr hnw, List.count_eq_zero.mpr (by simpa using hne)]
    · rw [hs.released]; exact hnr

theorem Settled.accept (h : Settled owed l) (hsound : l.Sound) (hs : Accept m l l') : Settled owed l' := by
  intro x hx ho
  rw [hs.accepted] at hx
  have hle := (hsound.accept hs).total_le_one x
  rw [hs.total] at hle ⊢
  rcases List.mem_append.mp hx with hx | hx
  · have := h x hx ho
    omega
  · have hpos := List.count_pos_iff.mpr hx
    omega

/-! ## Items counted over a list of holders -/

theorem count_flatMap_set {α : Type} (f : α → List M) (x : α) (m : M) : ∀ (as : List α) (i : ℕ) (a : α), as[i]? = some a →
    ((as.set i x).flatMap f).count m + (f a).count m = (as.flatMap f).count m + (f x).count m
  | b :: as, 0, a, h => by
    obtain rfl : b = a := by simpa using h
    simp only [List.set_cons_zero, List.flatMap_cons, List.count_append]
    omega
  | b :: as, i + 1, a, h => by
    have := count_flatMap_set f x m as i a (by simpa using h)
    simp only [List.set_cons_succ, List.flatMap_cons, List.count_append]
    omega

end Ledger

end RudpEngine
