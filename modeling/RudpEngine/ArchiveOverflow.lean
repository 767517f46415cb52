import RudpEngine.ArchiveTrip

/-!
# Writes that do not fit

`SetOverflowed` of the writer is empty: an operation that does not fit is left
out, the error stays clear, and a later one that is shorter still goes in. Only
where everything fits does the buffer hold what was written.
-/

namespace RudpEngine

open BitWriter

variable {w : BitWriter} {op : WriteOp} {ops before after : List WriteOp}

/-- The first operation that does not fit sets the error, and the buffer is left with those before it. -/
def FailsVisibly (w : BitWriter) (ops : List WriteOp) : Prop :=
  ∀ before op after, ops = before ++ op :: after → w.AllFit before → ¬ op.Fits (w.runAll before) →
    (w.runAll ops).arIsError = true ∧ (w.runAll ops).pos = (w.runAll before).pos ∧
      (w.runAll ops).buffer = (w.runAll before).buffer

/-! ## One operation -/

theorem BitWriter.serializeBits_of_not {n : ℕ} (h : ¬ w.AllowAppend n) (src : List Byte) : w.serializeBits src n = w := by
  rw [BitWriter.serializeBits, dif_neg h]

theorem WriteOp.run_of_not (h : ¬ op.Fits w) : op.run w = w := by
  cases op with
  | serializeBits src n => exact serializeBits_of_not h src
  | serializeBitsWithOffset src sourceBit n => exact serializeBitsWithOffset_of_not h src sourceBit
  | serialize src n => exact serializeBitsWithOffset_of_not h src 0
  | serializeInt value max =>
    have hroom : ¬ w.AllowAppend (if 2 ≤ max then ceilLogTwo max else 0) := h
    show w.serializeInt value max = w
    unfold BitWriter.serializeInt
    by_cases htwo : 2 ≤ max
    · rw [if_pos htwo] at hroom ⊢
      exact writeInt_of_not _ hroom
    · rw [if_neg htwo]
  | serializeIntPacked value => exact serializeIntPacked_of_not h
  | writeIntWrapped value valueMax => exact writeInt_of_not value h
  | writeBit bit => exact serializeBits_of_not h _

theorem WriteOp.run_wrote (h : op.Fits w) : ∃ n f, Wrote w (op.run w) n f := by
  cases op with
  | serializeBits src n => exact ⟨_, _, serializeBits_wrote src h⟩
  | serializeBitsWithOffset src sourceBit n => exact ⟨_, _, serializeBitsWithOffset_wrote src sourceBit h⟩
  | serialize src n => exact ⟨_, _, serialize_wrote src h⟩
  | serializeInt value max =>
    have hroom : w.AllowAppend (if 2 ≤ max then ceilLogTwo max else 0) := h
    show ∃ n f, Wrote w (w.serializeInt value max) n f
    unfold BitWriter.serializeInt
    by_cases htwo : 2 ≤ max
    · rw [if_pos htwo] at hroom ⊢
      exact ⟨_, _, writeInt_wrote _ hroom⟩
    · rw [if_neg htwo]
      exact ⟨0, fun _ => false, rfl, rfl, rfl, fun i => by rw [if_neg (by omega)]⟩
  | serializeIntPacked value => exact ⟨_, _, serializeIntPacked_wrote h⟩
  | writeIntWrapped value valueMax => exact ⟨_, _, writeInt_wrote value h⟩
  | writeBit bit => exact ⟨_, _, writeBit_wrote (bit != 0) h⟩

theorem WriteOp.run_error (w : BitWriter) (op : WriteOp) : (op.run w).arIsError = w.arIsError := by
  by_cases h : op.Fits w
  · obtain ⟨n, f, hwrote⟩ := run_wrote h
    exact hwrote.error
  · rw [run_of_not h]

/-! ## All operations -/

theorem runAll_error (ops : List WriteOp) : ∀ w : BitWriter, (w.runAll ops).arIsError = w.arIsError := by
  induction ops with
  | nil => exact fun w => rfl
  | cons op ops ih => exact fun w => (ih (op.run w)).trans (op.run_error w)

theorem allFit_append (before after : List WriteOp) : ∀ w : BitWriter,
    w.AllFit (before ++ after) ↔ w.AllFit before ∧ (w.runAll before).AllFit after := by
  induction before with
  | nil => exact fun w => (iff_of_eq (true_and _)).symm
  | cons op before ih => exact fun w => (and_congr_right fun _ => ih (op.run w)).trans and_assoc.symm

theorem exists_first (ops : List WriteOp) : ∀ w : BitWriter, ¬ w.AllFit ops →
    ∃ before op after, ops = before ++ op :: after ∧ w.AllFit before ∧ ¬ op.Fits (w.runAll before) := by
  induction ops with
  | nil => exact fun w h => absurd trivial h
  | cons op ops ih =>
    intro w h
    by_cases hfits : op.Fits w
    · obtain ⟨before, op', after, rfl, hbefore, hop'⟩ := ih (op.run w) fun hall => h ⟨hfits, hall⟩
      exact ⟨op :: before, op', after, rfl, ⟨hfits, hbefore⟩, hop'⟩
    · exact ⟨[], op, ops, rfl, trivial, hfits⟩

def fitting : BitWriter → List WriteOp → List WriteOp
  | _, [] => []
  | w, op :: ops => if op.Fits w then op :: fitting (op.run w) ops else fitting w ops

/-- The buffer is the same as if the others had never been called. -/
theorem runAll_fitting (ops : List WriteOp) : ∀ w : BitWriter, w.runAll (fitting w ops) = w.runAll ops := by
  induction ops with
  | nil => exact fun w => rfl
  | cons op ops ih =>
    intro w
    show w.runAll (if op.Fits w then op :: fitting (op.run w) ops else fitting w ops) = (op.run w).runAll ops
    split_ifs with hfits
    · exact ih (op.run w)
    · rw [WriteOp.run_of_not hfits]
      exact ih w

/-- A list of writes fails visibly only if none of it fails. -/
theorem fails_visibly_iff (maxBits : ℕ) (ops : List WriteOp) :
    FailsVisibly (.ofMaxBits maxBits) ops ↔ (BitWriter.ofMaxBits maxBits).AllFit ops := by
  constructor
  · intro h
    by_contra hnot
    obtain ⟨before, op, after, hops, hbefore, hop⟩ := exists_first ops _ hnot
    obtain ⟨herror, -⟩ := h before op after hops hbefore hop
    rw [runAll_error] at herror
    exact Bool.false_ne_true herror
  · intro hfit before op after hops hbefore hop
    rw [hops, allFit_append] at hfit
    exact absurd hfit.2.1 hop

/-- A byte in the middle does not fit, and the four bits behind it do. -/
theorem middle_goes_missing : ¬ ∀ (maxBits : ℕ) (ops : List WriteOp), FailsVisibly (.ofMaxBits maxBits) ops := by
  intro h
  have herror := (h 8 [.serializeBits [3] 4, .serialize [0xFF] 1, .serializeBits [5] 4] [.serializeBits [3] 4]
    (.serialize [0xFF] 1) [.serializeBits [5] 4] rfl (by decide) (by decide)).1
  rw [runAll_error] at herror
  exact Bool.false_ne_true herror

example : ((BitWriter.ofMaxBits 8).runAll [.serializeBits [3] 4, .serialize [0xFF] 1, .serializeBits [5] 4]).buffer = [0x53] := by
  decide +kernel

end RudpEngine
