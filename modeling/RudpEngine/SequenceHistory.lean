import Mathlib.Data.Nat.Notation
import Mathlib.Data.List.Induction

/-!
# The receive history

`TSequenceHistory<HistorySize>`: the outcomes of the most recent packets, one
bit each in 32-bit words, the newest in the lowest bit of the first word.
`isDelivered_push` describes a push without the words: index `0` is the new
status and every older one moves up by one.
-/

namespace RudpEngine

def bitsPerWord : ℕ := 32

/-- `TSequenceHistory`; `size_eq` is its array type. -/
structure SequenceHistory (historySize : ℕ) where
  storage : List (BitVec 32)
  size_eq : storage.length = historySize / bitsPerWord
  deriving DecidableEq

namespace SequenceHistory

variable {s : ℕ}

def wordCount (_ : SequenceHistory s) : ℕ := s / bitsPerWord

def reset (s : ℕ) : SequenceHistory s :=
  ⟨List.replicate (s / bitsPerWord) 0, List.length_replicate⟩

/-- The loop of `AddDeliveryStatus`: each word moves up by one bit and takes
the carry of the word before it. -/
def addLoop (carry : BitVec 32) : List (BitVec 32) → List (BitVec 32)
  | [] => []
  | w :: ws => ((w <<< 1) ||| carry) :: addLoop ((w &&& (1#32 <<< 31)) >>> 31) ws

theorem addLoop_length (ws : List (BitVec 32)) (carry : BitVec 32) : (addLoop carry ws).length = ws.length := by
  induction ws generalizing carry with
  | nil => rfl
  | cons w ws ih => simp [addLoop, ih]

def addDeliveryStatus (h : SequenceHistory s) (delivered : Bool) : SequenceHistory s :=
  ⟨addLoop (if delivered then 1 else 0) h.storage, by rw [addLoop_length, h.size_eq]⟩

def isDelivered (h : SequenceHistory s) (index : ℕ) : Bool :=
  (h.storage.getD (index / bitsPerWord) 0 &&& (1#32 <<< (index % bitsPerWord))) != 0

/-! ## The words as one list of bits -/

def wordsBit (ws : List (BitVec 32)) (i : ℕ) : Bool := (ws.getD (i / 32) 0).getLsbD (i % 32)

theorem and_bit_ne_zero (w : BitVec 32) {j : ℕ} (hj : j < 32) : ((w &&& (1#32 <<< j)) != 0) = w.getLsbD j := by
  rw [Bool.eq_iff_iff, bne_iff_ne, ne_eq, ← not_iff_not, not_not]
  constructor
  · intro h
    have := congrArg (fun v : BitVec 32 => v.getLsbD j) h
    simpa [hj] using this
  · intro h
    apply BitVec.eq_of_getLsbD_eq
    intro k hk
    by_cases hkj : k = j
    · subst hkj; simpa [hk] using h
    · have hne : k - j ≠ 0 ∨ k < j := by omega
      rcases hne with h1 | h1
      · simp [hk, h1]
      · simp [h1]

theorem isDelivered_eq (h : SequenceHistory s) (i : ℕ) : h.isDelivered i = wordsBit h.storage i :=
  and_bit_ne_zero _ (Nat.mod_lt _ (by decide))

theorem wordsBit_cons_low (w : BitVec 32) (ws : List (BitVec 32)) {i : ℕ} (hi : i < 32) :
    wordsBit (w :: ws) i = w.getLsbD i := by
  simp [wordsBit, Nat.div_eq_of_lt hi, Nat.mod_eq_of_lt hi]

theorem wordsBit_cons_high (w : BitVec 32) (ws : List (BitVec 32)) (i : ℕ) :
    wordsBit (w :: ws) (i + 32) = wordsBit ws i := by
  simp [wordsBit]

theorem carry_getLsbD (w : BitVec 32) (j : ℕ) :
    ((w &&& (1#32 <<< 31)) >>> 31).getLsbD j = (decide (j = 0) && w.getLsbD 31) := by
  by_cases hj : j = 0
  · subst hj; simp
  · simp [hj, BitVec.getLsbD_of_ge w (31 + j) (by omega)]

theorem wordsBit_addLoop : ∀ (ws : List (BitVec 32)) (b : Bool) (carry : BitVec 32),
    (∀ j, carry.getLsbD j = (decide (j = 0) && b)) → ∀ i, i < 32 * ws.length →
      wordsBit (addLoop carry ws) i = if i = 0 then b else wordsBit ws (i - 1)
  | [], _, _, _, i, hi => by simp at hi
  | w :: ws, b, carry, hc, i, hi => by
    rw [addLoop]
    by_cases h32 : i < 32
    · rw [wordsBit_cons_low _ _ h32, BitVec.getLsbD_or, hc, BitVec.getLsbD_shiftLeft]
      by_cases h0 : i = 0
      · simp [h0]
      · have h1 : ¬ i < 1 := by omega
        rw [if_neg h0, wordsBit_cons_low w ws (by omega)]
        simp [h0, h1, h32]
    · -- the carry into the next word is this word's top bit
      obtain ⟨k, rfl⟩ : ∃ k, i = k + 32 := ⟨i - 32, by omega⟩
      rw [wordsBit_cons_high, if_neg (by omega)]
      have ih := wordsBit_addLoop ws (w.getLsbD 31) _ (carry_getLsbD w) k (by simp at hi; omega)
      rw [ih]
      by_cases h0 : k = 0
      · subst h0; rw [if_pos rfl, wordsBit_cons_low w ws (by omega)]
      · rw [if_neg h0, show k + 32 - 1 = k - 1 + 32 by omega, wordsBit_cons_high]

/-! ## The history without its words -/

@[simp] theorem isDelivered_reset (i : ℕ) : (reset s).isDelivered i = false := by
  rw [isDelivered_eq, wordsBit, reset]
  by_cases h : i / 32 < s / bitsPerWord
  · simp [List.getD, h]
  · simp [List.getD, h]

/-- A push puts the new status at index `0` and moves the older ones up. -/
theorem isDelivered_push (hs : 32 ∣ s) (h : SequenceHistory s) (b : Bool) {i : ℕ} (hi : i < s) :
    (h.addDeliveryStatus b).isDelivered i = if i = 0 then b else h.isDelivered (i - 1) := by
  rw [isDelivered_eq, isDelivered_eq, addDeliveryStatus]
  apply wordsBit_addLoop
  · intro j; cases b <;> simp [BitVec.getLsbD_one]
  · rw [h.size_eq, bitsPerWord]; omega

/-- After any pushes the history is the list of them, the newest first. -/
theorem isDelivered_foldl (hs : 32 ∣ s) (l : List Bool) : ∀ {i : ℕ}, i < s →
    (l.foldl addDeliveryStatus (reset s)).isDelivered i = l.reverse.getD i false := by
  induction l using List.reverseRecOn with
  | nil => intro i _; simp
  | append_singleton l b ih =>
    intro i hi
    rw [List.foldl_append, List.foldl_cons, List.foldl_nil, isDelivered_push hs _ b hi, List.reverse_concat]
    cases i with
    | zero => rfl
    | succ i => rw [if_neg (Nat.succ_ne_zero i), Nat.add_sub_cancel, ih (by omega), List.getD_cons_succ]

end SequenceHistory

end RudpEngine
