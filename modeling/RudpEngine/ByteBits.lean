import Mathlib.Data.Nat.Bitwise
import Mathlib.Data.List.Basic

/-!
# Byte strings as bit strings

Bit `i` of a byte string is bit `i % 8` of byte `i / 8`, the lowest bit first;
a little-endian number has the bits of its bytes in the same order.
-/

namespace RudpEngine

abbrev Byte := BitVec 8

/-- The byte at `i`; out of range there is a zero byte. -/
def byteAt (buf : List Byte) (i : ℕ) : Byte := buf.getD i 0

def bitOf (buf : List Byte) (i : ℕ) : Bool := (byteAt buf (i / 8)).getLsbD (i % 8)

theorem byteAt_set (buf : List Byte) {j : ℕ} (hj : j < buf.length) (b : Byte) (i : ℕ) :
    byteAt (buf.set j b) i = if i = j then b else byteAt buf i := by
  unfold byteAt
  by_cases h : i = j
  · subst h; simp [List.getD, hj]
  · rw [if_neg h, List.getD, List.getD, List.getElem?_set_ne (Ne.symm h)]

theorem byteAt_append_left {a : List Byte} (b : List Byte) {i : ℕ} (h : i < a.length) :
    byteAt (a ++ b) i = byteAt a i := by
  unfold byteAt; rw [List.getD_append _ _ _ _ h]

theorem byteAt_append_right {a : List Byte} (b : List Byte) {i : ℕ} (h : a.length ≤ i) :
    byteAt (a ++ b) i = byteAt b (i - a.length) := by
  unfold byteAt; rw [List.getD_append_right _ _ _ _ h]

theorem byteAt_of_length_le {buf : List Byte} {i : ℕ} (h : buf.length ≤ i) : byteAt buf i = 0 :=
  List.getD_eq_default _ _ h

theorem bitOf_set (buf : List Byte) {j : ℕ} (hj : j < buf.length) (b : Byte) (i : ℕ) :
    bitOf (buf.set j b) i = if i / 8 = j then b.getLsbD (i % 8) else bitOf buf i := by
  unfold bitOf; rw [byteAt_set buf hj]; split <;> rfl

theorem bitOf_append_left {a : List Byte} (b : List Byte) {i : ℕ} (h : i < 8 * a.length) :
    bitOf (a ++ b) i = bitOf a i := by
  unfold bitOf; rw [byteAt_append_left b (by omega)]

theorem bitOf_append_right (a b : List Byte) (i : ℕ) : bitOf (a ++ b) (8 * a.length + i) = bitOf b i := by
  unfold bitOf
  have hd : (8 * a.length + i) / 8 - a.length = i / 8 := by omega
  have hm : (8 * a.length + i) % 8 = i % 8 := by omega
  rw [byteAt_append_right b (by omega), hd, hm]

theorem bitOf_take {buf : List Byte} {k i : ℕ} (h : i < 8 * k) : bitOf (buf.take k) i = bitOf buf i := by
  unfold bitOf byteAt
  rw [List.getD, List.getD, List.getElem?_take_of_lt (by omega)]

theorem bitOf_drop (buf : List Byte) (k i : ℕ) : bitOf (buf.drop k) i = bitOf buf (8 * k + i) := by
  have hd : (8 * k + i) / 8 = k + i / 8 := by omega
  have hm : (8 * k + i) % 8 = i % 8 := by omega
  unfold bitOf byteAt
  rw [List.getD, List.getD, List.getElem?_drop, hd, hm]

theorem bitOf_replicate_zero (k i : ℕ) : bitOf (List.replicate k 0) i = false := by
  unfold bitOf byteAt
  by_cases h : i / 8 < k
  · simp [List.getD, h]
  · simp [List.getD, h]

theorem bytes_ext {a b : List Byte} (hl : a.length = b.length) (h : ∀ i < 8 * a.length, bitOf a i = bitOf b i) :
    a = b := by
  apply List.ext_getElem hl
  intro k ha hb
  apply BitVec.eq_of_getLsbD_eq
  intro j hj
  have := h (8 * k + j) (by omega)
  unfold bitOf byteAt at this
  have hdiv : (8 * k + j) / 8 = k := by omega
  have hmod : (8 * k + j) % 8 = j := by omega
  rw [hdiv, hmod] at this
  simpa [List.getD, ha, hb] using this

/-! ## Little-endian numbers -/

def leBytes : ℕ → ℕ → List Byte
  | 0, _ => []
  | k + 1, v => BitVec.ofNat 8 v :: leBytes k (v / 256)

def leNat : List Byte → ℕ
  | [] => 0
  | b :: bs => b.toNat + 256 * leNat bs

@[simp] theorem leBytes_length : ∀ (k v : ℕ), (leBytes k v).length = k
  | 0, _ => rfl
  | k + 1, v => by simp [leBytes, leBytes_length k]

theorem bitOf_leBytes : ∀ (k v i : ℕ), i < 8 * k → bitOf (leBytes k v) i = v.testBit i
  | 0, _, _, h => by omega
  | k + 1, v, i, h => by
    rw [leBytes]
    by_cases hi : i < 8
    · have hdiv : i / 8 = 0 := by omega
      rw [bitOf, hdiv, Nat.mod_eq_of_lt hi]
      exact (BitVec.getLsbD_ofNat 8 v i).trans (by simp [hi])
    · obtain ⟨j, rfl⟩ : ∃ j, i = 8 + j := ⟨i - 8, by omega⟩
      have := bitOf_append_right [BitVec.ofNat 8 v] (leBytes k (v / 256)) j
      simp only [List.length_singleton, Nat.mul_one, List.singleton_append] at this
      rw [this, bitOf_leBytes k _ j (by omega), show 256 = 2 ^ 8 by rfl, Nat.testBit_div_two_pow, Nat.add_comm]

theorem leNat_lt : ∀ bs : List Byte, leNat bs < 256 ^ bs.length
  | [] => by simp [leNat]
  | b :: bs => by
    have := leNat_lt bs
    have hb := b.isLt
    rw [leNat, List.length_cons, pow_succ]
    omega

theorem testBit_leNat : ∀ (bs : List Byte) (i : ℕ), (leNat bs).testBit i = bitOf bs i
  | [], i => by simp [leNat, bitOf, byteAt]
  | b :: bs, i => by
    have hb := b.isLt
    have hadd : leNat (b :: bs) = 2 ^ 8 * leNat bs + b.toNat := by rw [leNat]; omega
    rw [hadd, Nat.testBit_two_pow_mul_add _ hb]
    by_cases hi : i < 8
    · have hdiv : i / 8 = 0 := by omega
      simp [hi, bitOf, byteAt, hdiv, Nat.mod_eq_of_lt hi, BitVec.getLsbD]
    · obtain ⟨j, rfl⟩ : ∃ j, i = 8 + j := ⟨i - 8, by omega⟩
      have := bitOf_append_right [b] bs j
      simp only [List.length_singleton, Nat.mul_one, List.singleton_append] at this
      rw [if_neg hi, testBit_leNat bs, this]
      congr 1; omega

theorem leNat_leBytes (k v : ℕ) : leNat (leBytes k v) = v % 256 ^ k := by
  apply Nat.eq_of_testBit_eq
  intro i
  rw [testBit_leNat, show (256 : ℕ) = 2 ^ 8 by rfl, ← pow_mul, Nat.testBit_mod_two_pow]
  by_cases h : i < 8 * k
  · rw [bitOf_leBytes k v i h]; simp [h]
  · have hk : (leBytes k v).length ≤ i / 8 := by rw [leBytes_length]; omega
    simp [bitOf, byteAt_of_length_le hk, h]

end RudpEngine
