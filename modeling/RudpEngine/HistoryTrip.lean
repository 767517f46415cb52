import RudpEngine.HeaderBits

/-!
# The receive history over the wire

`Write` puts the first words of a history behind each other, `Read` takes as
many into the words of another one. So a history read into a new one has the
most recent outcomes, and nothing behind them.
-/

namespace RudpEngine

namespace SequenceHistory

theorem words_wrote : ∀ (ws : List (BitVec 32)) {w : BitWriter}, w.AllowAppend (32 * ws.length) →
    BitWriter.Wrote w (ws.foldl (fun w word => w.writeU32 word.toNat) w) (32 * ws.length) (wordsBit ws)
  | [], w, _ => ⟨rfl, rfl, rfl, fun i => by rw [if_neg (by simp)]; rfl⟩
  | v :: ws, w, h => by
    have hlen : 32 * (v :: ws).length = 32 + 32 * ws.length := by rw [List.length_cons]; omega
    rw [BitWriter.AllowAppend, hlen] at h
    have hfirst := BitWriter.writeU32_wrote v.toNat (w := w) (by unfold BitWriter.AllowAppend; omega)
    have hrest := words_wrote ws (w := w.writeU32 v.toNat) (by
      unfold BitWriter.AllowAppend
      rw [hfirst.pos, hfirst.max]; omega)
    have hbits : wordsBit (v :: ws) = fun i => if i < 32 then v.toNat.testBit i else wordsBit ws (i - 32) := by
      funext i
      split_ifs with hi
      · rw [wordsBit_cons_low v ws hi, BitVec.testBit_toNat]
      · obtain ⟨j, rfl⟩ : ∃ j, i = j + 32 := ⟨i - 32, by omega⟩
        rw [wordsBit_cons_high, Nat.add_sub_cancel]
    rw [hlen, hbits]
    exact hfirst.trans hrest

variable {s : ℕ} {h : SequenceHistory s}

theorem write_wrote {w : BitWriter} {k : ℕ} (hw : w.AllowAppend (32 * min k h.wordCount)) :
    BitWriter.Wrote w (h.write w k) (32 * min k h.wordCount) (wordsBit (h.storage.take k)) := by
  have hlen : (h.storage.take k).length = min k h.wordCount := by rw [List.length_take, h.size_eq, wordCount]
  rw [← hlen] at hw ⊢
  exact words_wrote _ hw

theorem wordsBit_take (ws : List (BitVec 32)) {k i : ℕ} (hi : i < 32 * k) :
    wordsBit (ws.take k) i = wordsBit ws i := by
  unfold wordsBit
  rw [List.getD_eq_getElem?_getD, List.getD_eq_getElem?_getD, List.getElem?_take_of_lt (by omega)]

theorem wordsBit_ofBits (f : ℕ → Bool) (m n i : ℕ) :
    wordsBit ((List.range m).map (fun j => BitVec.ofNat 32 (Nat.ofBits fun k : Fin 32 => f (32 * j + k))) ++
      List.replicate n 0) i = (decide (i < 32 * m) && f i) := by
  unfold wordsBit
  rw [List.getD_eq_getElem?_getD]
  by_cases hi : i / 32 < m
  · have hlow : i % 32 < 32 := Nat.mod_lt i (by decide)
    have hj : 32 * (i / 32) + i % 32 = i := Nat.div_add_mod i 32
    have hm : i < 32 * m := by omega
    rw [List.getElem?_append_left (by simpa using hi), List.getElem?_map, List.getElem?_range hi, Option.map_some,
      Option.getD_some, BitVec.getLsbD_ofNat, decide_eq_true hlow, decide_eq_true hm, Bool.true_and, Bool.true_and,
      Nat.testBit_ofBits_lt _ _ hlow]
    exact congrArg f hj
  · rw [List.getElem?_append_right (by simpa using hi), List.getElem?_replicate]
    have hm : ¬ i < 32 * m := by omega
    split_ifs <;> simp [hm]

theorem isDelivered_read {r : BitReader} {k : ℕ} (hr : r.Holds (32 * min k (s / bitsPerWord))) (i : ℕ) :
    ((reset s).read r k).1.isDelivered i = (decide (i < 32 * min k (s / bitsPerWord)) && r.bits i) := by
  have hlen : (reset s).storage.length = s / bitsPerWord := (reset s).size_eq
  have hloop := congrArg Prod.fst (readLoop_read k (reset s).storage (hlen.symm ▸ hr))
  rw [hlen, reset, List.drop_replicate] at hloop
  rw [isDelivered_eq]
  show wordsBit (readLoop r k (reset s).storage).1 i = _
  rw [reset, hloop]
  exact wordsBit_ofBits r.bits _ _ i

/-- **The receive history is the list of the most recent outcomes**, the newest
first; read into a new history from the words another one has written, it is
cut off behind the last of these words. -/
theorem most_recent_outcomes {s : ℕ} (hs : 32 ∣ s) :
    (∀ (l : List Bool) (i : ℕ), i < s →
      (l.foldl addDeliveryStatus (reset s)).isDelivered i = l.reverse.getD i false) ∧
    ∀ (h : SequenceHistory s) (k : ℕ) (w : BitWriter) (r : BitReader),
      w.AllowAppend (32 * min k h.wordCount) → r.Holds (32 * min k h.wordCount) →
      (∀ i < 32 * min k h.wordCount, r.bits i = bitOf (h.write w k).buffer (w.pos + i)) →
      (∀ i < 32 * min k h.wordCount, ((reset s).read r k).1.isDelivered i = h.isDelivered i) ∧
      ∀ i, 32 * min k h.wordCount ≤ i → ((reset s).read r k).1.isDelivered i = false := by
  refine ⟨fun l i hi => isDelivered_foldl hs l hi, fun h k w r hw hr hbits => ⟨fun i hi => ?_, fun i hi => ?_⟩⟩
  · have hlow : i < 32 * k := by have := Nat.min_le_left k h.wordCount; omega
    have hin : w.pos ≤ w.pos + i ∧ w.pos + i < w.pos + 32 * min k h.wordCount := by omega
    have hd : decide (i < 32 * min k (s / bitsPerWord)) = true := decide_eq_true hi
    rw [isDelivered_read hr, hbits i hi, hd, Bool.true_and, (write_wrote hw).bit, if_pos hin, Nat.add_sub_cancel_left,
      wordsBit_take _ hlow, isDelivered_eq]
  · have hd : decide (i < 32 * min k (s / bitsPerWord)) = false := decide_eq_false (Nat.not_lt.mpr hi)
    rw [isDelivered_read hr, hd, Bool.false_and]

/-- Of 40 outcomes the newest 32 go over the wire in one word. -/
theorem most_recent_outcomes_oneWord :
    let h := (List.replicate 40 true).foldl addDeliveryStatus (reset 64)
    let w := BitWriter.ofMaxBits 64
    let r := BitReader.ofBytes (h.write w 1).buffer (h.write w 1).pos
    h.isDelivered 39 = true ∧ ((reset 64).read r 1).1.isDelivered 31 = true ∧
      ((reset 64).read r 1).1.isDelivered 39 = false := by
  intro h w r
  obtain ⟨hlist, htrip⟩ := most_recent_outcomes (s := 64) (by decide)
  have hpushed := hlist (List.replicate 40 true)
  obtain ⟨hnew, hold⟩ := htrip h 1 w r (by decide) ⟨by decide +kernel, by decide +kernel⟩ (by decide +kernel)
  refine ⟨(hpushed 39 (by decide)).trans (by decide), ?_, hold 39 (by decide)⟩
  exact (hnew 31 (by decide)).trans ((hpushed 31 (by decide)).trans (by decide))

end SequenceHistory

end RudpEngine
