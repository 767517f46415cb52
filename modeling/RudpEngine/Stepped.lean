import RudpEngine.ReorderBuffer

/-!
# Bunches given to a channel

What a number of bunches can do to the receiving side of a channel, counted:
how many are kept for later, how many of these are taken out again, and how
often `InReliable` moves on. A channel that is back where it was has not changed
in between.
-/

namespace RudpEngine

namespace NetChannel

/-- From `ch` to `ch'` at most `n` bunches were given to the channel: `a` of them were kept, `e` were taken out of the
buffer, and `InReliable` moved on `t` times. -/
structure Stepped (n a e t : ℕ) (ch ch' : NetChannel) : Prop where
  inserted : a ≤ n
  taken : t ≤ n + e
  size : ch'.inUnreadBunchMap.size + e = ch.inUnreadBunchMap.size + a
  inReliable : ch'.inReliable = if t = 0 then ch.inReliable else (ch.inReliable + t) % 2 ^ 32
  received : ∃ l, ch'.receivedMessages = ch.receivedMessages ++ l
  others : t = 0 → ∀ k ≠ (ch.inReliable + 1) % 2 ^ 32, ∀ b, ch.inUnreadBunchMap.find? k = some b →
    ch'.inUnreadBunchMap.find? k = some b
  next : t = 0 → ch'.inUnreadBunchMap.find? ((ch.inReliable + 1) % 2 ^ 32) = none ∨
    ch'.inUnreadBunchMap.find? ((ch.inReliable + 1) % 2 ^ 32) = ch.inUnreadBunchMap.find? ((ch.inReliable + 1) % 2 ^ 32)
  rest : ch' = { ch with
    inReliable := ch'.inReliable
    receivedMessages := ch'.receivedMessages
    inUnreadBunchMap := ch'.inUnreadBunchMap }

namespace Stepped

variable {n a e t n' a' e' t' : ℕ} {ch ch' ch'' : NetChannel}

theorem refl (n : ℕ) (ch : NetChannel) : Stepped n 0 0 0 ch ch where
  inserted := Nat.zero_le n
  taken := Nat.zero_le _
  size := rfl
  inReliable := rfl
  received := ⟨[], (List.append_nil _).symm⟩
  others := fun _ _ _ _ h => h
  next := fun _ => .inr rfl
  rest := rfl

theorem trans (h : Stepped n a e t ch ch') (h' : Stepped n' a' e' t' ch' ch'') :
    Stepped (n + n') (a + a') (e + e') (t + t') ch ch'' := by
  obtain ⟨l, hl⟩ := h.received
  obtain ⟨l', hl'⟩ := h'.received
  have hsize := h.size
  have hsize' := h'.size
  have htaken := h.taken
  have htaken' := h'.taken
  have hinserted := h.inserted
  have hinserted' := h'.inserted
  have hsame : t + t' = 0 → t = 0 ∧ t' = 0 ∧ ch'.inReliable = ch.inReliable := by
    intro h0
    have ht : t = 0 := by omega
    refine ⟨ht, by omega, ?_⟩
    rw [h.inReliable, if_pos ht]
  refine ⟨by omega, by omega, by omega, ?_, ⟨l ++ l', ?_⟩, ?_, ?_, ?_⟩
  · rw [h'.inReliable, h.inReliable]
    by_cases ht : t = 0
    · by_cases ht' : t' = 0
      · rw [if_pos ht', if_pos ht, if_pos (by omega)]
      · rw [if_neg ht', if_pos ht, if_neg (by omega), ht, Nat.zero_add]
    · by_cases ht' : t' = 0
      · rw [if_pos ht', if_neg ht, if_neg (by omega), ht', Nat.add_zero]
      · rw [if_neg ht', if_neg ht, if_neg (by omega)]
        omega
  · rw [hl', hl, List.append_assoc]
  · intro h0 k hk b hb
    obtain ⟨ht, ht', hr⟩ := hsame h0
    exact h'.others ht' k (by rw [hr]; exact hk) b (h.others ht k hk b hb)
  · intro h0
    obtain ⟨ht, ht', hr⟩ := hsame h0
    have hn := h.next ht
    have hn' := h'.next ht'
    rw [hr] at hn'
    rcases hn' with hn' | hn'
    · exact .inl hn'
    · rcases hn with hn | hn
      · exact .inl (hn'.trans hn)
      · exact .inr (hn'.trans hn)
  · rw [h'.rest, h.rest]

theorem eq_of_back (h : Stepped n a e t ch ch') (h' : Stepped n' a' e' t' ch' ch) (hn : n + n' < 2 ^ 31) : ch' = ch := by
  have hback := h.trans h'
  have hsize := hback.size
  have htaken := hback.taken
  have hinserted := hback.inserted
  -- fewer than a whole turn of the counter, so not one
  have h0 : t + t' = 0 := by
    by_contra hne
    have hr := hback.inReliable
    rw [if_neg hne] at hr
    omega
  have ht : t = 0 := by omega
  have ht' : t' = 0 := by omega
  have hr : ch'.inReliable = ch.inReliable := by rw [h.inReliable, if_pos ht]
  have hreceived : ch'.receivedMessages = ch.receivedMessages := by
    obtain ⟨l, hl⟩ := h.received
    obtain ⟨l', hl'⟩ := h'.received
    rw [hl, List.append_assoc] at hl'
    have hnil : l ++ l' = [] := List.append_cancel_left (hl'.symm.trans (List.append_nil _).symm)
    rw [hl, (List.append_eq_nil_iff.mp hnil).1, List.append_nil]
  have hmap : ch'.inUnreadBunchMap = ch.inUnreadBunchMap := by
    apply SortedMap.ext_find?
    intro k
    by_cases hk : k = (ch.inReliable + 1) % 2 ^ 32
    · subst hk
      have h1 := h.next ht
      have h2 := h'.next ht'
      rw [hr] at h2
      rcases h1 with h1 | h1
      · rcases h2 with h2 | h2
        · rw [h1, h2]
        · exact h2.symm
      · exact h1
    · cases hb : ch.inUnreadBunchMap.find? k with
      | some b => exact h.others ht k hk b hb
      | none =>
        cases hb' : ch'.inUnreadBunchMap.find? k with
        | none => rfl
        | some b =>
          have := h'.others ht' k (by rw [hr]; exact hk) b hb'
          rw [hb] at this
          cases this
  rw [h.rest, hr, hreceived, hmap]

end Stepped

variable {ch : NetChannel}

/-! ## The single steps -/

theorem stepped_addUnread {chSequence : ℕ} (hne : chSequence ≠ (ch.inReliable + 1) % 2 ^ 32) (b : InBunchReader) :
    ∃ a, Stepped 1 a 0 0 ch (ch.addUnreadInCopyBunch chSequence b) := by
  unfold addUnreadInCopyBunch
  cases hfind : ch.inUnreadBunchMap.find? chSequence with
  | some b' => exact ⟨0, Stepped.refl 1 ch⟩
  | none =>
    refine ⟨1, Nat.le_refl 1, Nat.zero_le _, ?_, rfl, ⟨[], (List.append_nil _).symm⟩, ?_, ?_, rfl⟩
    · exact SortedMap.size_insert _ _ hfind
    · intro _ k _ b' hb'
      rw [SortedMap.find?_insert, if_neg]
      · exact hb'
      · rintro rfl
        rw [hfind] at hb'; cases hb'
    · intro _
      rw [SortedMap.find?_insert, if_neg (Ne.symm hne)]
      exact .inr rfl

theorem stepped_takeBunch (ch : NetChannel) (b : InBunchReader) :
    Stepped 1 0 0 (if b.readable then 1 else 0) ch (ch.takeBunch b.buffer b.messageCount).2 := by
  rw [takeBunch_eq]
  refine ⟨Nat.zero_le 1, ?_, rfl, ?_, ⟨b.messages, rfl⟩, fun _ _ _ _ h => h, fun _ => .inr rfl, rfl⟩
  · split_ifs <;> omega
  · cases b.readable <;> rfl

theorem stepped_erase {key : ℕ} {b : InBunchReader} (hb : ch.inUnreadBunchMap.find? key = some b)
    (hkey : key = (ch.inReliable + 1) % 2 ^ 32) : Stepped 0 0 1 (if b.readable then 1 else 0) ch
      { (ch.takeBunch b.buffer b.messageCount).2 with inUnreadBunchMap := ch.inUnreadBunchMap.erase key } := by
  rw [takeBunch_eq]
  refine ⟨Nat.le_refl 0, ?_, ?_, ?_, ⟨b.messages, rfl⟩, ?_, ?_, rfl⟩
  · split_ifs <;> omega
  · exact SortedMap.size_erase _ hb
  · cases b.readable <;> rfl
  · intro _ k hk b' hb'
    rw [SortedMap.find?_erase, if_neg (by rw [hkey]; exact hk)]
    exact hb'
  · intro _
    rw [SortedMap.find?_erase, if_pos hkey.symm]
    exact .inl rfl

def drainReady (ch : NetChannel) : Bool :=
  ch.bReliable && (ch.inUnreadBunchMap.begin?.map Prod.fst == some ((ch.inReliable + 1) % 2 ^ 32))

theorem drain_of_not_ready (h : ch.drainReady = false) (fuel : ℕ) : drain fuel ch = ch := by
  cases fuel with
  | zero => rfl
  | succ fuel =>
    rw [drain]
    cases hbegin : ch.inUnreadBunchMap.begin? with
    | none => rfl
    | some entry =>
      obtain ⟨key, b⟩ := entry
      have hfalse : (ch.bReliable && key == (ch.inReliable + 1) % 2 ^ 32) = false := by
        simpa [drainReady, hbegin] using h
      simp only [hfalse, Bool.false_eq_true, if_false]

/-- A drain that begins takes an entry out of the buffer for good. -/
theorem drain_of_ready (h : ch.drainReady = true) (fuel : ℕ) : ∃ key b, key = (ch.inReliable + 1) % 2 ^ 32 ∧
    ch.inUnreadBunchMap.find? key = some b ∧ drain (fuel + 1) ch =
      (let next := { (ch.takeBunch b.buffer b.messageCount).2 with inUnreadBunchMap := ch.inUnreadBunchMap.erase key }
      if b.readable then drain fuel next else next) := by
  rw [drainReady, Bool.and_eq_true] at h
  obtain ⟨hrel, hkey⟩ := h
  cases hbegin : ch.inUnreadBunchMap.begin? with
  | none => rw [hbegin] at hkey; cases hkey
  | some entry =>
    obtain ⟨key, b⟩ := entry
    have hkey : key = (ch.inReliable + 1) % 2 ^ 32 := by simpa [hbegin] using hkey
    refine ⟨key, b, hkey, SortedMap.find?_of_begin? _ hbegin, ?_⟩
    rw [drain, hbegin]
    simp only [hrel, hkey, beq_self_eq_true, Bool.and_self, if_true, takeBunch_eq]

theorem stepped_drain : ∀ (fuel : ℕ) (ch : NetChannel), ∃ e t, Stepped 0 0 e t ch (drain fuel ch)
  | 0, ch => ⟨0, 0, Stepped.refl 0 ch⟩
  | fuel + 1, ch => by
    cases hready : ch.drainReady with
    | false =>
      rw [drain_of_not_ready hready]
      exact ⟨0, 0, Stepped.refl 0 ch⟩
    | true =>
      obtain ⟨key, b, hkey, hfind, he⟩ := drain_of_ready hready fuel
      have hone := stepped_erase hfind hkey
      rw [he]
      cases hread : b.readable with
      | true =>
        obtain ⟨e, t, hrest⟩ := stepped_drain fuel
          { (ch.takeBunch b.buffer b.messageCount).2 with inUnreadBunchMap := ch.inUnreadBunchMap.erase key }
        exact ⟨_, _, hone.trans hrest⟩
      | false => exact ⟨_, _, hone⟩

theorem stepped_dispatchRawBunch (ch : NetChannel) (b : InBunchReader) :
    ∃ e t, Stepped 1 0 e t ch (ch.dispatchRawBunch b.buffer b.messageCount) := by
  obtain ⟨e, t, hdrain⟩ := stepped_drain (ch.takeBunch b.buffer b.messageCount).2.inUnreadBunchMap.size
    (ch.takeBunch b.buffer b.messageCount).2
  have := (stepped_takeBunch ch b).trans hdrain
  rw [Nat.zero_add] at this
  exact ⟨_, _, this⟩

/-- A bunch in its turn changes nothing exactly where nothing of it can be read and nothing waits behind it. -/
theorem dispatchRawBunch_eq_self_iff (ch : NetChannel) (b : InBunchReader) :
    ch.dispatchRawBunch b.buffer b.messageCount = ch ↔ b.readable = false ∧ b.messages = [] ∧ ch.drainReady = false := by
  constructor
  · intro h
    obtain ⟨e, t, hdrain⟩ := stepped_drain (ch.takeBunch b.buffer b.messageCount).2.inUnreadBunchMap.size
      (ch.takeBunch b.buffer b.messageCount).2
    have hback : Stepped 0 0 e t (ch.takeBunch b.buffer b.messageCount).2 ch := by
      have hd : drain (ch.takeBunch b.buffer b.messageCount).2.inUnreadBunchMap.size
        (ch.takeBunch b.buffer b.messageCount).2 = ch := h
      rwa [hd] at hdrain
    have hsame := (stepped_takeBunch ch b).eq_of_back hback (by decide)
    rw [takeBunch_eq] at hsame
    have hread : b.readable = false := by
      by_contra hne
      have hne : b.readable = true := by simpa using hne
      have := congrArg NetChannel.inReliable hsame
      simp only [hne, if_true] at this
      omega
    have hmsg : b.messages = [] := by
      have hrec : ch.receivedMessages ++ b.messages = ch.receivedMessages := congrArg NetChannel.receivedMessages hsame
      exact List.append_cancel_left (hrec.trans (List.append_nil _).symm)
    refine ⟨hread, hmsg, ?_⟩
    by_contra hne
    have hready : ch.drainReady = true := by simpa using hne
    have hd : drain ch.inUnreadBunchMap.size ch = ch := by
      rw [dispatchRawBunch_eq, hread, hmsg] at h
      simpa using h
    -- the drain has taken an entry that is still there
    obtain ⟨key, b', hkey, hfind, -⟩ := drain_of_ready hready 0
    obtain ⟨m, hm⟩ : ∃ m, ch.inUnreadBunchMap.size = m + 1 := ⟨_, (SortedMap.size_erase _ hfind).symm⟩
    rw [hm] at hd
    obtain ⟨key, b', hkey, hfind, he⟩ := drain_of_ready hready m
    have hone := stepped_erase hfind hkey
    rw [he] at hd
    have hnext : { (ch.takeBunch b'.buffer b'.messageCount).2 with inUnreadBunchMap := ch.inUnreadBunchMap.erase key } = ch := by
      cases hr : b'.readable with
      | true =>
        rw [hr] at hd
        obtain ⟨e', t', hrest⟩ := stepped_drain m
          { (ch.takeBunch b'.buffer b'.messageCount).2 with inUnreadBunchMap := ch.inUnreadBunchMap.erase key }
        have hd : drain m { (ch.takeBunch b'.buffer b'.messageCount).2 with
          inUnreadBunchMap := ch.inUnreadBunchMap.erase key } = ch := hd
        rw [hd] at hrest
        exact hone.eq_of_back hrest (by decide)
      | false =>
        rw [hr] at hd
        exact hd
    have hgone := congrArg (fun ch => ch.inUnreadBunchMap.find? key) hnext
    simp only [SortedMap.find?_erase, if_true] at hgone
    rw [hfind] at hgone
    cases hgone
  · rintro ⟨hread, hmsg, hready⟩
    rw [dispatchRawBunch_eq, hread, hmsg]
    have hsame : ({ ch with
        receivedMessages := ch.receivedMessages ++ []
        inReliable := if false = true then (ch.inReliable + 1) % 2 ^ 32 else ch.inReliable } : NetChannel) = ch := by
      rw [List.append_nil]; rfl
    rw [hsame]
    exact drain_of_not_ready hready _

end NetChannel

end RudpEngine
