import RudpEngine.AckedContent
import RudpEngine.Transit

/-!
# Bunches in their turn

The receiving side of a channel against the list of all bunches its peer has
sealed: `InReliable` counts how many of them were taken, each in its turn, and
the reorder buffer holds others of them under their own numbers. This is kept
as long as every bunch comes within half of `MAX_CHSEQUENCE` of `InReliable`,
where its number is read as it was sent.
-/

namespace RudpEngine

open ChannelBunchBuilder NetConnection NetConnection.Assembling

def OutReadyBunch.chSequence (b : OutReadyBunch) : ℕ := b.received.1.chSequence

/-- The number is read as it was sent exactly within the half range of the reference. -/
theorem makeRelative_eq_self_iff (k r : ℤ) :
    makeRelative k r maxChSequence = k ↔ k < r + 512 ∧ r ≤ k + 512 := by
  have hmax : (maxChSequence : ℤ) = 1024 := rfl
  unfold makeRelative bestSignedDifference
  rw [hmax]
  omega

/-! ## What was sealed -/

/-- The bunches of channel `i` in the order of their numbers, the first one behind `r₀`. -/
structure Issued (i r₀ : ℕ) (l : List OutReadyBunch) : Prop where
  chIndex : i ≤ 1
  bound : r₀ + l.length < 2 ^ 32
  bunch : ∀ (idx : ℕ) (b : OutReadyBunch), l[idx]? = some b →
    ∃ ms payload, b = channelBunch i (r₀ + idx + 1) ms payload ∧ Measured ms payload

section
variable {i r₀ idx : ℕ} {l : List OutReadyBunch} {b : OutReadyBunch}

theorem Issued.lt (h : Issued i r₀ l) (hb : l[idx]? = some b) : idx < l.length ∧ r₀ + idx + 1 < 2 ^ 32 := by
  have hlt := (List.getElem?_eq_some_iff.mp hb).1
  have := h.bound
  omega

theorem Issued.numbered (h : Issued i r₀ l) (hb : l[idx]? = some b) : Numbered b := by
  obtain ⟨ms, payload, he, hm⟩ := h.bunch idx b hb
  exact ⟨i, _, ms, payload, h.chIndex, (h.lt hb).2, hm, he⟩

theorem Issued.received (h : Issued i r₀ l) (hb : l[idx]? = some b) : ∃ payload, b.received =
    (⟨true, true, false, true, i, r₀ + idx + 1, b.messages.length, payload⟩, b.messages.flatMap NetMessage.buffer) := by
  obtain ⟨ms, payload, rfl, hm⟩ := h.bunch idx b hb
  exact ⟨payload, received_channelBunch hm h.chIndex (h.lt hb).2⟩

theorem Issued.chSequence (h : Issued i r₀ l) (hb : l[idx]? = some b) : b.chSequence = r₀ + idx + 1 := by
  obtain ⟨payload, he⟩ := h.received hb
  rw [OutReadyBunch.chSequence, he]

theorem Issued.header_chIndex (h : Issued i r₀ l) (hb : l[idx]? = some b) : b.received.1.chIndex = i := by
  obtain ⟨payload, he⟩ := h.received hb
  rw [he]

end

/-! ## What was taken -/

/-- The receiving side of channel `i` that has taken the first `n` of the bunches `l`. -/
structure Taken (i r₀ : ℕ) (l : List OutReadyBunch) (n : ℕ) (ch : NetChannel) : Prop where
  chIndex : ch.chIndex = i
  bReliable : ch.bReliable = true
  le : n ≤ l.length
  inReliable : ch.inReliable = r₀ + n
  kept : ∀ b ∈ l.take n, kept b = true
  received : (∀ b ∈ l, ∀ m ∈ b.messages, m.Framed) →
    ch.receivedMessages = ((l.take n).flatMap OutReadyBunch.messages).map NetMessage.received
  waiting : ∀ k x, ch.inUnreadBunchMap.find? k = some x → ∃ (idx : ℕ) (b : OutReadyBunch), l[idx]? = some b ∧
    Assembling.kept b = true ∧ k = r₀ + idx + 1 ∧ x.buffer = b.received.2 ∧ x.messageCount = b.received.1.messageCount

namespace Taken

variable {i r₀ n : ℕ} {l : List OutReadyBunch} {ch ch' : NetChannel}

theorem of_same (h : Taken i r₀ l n ch) (h1 : ch'.chIndex = ch.chIndex) (h2 : ch'.bReliable = ch.bReliable)
    (h3 : ch'.inReliable = ch.inReliable) (h4 : ch'.receivedMessages = ch.receivedMessages)
    (h5 : ch'.inUnreadBunchMap = ch.inUnreadBunchMap) : Taken i r₀ l n ch' := by
  constructor
  · rw [h1, h.chIndex]
  · rw [h2, h.bReliable]
  · exact h.le
  · rw [h3, h.inReliable]
  · exact h.kept
  · rw [h4]; exact h.received
  · rw [h5]; exact h.waiting

theorem append (h : Taken i r₀ l n ch) (new : List OutReadyBunch) : Taken i r₀ (l ++ new) n ch := by
  have htake : (l ++ new).take n = l.take n := List.take_append_of_le_length h.le
  refine ⟨h.chIndex, h.bReliable, ?_, h.inReliable, ?_, ?_, ?_⟩
  · rw [List.length_append]
    exact Nat.le_add_right_of_le h.le
  · rw [htake]; exact h.kept
  · intro hframed
    rw [htake]
    exact h.received fun b hb => hframed b (List.mem_append_left new hb)
  · intro k x hx
    obtain ⟨idx, b, hb, hrest⟩ := h.waiting k x hx
    exact ⟨idx, b, (List.getElem?_append_left (List.getElem?_eq_some_iff.mp hb).1).trans hb, hrest⟩

theorem erase (h : Taken i r₀ l n ch) (key : ℕ) :
    Taken i r₀ l n { ch with inUnreadBunchMap := ch.inUnreadBunchMap.erase key } := by
  refine ⟨h.chIndex, h.bReliable, h.le, h.inReliable, h.kept, h.received, ?_⟩
  intro k x hx
  rw [SortedMap.find?_erase] at hx
  split_ifs at hx
  exact h.waiting k x hx

variable {b : OutReadyBunch} {x : InBunchReader}

/-- The bunch that is next is taken, and counts if its messages can be read. -/
theorem takeBunch (hl : Issued i r₀ l) (h : Taken i r₀ l n ch) (hb : l[n]? = some b) (hk : Assembling.kept b = true)
    (hview : x.buffer = b.received.2) (hcount : x.messageCount = b.received.1.messageCount) :
    ∃ n', n ≤ n' ∧ Taken i r₀ l n' (ch.takeBunch x.buffer x.messageCount).2 := by
  have hlt := hl.lt hb
  have hframed : (∀ m ∈ b.messages, m.Framed) → x.readable = true ∧ x.messages = b.messages.map NetMessage.received := by
    intro hm
    obtain ⟨payload, he⟩ := hl.received hb
    have hread := NetChannel.readMessages_framed b.messages hm []
    rw [List.append_nil] at hread
    unfold InBunchReader.readable InBunchReader.messages
    rw [hview, hcount, he]
    simp only [hread, and_self]
  have htake : l.take (n + 1) = l.take n ++ [b] := by
    obtain ⟨hn, hget⟩ := List.getElem?_eq_some_iff.mp hb
    rw [List.take_add_one, hb]
    rfl
  rw [NetChannel.takeBunch_eq]
  cases hread : x.readable with
  | true =>
    refine ⟨n + 1, Nat.le_succ n, h.chIndex, h.bReliable, hlt.1, ?_, ?_, ?_, h.waiting⟩
    · show (ch.inReliable + 1) % 2 ^ 32 = r₀ + (n + 1)
      rw [h.inReliable]
      exact Nat.mod_eq_of_lt hlt.2
    · rw [htake]
      intro y hy
      rcases List.mem_append.mp hy with hy | hy
      · exact h.kept y hy
      · obtain rfl := List.mem_singleton.mp hy
        exact hk
    · intro hall
      obtain ⟨-, hmsgs⟩ := hframed (hall b (List.mem_of_getElem? hb))
      show ch.receivedMessages ++ x.messages = _
      rw [h.received hall, hmsgs, htake, List.flatMap_append, List.map_append, List.flatMap_singleton]
  | false =>
    refine ⟨n, Nat.le_refl n, h.chIndex, h.bReliable, h.le, h.inReliable, h.kept, ?_, h.waiting⟩
    intro hall
    obtain ⟨hyes, -⟩ := hframed (hall b (List.mem_of_getElem? hb))
    rw [hread] at hyes
    cases hyes

theorem next_waiting (hl : Issued i r₀ l) (h : Taken i r₀ l n ch) {key : ℕ} (hkey : key = (ch.inReliable + 1) % 2 ^ 32)
    (hx : ch.inUnreadBunchMap.find? key = some x) : ∃ b, l[n]? = some b ∧ Assembling.kept b = true ∧
      x.buffer = b.received.2 ∧ x.messageCount = b.received.1.messageCount := by
  obtain ⟨idx, b, hb, hk, hnumber, hview, hcount⟩ := h.waiting key x hx
  have hlt := hl.lt hb
  have hle := h.le
  have hbound := hl.bound
  rw [h.inReliable] at hkey
  obtain rfl : idx = n := by omega
  exact ⟨b, hb, hk, hview, hcount⟩

theorem drain (hl : Issued i r₀ l) : ∀ (fuel n : ℕ) (ch : NetChannel), Taken i r₀ l n ch →
    ∃ n', n ≤ n' ∧ Taken i r₀ l n' (NetChannel.drain fuel ch)
  | 0, n, _, h => ⟨n, Nat.le_refl n, h⟩
  | fuel + 1, n, ch, h => by
    cases hready : ch.drainReady with
    | false =>
      rw [NetChannel.drain_of_not_ready hready]
      exact ⟨n, Nat.le_refl n, h⟩
    | true =>
      obtain ⟨key, x, hkey, hfind, he⟩ := NetChannel.drain_of_ready hready fuel
      obtain ⟨b, hb, hk, hview, hcount⟩ := h.next_waiting hl hkey hfind
      obtain ⟨n₁, hle₁, htaken⟩ := h.takeBunch hl hb hk hview hcount
      have hnext := htaken.erase key
      rw [he]
      cases x.readable with
      | true =>
        obtain ⟨n₂, hle₂, hrest⟩ := drain hl fuel n₁ _ hnext
        exact ⟨n₂, hle₁.trans hle₂, hrest⟩
      | false => exact ⟨n₁, hle₁, hnext⟩

theorem dispatch (hl : Issued i r₀ l) (h : Taken i r₀ l n ch) {idx : ℕ} (hb : l[idx]? = some b)
    (hk : Assembling.kept b = true) (hnumber : bunchSequence b.received.1 ch = r₀ + idx + 1) :
    ∃ ch' n', NetConnection.takeBunch b.received.1 b.received.2 ch = some ch' ∧ n ≤ n' ∧ Taken i r₀ l n' ch' := by
  have hlt := hl.lt hb
  obtain ⟨payload, he⟩ := hl.received hb
  have hreliable : b.received.1.bReliable = true := by rw [he]
  unfold NetConnection.takeBunch
  simp only [hnumber, hreliable, Bool.true_and, decide_eq_true_eq]
  split_ifs with hwait hindex
  · -- behind a gap
    refine ⟨_, n, rfl, Nat.le_refl n, ?_⟩
    unfold NetChannel.addUnreadInCopyBunch
    cases hfind : ch.inUnreadBunchMap.find? (r₀ + idx + 1) with
    | some y => exact h
    | none =>
      refine ⟨h.chIndex, h.bReliable, h.le, h.inReliable, h.kept, h.received, ?_⟩
      intro k x hx
      rw [SortedMap.find?_insert] at hx
      split_ifs at hx with hkey
      · obtain rfl := Option.some.inj hx
        exact ⟨idx, b, hb, hk, hkey, rfl, rfl⟩
      · exact h.waiting k x hx
  · have hnext : r₀ + idx + 1 = (ch.inReliable + 1) % 2 ^ 32 := by simpa using hwait
    have hle := h.le
    have hbound := hl.bound
    rw [h.inReliable] at hnext
    obtain rfl : idx = n := by omega
    obtain ⟨n₁, hle₁, htaken⟩ := h.takeBunch hl hb hk (x := ⟨b.received.2, 0, b.received.1.messageCount⟩) rfl rfl
    obtain ⟨n₂, hle₂, hrest⟩ := Taken.drain hl ch.inUnreadBunchMap.size n₁ _ htaken
    exact ⟨_, n₂, rfl, hle₁.trans hle₂, hrest⟩
  · exact absurd (h.chIndex.trans_le hl.chIndex) hindex

end Taken

/-! ## A connection that takes bunches -/

def NetChannel.ReceiveMoved (ch ch' : NetChannel) : Prop :=
  ch' = { ch with
    inReliable := ch'.inReliable
    receivedMessages := ch'.receivedMessages
    inUnreadBunchMap := ch'.inUnreadBunchMap }

theorem NetChannel.ReceiveMoved.refl (ch : NetChannel) : ch.ReceiveMoved ch := rfl

theorem NetChannel.ReceiveMoved.trans (ch ch' ch'' : NetChannel) (h : ch.ReceiveMoved ch') (h' : ch'.ReceiveMoved ch'') :
    ch.ReceiveMoved ch'' := by
  unfold NetChannel.ReceiveMoved at h h' ⊢
  rw [h', h]

namespace NetConnection

theorem dispatchBunch_of_taken {c : NetConnection} {header : InBunchHeader} {view : List Byte}
    {ch ch' : NetChannel}
    (hch : c.channel? header.chIndex = some ch) (htake : takeBunch header view ch = some ch') :
    c.dispatchBunch header view = (c.setChannel header.chIndex ch', true) := by
  unfold dispatchBunch
  simp only [findOrCreate_of_some hch, hch, htake]

section
variable {c : NetConnection} (hpresent : ∀ i ≤ 1, ∃ ch, c.channel? i = some ch)
include hpresent

theorem dispatchBunch_related (header : InBunchHeader) (view : List Byte) :
    ChannelsRelated NetChannel.ReceiveMoved c (c.dispatchBunch header view).1 := by
  have hfound : c.findOrCreateChannel header = c := by
    unfold findOrCreateChannel
    cases hch : c.channel? header.chIndex with
    | some ch => rfl
    | none =>
      have hindex : ¬ header.chIndex ≤ 1 := by
        intro hi
        obtain ⟨ch, hsome⟩ := hpresent _ hi
        rw [hch] at hsome
        cases hsome
      simp only [hindex, decide_false, Bool.and_false, Bool.false_eq_true, if_false]
  have hsame : ∀ go : Bool, c.dispatchBunch header view = (c, go) →
      ChannelsRelated NetChannel.ReceiveMoved c (c.dispatchBunch header view).1 := by
    intro go he
    rw [he]
    exact .same NetChannel.ReceiveMoved.refl rfl
  cases hch : c.channel? header.chIndex with
  | none =>
    apply hsame false
    unfold dispatchBunch
    simp only [hfound, hch]
  | some ch =>
    cases htake : takeBunch header view ch with
    | none =>
      apply hsame (!c.isServer)
      unfold dispatchBunch
      simp only [hfound, hch, htake]
    | some ch' =>
      rw [dispatchBunch_of_taken hch htake]
      obtain ⟨a, e, t, hstep⟩ := takeBunch_stepped htake
      have hset := channel?_setChannel (lt_of_channel? hch) ch'
      refine ⟨length_setChannel _ _, ?_, ?_⟩
      · intro j hj
        rw [hset, if_neg, hj]
        rintro rfl
        rw [hch] at hj
        cases hj
      · intro j ch₀ hj
        rw [hset]
        by_cases hji : j = header.chIndex
        · subst hji
          obtain rfl : ch = ch₀ := Option.some.inj (hch.symm.trans hj)
          exact ⟨ch', if_pos rfl, hstep.rest⟩
        · exact ⟨ch₀, by rw [if_neg hji, hj], NetChannel.ReceiveMoved.refl ch₀⟩

end

theorem ChannelsRelated.present {R : NetChannel → NetChannel → Prop} {c c' : NetConnection} (h : ChannelsRelated R c c')
    (hpresent : ∀ i ≤ 1, ∃ ch, c.channel? i = some ch) : ∀ i ≤ 1, ∃ ch, c'.channel? i = some ch := by
  intro i hi
  obtain ⟨ch, hch⟩ := hpresent i hi
  obtain ⟨ch', hch', -⟩ := h.channel i ch hch
  exact ⟨ch', hch'⟩

theorem dispatchBunches_related : ∀ (bs : List (InBunchHeader × List Byte)) (c : NetConnection),
    (∀ i ≤ 1, ∃ ch, c.channel? i = some ch) → ChannelsRelated NetChannel.ReceiveMoved c (dispatchBunches bs c)
  | [], c, _ => .same NetChannel.ReceiveMoved.refl rfl
  | (header, view) :: bs, c, hpresent => by
    have hone := dispatchBunch_related hpresent header view
    unfold dispatchBunches
    split_ifs
    · exact hone.trans NetChannel.ReceiveMoved.trans (dispatchBunches_related bs _ (hone.present hpresent))
    · exact hone

theorem dispatchPendingPacket_related {c : NetConnection} (hpresent : ∀ i ≤ 1, ∃ ch, c.channel? i = some ch) :
    ChannelsRelated NetChannel.ReceiveMoved c c.dispatchPendingPacket := by
  have hreader : ∀ (c : NetConnection) (r : RecvPacketReader), (∀ i ≤ 1, ∃ ch, c.channel? i = some ch) →
      ChannelsRelated NetChannel.ReceiveMoved c (c.dispatchReader r) := by
    intro c r hc
    by_cases hstate : c.state = .closed
    · rw [dispatchReader_of_closed hstate]
      exact .same NetChannel.ReceiveMoved.refl rfl
    · rw [dispatchReader_eq hstate]
      exact (dispatchBunches_related _ c hc).trans NetChannel.ReceiveMoved.trans (.same NetChannel.ReceiveMoved.refl rfl)
  have hfold : ∀ (rs : List RecvPacketReader) (c : NetConnection), (∀ i ≤ 1, ∃ ch, c.channel? i = some ch) →
      ChannelsRelated NetChannel.ReceiveMoved c (rs.foldl dispatchReader c) := by
    intro rs
    induction rs with
    | nil => exact fun c _ => .same NetChannel.ReceiveMoved.refl rfl
    | cons r rs ih =>
      intro c hc
      have hone := hreader c r hc
      exact hone.trans NetChannel.ReceiveMoved.trans (ih _ (hone.present hc))
  have hstart : ChannelsRelated NetChannel.ReceiveMoved c { c with pendingDispatchPacketReaders := [] } :=
    .same NetChannel.ReceiveMoved.refl rfl
  exact hstart.trans NetChannel.ReceiveMoved.trans (hfold _ _ (hstart.present hpresent))

structure Takes (r₀ : ℕ) (l : ℕ → List OutReadyBunch) (n : ℕ → ℕ) (c : NetConnection) : Prop where
  length : 2 ≤ c.channels.length
  present : ∀ i ≤ 1, ∃ ch, c.channel? i = some ch
  issued : ∀ i ≤ 1, Issued i r₀ (l i)
  channel : ∀ i ch, c.channel? i = some ch → Taken i r₀ (l i) (n i) ch

def BunchNear (c : NetConnection) (header : InBunchHeader) (_ : List Byte) : Prop :=
  ∀ ch, c.channel? header.chIndex = some ch →
    header.chSequence < ch.inReliable + 512 ∧ ch.inReliable ≤ header.chSequence + 512

def Sent (l : ℕ → List OutReadyBunch) (b : OutReadyBunch) : Prop :=
  b.chIndex ≤ 1 ∧ kept b = true ∧ ∃ idx : ℕ, (l b.chIndex)[idx]? = some b

variable {r₀ : ℕ} {l : ℕ → List OutReadyBunch} {n : ℕ → ℕ} {c : NetConnection} {b : OutReadyBunch}

theorem Takes.dispatchBunch (h : Takes r₀ l n c) (hb : Sent l b) (hnear : c.BunchNear b.received.1 b.received.2) :
    ∃ n', n ≤ n' ∧ Takes r₀ l n' (c.dispatchBunch b.received.1 b.received.2).1 := by
  obtain ⟨hi, hk, idx, hget⟩ := hb
  have hl := h.issued _ hi
  have hindex := hl.header_chIndex hget
  have hnumber := hl.chSequence hget
  obtain ⟨ch, hch⟩ := h.present _ hi
  rw [← hindex] at hch
  have htaken := h.channel _ ch (hindex ▸ hch)
  -- the number is read as it was sent
  obtain ⟨hlo, hhi⟩ := hnear ch hch
  have hseq : bunchSequence b.received.1 ch = r₀ + idx + 1 := by
    obtain ⟨payload, he⟩ := hl.received hget
    have hrel : b.received.1.bReliable = true := by rw [he]
    have hself := (makeRelative_eq_self_iff b.received.1.chSequence ch.inReliable).mpr ⟨by omega, by omega⟩
    have hlt := (hl.lt hget).2
    rw [OutReadyBunch.chSequence] at hnumber
    rw [bunchSequence, if_pos hrel, hself, hnumber]
    omega
  obtain ⟨ch', n₁, htake, hle, hnext⟩ := htaken.dispatch hl hget hk hseq
  rw [dispatchBunch_of_taken hch htake]
  have hset := channel?_setChannel (lt_of_channel? hch) ch'
  refine ⟨Function.update n b.chIndex n₁, ?_, ?_, ?_, h.issued, ?_⟩
  · intro j
    by_cases hj : j = b.chIndex
    · subst hj
      rw [Function.update_self]
      exact hle
    · rw [Function.update_of_ne hj]
  · exact h.length.trans_eq (length_setChannel _ _).symm
  · intro j hj
    rw [hset]
    split_ifs
    · exact ⟨ch', rfl⟩
    · exact h.present j hj
  · intro j ch₀ hj
    rw [hset, hindex] at hj
    by_cases hji : j = b.chIndex
    · subst hji
      rw [if_pos rfl] at hj
      obtain rfl := Option.some.inj hj
      rw [Function.update_self]
      exact hnext
    · rw [if_neg hji] at hj
      rw [Function.update_of_ne hji]
      exact h.channel j ch₀ hj

theorem Takes.dispatchBunches : ∀ (bs : List OutReadyBunch) (n : ℕ → ℕ) (c : NetConnection), Takes r₀ l n c →
    (∀ b ∈ bs, Sent l b) → BunchesMeet BunchNear (bs.map OutReadyBunch.received) c →
      ∃ n', n ≤ n' ∧ Takes r₀ l n' (dispatchBunches (bs.map OutReadyBunch.received) c)
  | [], n, c, h, _, _ => ⟨n, le_refl n, h⟩
  | b :: bs, n, c, h, hbs, hnear => by
    obtain ⟨n₁, hle₁, hone⟩ := h.dispatchBunch (hbs b (List.mem_cons_self ..)) hnear.1
    rw [List.map_cons]
    unfold NetConnection.dispatchBunches
    cases hgo : (c.dispatchBunch b.received.1 b.received.2).2 with
    | true =>
      obtain ⟨n₂, hle₂, hrest⟩ := Takes.dispatchBunches bs n₁ _ hone
        (fun x hx => hbs x (List.mem_cons_of_mem _ hx)) (hnear.2 hgo)
      exact ⟨n₂, hle₁.trans hle₂, hrest⟩
    | false => exact ⟨n₁, hle₁, hone⟩

def PayloadSent (l : ℕ → List OutReadyBunch) (payload : List Byte) : Prop :=
  ∃ bs : List OutReadyBunch, (∀ b ∈ bs, Sent l b) ∧ payload = bs.flatMap OutReadyBunch.bytes

theorem Takes.numbered (h : Takes r₀ l n c) (hb : Sent l b) : Numbered b := by
  obtain ⟨hi, -, idx, hget⟩ := hb
  exact (h.issued _ hi).numbered hget

theorem Takes.payloadBunches (h : Takes r₀ l n c) {bs : List OutReadyBunch} (hbs : ∀ b ∈ bs, Sent l b) :
    c.payloadBunches (bs.flatMap OutReadyBunch.bytes) = bs.map OutReadyBunch.received :=
  payloadBunches_numbered h.length fun b hb => h.numbered (hbs b hb)

theorem Takes.congr {c' : NetConnection} (h : Takes r₀ l n c) (hch : c'.channels = c.channels) : Takes r₀ l n c' := by
  have hsame : ∀ i, c'.channel? i = c.channel? i := fun i => by rw [channel?, channel?, hch]
  refine ⟨by rw [hch]; exact h.length, ?_, h.issued, ?_⟩
  · intro i hi
    rw [hsame]
    exact h.present i hi
  · intro i ch hi
    rw [hsame] at hi
    exact h.channel i ch hi

theorem Takes.dispatchReader (h : Takes r₀ l n c) {r : RecvPacketReader} (hr : PayloadSent l r.payload)
    (hnear : BunchesMeet BunchNear (c.payloadBunches r.payload) c) : ∃ n', n ≤ n' ∧
      Takes r₀ l n' (c.dispatchReader r) := by
  obtain ⟨bs, hbs, hpayload⟩ := hr
  by_cases hstate : c.state = .closed
  · rw [dispatchReader_of_closed hstate]
    exact ⟨n, le_refl n, h.congr rfl⟩
  · rw [hpayload, h.payloadBunches hbs] at hnear
    rw [dispatchReader_eq hstate, hpayload, h.payloadBunches hbs]
    obtain ⟨n', hle, hnext⟩ := Takes.dispatchBunches bs n c h hbs hnear
    exact ⟨n', hle, hnext.congr rfl⟩

theorem atTurn_succ {k : ℕ} {r : RecvPacketReader} (hk : c.pendingDispatchPacketReaders[k]? = some r) :
    c.atTurn (k + 1) = (c.atTurn k).dispatchReader r := by
  rw [atTurn, List.take_add_one, hk, List.foldl_append]
  rfl

/-- `DispatchPendingPacket`, where every bunch of every payload is near at its turn. -/
theorem Takes.dispatchPendingPacket (h : Takes r₀ l n c)
    (hpending : ∀ r ∈ c.pendingDispatchPacketReaders, PayloadSent l r.payload)
    (hnear : ∀ (k : ℕ) (r : RecvPacketReader) (n' : ℕ → ℕ), c.pendingDispatchPacketReaders[k]? = some r → n ≤ n' →
      Takes r₀ l n' (c.atTurn k) → BunchesMeet BunchNear ((c.atTurn k).payloadBunches r.payload) (c.atTurn k)) :
    ∃ n', n ≤ n' ∧ Takes r₀ l n' c.dispatchPendingPacket := by
  have hturn : ∀ k ≤ c.pendingDispatchPacketReaders.length, ∃ n', n ≤ n' ∧ Takes r₀ l n' (c.atTurn k) := by
    intro k
    induction k with
    | zero => exact fun _ => ⟨n, le_refl n, h.congr rfl⟩
    | succ k ih =>
      intro hk
      obtain ⟨r, hr⟩ : ∃ r, c.pendingDispatchPacketReaders[k]? = some r := ⟨_, List.getElem?_eq_getElem hk⟩
      obtain ⟨n₁, hle₁, hbefore⟩ := ih (Nat.le_of_succ_le hk)
      obtain ⟨n₂, hle₂, hafter⟩ := hbefore.dispatchReader (hpending r (List.mem_of_getElem? hr))
        (hnear k r n₁ hr hle₁ hbefore)
      rw [atTurn_succ hr]
      exact ⟨n₂, hle₁.trans hle₂, hafter⟩
  have hall := hturn _ (Nat.le_refl _)
  rw [atTurn, List.take_length] at hall
  exact hall

/-- All bunches are near, at any turn, where each is above the half range below the last one sealed and within the half
range above what was taken first. -/
theorem Takes.bunchesMeet_near : ∀ (bs : List OutReadyBunch) (n' : ℕ → ℕ) (c : NetConnection), Takes r₀ l n' c → n ≤ n' →
    (∀ b ∈ bs, Sent l b ∧ b.chSequence < r₀ + n b.chIndex + 512 ∧ r₀ + (l b.chIndex).length ≤ b.chSequence + 512) →
      BunchesMeet BunchNear (bs.map OutReadyBunch.received) c
  | [], _, _, _, _, _ => trivial
  | b :: bs, n', c, h, hle, hbs => by
    obtain ⟨hsent, hlo, hhi⟩ := hbs b (List.mem_cons_self ..)
    have hnear : c.BunchNear b.received.1 b.received.2 := by
      intro ch hch
      obtain ⟨hi, -, idx, hget⟩ := hsent
      rw [(h.issued _ hi).header_chIndex hget] at hch
      have htaken := h.channel _ ch hch
      have hnumber := htaken.inReliable
      have htop := htaken.le
      have hmono : n b.chIndex ≤ n' b.chIndex := hle b.chIndex
      rw [OutReadyBunch.chSequence] at hlo hhi
      omega
    obtain ⟨n₁, hle₁, hnext⟩ := h.dispatchBunch hsent hnear
    exact ⟨hnear, fun _ => Takes.bunchesMeet_near bs n₁ _ hnext (hle.trans hle₁) fun x hx => hbs x (List.mem_cons_of_mem _ hx)⟩

end NetConnection

end RudpEngine
