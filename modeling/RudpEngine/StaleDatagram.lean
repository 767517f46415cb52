import RudpEngine.InitSequence
import RudpEngine.Stepped

/-!
# Stale datagrams

`ReceivedPacket` queues the payload of every datagram outside the flush mode,
also where the header's delta is zero. So a stale datagram is dispatched like
any other, and it is inert only where each of its bunches is.
-/

namespace RudpEngine

namespace NetConnection

variable {c : NetConnection}

/-! ## Inert bunches -/

/-- The bunch changes nothing: it has no channel and none is made for it; or it is kept already; or it is next, but
nothing of it can be read and nothing waits behind it; or its channel takes no bunches. -/
def BunchInert (c : NetConnection) (header : InBunchHeader) (view : List Byte) : Prop :=
  match c.channel? header.chIndex with
  | none => ((header.bReliable || header.bOpen) && decide (header.chIndex ≤ 1)) = false
  | some ch =>
    if header.bReliable && decide (bunchSequence header ch ≠ (ch.inReliable + 1) % 2 ^ 32) then
      (ch.inUnreadBunchMap.find? (bunchSequence header ch)).isSome = true
    else
      1 < ch.chIndex ∨ InBunchReader.readable ⟨view, 0, header.messageCount⟩ = false ∧
        InBunchReader.messages ⟨view, 0, header.messageCount⟩ = [] ∧ ch.drainReady = false

theorem setChannel_self {i : ℕ} {ch : NetChannel} (h : c.channel? i = some ch) : c.setChannel i ch = c := by
  have hget : c.channels[i]? = some (some ch) := by
    rw [channel?] at h
    cases ho : c.channels[i]? with
    | none => rw [ho] at h; cases h
    | some o =>
      rw [ho] at h
      exact congrArg some h
  have hset : c.channels.set i (some ch) = c.channels := by
    apply List.ext_getElem?
    intro j
    rw [List.getElem?_set]
    by_cases hj : i = j
    · subst hj
      rw [if_pos rfl, if_pos (lt_of_channel? h), hget]
    · rw [if_neg hj]
  rw [setChannel, hset]

theorem findOrCreate_of_some {header : InBunchHeader} {ch : NetChannel} (h : c.channel? header.chIndex = some ch) :
    c.findOrCreateChannel header = c := by
  rw [findOrCreateChannel, h]

theorem takeBunch_inert_iff {header : InBunchHeader} {view : List Byte} {ch : NetChannel} :
    (∀ ch', takeBunch header view ch = some ch' → ch' = ch) ↔
      if header.bReliable && decide (bunchSequence header ch ≠ (ch.inReliable + 1) % 2 ^ 32) then
        (ch.inUnreadBunchMap.find? (bunchSequence header ch)).isSome = true
      else
        1 < ch.chIndex ∨ InBunchReader.readable ⟨view, 0, header.messageCount⟩ = false ∧
          InBunchReader.messages ⟨view, 0, header.messageCount⟩ = [] ∧ ch.drainReady = false := by
  have hraw := NetChannel.dispatchRawBunch_eq_self_iff ch ⟨view, 0, header.messageCount⟩
  unfold takeBunch
  simp only
  cases hwait : header.bReliable && decide (bunchSequence header ch ≠ (ch.inReliable + 1) % 2 ^ 32) with
  | true =>
    simp only [if_true, Option.some.injEq, forall_eq']
    unfold NetChannel.addUnreadInCopyBunch
    cases hfind : ch.inUnreadBunchMap.find? (bunchSequence header ch) with
    | some b => simp
    | none =>
      simp only [Option.isSome_none, Bool.false_eq_true, iff_false]
      intro h
      have := congrArg (fun ch => ch.inUnreadBunchMap.size) h
      simp only [SortedMap.size_insert _ _ hfind] at this
      omega
  | false =>
    simp only [Bool.false_eq_true, if_false]
    split_ifs with hidx
    · simp only [Option.some.injEq, forall_eq']
      rw [hraw]
      constructor
      · exact .inr
      · exact fun h => h.resolve_left (by omega)
    · exact ⟨fun _ => .inl (by omega), fun _ _ h => by cases h⟩

/-- The channels after a bunch are those before it exactly where the bunch is inert. -/
theorem dispatchBunch_eq_self_iff (c : NetConnection) {header : InBunchHeader} (view : List Byte)
    (hlt : header.chIndex < c.channels.length) : (c.dispatchBunch header view).1 = c ↔ c.BunchInert header view := by
  unfold dispatchBunch BunchInert
  cases hch : c.channel? header.chIndex with
  | none =>
    simp only
    unfold findOrCreateChannel
    rw [hch]
    simp only
    split_ifs with hname
    · simp only [hname, Bool.true_eq_false, iff_false]
      have hnew := channel?_setChannel (c := c) hlt (NetChannel.init header.chIndex c.initInReliable c.initOutReliable)
        header.chIndex
      rw [if_pos rfl] at hnew
      intro h
      have hsome : ∃ ch, c.channel? header.chIndex = some ch := by
        have hnew : (c.createChannelByName header.chIndex).channel? header.chIndex = some _ := hnew
        rw [← h]
        simp only [hnew]
        cases takeBunch header view (NetChannel.init header.chIndex c.initInReliable c.initOutReliable) with
        | none => exact ⟨_, hnew⟩
        | some ch' =>
          refine ⟨ch', ?_⟩
          rw [channel?_setChannel (lt_of_channel? hnew), if_pos rfl]
      rw [hch] at hsome
      obtain ⟨_, h⟩ := hsome
      cases h
    · simp [hch, hname]
  | some ch =>
    rw [findOrCreate_of_some hch]
    simp only [hch]
    rw [← takeBunch_inert_iff]
    cases htake : takeBunch header view ch with
    | none => simp
    | some ch' =>
      simp only [Option.some.injEq, forall_eq']
      constructor
      · intro h
        have hset := channel?_setChannel (lt_of_channel? hch) ch' header.chIndex
        rw [if_pos rfl, h, hch] at hset
        exact (Option.some.inj hset).symm
      · rintro rfl
        exact setChannel_self hch

/-! ## A payload -/

theorem bunchesOf_chIndex (n : ℕ) : ∀ (fuel : ℕ) (r : BufferReader), ∀ e ∈ bunchesOf n fuel r, e.1.chIndex < n
  | 0, _, _, he => by cases he
  | fuel + 1, r, e, he => by
    rw [bunchesOf] at he
    cases hread : readBunch n r with
    | none => rw [hread] at he; cases he
    | some b =>
      obtain ⟨header, view, r'⟩ := b
      rw [hread] at he
      cases he with
      | head =>
        unfold readBunch at hread
        simp only at hread
        split_ifs at hread with h1 h2 h3 h4
        obtain ⟨rfl, -⟩ := Prod.mk.inj (Option.some.inj hread)
        exact Nat.lt_of_not_le fun h => h4 (.inr h)
      | tail _ he => exact bunchesOf_chIndex n fuel r' e he

theorem bunchesOf_length (n : ℕ) : ∀ (fuel : ℕ) (r : BufferReader), (bunchesOf n fuel r).length ≤ fuel
  | 0, _ => Nat.le_refl 0
  | fuel + 1, r => by
    rw [bunchesOf]
    cases readBunch n r with
    | none => exact Nat.zero_le _
    | some b => exact Nat.succ_le_succ (bunchesOf_length n fuel _)

def ChannelsStepped (n : ℕ) (c c' : NetConnection) : Prop :=
  ∀ i ch, c.channel? i = some ch → ∃ ch' a e t, c'.channel? i = some ch' ∧ NetChannel.Stepped n a e t ch ch'

theorem takeBunch_stepped {header : InBunchHeader} {view : List Byte} {ch ch' : NetChannel}
    (h : takeBunch header view ch = some ch') : ∃ a e t, NetChannel.Stepped 1 a e t ch ch' := by
  unfold takeBunch at h
  simp only at h
  split_ifs at h with hwait
  · obtain rfl := Option.some.inj h
    simp only [Bool.and_eq_true, decide_eq_true_eq] at hwait
    obtain ⟨a, ha⟩ := NetChannel.stepped_addUnread hwait.2 ⟨view, bunchSequence header ch, header.messageCount⟩
    exact ⟨a, 0, 0, ha⟩
  · obtain rfl := Option.some.inj h
    obtain ⟨e, t, he⟩ := NetChannel.stepped_dispatchRawBunch ch ⟨view, 0, header.messageCount⟩
    exact ⟨0, e, t, he⟩

theorem dispatchBunch_stepped (c : NetConnection) (header : InBunchHeader) (view : List Byte) :
    ChannelsStepped 1 c (c.dispatchBunch header view).1 := by
  intro i ch hi
  have hfound : (c.findOrCreateChannel header).channel? i = some ch := by
    unfold findOrCreateChannel
    cases hch : c.channel? header.chIndex with
    | some ch' => exact hi
    | none =>
      simp only
      split_ifs
      · by_cases hlt : header.chIndex < c.channels.length
        · rw [createChannelByName, channel?_setChannel hlt, if_neg]
          · exact hi
          · rintro rfl
            rw [hch] at hi; cases hi
        · rw [createChannelByName, setChannel, List.set_eq_of_length_le (Nat.le_of_not_lt hlt)]
          exact hi
      · exact hi
  unfold dispatchBunch
  generalize c.findOrCreateChannel header = c' at hfound
  cases hch : c'.channel? header.chIndex with
  | none =>
    simp only [hch]
    exact ⟨ch, 0, 0, 0, hfound, .refl 1 ch⟩
  | some ch₀ =>
    cases htake : takeBunch header view ch₀ with
    | none =>
      simp only [hch, htake]
      exact ⟨ch, 0, 0, 0, hfound, .refl 1 ch⟩
    | some ch' =>
      simp only [hch, htake]
      have hset := channel?_setChannel (lt_of_channel? hch) ch' i
      by_cases hidx : i = header.chIndex
      · subst hidx
        obtain rfl : ch₀ = ch := Option.some.inj (hch.symm.trans hfound)
        obtain ⟨a, e, t, hstep⟩ := takeBunch_stepped htake
        rw [if_pos rfl] at hset
        exact ⟨ch', a, e, t, hset, hstep⟩
      · rw [if_neg hidx, hfound] at hset
        exact ⟨ch, 0, 0, 0, hset, .refl 1 ch⟩

theorem dispatchBunches_stepped : ∀ (bs : List (InBunchHeader × List Byte)) (c : NetConnection),
    ChannelsStepped bs.length c (dispatchBunches bs c)
  | [], c => fun i ch hi => ⟨ch, 0, 0, 0, hi, .refl 0 ch⟩
  | (header, view) :: bs, c => by
    intro i ch hi
    obtain ⟨ch₁, a, e, t, hi₁, hone⟩ := c.dispatchBunch_stepped header view i ch hi
    unfold dispatchBunches
    cases (c.dispatchBunch header view).2 with
    | true =>
      obtain ⟨ch₂, a', e', t', hi₂, hrest⟩ := dispatchBunches_stepped bs _ i ch₁ hi₁
      have hall := hone.trans hrest
      rw [Nat.add_comm] at hall
      exact ⟨ch₂, _, _, _, hi₂, hall⟩
    | false =>
      have hall := hone.trans (NetChannel.Stepped.refl bs.length ch₁)
      rw [Nat.add_comm] at hall
      exact ⟨ch₁, _, _, _, hi₁, hall⟩

theorem channels_ext {c c' : NetConnection} (hlen : c'.channels.length = c.channels.length)
    (h : ∀ i, c'.channel? i = c.channel? i) : c'.channels = c.channels := by
  apply List.ext_getElem hlen
  intro i h₁ h₂
  have := h i
  rw [channel?, channel?, List.getElem?_eq_getElem h₁, List.getElem?_eq_getElem h₂] at this
  exact this

/-- A payload leaves the channels as they are exactly where each of its bunches is inert. -/
theorem dispatchBunches_channels_iff : ∀ (bs : List (InBunchHeader × List Byte)) (c : NetConnection),
    bs.length < 2 ^ 31 → (∀ e ∈ bs, e.1.chIndex < c.channels.length) →
      ((dispatchBunches bs c).channels = c.channels ↔ BunchesMeet BunchInert bs c)
  | [], _, _, _ => ⟨fun _ => trivial, fun _ => rfl⟩
  | (header, view) :: bs, c, hlen, hidx => by
    have hfirst := c.dispatchBunch_eq_self_iff view (hidx _ (List.mem_cons_self ..))
    rw [List.length_cons] at hlen
    have hrest := dispatchBunches_channels_iff bs c (by omega) fun e he => hidx e (List.mem_cons_of_mem _ he)
    constructor
    · intro h
      -- every channel is back where it was, so the first bunch has changed none
      have hself : (c.dispatchBunch header view).1 = c := by
        obtain ⟨hconn, hlength⟩ := c.dispatchBunch_conn header view
        have hback : ∃ n ≤ bs.length, ∃ c', ChannelsStepped n (c.dispatchBunch header view).1 c' ∧
            c'.channels = c.channels := by
          unfold dispatchBunches at h
          cases hgo : (c.dispatchBunch header view).2 with
          | true =>
            rw [hgo] at h
            exact ⟨bs.length, Nat.le_refl _, _, dispatchBunches_stepped bs _, h⟩
          | false =>
            rw [hgo] at h
            exact ⟨0, Nat.zero_le _, _, fun i ch hi => ⟨ch, 0, 0, 0, hi, .refl 0 ch⟩, h⟩
        obtain ⟨n, hn, c', hsteps, hc'⟩ := hback
        have hsame : ∀ i, c'.channel? i = c.channel? i := fun i => by rw [channel?, channel?, hc']
        have hchannels : (c.dispatchBunch header view).1.channels = c.channels := by
          refine channels_ext hlength fun i => ?_
          cases hi : c.channel? i with
          | none =>
            cases hi₁ : (c.dispatchBunch header view).1.channel? i with
            | none => rfl
            | some ch₁ =>
              obtain ⟨ch₂, -, -, -, hi₂, -⟩ := hsteps i ch₁ hi₁
              rw [hsame, hi] at hi₂
              cases hi₂
          | some ch =>
            obtain ⟨ch₁, a, e, t, hi₁, hone⟩ := c.dispatchBunch_stepped header view i ch hi
            obtain ⟨ch₂, a', e', t', hi₂, hmore⟩ := hsteps i ch₁ hi₁
            rw [hsame, hi] at hi₂
            obtain rfl := Option.some.inj hi₂
            rw [hi₁, hone.eq_of_back hmore (by omega)]
        rw [hconn, hchannels]
      refine ⟨hfirst.mp hself, fun hgo => ?_⟩
      rw [hself]
      unfold dispatchBunches at h
      rw [hgo, if_pos rfl, hself] at h
      exact hrest.mp h
    · rintro ⟨hinert, hgo⟩
      have hself := hfirst.mpr hinert
      unfold dispatchBunches
      rw [hself] at hgo ⊢
      split_ifs with h
      · exact hrest.mpr (hgo h)
      · rfl

/-! ## The life of a connection -/

inductive LifeAction
  | step (a : ConnectionAction)
  | initSequence (incomingSequence outgoingSequence : ℤ)

def lifeSystem : System NetConnection LifeAction where
  init c := ∃ isServer n state cs, c = { NetConnection.new isServer n state with channels := cs }
  next c
    | .step a => (connectionSystem fun _ => False).next c a
    | .initSequence incomingSequence outgoingSequence => (c.initSequence incomingSequence outgoingSequence).2

def Settled (c : NetConnection) : Prop := (Seq.ofInt c.inPacketId).gt c.packetNotify.inAckSeq = false

theorem Settled.ackSeq (h : c.Settled) : c.packetNotify.ackSeq (Seq.ofInt c.inPacketId) = c.packetNotify :=
  NetPacketNotify.ackSeqWith_of_not_gt h true

structure ReceiveSync (c : NetConnection) : Prop where
  inSeq : c.packetNotify.inSeq = Seq.ofInt c.inPacketId
  settled : c.pendingDispatchPacketReaders = [] → c.Settled

theorem seq_gt_self (q : Seq) : q.gt q = false := by
  simp [SequenceNumber.gt]

theorem dispatchReader_settled (c : NetConnection) (reader : RecvPacketReader) : (c.dispatchReader reader).Settled := by
  have hack : ∀ c : NetConnection, NetConnection.Settled
      { c with packetNotify := c.packetNotify.ackSeq (Seq.ofInt c.inPacketId) } := fun c =>
    NetPacketNotify.gt_ackSeqWith c.packetNotify (Seq.ofInt c.inPacketId) true
  by_cases hstate : c.state = .closed
  · rw [dispatchReader_of_closed hstate]
    exact hack c
  · rw [dispatchReader_eq hstate, (dispatchBunches_conn _ c).1]
    exact hack c

theorem foldl_dispatchReader_settled (rs : List RecvPacketReader) : ∀ c : NetConnection, c.Settled →
    (rs.foldl dispatchReader c).Settled := by
  induction rs with
  | nil => exact fun c h => h
  | cons r rs ih => exact fun c _ => ih _ (c.dispatchReader_settled r)

theorem ReceiveSync.dispatchPendingPacket (h : c.ReceiveSync) : c.dispatchPendingPacket.ReceiveSync ∧
    c.dispatchPendingPacket.Settled := by
  have hframe := c.dispatchPendingPacket_dispatched.1
  have hsettled : c.dispatchPendingPacket.Settled := by
    unfold NetConnection.dispatchPendingPacket
    cases hp : c.pendingDispatchPacketReaders with
    | nil => exact h.settled hp
    | cons r rs => exact foldl_dispatchReader_settled rs _ (dispatchReader_settled _ r)
  refine ⟨⟨?_, fun _ => hsettled⟩, hsettled⟩
  rw [hframe]
  exact h.inSeq

theorem ReceiveSync.receivedHeader (h : c.ReceiveSync) (header : NotificationHeader) (reader : RecvPacketReader) :
    (c.receivedHeader header reader).ReceiveSync := by
  by_cases hd : 0 < c.packetNotify.getSequenceDelta header
  · obtain ⟨hin, hsame⟩ := notifyUpdated_inSeq hd h.inSeq
    have hconn := (c.notified_frame header).conn
    have hid : (c.notified header).inPacketId = c.inPacketId := by rw [hconn]
    have hpending : (c.notified header).pendingDispatchPacketReaders = c.pendingDispatchPacketReaders := by rw [hconn]
    cases hw : (c.notifyUpdated header).1.isWaitingForSequenceHistoryFlush with
    | true =>
      rw [receivedHeader_of_waiting hd hw]
      rw [← hid] at hin
      refine ⟨hin, fun hnil => ?_⟩
      have hnil : c.pendingDispatchPacketReaders = [] := hpending.symm.trans hnil
      have hroom : ((c.packetNotify.acksProcessed header).makeRoom header).isWaitingForSequenceHistoryFlush = true := by
        rw [← NetPacketNotify.internalUpdate_waiting _ _ (c.packetNotify.getSequenceDelta header)]
        exact hw
      show (Seq.ofInt ((c.notified header).inPacketId + (c.notifyUpdated header).2)).gt (c.notifyUpdated header).1.inAckSeq = false
      rcases NetPacketNotify.internalUpdate_settled (c.packetNotify.getSequenceDelta header) hroom with hs | ⟨-, hack, hz⟩
      · rw [← hin]
        exact hs
      · have hz : (c.notifyUpdated header).2 = 0 := hz
        have hack : (c.notifyUpdated header).1.inAckSeq = c.packetNotify.inAckSeq :=
          hack.trans (NetPacketNotify.acksProcessed_inAckSeq _ _)
        rw [hz, Int.add_zero, hid, hack]
        exact h.settled hnil
    | false =>
      rw [receivedHeader_of_accepted hd hw]
      refine ⟨?_, fun hnil => by simp at hnil⟩
      show (c.notifyUpdated header).1.inSeq = Seq.ofInt ((c.notified header).inPacketId + c.packetNotify.getSequenceDelta header)
      rw [hid, ← hsame hw]
      exact hin
  · rw [receivedHeader_of_not_pos hd]
    exact ⟨h.inSeq, fun hnil => by simp at hnil⟩

theorem ReceiveSync.step (h : c.ReceiveSync) (a : ConnectionAction) :
    ((connectionSystem fun _ => False).next c a).ReceiveSync := by
  cases a with
  | assemble keepAliveDue =>
    have hconn := (assemble_frame c keepAliveDue).conn
    show (c.assembleOutgoingPackets keepAliveDue).ReceiveSync
    rw [hconn]
    exact ⟨h.inSeq, h.settled⟩
  | flush nowUs =>
    show (c.flushPacket nowUs).2.ReceiveSync
    unfold flushPacket tryDequeuePacket
    cases c.outPacketQueue with
    | nil => exact h
    | cons packet rest =>
      have hfields : ∀ p : NetPacketNotify, p.commitAndIncrementOutSeq.inSeq = p.inSeq ∧
          p.commitAndIncrementOutSeq.inAckSeq = p.inAckSeq := by
        intro p
        unfold NetPacketNotify.commitAndIncrementOutSeq
        split_ifs <;> exact ⟨rfl, rfl⟩
      simp only [updatePacketHeader, ConnectionPacketBuilder.buildEnd, writeHeaderCallback, NetPacketNotify.writeHeader]
      obtain ⟨h1, h2⟩ := hfields { c.packetNotify with
        writtenHistoryWordCount := c.packetNotify.currentHistoryWordCount
        writtenInAckSeq := c.packetNotify.inAckSeq }
      refine ⟨?_, ?_⟩
      · simpa using h1.trans h.inSeq
      · intro hnil
        have := h.settled hnil
        simpa [Settled, h2] using this
  | receive reader =>
    show (c.receivedPacket reader).ReceiveSync
    rcases c.receivedPacket_cases reader with heq | ⟨header, r, heq⟩
    · rw [heq]
      exact h
    · rw [heq]
      exact h.receivedHeader header r
  | dispatch => exact h.dispatchPendingPacket.1
  | channels cs => exact ⟨h.inSeq, h.settled⟩

theorem reach_receiveSync (h : lifeSystem.Reachable c) : c.ReceiveSync := by
  refine System.Reach.invariant (I := ReceiveSync) ?_ ?_ h
  · rintro c ⟨isServer, n, state, cs, rfl⟩
    exact ⟨rfl, fun _ => seq_gt_self _⟩
  · intro c a hI _
    cases a with
    | step a => exact hI.step a
    | initSequence incomingSequence outgoingSequence =>
      show (c.initSequence incomingSequence outgoingSequence).2.ReceiveSync
      by_cases hnew : c.inPacketId = -1
      · rw [initSequence_of_new hnew]
        exact ⟨rfl, fun _ => seq_gt_self _⟩
      · rw [initSequence, if_neg hnew]
        exact hI

/-! ## A datagram that is stale -/

/-- What the dispatch of a datagram with delta zero adds to the dispatch of those before it. -/
theorem dispatch_stale {reader : RecvPacketReader} (hread : (NetPacketNotify.readHeader reader.header).1 = true)
    (hstale : c.packetNotify.getSequenceDelta (NetPacketNotify.readHeader reader.header).2.1 = 0) :
    (c.receivedPacket reader).dispatchPendingPacket =
      c.dispatchPendingPacket.dispatchReader { reader with header := (NetPacketNotify.readHeader reader.header).2.2 } := by
  unfold receivedPacket
  generalize NetPacketNotify.readHeader reader.header = read at hread hstale
  obtain ⟨ok, header, buffer⟩ := read
  simp only at hread hstale
  simp only [hread, if_true]
  rw [receivedHeader_of_not_pos (by rw [hstale]; exact lt_irrefl 0)]
  unfold dispatchPendingPacket
  rw [List.foldl_append]
  rfl

/-- A stale datagram changes no channel and not the packet notification exactly where the connection is closed or all
its bunches are inert when their turn comes, behind the datagrams that wait already. -/
theorem stale_datagram_inert_iff (h : lifeSystem.Reachable c) {r : RecvPacketReader}
    (hsize : r.payload.length < 2 ^ 16) (hread : (NetPacketNotify.readHeader r.header).1 = true)
    (hstale : c.packetNotify.getSequenceDelta (NetPacketNotify.readHeader r.header).2.1 = 0) :
    ((c.receivedPacket r).dispatchPendingPacket.channels = c.dispatchPendingPacket.channels ∧
      (c.receivedPacket r).dispatchPendingPacket.packetNotify = c.dispatchPendingPacket.packetNotify) ↔
      c.state = .closed ∨
        BunchesMeet BunchInert (c.dispatchPendingPacket.payloadBunches r.payload) c.dispatchPendingPacket := by
  have hsettled := (reach_receiveSync h).dispatchPendingPacket.2
  have hstate : c.dispatchPendingPacket.state = c.state := by
    rw [c.dispatchPendingPacket_dispatched.1]
  rw [dispatch_stale hread hstale]
  generalize c.dispatchPendingPacket = c' at hsettled hstate
  by_cases hclosed : c'.state = .closed
  · rw [dispatchReader_of_closed hclosed, hsettled.ackSeq]
    exact ⟨fun _ => .inl (hstate.symm.trans hclosed), fun _ => ⟨rfl, rfl⟩⟩
  · have hlength := bunchesOf_length c'.channels.length r.payload.length ⟨r.payload, false⟩
    have hiff := dispatchBunches_channels_iff (c'.payloadBunches r.payload) c' (by unfold payloadBunches; omega)
      (bunchesOf_chIndex _ _ _)
    rw [dispatchReader_eq hclosed, hsettled.ackSeq]
    constructor
    · rintro ⟨hchannels, -⟩
      exact .inr (hiff.mp hchannels)
    · intro hor
      refine ⟨hiff.mpr (hor.resolve_left fun hc => hclosed (hstate.trans hc)), rfl⟩

def datagram (seq ackedSeq : ℤ) (chSequence : ℕ) : RecvPacketReader :=
  { bunchPayload chSequence with header := headerReader seq ackedSeq }

theorem openServer_life : lifeSystem.Reachable openServer :=
  .init ⟨true, 2, .open, (NetConnection.new true 2 .open).createInitialChannels.channels, rfl⟩

def thirdBuffered : NetConnection := lifeSystem.runFrom openServer [.step (.receive (datagram 1 (-1) 3)), .step .dispatch]

/-- A copy of its datagram changes nothing. -/
theorem stale_buffered_inert :
    (thirdBuffered.receivedPacket (datagram 1 (-1) 3)).dispatchPendingPacket.channels =
      thirdBuffered.dispatchPendingPacket.channels ∧
    (thirdBuffered.receivedPacket (datagram 1 (-1) 3)).dispatchPendingPacket.packetNotify =
      thirdBuffered.dispatchPendingPacket.packetNotify := by
  have hreach : lifeSystem.Reachable thirdBuffered := System.reachable_runFrom openServer_life _
  have h := stale_datagram_inert_iff hreach (r := datagram 1 (-1) 3) (by decide) (by decide +kernel) (by decide +kernel)
  refine h.mpr (.inr ?_)
  have hbunches : thirdBuffered.dispatchPendingPacket.payloadBunches (datagram 1 (-1) 3).payload =
      [(⟨true, true, false, true, 0, 3, 1, 4⟩, [4, 0, 1, 0])] := by decide +kernel
  have hkept : (thirdBuffered.dispatchPendingPacket.channel? 0).map (fun ch =>
      (ch.inReliable, (ch.inUnreadBunchMap.find? 3).isSome)) = some (0, true) := by decide +kernel
  obtain ⟨ch, hch, hfields⟩ := Option.map_eq_some_iff.mp hkept
  obtain ⟨hin, hfind⟩ := Prod.mk.inj hfields
  rw [hbunches]
  refine ⟨?_, fun _ => trivial⟩
  have hnumber : bunchSequence ⟨true, true, false, true, 0, 3, 1, 4⟩ ch = 3 := by
    unfold bunchSequence
    rw [hin]
    decide
  unfold BunchInert
  rw [hch]
  simp only [hnumber, hin]
  rw [if_pos (by decide)]
  exact hfind

/-- A packet that the next one has overtaken: its payload is dispatched all the same. -/
theorem stale_datagram_dispatched : ¬ ∀ c reader, lifeSystem.Reachable c → reader.payload.length < 2 ^ 16 →
    (NetPacketNotify.readHeader reader.header).1 = true →
    c.packetNotify.getSequenceDelta (NetPacketNotify.readHeader reader.header).2.1 = 0 →
      (c.receivedPacket reader).dispatchPendingPacket.channels = c.dispatchPendingPacket.channels ∧
        (c.receivedPacket reader).dispatchPendingPacket.packetNotify = c.dispatchPendingPacket.packetNotify := by
  intro h
  have hreach : lifeSystem.Reachable
      (lifeSystem.runFrom openServer [.step (.receive (datagram 1 (-1) 2)), .step .dispatch]) :=
    System.reachable_runFrom openServer_life _
  have hsame := (h _ (datagram 0 (-1) 1) hreach (by decide) (by decide +kernel) (by decide +kernel)).1
  have hbefore : ((lifeSystem.runFrom openServer
      [.step (.receive (datagram 1 (-1) 2)), .step .dispatch]).dispatchPendingPacket.channels[0]?.join).map
        NetChannel.inReliable = some 0 := by decide +kernel
  have hafter : ((((lifeSystem.runFrom openServer
      [.step (.receive (datagram 1 (-1) 2)), .step .dispatch]).receivedPacket
        (datagram 0 (-1) 1)).dispatchPendingPacket.channels[0]?.join).map NetChannel.inReliable) = some 2 := by
    decide +kernel
  rw [hsame, hbefore] at hafter
  cases hafter

end NetConnection

end RudpEngine
