import RudpEngine.ReceiveHistory
import RudpEngine.StaleDatagram
import RudpEngine.BunchTrip

/-!
# What an acknowledgement says about the payload

`DispatchPacket` reports bunch errors and whether the ack is to be skipped;
`DispatchPendingPacket` looks at the second alone, which nothing sets. So the
newest packet is acknowledged whatever became of its payload.
-/

namespace RudpEngine

namespace NetChannel

/-- The bytes hold `n` messages, each of the size its header names; `capacity` is the range of a `uint16_t`. -/
def MessagesWhole (capacity : ℕ) : ℕ → List Byte → Prop
  | 0, _ => True
  | n + 1, view =>
    4 ≤ view.length ∧
      (leNat (view.take 4) % capacity + capacity - 4) % capacity ≤ (view.drop 4).length ∧
      MessagesWhole capacity n ((view.drop 4).drop ((leNat (view.take 4) % capacity + capacity - 4) % capacity))

section
variable (capacity : ℕ) (next : BufferReader → Bool × List RecvMessageReader) {view : List Byte}

theorem messageRound_whole (hfour : 4 ≤ view.length)
    (hsize : (leNat (view.take 4) % capacity + capacity - 4) % capacity ≤ (view.drop 4).length) :
    messageRound capacity next ⟨view, false⟩ =
      ((next ⟨(view.drop 4).drop ((leNat (view.take 4) % capacity + capacity - 4) % capacity), false⟩).1,
        ⟨(view.drop 4).take ((leNat (view.take 4) % capacity + capacity - 4) % capacity), leNat (view.take 4) / capacity⟩ ::
          (next ⟨(view.drop 4).drop ((leNat (view.take 4) % capacity + capacity - 4) % capacity), false⟩).2) := by
  unfold messageRound BufferReader.read BufferReader.canRead
  simp only [hfour, Bool.not_false, decide_true, Bool.and_true, Bool.not_true, Bool.false_eq_true, if_false,
    Nat.not_lt.mpr hfour, Option.getD_some]
  generalize (leNat (view.take 4) % capacity + capacity - 4) % capacity = size at hsize ⊢
  unfold BufferReader.readView
  simp only [hsize, decide_true, Bool.true_and, Bool.not_true, Bool.false_eq_true, if_false, Nat.not_lt.mpr hsize]

theorem messageRound_cut
    (h : ¬ (4 ≤ view.length ∧ (leNat (view.take 4) % capacity + capacity - 4) % capacity ≤ (view.drop 4).length)) :
    messageRound capacity next ⟨view, false⟩ = (false, []) := by
  unfold messageRound BufferReader.read BufferReader.canRead
  by_cases hfour : 4 ≤ view.length
  · have hsize : ¬ (leNat (view.take 4) % capacity + capacity - 4) % capacity ≤ (view.drop 4).length :=
      fun hle => h ⟨hfour, hle⟩
    simp only [hfour, Bool.not_false, decide_true, Bool.and_true, Bool.not_true, Bool.false_eq_true, if_false,
      Nat.not_lt.mpr hfour, Option.getD_some]
    generalize (leNat (view.take 4) % capacity + capacity - 4) % capacity = size at hsize ⊢
    simp only [hsize, decide_false, Bool.and_false, Bool.not_false, if_true]
  · simp [hfour]

theorem messageRound_ok : (messageRound capacity next ⟨view, false⟩).1 = true ↔
    4 ≤ view.length ∧ (leNat (view.take 4) % capacity + capacity - 4) % capacity ≤ (view.drop 4).length ∧
      (next ⟨(view.drop 4).drop ((leNat (view.take 4) % capacity + capacity - 4) % capacity), false⟩).1 = true := by
  by_cases h : 4 ≤ view.length ∧ (leNat (view.take 4) % capacity + capacity - 4) % capacity ≤ (view.drop 4).length
  · rw [messageRound_whole capacity next h.1 h.2]
    exact ⟨fun hok => ⟨h.1, h.2, hok⟩, fun hok => hok.2.2⟩
  · rw [messageRound_cut capacity next h]
    exact iff_of_false Bool.false_ne_true fun hok => h ⟨hok.1, hok.2.1⟩

end

theorem readMessages_ok_iff (n : ℕ) (view : List Byte) :
    (readMessages n ⟨view, false⟩).1 = true ↔ MessagesWhole (2 ^ 16) n view := by
  induction n generalizing view with
  | zero => exact ⟨fun _ => trivial, fun _ => rfl⟩
  | succ n ih => rw [readMessages_succ, messageRound_ok, ih, MessagesWhole]

end NetChannel

namespace NetConnection

variable {c : NetConnection}

/-! ## The payload -/

def dispatchRest : ℕ → BufferReader → NetConnection → BufferReader
  | 0, r, _ => r
  | fuel + 1, r, c =>
    match readBunch c.channels.length r with
    | none => r
    | some (header, view, r') =>
      if (c.dispatchBunch header view).2 then dispatchRest fuel r' (c.dispatchBunch header view).1 else r'

/-- A reliable bunch is kept for later, or all its messages are handed on. -/
def BunchTaken (c : NetConnection) (header : InBunchHeader) (view : List Byte) : Prop :=
  header.bReliable = true → ∃ ch, (c.findOrCreateChannel header).channel? header.chIndex = some ch ∧
    (bunchSequence header ch ≠ (ch.inReliable + 1) % 2 ^ 32 ∨
      ch.chIndex ≤ 1 ∧ InBunchReader.readable ⟨view, 0, header.messageCount⟩ = true)

/-- Bunch errors are reported, the loop stops before the end of the payload, or a reliable bunch is lost. -/
def ContentLost (c : NetConnection) (reader : RecvPacketReader) : Prop :=
  (c.dispatchPacket reader).2.2 = true ∨
    c.dispatchRest reader.payload.length ⟨reader.payload, false⟩ ≠ ⟨[], false⟩ ∨
    ¬ BunchesMeet BunchTaken (c.payloadBunches reader.payload) c

def endsWhole (n : ℕ) : ℕ → BufferReader → Bool
  | 0, r => !r.error && r.view.isEmpty
  | fuel + 1, r =>
    match readBunch n r with
    | none => !r.error && r.view.isEmpty
    | some (_, _, r') => endsWhole n fuel r'

/-- A bunch that has its channel, there or to be made: reliable and not the next one, or of a channel that dispatches and,
if it is reliable, of whole messages. -/
def BunchTakable (c : NetConnection) (header : InBunchHeader) (view : List Byte) : Prop :=
  ∃ ch, (c.findOrCreateChannel header).channel? header.chIndex = some ch ∧
    (header.bReliable = true ∧ bunchSequence header ch ≠ (ch.inReliable + 1) % 2 ^ 32 ∨
      ch.chIndex ≤ 1 ∧ (header.bReliable = true → NetChannel.MessagesWhole (2 ^ 16) header.messageCount view))

/-- A payload of whole bunches that can all be taken, each at its turn. -/
def ContentTakable (c : NetConnection) (payload : List Byte) : Prop :=
  endsWhole c.channels.length payload.length ⟨payload, false⟩ = true ∧
    BunchesMeet BunchTakable (c.payloadBunches payload) c

theorem bunchTakable_iff {header : InBunchHeader} {view : List Byte} :
    c.BunchTakable header view ↔ c.bunchRefused header view = false ∧ c.BunchTaken header view := by
  unfold BunchTakable BunchTaken bunchRefused takeBunch InBunchReader.readable
  cases hch : (c.findOrCreateChannel header).channel? header.chIndex with
  | none => simp
  | some ch =>
    simp only [Option.some.injEq, exists_eq_left', NetChannel.readMessages_ok_iff]
    generalize (ch.inReliable + 1) % 2 ^ 32 = next
    by_cases hrel : header.bReliable = true
    · by_cases hnext : bunchSequence header ch = next
      · by_cases hidx : ch.chIndex ≤ 1 <;> simp [hrel, hnext, hidx]
      · simp [hrel, hnext]
    · by_cases hidx : ch.chIndex ≤ 1 <;> simp [hrel, hidx]

theorem readBunch_length {n : ℕ} {r r' : BufferReader} {header : InBunchHeader} {view : List Byte}
    (h : readBunch n r = some (header, view, r')) : r'.view.length < r.view.length := by
  unfold readBunch BufferReader.read BufferReader.canRead at h
  have hview : ∀ (r : BufferReader) (k : ℕ), (r.readView k).2.view.length ≤ r.view.length := by
    intro r k
    unfold BufferReader.readView
    split_ifs
    · exact Nat.le_refl _
    · simp
  by_cases hlen : r.view.length < 1
  · have hfalse : decide (1 ≤ r.view.length) = false := decide_eq_false (by omega)
    simp [hfalse] at h
  · simp only [hlen, if_false, Option.getD_some] at h
    split_ifs at h
    obtain ⟨-, h⟩ := Prod.mk.inj (Option.some.inj h)
    obtain ⟨-, rfl⟩ := Prod.mk.inj h
    have h1 := hview { r with view := r.view.drop 1 } (leNat (r.view.take 1) - 1)
    have h2 := hview (BufferReader.readView { r with view := r.view.drop 1 } (leNat (r.view.take 1) - 1)).2
      (readBunchHeader (BufferReader.readView { r with view := r.view.drop 1 } (leNat (r.view.take 1) - 1)).1).bunchPayload
    simp only [List.length_drop] at h1
    omega

theorem whole_iff (r : BufferReader) : (!r.error && r.view.isEmpty) = true ↔ r = ⟨[], false⟩ := by
  obtain ⟨view, error⟩ := r
  cases error <;> cases view <;> simp

/-- The failures of the loop, by what it reads. -/
theorem loop_lost_iff : ∀ (fuel : ℕ) (r : BufferReader) (c : NetConnection), c.state ≠ .closed → r.view.length ≤ fuel →
    (((dispatchLoop fuel r c).2 = true ∨ dispatchRest fuel r c ≠ ⟨[], false⟩ ∨
        ¬ BunchesMeet BunchTaken (bunchesOf c.channels.length fuel r) c) ↔
      ¬ (endsWhole c.channels.length fuel r = true ∧
        BunchesMeet BunchTakable (bunchesOf c.channels.length fuel r) c))
  | 0, r, c, _, _ => by
    simp only [dispatchLoop, dispatchRest, bunchesOf, BunchesMeet, endsWhole, whole_iff]
    simp
  | fuel + 1, r, c, hstate, hlen => by
    rw [dispatchLoop, dispatchRound_eq _ _ hstate, dispatchRest, bunchesOf, endsWhole]
    cases hread : readBunch c.channels.length r with
    | none =>
      simp only [BunchesMeet, whole_iff]
      have hcan : r.canRead 1 = true → r ≠ ⟨[], false⟩ := by
        rintro h rfl
        exact Bool.false_ne_true h
      simp only [not_true_eq_false, or_false, and_true]
      exact ⟨fun h => h.elim hcan id, .inr⟩
    | some e =>
      obtain ⟨header, view, r'⟩ := e
      have hshort := readBunch_length hread
      obtain ⟨hconn, hlength⟩ := c.dispatchBunch_conn header view
      have ih := loop_lost_iff fuel r' (c.dispatchBunch header view).1 (by rw [hconn]; exact hstate) (by omega)
      rw [hlength] at ih
      simp only [BunchesMeet, bunchTakable_iff]
      cases href : c.bunchRefused header view with
      | true => simp
      | false =>
        have hgo := dispatchBunch_of_not_refused href
        simp only [Bool.false_eq_true, if_false, hgo, if_true, true_and, forall_const]
        by_cases htaken : c.BunchTaken header view
        · simp only [htaken, true_and]
          exact ih
        · simp [htaken]

theorem contentLost_iff (hstate : c.state ≠ .closed) (reader : RecvPacketReader) :
    c.ContentLost reader ↔ ¬ c.ContentTakable reader.payload :=
  loop_lost_iff _ _ _ hstate (Nat.le_refl _)

/-! ## The record -/

def recordedPacketId (c : NetConnection) : ℤ := c.inPacketId - (Seq.ofInt c.inPacketId).diff c.packetNotify.inAckSeq

def Recorded (c : NetConnection) (id : ℤ) (bDelivered : Bool) : Prop :=
  ∃ i : ℕ, i < 256 ∧ id = c.recordedPacketId - i ∧ c.packetNotify.inSeqHistory.isDelivered i = bDelivered

/-- What the next `DispatchPendingPacket` leaves on record: the newest packet as delivered, those between it and the newest
one on record as not delivered, and what is on record already. -/
def ToBeRecorded (c : NetConnection) (id : ℤ) (bDelivered : Bool) : Prop :=
  (c.Settled ∧ c.Recorded id bDelivered) ∨
    (¬ c.Settled ∧ c.inPacketId - 256 < id ∧
      ((id = c.inPacketId ∧ bDelivered = true) ∨
        (c.recordedPacketId < id ∧ id < c.inPacketId ∧ bDelivered = false) ∨ c.Recorded id bDelivered))

theorem Recorded.unique {id : ℤ} (h : c.Recorded id true) : ¬ c.Recorded id false := by
  rintro ⟨j, -, hid', hbit'⟩
  obtain ⟨i, -, hid, hbit⟩ := h
  obtain rfl : i = j := by omega
  rw [hbit] at hbit'
  cases hbit'

theorem settled_iff_diff : c.Settled ↔ (Seq.ofInt c.inPacketId).diff c.packetNotify.inAckSeq ≤ 0 := by
  unfold Settled
  rw [← Bool.not_eq_true, SequenceNumber.gt_iff_diff (by decide)]
  omega

theorem recorded_dispatchPendingPacket (hpending : c.pendingDispatchPacketReaders ≠ []) (id : ℤ) (b : Bool) :
    c.dispatchPendingPacket.Recorded id b ↔ c.ToBeRecorded id b := by
  have hnotify := ReceiveLog.dispatchPendingPacket_notify c
  rw [if_neg hpending] at hnotify
  have hid : c.dispatchPendingPacket.inPacketId = c.inPacketId := by rw [c.dispatchPendingPacket_dispatched.1]
  unfold ToBeRecorded
  by_cases hsettled : c.Settled
  · simp only [hsettled, true_and, not_true_eq_false, false_and, or_false]
    rw [NetPacketNotify.ackSeq, NetPacketNotify.ackSeqWith_of_not_gt hsettled] at hnotify
    unfold Recorded recordedPacketId
    rw [hnotify, hid]
  · simp only [hsettled, false_and, not_false_eq_true, true_and, false_or]
    rw [settled_iff_diff] at hsettled
    have hhi := (SequenceNumber.diff_bounds (by decide) (Seq.ofInt c.inPacketId) c.packetNotify.inAckSeq).2
    obtain ⟨n, hn⟩ := Int.eq_ofNat_of_zero_le (le_of_not_ge hsettled)
    have hpos : 0 < n := by omega
    -- the newest packet recorded is `n` behind
    have hack : c.packetNotify.inAckSeq = Seq.ofInt (c.inPacketId - n) := by
      have hval : c.packetNotify.inAckSeq = Seq.ofInt c.packetNotify.inAckSeq.value :=
        (SequenceNumber.ofInt_value_self (by decide) _).symm
      have hsame := SequenceNumber.ofInt_add_diff (n := 14) (by decide) (Seq.ofInt c.inPacketId) c.packetNotify.inAckSeq.value
      rw [SequenceNumber.ofInt_value_self (by decide), hn] at hsame
      rw [hval]
      apply (SequenceNumber.ofInt_eq_iff (by decide) _ _).mpr
      have hmod := (SequenceNumber.ofInt_eq_iff (n := 14) (by decide) _ _).mp hsame
      omega
    have hrecord := NetPacketNotify.ackSeqWith_eq hack (n := n) (by rw [hn] at hhi; omega) true
    rw [show c.inPacketId - (n : ℤ) + n = c.inPacketId by ring] at hrecord
    rw [NetPacketNotify.ackSeq, hrecord] at hnotify
    have hnew : c.dispatchPendingPacket.recordedPacketId = c.inPacketId := by
      rw [recordedPacketId, hnotify, hid]
      have hself : (Seq.ofInt c.inPacketId).diff (Seq.ofInt c.inPacketId) = c.inPacketId - c.inPacketId :=
        SequenceNumber.diff_ofInt (by decide) (by omega) (by omega)
      rw [hself, Int.sub_self, Int.sub_zero]
    have hold : c.recordedPacketId = c.inPacketId - n := by rw [recordedPacketId, hn]
    have hbit : ∀ i < 256, _ = _ := fun i hi =>
      SequenceHistory.isDelivered_recorded (by decide) true hpos c.packetNotify.inSeqHistory hi
    unfold Recorded
    rw [hnew, hold, hnotify]
    constructor
    · rintro ⟨i, hi, rfl, rfl⟩
      refine ⟨by omega, ?_⟩
      rw [hbit i hi]
      by_cases h0 : i = 0
      · left
        subst h0
        simp
      · right
        by_cases hin : i < n
        · left
          rw [if_neg h0, if_pos hin]
          exact ⟨by omega, by omega, rfl⟩
        · right
          rw [if_neg h0, if_neg hin]
          exact ⟨i - n, by omega, by omega, rfl⟩
    · rintro ⟨hwindow, ⟨rfl, rfl⟩ | ⟨hlo, hhi, rfl⟩ | ⟨i, hi, rfl, rfl⟩⟩
      · refine ⟨0, by decide, by simp, ?_⟩
        rw [hbit 0 (by decide), if_pos rfl]
      · obtain ⟨i, hi⟩ := Int.eq_ofNat_of_zero_le (show 0 ≤ c.inPacketId - id by omega)
        refine ⟨i, by omega, by omega, ?_⟩
        rw [hbit i (by omega), if_neg (by omega), if_pos (by omega)]
      · refine ⟨i + n, by omega, by push_cast; ring, ?_⟩
        rw [hbit (i + n) (by omega), if_neg (by omega), if_neg (by omega), Nat.add_sub_cancel]

def atTurn (c : NetConnection) (k : ℕ) : NetConnection :=
  (c.pendingDispatchPacketReaders.take k).foldl dispatchReader { c with pendingDispatchPacketReaders := [] }

theorem atTurn_state (c : NetConnection) (k : ℕ) : (c.atTurn k).state = c.state := by
  rw [atTurn, (foldl_dispatchReader_dispatched _ _).1]

/-- A packet whose payload is dispatched, whatever its id, is recorded as not delivered when its content is lost and as
delivered only when its reliable bunches are taken, exactly where its content can be taken or the packet is one that stands
as not delivered. -/
theorem acked_only_if_taken_iff (hstate : c.state ≠ .closed) {k : ℕ} {r : RecvPacketReader}
    (hk : c.pendingDispatchPacketReaders[k]? = some r) (id : ℤ) :
    (((c.atTurn k).ContentLost r → c.dispatchPendingPacket.Recorded id false) ∧
      (c.dispatchPendingPacket.Recorded id true →
        BunchesMeet BunchTaken ((c.atTurn k).payloadBunches r.payload) (c.atTurn k))) ↔
      (c.atTurn k).ContentTakable r.payload ∨ c.ToBeRecorded id false := by
  have hpending : c.pendingDispatchPacketReaders ≠ [] := by
    intro hnil
    rw [hnil] at hk
    cases hk
  have hturn : (c.atTurn k).state ≠ .closed := by rw [atTurn_state]; exact hstate
  rw [← recorded_dispatchPendingPacket hpending, contentLost_iff hturn]
  constructor
  · rintro ⟨hlost, -⟩
    by_cases htaken : (c.atTurn k).ContentTakable r.payload
    · exact .inl htaken
    · exact .inr (hlost htaken)
  · intro hor
    refine ⟨fun hlost => hor.resolve_left hlost, fun hdel => ?_⟩
    have htaken := hor.resolve_right hdel.unique
    by_contra hbad
    exact (contentLost_iff hturn r).mp (.inr (.inr hbad)) htaken

def readDatagram : RecvPacketReader :=
  { datagram 0 (-1) 1 with header := (NetPacketNotify.readHeader (headerReader 0 (-1))).2.2 }

theorem acked_only_if_taken_one :
    (openServer.receivedPacket (datagram 0 (-1) 1)).dispatchPendingPacket.Recorded 0 true ∧
      BunchesMeet BunchTaken (((openServer.receivedPacket (datagram 0 (-1) 1)).atTurn 0).payloadBunches (bunchPayload 1).payload)
        ((openServer.receivedPacket (datagram 0 (-1) 1)).atTurn 0) := by
  have h := acked_only_if_taken_iff (c := openServer.receivedPacket (datagram 0 (-1) 1)) (k := 0) (r := readDatagram)
    (by decide +kernel) (by decide +kernel) 0
  have hone : ((openServer.receivedPacket (datagram 0 (-1) 1)).atTurn 0).payloadBunches readDatagram.payload =
      [(⟨true, true, false, true, 0, 1, 1, 4⟩, [4, 0, 1, 0])] := by decide +kernel
  obtain ⟨ch, hch⟩ : ∃ ch, (((openServer.receivedPacket (datagram 0 (-1) 1)).atTurn 0).findOrCreateChannel
      ⟨true, true, false, true, 0, 1, 1, 4⟩).channel? 0 = some ch := Option.isSome_iff_exists.mp (by decide +kernel)
  have hidx : ((((openServer.receivedPacket (datagram 0 (-1) 1)).atTurn 0).findOrCreateChannel
      ⟨true, true, false, true, 0, 1, 1, 4⟩).channel? 0).map NetChannel.chIndex = some 0 := by decide +kernel
  rw [hch] at hidx
  have hdelivered : (openServer.receivedPacket (datagram 0 (-1) 1)).dispatchPendingPacket.Recorded 0 true :=
    ⟨0, by decide, by decide +kernel, by decide +kernel⟩
  refine ⟨hdelivered, (h.mpr (.inl ⟨by decide +kernel, ?_⟩)).2 hdelivered⟩
  rw [hone]
  refine ⟨⟨ch, hch, .inr ⟨(Option.some.inj hidx).le.trans (by decide), fun _ => ?_⟩⟩, fun _ => trivial⟩
  exact ⟨by decide, by decide, trivial⟩

/-- A payload that is no bunch: `DispatchPacket` reports errors, and the packet, accepted and dispatched, is acknowledged. -/
theorem unreadable_packet_acked : ¬ ∀ c reader, lifeSystem.Reachable c → c.state ≠ .closed →
    c.pendingDispatchPacketReaders = [] → (NetPacketNotify.readHeader reader.header).1 = true →
    0 < c.packetNotify.getSequenceDelta (NetPacketNotify.readHeader reader.header).2.1 →
      ((c.receivedPacket reader).atTurn 0).ContentLost reader →
        (c.receivedPacket reader).dispatchPendingPacket.Recorded
          (c.packetIdOf (NetPacketNotify.readHeader reader.header).2.1) false := by
  intro h
  have hlost := h openServer ⟨headerReader 0 (-1), [1, 2, 3], false⟩ openServer_life (by decide +kernel) (by decide +kernel)
    (by decide +kernel) (by decide +kernel) (.inl (by decide +kernel))
  refine Recorded.unique ⟨0, by decide, by decide +kernel, ?_⟩ hlost
  decide +kernel

end NetConnection

end RudpEngine
