import RudpEngine.SendSync

/-!
# The handshake and the send side

`InitSequence` gives the packet ids and the packet notification their first
values. It leaves the queue of packets and the last id of the channel record as
they are, so a connection that has sent before is in step afterwards only where
these happen to be those of a new one.
-/

namespace RudpEngine

namespace NetConnection

variable {c : NetConnection} {incomingSequence outgoingSequence : ℤ}

theorem initSequence_of_new (h : c.inPacketId = -1) :
    (c.initSequence incomingSequence outgoingSequence).2 = NetConnection.mapChannels { c with
      inPacketId := incomingSequence - 1
      outPacketId := outgoingSequence
      outAckPacketId := outgoingSequence - 1
      lastNotifiedSendPacketId := outgoingSequence - 1
      initInReliable := (incomingSequence % maxChSequence).toNat
      initOutReliable := (outgoingSequence % maxChSequence).toNat
      pendingDispatchPacketReaders := []
      record := { c.record with entryRecord := [] }
      packetNotify := c.packetNotify.init (Seq.ofInt (incomingSequence - 1)) (Seq.ofInt outgoingSequence) }
      fun ch => ch.updateChannelSeq (incomingSequence % maxChSequence).toNat (outgoingSequence % maxChSequence).toNat := by
  unfold initSequence
  rw [if_pos h]

/-- With no packet left, another last id in the record and a first id that is not negative, the send side starts in step. -/
theorem initSequence_sendSync (h : c.inPacketId = -1) (hhandler : c.handler = defaultProcessor)
    (hqueue : c.outPacketQueue = []) (hlast : c.record.lastPacketId ≠ outgoingSequence) (hnonneg : 0 ≤ outgoingSequence) :
    (c.initSequence incomingSequence outgoingSequence).2.SendSync := by
  rw [initSequence_of_new h]
  have hfirst : firstUnsent (NetConnection.mapChannels { c with
      inPacketId := incomingSequence - 1
      outPacketId := outgoingSequence
      outAckPacketId := outgoingSequence - 1
      lastNotifiedSendPacketId := outgoingSequence - 1
      initInReliable := (incomingSequence % maxChSequence).toNat
      initOutReliable := (outgoingSequence % maxChSequence).toNat
      pendingDispatchPacketReaders := []
      record := { c.record with entryRecord := [] }
      packetNotify := c.packetNotify.init (Seq.ofInt (incomingSequence - 1)) (Seq.ofInt outgoingSequence) }
      fun ch => ch.updateChannelSeq (incomingSequence % maxChSequence).toNat (outgoingSequence % maxChSequence).toNat) =
      outgoingSequence := by
    simp [firstUnsent, mapChannels, hqueue]
  constructor
  · exact hhandler
  · rw [hfirst]; rfl
  · show Seq.ofInt (((Seq.ofInt outgoingSequence).value : ℤ) - 1) = Seq.ofInt (outgoingSequence - 1)
    have hv : ((Seq.ofInt outgoingSequence).value : ℤ) = outgoingSequence % 2 ^ 14 :=
      SequenceNumber.ofInt_value (by decide) outgoingSequence
    apply (SequenceNumber.ofInt_eq_iff (by decide) _ _).mpr
    rw [hv]; omega
  · rfl
  · rw [hfirst]
    show outgoingSequence - 1 < outgoingSequence
    omega
  · show c.outPacketQueue.map _ = (List.range c.outPacketQueue.length).map _
    rw [hqueue]; rfl
  · refine ⟨[], ?_, rfl, ?_⟩
    · show 0 ≤ outgoingSequence - 1 + 1
      omega
    · show outgoingSequence - 1 + 1 + ((0 : ℕ) : ℤ) =
        if c.record.lastPacketId = outgoingSequence then outgoingSequence + 1 else outgoingSequence
      rw [if_neg hlast]
      push_cast; ring

/-! ## From a new connection -/

/-- A new connection behind `InitSequence`, with any channels; the callers mask their sequences, so none is negative. -/
def AfterInit (c : NetConnection) : Prop :=
  ∃ isServer n state cs incomingSequence outgoingSequence, 0 ≤ outgoingSequence ∧
    c = ({ NetConnection.new isServer n state with channels := cs }.initSequence incomingSequence outgoingSequence).2

theorem AfterInit.sendSync (h : AfterInit c) : c.SendSync := by
  obtain ⟨isServer, n, state, cs, incomingSequence, outgoingSequence, hle, rfl⟩ := h
  refine initSequence_sendSync rfl rfl rfl ?_ hle
  show (-1 : ℤ) ≠ outgoingSequence
  omega

instance : DecidablePred InWindow := fun c => inferInstanceAs (Decidable (c.state ≠ .closed ∧ c.unNotified < 2 ^ 13))

/-- A notification header with the given numbers and an empty history word, as bits. -/
def headerReader (seq ackedSeq : ℤ) : BitReader :=
  BitReader.ofBytes (leBytes 4 (PackedHeader.pack (Seq.ofInt seq) (Seq.ofInt ackedSeq) 0) ++ leBytes 4 0) 64

def initialized : NetConnection :=
  ({ NetConnection.new true 2 .open with channels := [none, none] }.initSequence 5 9).2

def AfterAnyInit (c : NetConnection) : Prop :=
  ∃ isServer n state cs incomingSequence outgoingSequence,
    c = ({ NetConnection.new isServer n state with channels := cs }.initSequence incomingSequence outgoingSequence).2

end NetConnection

end RudpEngine
