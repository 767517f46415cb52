import RudpEngine.AssembleExact

/-!
# What assembling packets leaves alone

Assembling moves bunches out of the queues and records them; nothing of the
receiving side, of a builder or of the packet notification changes.
-/

namespace RudpEngine

def NetChannel.SendMoved (ch ch' : NetChannel) : Prop :=
  ch' = { ch with outBunchQueue := ch'.outBunchQueue, outUnAckedBunches := ch'.outUnAckedBunches }

namespace NetConnection

structure AssembleFrame (c c' : NetConnection) : Prop where
  conn : c' = { c with
    channels := c'.channels
    outPacketQueue := c'.outPacketQueue
    record := c'.record
    state := c'.state
    outPacketId := c'.outPacketId
    released := c'.released }
  length : c'.channels.length = c.channels.length
  absent : ∀ i, c.channel? i = none → c'.channel? i = none
  channel : ∀ i ch, c.channel? i = some ch → ∃ ch', c'.channel? i = some ch' ∧ ch.SendMoved ch'

namespace AssembleFrame

variable {c c' c'' : NetConnection}

theorem refl (c : NetConnection) : AssembleFrame c c := ⟨rfl, rfl, fun _ h => h, fun _ ch h => ⟨ch, h, rfl⟩⟩

theorem trans (h : AssembleFrame c c') (h' : AssembleFrame c' c'') : AssembleFrame c c'' := by
  constructor
  · rw [h'.conn, h.conn]
  · rw [h'.length, h.length]
  · intro i hi
    exact h'.absent i (h.absent i hi)
  · intro i ch hi
    obtain ⟨ch', hi', hm⟩ := h.channel i ch hi
    obtain ⟨ch'', hi'', hm'⟩ := h'.channel i ch' hi'
    refine ⟨ch'', hi'', ?_⟩
    rw [NetChannel.SendMoved] at hm hm' ⊢
    rw [hm', hm]

theorem of_channels (hc : c'.channels = c.channels) (h : c' = { c with
    channels := c'.channels, outPacketQueue := c'.outPacketQueue, record := c'.record, state := c'.state,
    outPacketId := c'.outPacketId, released := c'.released }) : AssembleFrame c c' := by
  have hch : ∀ i, c'.channel? i = c.channel? i := fun i => by rw [channel?, channel?, hc]
  refine ⟨h, by rw [hc], ?_, ?_⟩
  · intro i hi
    rw [hch, hi]
  · intro i ch hi
    exact ⟨ch, by rw [hch, hi], rfl⟩

theorem setChannel {i : ℕ} {ch ch' : NetChannel} (hi : c.channel? i = some ch) (hm : ch.SendMoved ch') :
    AssembleFrame c (c.setChannel i ch') := by
  have hset := channel?_setChannel (lt_of_channel? hi) ch'
  refine ⟨rfl, length_setChannel i ch', ?_, ?_⟩
  · intro j hj
    rw [hset, if_neg, hj]
    rintro rfl
    rw [hi] at hj; cases hj
  · intro j ch₀ hj
    rw [hset]
    by_cases hji : j = i
    · subst hji
      obtain rfl : ch = ch₀ := Option.some.inj (hi.symm.trans hj)
      exact ⟨ch', if_pos rfl, hm⟩
    · exact ⟨ch₀, by rw [if_neg hji, hj], rfl⟩

end AssembleFrame

namespace Assembling

variable {a : Assembling}

theorem packetFor_frame (size : ℕ) :
    AssembleFrame a.conn (a.packetFor size).2.conn ∧ (a.packetFor size).2.conn.state = a.conn.state := by
  unfold packetFor createNewPacket finish
  cases a.packet <;> simp only <;> split_ifs <;> exact ⟨.of_channels rfl rfl, rfl⟩

def Framed (c : NetConnection) (a : Assembling) : Prop :=
  AssembleFrame c a.conn ∧ a.conn.state = if a.overflow then .closed else c.state

theorem Framed.placeBunch {c : NetConnection} (h : Framed c a) (hov : a.overflow = false) {index : ℕ} {ch : NetChannel}
    (hch : a.conn.channel? index = some ch) (bunch : OutReadyBunch) : Framed c (a.placeBunch index bunch) := by
  obtain ⟨hf, hst⟩ := h
  rw [hov] at hst
  obtain ⟨hpf, hps⟩ := packetFor_frame (a := a) bunch.totalSize
  have hpo := packetFor_overflow (a := a) bunch.totalSize
  have hpc : (a.packetFor bunch.totalSize).2.conn.channel? index = some ch := (packetFor_channel? _ _).trans hch
  unfold Assembling.placeBunch
  split_ifs with hd
  · refine ⟨hf.trans (.of_channels rfl rfl), ?_⟩
    simpa [hov] using hst
  · generalize a.packetFor bunch.totalSize = pf at hpf hps hpo hpc
    obtain ⟨packet, a'⟩ := pf
    simp only at hpf hps hpo hpc ⊢
    rw [hpc]
    have hrec : NetConnection.channel? { a'.conn with
        record := a'.conn.record.pushChannelRecord packet.outPacketId ch.chIndex } index = some ch := hpc
    have hframe := (hf.trans hpf).trans (show AssembleFrame a'.conn { a'.conn with
      record := a'.conn.record.pushChannelRecord packet.outPacketId ch.chIndex } from .of_channels rfl rfl)
    simp only [Option.map_some, Option.getD_some]
    rw [hrec, Option.bind_some]
    cases hadd : ch.addUnAckedOutBunch packet.outPacketId bunch with
    | none => exact ⟨hframe.trans (.of_channels rfl rfl), rfl⟩
    | some ch' =>
      have hmoved : ch.SendMoved ch' := by rw [addUnAckedOutBunch_some hadd]; rfl
      refine ⟨hframe.trans (.setChannel hrec hmoved), ?_⟩
      show a'.conn.state = if a'.overflow then _ else _
      rw [hpo, hov, hps, hst]

theorem Framed.takeAndPlace {c : NetConnection} (h : Framed c a) (hov : a.overflow = false) {index : ℕ} {ch : NetChannel}
    (hch : a.conn.channel? index = some ch) (bunch : OutReadyBunch) (rest : List OutReadyBunch) :
    Framed c (a.takeAndPlace index ch bunch rest) := by
  have hset := channel?_setChannel (lt_of_channel? hch) { ch with outBunchQueue := rest } index
  rw [if_pos rfl] at hset
  refine Framed.placeBunch (a := { a with conn := a.conn.setChannel index { ch with outBunchQueue := rest } }) ?_ hov
    hset bunch
  exact ⟨h.1.trans (.setChannel hch rfl), h.2⟩

theorem confirm_frame (a : Assembling) : AssembleFrame a.conn a.confirm.conn ∧ a.confirm.conn.state = a.conn.state := by
  unfold Assembling.confirm finish
  cases a.packet with
  | none => exact ⟨.refl _, rfl⟩
  | some p => simp only; split_ifs <;> exact ⟨.of_channels rfl rfl, rfl⟩

end Assembling

open Assembling

variable {c : NetConnection}

theorem assembling_framed (c : NetConnection) : Framed c c.assembling :=
  passes_invariant (fun _ _ _ bunch rest hI hov hch _ => hI.takeAndPlace hov hch bunch rest) _ _ _
    ⟨.refl c, rfl⟩

theorem assemble_frame (c : NetConnection) (keepAliveDue : Bool) :
    AssembleFrame c (c.assembleOutgoingPackets keepAliveDue) := by
  have hf := c.assembling_framed
  unfold assembleOutgoingPackets
  cases hreq : c.isRequireAssembleBunch with
  | false =>
    cases keepAliveDue with
    | true => exact .of_channels rfl rfl
    | false => exact .refl c
  | true =>
    cases hov : c.assembling.overflow with
    | true => simpa [hov] using hf.1
    | false =>
      simp only [Bool.not_true, Bool.false_eq_true, if_false, hov]
      exact (hf.1.trans (confirm_frame _).1).trans (.of_channels rfl rfl)

/-- Assembling closes the connection where the reliable buffer overflows, and nowhere else. -/
theorem assemble_state (c : NetConnection) (keepAliveDue : Bool) :
    (c.OverflowsReliableBuffer ∧ (c.assembleOutgoingPackets keepAliveDue).state = .closed) ∨
      (¬ c.OverflowsReliableBuffer ∧ (c.assembleOutgoingPackets keepAliveDue).state = c.state) := by
  have hf := c.assembling_framed.2
  unfold assembleOutgoingPackets OverflowsReliableBuffer
  cases hreq : c.isRequireAssembleBunch with
  | false => cases keepAliveDue <;> simp [keepAlive]
  | true =>
    cases hov : c.assembling.overflow with
    | true => simpa [hov] using hf
    | false => simpa [hov, (confirm_frame _).2] using hf

end NetConnection

end RudpEngine
