import RudpEngine.Custody

/-!
# Giving message buffers back

The callback of a message is run where its bunch is discarded, and nowhere else.
So no message is given back twice, or while it is held; but a message that leaves
with an acknowledged bunch, a reset, an early return or a bunch it does not fit is
never given back.
-/

namespace RudpEngine

open ChannelBunchBuilder NetConnection NetConnection.Assembling

namespace NetConnection

variable {c c' : NetConnection}

/-! ## The ledger of a connection -/

def held (c : NetConnection) : List NetMessage := c.channels.flatMap fun ch => ch.toList.flatMap NetChannel.held

def discardable (c : NetConnection) : List NetMessage := c.channels.flatMap fun ch => ch.toList.flatMap NetChannel.discardable

def sendable (c : NetConnection) : List NetMessage := c.channels.flatMap fun ch => ch.toList.flatMap NetChannel.sendable

def inPackets (packets : List OutReadyPacket) : List NetMessage :=
  packets.flatMap fun p => p.bunchs.flatMap OutReadyBunch.messages

/-- The accepted messages: still discardable, in a bunch to send, or released; outside are those in packets. -/
def ledger (accepted : List NetMessage) (c : NetConnection) (packets : List OutReadyPacket) : Ledger NetMessage where
  accepted := accepted
  waiting := c.discardable
  carried := c.sendable
  released := c.released
  outside := inPackets packets

theorem mem_held {m : NetMessage} : m ∈ c.held ↔ m ∈ c.discardable ∨ m ∈ c.sendable := by
  have key : ∀ ch : NetChannel, m ∈ ch.held ↔ m ∈ ch.discardable ∨ m ∈ ch.sendable := by
    intro ch
    rw [← List.count_pos_iff, ← List.count_pos_iff, ← List.count_pos_iff, ch.count_held]
    omega
  simp only [held, discardable, sendable, List.mem_flatMap, key]
  constructor
  · rintro ⟨o, ho, ch, hch, hm | hm⟩
    · exact .inl ⟨o, ho, ch, hch, hm⟩
    · exact .inr ⟨o, ho, ch, hch, hm⟩
  · rintro (⟨o, ho, ch, hch, hm⟩ | ⟨o, ho, ch, hch, hm⟩)
    · exact ⟨o, ho, ch, hch, .inl hm⟩
    · exact ⟨o, ho, ch, hch, .inr hm⟩

section
variable {i : ℕ} {ch ch' : NetChannel} {new lost : List OutReadyBunch} {dropped : List NetMessage}
variable {accepted : List NetMessage} {ps ps' : List OutReadyPacket}

theorem count_exchanged (hch : c.channel? i = some ch) (hset : c'.channels = c.channels.set i (some ch'))
    (f : NetChannel → List NetMessage) (m : NetMessage) :
    (c'.channels.flatMap fun ch => ch.toList.flatMap f).count m + (f ch).count m =
      (c.channels.flatMap fun ch => ch.toList.flatMap f).count m + (f ch').count m := by
  have hi : c.channels[i]? = some (some ch) := Option.join_eq_some_iff.mp hch
  have := Ledger.count_flatMap_set (fun ch : Option NetChannel => ch.toList.flatMap f) (some ch') m c.channels i (some ch) hi
  rw [hset]
  simpa using this

theorem count_changed (h : NetChannel.Changed ch ch' new lost dropped) (hch : c.channel? i = some ch)
    (hset : c'.channels = c.channels.set i (some ch')) (m : NetMessage) :
    c'.discardable.count m + ((lost.filter fun b => !kept b).flatMap OutReadyBunch.messages).count m +
        ((new.filter kept).flatMap OutReadyBunch.messages).count m + dropped.count m = c.discardable.count m ∧
      c'.sendable.count m + ((lost.filter kept).flatMap OutReadyBunch.messages).count m =
        c.sendable.count m + ((new.filter kept).flatMap OutReadyBunch.messages).count m := by
  have hd : c'.discardable.count m + ch.discardable.count m = c.discardable.count m + ch'.discardable.count m :=
    count_exchanged hch hset NetChannel.discardable m
  have hs : c'.sendable.count m + ch.sendable.count m = c.sendable.count m + ch'.sendable.count m :=
    count_exchanged hch hset NetChannel.sendable m
  have := h.count_discardable m
  have := h.count_sendable m
  omega

/-- The change is a step, where no more is released than the bunches that left without being sendable. -/
theorem step_of_changed (h : NetChannel.Changed ch ch' new lost dropped) (hch : c.channel? i = some ch)
    (hset : c'.channels = c.channels.set i (some ch'))
    (hreleased : ∀ m, c'.released.count m ≤
      c.released.count m + ((lost.filter fun b => !kept b).flatMap OutReadyBunch.messages).count m)
    (hpackets : ∀ m ∈ inPackets ps', m ∈ inPackets ps ∨ m ∈ c.sendable) :
    (ledger accepted c ps).Step (ledger accepted c' ps') := by
  refine ⟨rfl, ?_, ?_, hpackets⟩
  · intro m
    have := (count_changed h hch hset m).1
    have := hreleased m
    simp only [ledger]
    omega
  · intro m
    obtain ⟨h1, h2⟩ := count_changed h hch hset m
    have := hreleased m
    simp only [Ledger.total, ledger]
    omega

/-- It loses nothing that was not among the dropped messages, or in a bunch that left and was not released. -/
theorem total_of_changed (h : NetChannel.Changed ch ch' new lost dropped) (hch : c.channel? i = some ch)
    (hset : c'.channels = c.channels.set i (some ch')) {m : NetMessage}
    (hlost : dropped.count m + c.released.count m + (lost.flatMap OutReadyBunch.messages).count m ≤ c'.released.count m) :
    (ledger accepted c ps).total m ≤ (ledger accepted c' ps').total m := by
  obtain ⟨h1, h2⟩ := count_changed h hch hset m
  have := NetChannel.count_kept_add lost m
  simp only [Ledger.total, ledger]
  omega

theorem step_of_same (hch : c'.channels = c.channels) (hr : c'.released = c.released)
    (hpackets : ∀ m ∈ inPackets ps', m ∈ inPackets ps) :
    (ledger accepted c ps).Step (ledger accepted c' ps') ∧
      ∀ m, (ledger accepted c ps).total m = (ledger accepted c' ps').total m := by
  have hd : c'.discardable = c.discardable := by rw [discardable, discardable, hch]
  have hs : c'.sendable = c.sendable := by rw [sendable, sendable, hch]
  have htotal : ∀ m, (ledger accepted c ps).total m = (ledger accepted c' ps').total m := by
    intro m
    simp only [Ledger.total, ledger, hd, hs, hr]
  refine ⟨⟨rfl, ?_, fun m => (htotal m).ge, fun m hm => .inl (hpackets m hm)⟩, htotal⟩
  intro m
  simp only [ledger, hd, hr]
  exact Nat.le_refl _

end

/-! ## Assembling packets -/

namespace Assembling

variable {a : Assembling} {accepted : List NetMessage}

theorem inPackets_append (ps ps' : List OutReadyPacket) : inPackets (ps ++ ps') = inPackets ps ++ inPackets ps' :=
  List.flatMap_append

theorem inPackets_sealed (ps : List OutReadyPacket) (p : OutReadyPacket) :
    inPackets (ps ++ [p.packetSealed]) = inPackets (ps ++ [p]) := by
  rw [inPackets_append, inPackets_append, inPackets, inPackets, inPackets]
  simp

/-- The ledger inside `AssembleOutgoingPackets`, with the packets that are not queued yet. -/
def ledger (accepted : List NetMessage) (a : Assembling) : Ledger NetMessage :=
  NetConnection.ledger accepted a.conn (a.conn.outPacketQueue ++ a.packets)

theorem packetFor_same (a : Assembling) (size : ℕ) :
    (a.packetFor size).2.conn.channels = a.conn.channels ∧ (a.packetFor size).2.conn.released = a.conn.released ∧
      (a.packetFor size).2.conn.outPacketQueue = a.conn.outPacketQueue ∧
      (∀ m ∈ inPackets (a.packetFor size).2.packets, m ∈ inPackets a.packets) ∧
      inPackets ((a.packetFor size).2.readyPackets ++ [(a.packetFor size).1]) = inPackets a.packets := by
  have hempty : ∀ (ps : List OutReadyPacket) (b : Assembling), inPackets (ps ++ [b.createNewPacket.1]) = inPackets ps := by
    intro ps b
    rw [inPackets_append]
    exact List.append_nil _
  unfold packetFor packets
  cases hp : a.packet with
  | none =>
    simp only
    split_ifs
    · refine ⟨rfl, rfl, rfl, ?_, ?_⟩
      · intro m hm
        have hm : m ∈ inPackets (a.readyPackets ++ [a.createNewPacket.1.packetSealed] ++ a.packet.toList) := hm
        rw [hp, Option.toList_none, List.append_nil, inPackets_sealed, hempty _ a] at hm
        simpa using hm
      · rw [hempty]
        simp only [finish, createNewPacket, Option.toList_none, List.append_nil]
        rw [inPackets_sealed]
        exact hempty _ a
    · refine ⟨rfl, rfl, rfl, ?_, ?_⟩
      · intro m hm
        simpa only [createNewPacket, hp] using hm
      · rw [hempty, Option.toList_none, List.append_nil]
        rfl
  | some p =>
    simp only
    split_ifs
    · refine ⟨rfl, rfl, rfl, ?_, ?_⟩
      · intro m hm
        simp only [finish, createNewPacket, hp] at hm
        rw [inPackets_append, inPackets_sealed, inPackets_append] at hm
        rw [inPackets_append]
        simp only [Option.toList_some, List.mem_append] at hm ⊢
        exact hm.elim id .inr
      · rw [hempty]
        exact inPackets_sealed _ p
    · refine ⟨rfl, rfl, rfl, ?_, rfl⟩
      intro m hm
      simpa only [hp] using hm

theorem inPackets_append_bunch {m : NetMessage} {packet : OutReadyPacket} {bunch : OutReadyBunch} {ps : List OutReadyPacket}
    (hm : m ∈ inPackets (ps ++ [(ConnectionPacketBuilder.append packet bunch).2])) :
    m ∈ inPackets (ps ++ [packet]) ∨ m ∈ bunch.messages := by
  unfold ConnectionPacketBuilder.append at hm
  split_ifs at hm
  · exact .inl hm
  · exact .inl hm
  · simp only [inPackets, OutReadyPacket.push, List.flatMap_append, List.flatMap_cons, List.flatMap_nil, List.append_nil,
      List.mem_append] at hm ⊢
    exact or_assoc.mpr hm

theorem takeAndPlace_step {index : ℕ} {ch : NetChannel} {bunch : OutReadyBunch}
    {rest : List OutReadyBunch} (hch : a.conn.channel? index = some ch) (hq : ch.outBunchQueue = bunch :: rest) :
    (a.ledger accepted).Step ((a.takeAndPlace index ch bunch rest).ledger accepted) ∧
      ((a.takeAndPlace index ch bunch rest).overflow = false → ∀ m : NetMessage, m.callback = true →
        (a.ledger accepted).total m ≤ ((a.takeAndPlace index ch bunch rest).ledger accepted).total m) := by
  have htaken := NetChannel.changed_dequeued hq
  unfold takeAndPlace
  generalize hb : ({ a with conn := a.conn.setChannel index { ch with outBunchQueue := rest } } : Assembling) = b
  have hset : b.conn.channels = a.conn.channels.set index (some { ch with outBunchQueue := rest }) := by rw [← hb]; rfl
  have hreleased : b.conn.released = a.conn.released := by rw [← hb]; rfl
  have hqueue : b.conn.outPacketQueue = a.conn.outPacketQueue := by rw [← hb]; rfl
  have hpackets : b.packets = a.packets := by rw [← hb]; rfl
  have hbch : b.conn.channel? index = some { ch with outBunchQueue := rest } := by
    have := channel?_setChannel (lt_of_channel? hch) { ch with outBunchQueue := rest } index
    rw [if_pos rfl] at this
    rw [← hb]; exact this
  obtain ⟨hchannels, hrel, hout, hsub, hsame⟩ := b.packetFor_same bunch.totalSize
  rcases placeBunch_cases hbch bunch with ⟨hk, he⟩ | ⟨hk, he | ⟨ch', hadd, he⟩⟩
  · -- discarded: the callbacks are run
    have hlost : ([bunch].filter fun b => !kept b).flatMap OutReadyBunch.messages = bunch.messages := by simp [hk]
    have hset' : (b.placeBunch index bunch).conn.channels =
        a.conn.channels.set index (some { ch with outBunchQueue := rest }) := by rw [he]; exact hset
    have hrel' : (b.placeBunch index bunch).conn.released = a.conn.released ++ discardOutReadyBunch bunch := by
      rw [he, ← hreleased]
    constructor
    · apply step_of_changed htaken hch hset'
      · intro m
        rw [hrel', hlost, List.count_append]
        exact Nat.add_le_add_left (List.filter_sublist.count_le m) _
      · intro m hm
        left
        rw [he] at hm
        rw [← hqueue, ← hpackets]
        exact hm
    · intro _ m hm
      apply total_of_changed htaken hch hset'
      rw [hrel', List.count_append, discardOutReadyBunch, List.count_filter hm]
      simp
  · -- lost
    have hset' : (b.placeBunch index bunch).conn.channels =
        a.conn.channels.set index (some { ch with outBunchQueue := rest }) := by rw [he]; exact hchannels.trans hset
    have hrel' : (b.placeBunch index bunch).conn.released = a.conn.released := by rw [he]; exact hrel.trans hreleased
    constructor
    · apply step_of_changed htaken hch hset'
      · intro m
        rw [hrel']
        exact Nat.le_add_right _ _
      · intro m hm
        left
        rw [he] at hm
        have hm : m ∈ inPackets ((b.packetFor bunch.totalSize).2.conn.outPacketQueue ++
          (b.packetFor bunch.totalSize).2.packets) := hm
        rw [inPackets_append, hout, List.mem_append] at hm
        rw [inPackets_append, ← hqueue, ← hpackets, List.mem_append]
        exact hm.imp_right (hsub m)
    · intro hno
      rw [he] at hno
      cases hno
  · -- recorded under the id of the packet
    have hrecorded := NetChannel.changed_recorded hq hadd
    have hset' : (b.placeBunch index bunch).conn.channels = a.conn.channels.set index (some ch') := by
      rw [he]
      show (b.packetFor bunch.totalSize).2.conn.channels.set index (some ch') = _
      rw [hchannels, hset, List.set_set]
    have hrel' : (b.placeBunch index bunch).conn.released = a.conn.released := by rw [he]; exact hrel.trans hreleased
    constructor
    · apply step_of_changed hrecorded hch hset'
      · intro m
        rw [hrel']
        exact Nat.le_add_right _ _
      · intro m hm
        rw [he] at hm
        have hm : m ∈ inPackets ((b.packetFor bunch.totalSize).2.conn.outPacketQueue ++
          ((b.packetFor bunch.totalSize).2.readyPackets ++
            [(ConnectionPacketBuilder.append (b.packetFor bunch.totalSize).1 bunch).2])) := hm
        rw [inPackets_append, hout, List.mem_append] at hm
        rcases hm with hm | hm
        · left
          rw [inPackets_append, ← hqueue]
          exact List.mem_append_left _ hm
        · rcases inPackets_append_bunch hm with hm | hm
          · left
            rw [inPackets_append, ← hpackets, ← hsame]
            exact List.mem_append_right _ hm
          · right
            apply List.mem_flatMap.mpr
            refine ⟨some ch, List.mem_of_getElem? (Option.join_eq_some_iff.mp hch), ?_⟩
            simp only [Option.toList_some, List.flatMap_cons, List.flatMap_nil, List.append_nil]
            refine List.mem_flatMap.mpr ⟨bunch, ?_, hm⟩
            simp [NetChannel.bunches, hq, hk]
    · intro _ m _
      apply total_of_changed hrecorded hch hset'
      rw [hrel']
      simp

theorem inPackets_confirm {m : NetMessage} (hm : m ∈ inPackets a.confirm.readyPackets) : m ∈ inPackets a.packets := by
  unfold Assembling.confirm at hm
  unfold packets
  cases hp : a.packet with
  | none =>
    rw [hp] at hm
    simpa using hm
  | some p =>
    rw [hp] at hm
    simp only at hm
    split_ifs at hm
    · rw [inPackets_append]
      exact List.mem_append_left _ hm
    · rw [Option.toList_some, ← inPackets_sealed]
      exact hm

end Assembling

/-- The four ways of `AssembleOutgoingPackets`: nothing to do, a keep-alive, the early return, and the packets stored. -/
theorem assemble_cases (c : NetConnection) (keepAliveDue : Bool) :
    (keepAliveDue = false ∧ c.assembleOutgoingPackets keepAliveDue = c) ∨
    (keepAliveDue = true ∧ c.assembleOutgoingPackets keepAliveDue = c.keepAlive) ∨
    (c.OverflowsReliableBuffer ∧ c.assembleOutgoingPackets keepAliveDue = c.assembling.conn) ∨
    (¬ c.OverflowsReliableBuffer ∧ c.assembling.overflow = false ∧ c.assembleOutgoingPackets keepAliveDue =
      { c.assembling.confirm.conn with
        outPacketQueue := c.assembling.confirm.conn.outPacketQueue ++ c.assembling.confirm.readyPackets }) := by
  unfold assembleOutgoingPackets OverflowsReliableBuffer
  cases c.isRequireAssembleBunch with
  | false => cases keepAliveDue <;> simp
  | true =>
    cases hov : c.assembling.overflow with
    | true => exact .inr (.inr (.inl ⟨⟨rfl, rfl⟩, by simp [hov]⟩))
    | false => exact .inr (.inr (.inr ⟨by simp, rfl, by simp [hov]⟩))

section
variable {accepted : List NetMessage}

/-- What is kept through the passes: the ledger stays sound, and settled up to the early return. -/
theorem passes_ledger {owed : NetMessage → Prop} (howed : ∀ m, owed m → m.callback = true)
    (h : (ledger accepted c c.outPacketQueue).Sound) :
    (c.assembling.ledger accepted).Sound ∧ (c.assembling.overflow = false →
      Ledger.Settled owed (ledger accepted c c.outPacketQueue) → Ledger.Settled owed (c.assembling.ledger accepted)) := by
  refine passes_invariant (I := fun a => (a.ledger accepted).Sound ∧ (a.overflow = false →
    Ledger.Settled owed (ledger accepted c c.outPacketQueue) → Ledger.Settled owed (a.ledger accepted))) ?_ _ _ _ ?_
  · intro a index ch bunch rest ⟨hs, ho⟩ hov hch hq
    obtain ⟨hstep, hkeep⟩ := takeAndPlace_step hch hq
    refine ⟨hs.step hstep, ?_⟩
    intro hov' hset
    exact (ho hov hset).step hs hstep fun m hm => hkeep hov' m (howed m hm)
  · have hsame : (Assembling.mk c none [] false).ledger accepted = ledger accepted c c.outPacketQueue := by
      simp [Assembling.ledger, Assembling.packets]
    rw [hsame]
    exact ⟨h, fun _ hset => hset⟩

theorem assemble_ledger {owed : NetMessage → Prop} (howed : ∀ m, owed m → m.callback = true) (keepAliveDue : Bool)
    (h : (ledger accepted c c.outPacketQueue).Sound) :
    (ledger accepted (c.assembleOutgoingPackets keepAliveDue) (c.assembleOutgoingPackets keepAliveDue).outPacketQueue).Sound ∧
      (¬ c.OverflowsReliableBuffer → Ledger.Settled owed (ledger accepted c c.outPacketQueue) →
        Ledger.Settled owed (ledger accepted (c.assembleOutgoingPackets keepAliveDue)
          (c.assembleOutgoingPackets keepAliveDue).outPacketQueue)) := by
  obtain ⟨hs, ho⟩ := passes_ledger howed h
  -- behind the passes only the packets outside can change
  have key : ∀ (c₀ c' : NetConnection) (ps : List OutReadyPacket), (ledger accepted c₀ ps).Sound →
      c'.channels = c₀.channels → c'.released = c₀.released → (∀ m ∈ inPackets c'.outPacketQueue, m ∈ inPackets ps) →
      (ledger accepted c' c'.outPacketQueue).Sound ∧ (Ledger.Settled owed (ledger accepted c₀ ps) →
        Ledger.Settled owed (ledger accepted c' c'.outPacketQueue)) := by
    intro c₀ c' ps hsound hch hr hps
    obtain ⟨hstep, htotal⟩ : (ledger accepted c₀ ps).Step (ledger accepted c' c'.outPacketQueue) ∧ _ := step_of_same hch hr hps
    exact ⟨hsound.step hstep, fun hset => hset.step hsound hstep fun m _ => (htotal m).le⟩
  rcases c.assemble_cases keepAliveDue with ⟨-, he⟩ | ⟨-, he⟩ | ⟨hfull, he⟩ | ⟨-, hov, he⟩
  · rw [he]
    exact ⟨h, fun _ hset => hset⟩
  · rw [he]
    obtain ⟨h1, h2⟩ := key c c.keepAlive c.outPacketQueue h rfl rfl (by
      intro m hm
      have hm : m ∈ inPackets (c.outPacketQueue ++
        [{ ConnectionPacketBuilder.buildStart with outPacketId := c.outPacketId }.packetSealed]) := hm
      rw [inPackets_sealed, inPackets_append] at hm
      simpa [inPackets, ConnectionPacketBuilder.buildStart, OutReadyPacket.buildBegin] using hm)
    exact ⟨h1, fun _ => h2⟩
  · rw [he]
    obtain ⟨h1, -⟩ := key c.assembling.conn c.assembling.conn _ hs rfl rfl (by
      intro m hm
      rw [inPackets_append]
      exact List.mem_append_left _ hm)
    exact ⟨h1, fun hno => absurd hfull hno⟩
  · obtain ⟨hcc, hcq⟩ := confirm_conn c.assembling
    have hcr : c.assembling.confirm.conn.released = c.assembling.conn.released := by
      unfold Assembling.confirm finish
      cases c.assembling.packet with
      | none => rfl
      | some p => simp only; split_ifs <;> rfl
    rw [he]
    obtain ⟨h1, h2⟩ := key c.assembling.conn { c.assembling.confirm.conn with
      outPacketQueue := c.assembling.confirm.conn.outPacketQueue ++ c.assembling.confirm.readyPackets } _ hs hcc hcr (by
      intro m hm
      have hm : m ∈ inPackets (c.assembling.confirm.conn.outPacketQueue ++ c.assembling.confirm.readyPackets) := hm
      rw [inPackets_append, hcq, List.mem_append] at hm
      rw [inPackets_append, List.mem_append]
      exact hm.imp_right inPackets_confirm)
    exact ⟨h1, fun _ hset => h2 (ho hov hset)⟩

end

end NetConnection

/-! ## Runs -/

structure ReleaseRun where
  conn : NetConnection
  accepted : List NetMessage

inductive ReleaseAction
  | submit (i : ℕ) (m : NetMessage)
  | pump (i : ℕ) (nowUs : ℕ → ℕ) (batchLimit : ℕ) (flushTail : Bool)
  | ready (i : ℕ)
  | assemble (keepAliveDue : Bool)
  | flush (nowUs : ℕ)
  | acked (i : ℕ) (packetId : ℤ)
  | nacked (i : ℕ) (packetId : ℤ)
  | forceRetransmitAllUnAcked (i : ℕ)
  | updateChannelSeq (i : ℕ) (inReliable outReliable : ℕ)

namespace ReleaseRun

/-- The context a message is submitted with names it: nothing in the code looks at it, and the callback gets it back. -/
def tagged (s : ReleaseRun) (m : NetMessage) : NetMessage := { m with context := s.accepted.length }

def next (s : ReleaseRun) : ReleaseAction → ReleaseRun
  | .submit i m =>
    match s.conn.channel? i with
    | none => s
    | some ch => { conn := s.conn.setChannel i (ch.registerMessage (s.tagged m)), accepted := s.accepted ++ [s.tagged m] }
  | .pump i nowUs batchLimit flushTail =>
    { s with conn := s.conn.modifyChannel i fun ch => ch.pumpBunch nowUs batchLimit flushTail }
  | .ready i =>
    { s with conn := s.conn.modifyChannel i fun ch => ch.flushReady ch.bunchBuilder.queuedOutBunch.length }
  | .assemble keepAliveDue => { s with conn := s.conn.assembleOutgoingPackets keepAliveDue }
  | .flush nowUs => { s with conn := (s.conn.flushPacket nowUs).2 }
  | .acked i packetId => { s with conn := s.conn.modifyChannel i fun ch => ch.acked packetId }
  | .nacked i packetId => { s with conn := s.conn.modifyChannel i fun ch => ch.nacked packetId }
  | .forceRetransmitAllUnAcked i => { s with conn := s.conn.modifyChannel i NetChannel.forceRetransmitAllUnAcked }
  | .updateChannelSeq i inReliable outReliable =>
    { s with conn := s.conn.modifyChannel i fun ch => ch.updateChannelSeq inReliable outReliable }

structure Fresh (s : ReleaseRun) : Prop where
  channel : ∀ i ch, s.conn.channel? i = some ch → ch = NetChannel.init i s.conn.initInReliable s.conn.initOutReliable
  outPacketQueue : s.conn.outPacketQueue = []
  released : s.conn.released = []
  accepted : s.accepted = []

/-- The step forgets no message with a callback: `Pump` takes it, the bunches acknowledged or reset have none, and
assembling does not return early. -/
def Forgets (s : ReleaseRun) : ReleaseAction → Prop
  | .pump i nowUs batchLimit flushTail => ∃ ch, s.conn.channel? i = some ch ∧
      ¬ PumpMeets (fun b m => b.Takes m ∨ m.callback = false) (fun _ => True) nowUs batchLimit flushTail ch.bunchBuilder
        ch.outReliable
  | .assemble _ => s.conn.OverflowsReliableBuffer
  | .acked i packetId => ∃ ch, s.conn.channel? i = some ch ∧
      ∃ m ∈ (ch.unAcked packetId).flatMap OutReadyBunch.messages, m.callback = true
  | .updateChannelSeq i _ _ => ∃ ch, s.conn.channel? i = some ch ∧
      ∃ m ∈ (ch.outBunchQueue ++ ch.outUnAckedBunches.members).flatMap OutReadyBunch.messages, m.callback = true
  | _ => False

/-- Every accepted message is given back at most once, never while it is held or in a queued packet, and exactly
once, if it has a callback, when no queue of a builder or a channel has it. -/
structure ReleasedOnce (s : ReleaseRun) : Prop where
  once : ∀ m ∈ s.accepted, s.conn.released.count m ≤ 1
  held : ∀ m ∈ s.conn.released, m ∉ s.conn.held ∧ m ∉ inPackets s.conn.outPacketQueue
  settled : ∀ m ∈ s.accepted, m.callback = true → m ∉ s.conn.held → s.conn.released.count m = 1

end ReleaseRun

def releaseSystem : System ReleaseRun ReleaseAction := ⟨ReleaseRun.Fresh, ReleaseRun.next⟩

namespace NetConnection

theorem modifyChannel_cases (c : NetConnection) (i : ℕ) (f : NetChannel → NetChannel) :
    (c.channel? i = none ∧ c.modifyChannel i f = c) ∨
      ∃ ch, c.channel? i = some ch ∧ c.modifyChannel i f = c.setChannel i (f ch) := by
  cases h : c.channel? i with
  | none =>
    refine .inl ⟨rfl, ?_⟩
    have hsame : c.channels.modify i (Option.map f) = c.channels := by
      apply List.ext_getElem?
      intro j
      rw [List.getElem?_modify]
      by_cases hj : i = j
      · subst hj
        rcases hc : c.channels[i]? with _ | (_ | ch)
        · rfl
        · simp
        · rw [channel?, hc] at h
          cases h
      · simp [hj]
    rw [modifyChannel, hsame]
  | some ch =>
    refine .inr ⟨ch, rfl, ?_⟩
    have hset : c.channels.modify i (Option.map f) = c.channels.set i (some (f ch)) := by
      rw [channel?, Option.join_eq_some_iff] at h
      rw [List.modify_eq_set, h]
      rfl
    rw [modifyChannel, hset]
    rfl

end NetConnection

namespace ReleaseRun

variable {s : ReleaseRun}

def ledger (s : ReleaseRun) : Ledger NetMessage := NetConnection.ledger s.accepted s.conn s.conn.outPacketQueue

def Owed (m : NetMessage) : Prop := m.callback = true

def Begun (ch : NetChannel) : Prop := ch.bunchBuilder.activeHasInit = true ∨ ch.bunchBuilder.activeMsgs = []

structure Accounted (s : ReleaseRun) : Prop where
  sound : s.ledger.Sound
  begun : ∀ i ch, s.conn.channel? i = some ch → Begun ch
  context : ∀ (k : ℕ) (m : NetMessage), s.accepted[k]? = some m → m.context = k

theorem Fresh.held (h : s.Fresh) : s.conn.discardable = [] ∧ s.conn.sendable = [] := by
  have key : ∀ f : NetChannel → List NetMessage, (∀ i o o', f (NetChannel.init i o o') = []) →
      (s.conn.channels.flatMap fun ch => ch.toList.flatMap f) = [] := by
    intro f hf
    apply List.flatMap_eq_nil_iff.mpr
    intro o ho
    cases o with
    | none => rfl
    | some ch =>
      obtain ⟨i, hi⟩ := List.getElem?_of_mem ho
      obtain rfl := h.channel i ch (by rw [channel?, hi]; rfl)
      simp [hf]
  exact ⟨key _ fun _ _ _ => rfl, key _ fun _ _ _ => rfl⟩

theorem Fresh.accounted (h : s.Fresh) : s.Accounted ∧ Ledger.Settled Owed s.ledger := by
  obtain ⟨hd, hs⟩ := h.held
  refine ⟨⟨⟨?_, ?_, ?_⟩, ?_, ?_⟩, ?_⟩
  · show s.accepted.Nodup
    rw [h.accepted]
    exact List.nodup_nil
  · intro m
    simp [Ledger.total, ledger, NetConnection.ledger, hd, hs, h.released]
  · intro m hm
    rw [ledger, NetConnection.ledger, h.outPacketQueue] at hm
    cases hm
  · intro i ch hi
    obtain rfl := h.channel i ch hi
    exact .inr rfl
  · intro k m hk
    rw [h.accepted] at hk
    cases hk
  · intro m hm
    have hm : m ∈ s.accepted := hm
    rw [h.accepted] at hm
    cases hm

theorem Accounted.modify (h : s.Accounted) {P : Prop} (i : ℕ) (f : NetChannel → NetChannel)
    (hf : ∀ ch, s.conn.channel? i = some ch → Begun (f ch) ∧ ∃ new lost dropped, NetChannel.Changed ch (f ch) new lost dropped ∧
      (P → ∀ m, Owed m → dropped.count m + (lost.flatMap OutReadyBunch.messages).count m = 0)) :
    Accounted { s with conn := s.conn.modifyChannel i f } ∧ (P → Ledger.Settled Owed s.ledger →
      Ledger.Settled Owed (ledger { s with conn := s.conn.modifyChannel i f })) := by
  rcases s.conn.modifyChannel_cases i f with ⟨-, he⟩ | ⟨ch, hch, he⟩
  · rw [he]
    exact ⟨h, fun _ hset => hset⟩
  · obtain ⟨hbegun, new, lost, dropped, hchanged, hkeep⟩ := hf ch hch
    rw [he]
    have hstep : s.ledger.Step (ledger { s with conn := s.conn.setChannel i (f ch) }) := by
      apply step_of_changed hchanged hch rfl
      · intro m
        exact Nat.le_add_right _ _
      · intro m hm
        exact .inl hm
    refine ⟨⟨h.sound.step hstep, ?_, h.context⟩, ?_⟩
    · intro j ch' hj
      have hset := channel?_setChannel (lt_of_channel? hch) (f ch) j
      have hj : (s.conn.setChannel i (f ch)).channel? j = some ch' := hj
      rw [hset] at hj
      split_ifs at hj
      · cases hj
        exact hbegun
      · exact h.begun j ch' hj
    · intro hP hset
      apply hset.step h.sound hstep
      intro m hm
      apply total_of_changed hchanged hch rfl
      have := hkeep hP m hm
      show _ ≤ s.conn.released.count m
      omega

theorem count_owed {l : List NetMessage} (hl : ∀ m ∈ l, m.callback = false) {m : NetMessage} (hm : Owed m) : l.count m = 0 := by
  apply List.count_eq_zero.mpr
  intro hmem
  have := hl m hmem
  rw [Owed, this] at hm
  cases hm

section
variable {ch ch' : NetChannel} {lost : List OutReadyBunch} {P : Prop}

theorem kept_of_changed (h : NetChannel.Changed ch ch' [] lost [])
    (hl : P → ∀ m ∈ lost.flatMap OutReadyBunch.messages, m.callback = false) :
    ∃ new lost dropped, NetChannel.Changed ch ch' new lost dropped ∧
      (P → ∀ m, Owed m → dropped.count m + (lost.flatMap OutReadyBunch.messages).count m = 0) := by
  refine ⟨[], lost, [], h, ?_⟩
  intro hP m hm
  rw [count_owed (hl hP) hm, List.count_nil]

end

theorem Accounted.submit (h : s.Accounted) (i : ℕ) (m : NetMessage) :
    (s.next (.submit i m)).Accounted ∧ (Ledger.Settled Owed s.ledger → Ledger.Settled Owed (s.next (.submit i m)).ledger) := by
  cases hch : s.conn.channel? i with
  | none =>
    have he : s.next (.submit i m) = s := by simp only [ReleaseRun.next, hch]
    rw [he]
    exact ⟨h, id⟩
  | some ch =>
    have he : s.next (.submit i m) =
        ⟨s.conn.setChannel i (ch.registerMessage (s.tagged m)), s.accepted ++ [s.tagged m]⟩ := by
      simp only [ReleaseRun.next, hch]
    have hfresh : s.tagged m ∉ s.accepted := by
      intro hm
      obtain ⟨k, hk⟩ := List.getElem?_of_mem hm
      have hlt : k < s.accepted.length := (List.getElem?_eq_some_iff.mp hk).1
      have hctx : s.accepted.length = k := h.context k _ hk
      omega
    have hcount : ∀ x, (ch.registerMessage (s.tagged m)).discardable.count x = ch.discardable.count x + [s.tagged m].count x := by
      intro x
      have hb : (ch.registerMessage (s.tagged m)).bunches = ch.bunches := rfl
      have hl : (ch.registerMessage (s.tagged m)).bunchBuilder.loose =
        ch.bunchBuilder.queuedMessage ++ [s.tagged m] ++ ch.bunchBuilder.activeMsgs := rfl
      rw [NetChannel.discardable, NetChannel.discardable, hb, hl, ChannelBunchBuilder.loose]
      simp only [List.count_append]
      omega
    have haccept : Ledger.Accept (s.tagged m) s.ledger (s.next (.submit i m)).ledger := by
      rw [he]
      refine ⟨hfresh, rfl, ?_, ?_, rfl, rfl⟩
      · intro x
        have hx : (s.conn.setChannel i (ch.registerMessage (s.tagged m))).discardable.count x + ch.discardable.count x = _ :=
          count_exchanged hch rfl NetChannel.discardable x
        rw [hcount] at hx
        show (s.conn.setChannel i (ch.registerMessage (s.tagged m))).discardable.count x = s.conn.discardable.count x + _
        rw [NetConnection.discardable] at hx ⊢
        rw [NetConnection.discardable]
        omega
      · intro x
        have hx : (s.conn.setChannel i (ch.registerMessage (s.tagged m))).sendable.count x + ch.sendable.count x = _ :=
          count_exchanged hch rfl NetChannel.sendable x
        exact Nat.add_right_cancel hx
    refine ⟨⟨h.sound.accept haccept, ?_, ?_⟩, fun hset => hset.accept h.sound haccept⟩
    · intro j ch' hj
      rw [he] at hj
      have hset := channel?_setChannel (lt_of_channel? hch) (ch.registerMessage (s.tagged m)) j
      rw [hset] at hj
      split_ifs at hj
      · cases hj
        exact h.begun i ch hch
      · exact h.begun j ch' hj
    · intro k x hk
      rw [he] at hk
      have hk : (s.accepted ++ [s.tagged m])[k]? = some x := hk
      rcases Nat.lt_or_ge k s.accepted.length with hlt | hge
      · rw [List.getElem?_append_left hlt] at hk
        exact h.context k x hk
      · rw [List.getElem?_append_right hge] at hk
        have hz : k - s.accepted.length = 0 := by
          have := (List.getElem?_eq_some_iff.mp hk).1
          rw [List.length_singleton] at this
          omega
        rw [hz] at hk
        cases hk
        show s.accepted.length = k
        omega

theorem Accounted.pump (h : s.Accounted) (i : ℕ) (nowUs : ℕ → ℕ) (batchLimit : ℕ) (flushTail : Bool) :
    (s.next (.pump i nowUs batchLimit flushTail)).Accounted ∧ (¬ s.Forgets (.pump i nowUs batchLimit flushTail) →
      Ledger.Settled Owed s.ledger → Ledger.Settled Owed (s.next (.pump i nowUs batchLimit flushTail)).ledger) := by
  apply h.modify
  intro ch hch
  by_cases hP : s.Forgets (.pump i nowUs batchLimit flushTail)
  · have hall : PumpMeets (fun b m => b.Takes m ∨ True) (fun _ => True) nowUs batchLimit flushTail ch.bunchBuilder
        ch.outReliable := by
      simpa only [or_true] using pumpMeets_true nowUs batchLimit flushTail ch.bunchBuilder ch.outReliable
    obtain ⟨hinit, new, dropped, hchanged, -⟩ := NetChannel.changed_pumpBunch (h.begun i ch hch) hall
    exact ⟨.inl hinit, new, [], dropped, hchanged, fun hno => absurd hP hno⟩
  · have htakes : PumpMeets (fun b m => b.Takes m ∨ m.callback = false) (fun _ => True) nowUs batchLimit flushTail
        ch.bunchBuilder ch.outReliable := by
      by_contra hno
      exact hP ⟨ch, hch, hno⟩
    obtain ⟨hinit, new, dropped, hchanged, hok⟩ := NetChannel.changed_pumpBunch (h.begun i ch hch) htakes
    refine ⟨.inl hinit, new, [], dropped, hchanged, ?_⟩
    intro _ m hm
    rw [count_owed hok hm]
    rfl

theorem Accounted.assemble (h : s.Accounted) (keepAliveDue : Bool) :
    (s.next (.assemble keepAliveDue)).Accounted ∧ (¬ s.Forgets (.assemble keepAliveDue) →
      Ledger.Settled Owed s.ledger → Ledger.Settled Owed (s.next (.assemble keepAliveDue)).ledger) := by
  have howed : ∀ m, Owed m → m.callback = true := fun _ hm => hm
  obtain ⟨hsound, hsettled⟩ := assemble_ledger howed keepAliveDue h.sound
  refine ⟨⟨hsound, ?_, h.context⟩, hsettled⟩
  intro i ch' hi
  have hframe := assemble_frame s.conn keepAliveDue
  cases hch : s.conn.channel? i with
  | none =>
    have hnone := hframe.absent i hch
    have hi : (s.conn.assembleOutgoingPackets keepAliveDue).channel? i = some ch' := hi
    rw [hnone] at hi
    cases hi
  | some ch =>
    obtain ⟨ch₁, hi₁, hmoved⟩ := hframe.channel i ch hch
    obtain rfl : ch₁ = ch' := Option.some.inj (hi₁.symm.trans hi)
    have hbegun := h.begun i ch hch
    rw [Begun, hmoved]
    exact hbegun

theorem Accounted.flush (h : s.Accounted) (nowUs : ℕ) :
    (s.next (.flush nowUs)).Accounted ∧ (Ledger.Settled Owed s.ledger → Ledger.Settled Owed (s.next (.flush nowUs)).ledger) := by
  have hsame : (s.conn.flushPacket nowUs).2.channels = s.conn.channels ∧
      (s.conn.flushPacket nowUs).2.released = s.conn.released ∧
      ∀ m ∈ inPackets (s.conn.flushPacket nowUs).2.outPacketQueue, m ∈ inPackets s.conn.outPacketQueue := by
    unfold flushPacket tryDequeuePacket
    cases hq : s.conn.outPacketQueue with
    | nil => exact ⟨rfl, rfl, fun m hm => by rw [← hq]; exact hm⟩
    | cons packet rest =>
      refine ⟨rfl, rfl, ?_⟩
      intro m hm
      rw [inPackets, List.flatMap_cons]
      exact List.mem_append_right _ hm
  obtain ⟨hchannels, hreleased, hpackets⟩ := hsame
  obtain ⟨hstep, htotal⟩ : s.ledger.Step (s.next (.flush nowUs)).ledger ∧ _ := step_of_same hchannels hreleased hpackets
  refine ⟨⟨h.sound.step hstep, ?_, h.context⟩, ?_⟩
  · intro i ch hi
    apply h.begun i ch
    rw [← hi]
    exact (congrArg (fun l : List (Option NetChannel) => (l[i]?).join) hchannels).symm
  · intro hset
    exact hset.step h.sound hstep fun m _ => (htotal m).le

/-- One step: the ledger stays sound, and settled if nothing is forgotten. -/
theorem Accounted.next (h : s.Accounted) (a : ReleaseAction) : (s.next a).Accounted ∧
    (¬ s.Forgets a → Ledger.Settled Owed s.ledger → Ledger.Settled Owed (s.next a).ledger) := by
  cases a with
  | submit i m =>
    obtain ⟨h1, h2⟩ := h.submit i m
    exact ⟨h1, fun _ => h2⟩
  | pump i nowUs batchLimit flushTail => exact h.pump i nowUs batchLimit flushTail
  | ready i =>
    apply h.modify
    intro ch hch
    refine ⟨?_, kept_of_changed ch.changed_flushReady fun _ m hm => by cases hm⟩
    have hbegun := h.begun i ch hch
    rw [SendRun.flushReady_eq _ ch rfl]
    exact hbegun
  | assemble keepAliveDue => exact h.assemble keepAliveDue
  | flush nowUs =>
    obtain ⟨h1, h2⟩ := h.flush nowUs
    exact ⟨h1, fun _ => h2⟩
  | acked i packetId =>
    apply h.modify
    intro ch hch
    refine ⟨h.begun i ch hch, kept_of_changed (ch.changed_acked packetId) ?_⟩
    intro hno m hm
    by_contra hcb
    exact hno ⟨ch, hch, m, hm, by simpa using hcb⟩
  | nacked i packetId =>
    apply h.modify
    intro ch hch
    exact ⟨h.begun i ch hch, kept_of_changed (ch.changed_nacked packetId) fun _ m hm => by cases hm⟩
  | forceRetransmitAllUnAcked i =>
    apply h.modify
    intro ch hch
    exact ⟨h.begun i ch hch, kept_of_changed ch.changed_forceRetransmitAllUnAcked fun _ m hm => by cases hm⟩
  | updateChannelSeq i inReliable outReliable =>
    apply h.modify
    intro ch hch
    refine ⟨h.begun i ch hch, kept_of_changed (ch.changed_updateChannelSeq inReliable outReliable) ?_⟩
    intro hno m hm
    by_contra hcb
    exact hno ⟨ch, hch, m, hm, by simpa using hcb⟩

theorem reach_accounted {ok : ReleaseRun → ReleaseAction → Prop} (h : releaseSystem.Reach ok s) : s.Accounted :=
  System.Reach.invariant (fun _ h => (Fresh.accounted h).1) (fun _ a h _ => (Accounted.next h a).1) h

theorem reach_settled (h : releaseSystem.Reach (fun s a => ¬ s.Forgets a) s) : Ledger.Settled Owed s.ledger := by
  have key : s.Accounted ∧ Ledger.Settled Owed s.ledger := by
    refine System.Reach.invariant (I := fun s => s.Accounted ∧ Ledger.Settled Owed s.ledger) (fun _ h => Fresh.accounted h) ?_ h
    intro s a ⟨hacc, hset⟩ hok
    obtain ⟨h1, h2⟩ := hacc.next a
    exact ⟨h1, h2 hok hset⟩
  exact key.2

end ReleaseRun

/-- In every run no message is given back twice, or while it is held or in a queued packet. -/
theorem never_released_twice {s : ReleaseRun} (h : releaseSystem.Reachable s) :
    (∀ m, s.conn.released.count m ≤ 1) ∧
      ∀ m ∈ s.conn.released, m ∈ s.accepted ∧ m ∉ s.conn.held ∧ m ∉ inPackets s.conn.outPacketQueue := by
  have hsound := (ReleaseRun.reach_accounted h).sound
  refine ⟨hsound.released_once, ?_⟩
  intro m hm
  obtain ⟨hd, hs, hp⟩ := hsound.released_gone hm
  have hpos : 0 < s.ledger.total m := by
    have := List.count_pos_iff.mpr hm
    simp only [Ledger.total, ReleaseRun.ledger, NetConnection.ledger]
    omega
  refine ⟨hsound.accepted_of_total hpos, ?_, hp⟩
  rw [mem_held]
  rintro (h | h)
  · exact hd h
  · exact hs h

/-- In a run that forgets no message with a callback, every message is given back exactly once. -/
theorem message_released_once {s : ReleaseRun} (h : releaseSystem.Reach (fun s a => ¬ s.Forgets a) s) : s.ReleasedOnce := by
  have hsound := (ReleaseRun.reach_accounted h).sound
  constructor
  · intro m _
    exact hsound.released_once m
  · intro m hm
    obtain ⟨hd, hs, hp⟩ := hsound.released_gone hm
    refine ⟨?_, hp⟩
    rw [mem_held]
    rintro (h | h)
    · exact hd h
    · exact hs h
  · intro m hm hcb hheld
    rw [mem_held, not_or] at hheld
    exact (ReleaseRun.reach_settled h).released hm hcb hheld.1 hheld.2

def ReleaseRun.start : ReleaseRun := ⟨(NetConnection.new true 2 .open).createInitialChannels, []⟩

theorem ReleaseRun.start_fresh : ReleaseRun.start.Fresh :=
  ⟨fun _ _ h => SendRun.start_channel? h, rfl, rfl, rfl⟩

/-- An empty message is sealed, discarded and given back. -/
theorem message_released_once_empty :
    (releaseSystem.runFrom ReleaseRun.start [.submit 0 (messageOf 0), .pump 0 (fun _ => 0) 1 true, .ready 0,
      .assemble false]).conn.released.length = 1 ∧
    (releaseSystem.runFrom ReleaseRun.start [.submit 0 (messageOf 0), .pump 0 (fun _ => 0) 1 true, .ready 0,
      .assemble false]).ReleasedOnce := by
  have hstart : releaseSystem.Reach (fun s a => ¬ s.Forgets a) ReleaseRun.start := .init ReleaseRun.start_fresh
  have hsubmit := hstart.next (a := .submit 0 (messageOf 0)) id
  have hpump := hsubmit.next (a := .pump 0 (fun _ => 0) 1 true) (by
    rintro ⟨ch, hch, hno⟩
    obtain rfl := Option.some.inj hch
    apply hno
    refine ⟨⟨.inl (.inl ?_), trivial⟩, fun _ _ => trivial⟩
    decide)
  have hready := hpump.next (a := .ready 0) id
  have hassemble := hready.next (a := .assemble false) (by
    rintro ⟨-, hov⟩
    revert hov
    decide +kernel)
  exact ⟨by decide +kernel, message_released_once hassemble⟩

/-- A message that is sent and acknowledged is held nowhere, and its callback has not been run. -/
theorem acked_message_not_released : ¬ ∀ s : ReleaseRun, releaseSystem.Reachable s → s.ReleasedOnce := by
  intro h
  have hreach : releaseSystem.Reachable (releaseSystem.runFrom ReleaseRun.start [.submit 0 (messageOf 5),
      .pump 0 (fun _ => 0) 1 true, .ready 0, .assemble false, .flush 0, .acked 0 0]) :=
    System.reachable_runFrom (.init ReleaseRun.start_fresh) _
  have hbad := (h _ hreach).settled (messageOf 5)
  revert hbad
  decide +kernel

end RudpEngine
