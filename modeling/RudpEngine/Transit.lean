import RudpEngine.PayloadTrip
import RudpEngine.ReleasedOnce

/-!
# Bunches on their way

A property of the bunches that a connection holds, in its channels and in its
queued packets, stays true of them through everything the connection does but
sealing. The bytes of a packet on the wire come apart into its bunches again.
-/

namespace RudpEngine

open ChannelBunchBuilder NetConnection NetConnection.Assembling

def OutReadyBunch.received (b : OutReadyBunch) : InBunchHeader × List Byte :=
  (readBunchHeader (b.headerBytes.drop 1), b.messages.flatMap NetMessage.buffer)

def Numbered (b : OutReadyBunch) : Prop :=
  ∃ i k ms payload, i ≤ 1 ∧ k < 2 ^ 32 ∧ Measured ms payload ∧ b = channelBunch i k ms payload

theorem received_channelBunch {i k payload : ℕ} {ms : List NetMessage} (h : Measured ms payload) (hi : i ≤ 1)
    (hk : k < 2 ^ 32) : (channelBunch i k ms payload).received =
      (⟨true, true, false, true, i, k, ms.length, payload⟩, ms.flatMap NetMessage.buffer) := by
  have hfit : FieldsFit ⟨true, true, false, true, i, k, ms.length, payload⟩ :=
    ⟨show i < 2 ^ 8 by omega, hk, h.count, h.room⟩
  have hheader : (channelBunch i k ms payload).headerBytes =
      BunchHeader.bytes ⟨true, true, false, true, i, k, ms.length, payload⟩ := by
    have hfield : ({ forChannel i with activeMsgs := ms, activePayload := payload } : ChannelBunchBuilder).headerField k =
        ⟨true, true, false, true, i, k, ms.length, payload⟩ := by
      unfold headerField
      rw [Nat.mod_eq_of_lt h.count, Nat.mod_eq_of_lt h.room]
      rfl
    simp only [channelBunch, ChannelBunchBuilder.sealed, hfield, BunchHeader.encode_size, BunchHeader.encode_bytes]
  rw [OutReadyBunch.received, hheader, readBunchHeader_bytes hfit, channelBunch_messages]

theorem readBunch_numbered {b : OutReadyBunch} (h : Numbered b) {n : ℕ} (hn : 2 ≤ n) (rest : List Byte) :
    readBunch n ⟨b.bytes ++ rest, false⟩ = some (b.received.1, b.received.2, ⟨rest, false⟩) := by
  obtain ⟨i, k, ms, payload, hi, hk, hm, rfl⟩ := h
  rw [received_channelBunch hm hi hk, channelBunch]
  have hread := readBunch_sealed (b := { forChannel i with activeMsgs := ms, activePayload := payload }) hm
    (show i < 2 ^ 8 by omega) hk n rest
  have hindex : ¬ (128 ≤ i ∨ n ≤ i) := by omega
  exact hread.trans (if_neg hindex)

theorem bytes_ne_nil {b : OutReadyBunch} (h : Numbered b) : 1 ≤ b.bytes.length := by
  obtain ⟨i, k, ms, payload, hi, hk, hm, rfl⟩ := h
  have hbytes := sealed_bytes (b := { forChannel i with activeMsgs := ms, activePayload := payload }) (k := k) hm
  rw [channelBunch, hbytes, List.length_append, BunchHeader.bytes_length]
  omega

theorem bunchesOf_numbered {n : ℕ} (hn : 2 ≤ n) : ∀ (l : List OutReadyBunch) (fuel : ℕ), l.length ≤ fuel →
    (∀ b ∈ l, Numbered b) → bunchesOf n fuel ⟨l.flatMap OutReadyBunch.bytes, false⟩ = l.map OutReadyBunch.received
  | [], 0, _, _ => rfl
  | [], fuel + 1, _, _ => rfl
  | b :: l, fuel + 1, hfuel, h => by
    have ih := bunchesOf_numbered hn l fuel (Nat.le_of_succ_le_succ hfuel) fun x hx => h x (List.mem_cons_of_mem _ hx)
    rw [List.flatMap_cons, bunchesOf, readBunch_numbered (h b (List.mem_cons_self ..)) hn]
    simp only [ih, List.map_cons]

theorem length_le_flatMap_bytes : ∀ {l : List OutReadyBunch}, (∀ b ∈ l, Numbered b) →
    l.length ≤ (l.flatMap OutReadyBunch.bytes).length
  | [], _ => Nat.le_refl 0
  | b :: l, h => by
    have hone := bytes_ne_nil (h b (List.mem_cons_self ..))
    have hrest := length_le_flatMap_bytes fun x hx => h x (List.mem_cons_of_mem b hx)
    rw [List.length_cons, List.flatMap_cons, List.length_append]
    omega

theorem payloadBunches_numbered {c : NetConnection} (hn : 2 ≤ c.channels.length) {l : List OutReadyBunch}
    (h : ∀ b ∈ l, Numbered b) : c.payloadBunches (l.flatMap OutReadyBunch.bytes) = l.map OutReadyBunch.received :=
  bunchesOf_numbered hn l _ (length_le_flatMap_bytes h) h

/-! ## Packets -/

structure Laid (P : OutReadyBunch → Prop) (p : OutReadyPacket) : Prop where
  bunchs : ∀ b ∈ p.bunchs, P b ∧ kept b = true
  bufferViews : p.bufferViews = .header :: p.bunchs.flatMap OutReadyPacket.bunchViews
  headerSize : p.headerSize = packetHeaderSize

structure Filling (P : OutReadyBunch → Prop) (p : OutReadyPacket) : Prop where
  bunchs : ∀ b ∈ p.bunchs, P b ∧ kept b = true
  dirtyFlag : p.dirtyFlag = true
  headerSize : p.headerSize = packetHeaderSize

section
variable {P Q : OutReadyBunch → Prop} {p : OutReadyPacket}

theorem Laid.mono (h : Laid P p) (hpq : ∀ b, P b → Q b) : Laid Q p :=
  ⟨fun b hb => ⟨hpq b (h.bunchs b hb).1, (h.bunchs b hb).2⟩, h.bufferViews, h.headerSize⟩

theorem Filling.packetSealed (h : Filling P p) : Laid P p.packetSealed := by
  have hdirty := h.dirtyFlag
  unfold OutReadyPacket.packetSealed
  simp only [hdirty, Bool.not_true, Bool.false_eq_true, if_false]
  exact ⟨h.bunchs, rfl, h.headerSize⟩

theorem filling_buildStart (P : OutReadyBunch → Prop) (id : ℤ) :
    Filling P { ConnectionPacketBuilder.buildStart with outPacketId := id } :=
  ⟨fun _ hb => absurd hb List.not_mem_nil, rfl, rfl⟩

theorem Filling.append (h : Filling P p) {bunch : OutReadyBunch} (hb : P bunch) (hk : kept bunch = true) :
    Filling P (ConnectionPacketBuilder.append p bunch).2 := by
  unfold ConnectionPacketBuilder.append
  split_ifs
  · exact h
  · exact h
  · refine ⟨?_, rfl, h.headerSize⟩
    intro x hx
    rcases List.mem_append.mp hx with hx | hx
    · exact h.bunchs x hx
    · obtain rfl := List.mem_singleton.mp hx
      exact ⟨hb, hk⟩

theorem Laid.wire (h : Laid P p) (hP : ∀ b, P b → Numbered b) :
    p.wire = p.header.take packetHeaderSize ++ p.bunchs.flatMap OutReadyBunch.bytes := by
  rw [OutReadyPacket.wire, h.bufferViews, h.headerSize, List.flatMap_cons, List.flatMap_assoc]
  congr 1
  apply List.flatMap_congr
  intro b hb
  obtain ⟨i, k, ms, payload, -, -, -, rfl⟩ := hP b (h.bunchs b hb).1
  have hsize : (channelBunch i k ms payload).headerBytes.length ≤ (channelBunch i k ms payload).headerSize :=
    List.length_take_le _ _
  rw [OutReadyPacket.bunchViews, List.flatMap_cons, List.flatMap_map, List.take_of_length_le hsize, OutReadyBunch.bytes]

end

/-! ## What a connection holds -/

structure NetConnection.Carries (P : OutReadyBunch → Prop) (c : NetConnection) : Prop where
  channel : ∀ i ch, c.channel? i = some ch → ∀ b ∈ ch.bunches, P b
  packet : ∀ p ∈ c.outPacketQueue, Laid P p

structure NetConnection.Assembling.Carries (P : OutReadyBunch → Prop) (a : Assembling) : Prop where
  conn : a.conn.Carries P
  packet : ∀ p, a.packet = some p → Filling P p
  ready : ∀ p ∈ a.readyPackets, Laid P p

section
variable {P Q : OutReadyBunch → Prop} {c c' : NetConnection} {a : Assembling}

theorem NetConnection.Carries.mono (h : c.Carries P) (hpq : ∀ b, P b → Q b) : c.Carries Q :=
  ⟨fun i ch hi b hb => hpq b (h.channel i ch hi b hb), fun p hp => (h.packet p hp).mono hpq⟩

theorem NetConnection.Carries.of_same (h : c.Carries P) (hch : c'.channels = c.channels)
    (hq : c'.outPacketQueue = c.outPacketQueue) : c'.Carries P := by
  constructor
  · intro i ch hi
    apply h.channel i ch
    rwa [channel?, ← hch]
  · rw [hq]
    exact h.packet

theorem NetConnection.Carries.setChannel (h : c.Carries P) {i : ℕ} {ch ch' : NetChannel} (hi : c.channel? i = some ch)
    (hb : ∀ b ∈ ch'.bunches, b ∈ ch.bunches ∨ P b) : (c.setChannel i ch').Carries P := by
  refine ⟨?_, h.packet⟩
  intro j ch₀ hj b hmem
  rw [channel?_setChannel (lt_of_channel? hi)] at hj
  split_ifs at hj
  · obtain rfl := Option.some.inj hj
    exact (hb b hmem).elim (h.channel i ch hi b) id
  · exact h.channel j ch₀ hj b hmem

theorem NetConnection.Carries.modifyChannel (h : c.Carries P) (i : ℕ) {f : NetChannel → NetChannel}
    (hf : ∀ ch, c.channel? i = some ch → ∀ b ∈ (f ch).bunches, b ∈ ch.bunches ∨ P b) : (c.modifyChannel i f).Carries P := by
  rcases c.modifyChannel_cases i f with ⟨-, he⟩ | ⟨ch, hch, he⟩
  · rw [he]; exact h
  · rw [he]
    exact h.setChannel hch (hf ch hch)

theorem NetChannel.Changed.mem {ch ch' : NetChannel} {new lost : List OutReadyBunch} {dropped : List NetMessage}
    (h : NetChannel.Changed ch ch' new lost dropped) {b : OutReadyBunch} (hb : b ∈ ch'.bunches) :
    b ∈ ch.bunches ∨ b ∈ new := by
  have hmem := h.bunches.mem_iff.mpr (List.mem_append_left lost hb)
  exact List.mem_append.mp hmem

/-! ## Assembling -/

theorem NetConnection.Assembling.Carries.createNewPacket (h : a.Carries P) :
    Filling P a.createNewPacket.1 ∧ a.createNewPacket.2.Carries P :=
  ⟨filling_buildStart P _, h.conn.of_same rfl rfl, h.packet, h.ready⟩

theorem NetConnection.Assembling.Carries.finish (h : a.Carries P) {p : OutReadyPacket} (hp : Filling P p) :
    (a.finish p).Carries P := by
  refine ⟨h.conn.of_same rfl rfl, h.packet, ?_⟩
  intro q hq
  rcases List.mem_append.mp hq with hq | hq
  · exact h.ready q hq
  · obtain rfl := List.mem_singleton.mp hq
    exact hp.packetSealed

theorem NetConnection.Assembling.Carries.packetFor (h : a.Carries P) (size : ℕ) :
    Filling P (a.packetFor size).1 ∧ (a.packetFor size).2.Carries P := by
  have hnext : ∀ (p : OutReadyPacket) (a : Assembling), Filling P p → a.Carries P →
      Filling P (if ConnectionPacketBuilder.packetMaxSize < (p.totalSize + size) % 2 ^ 32 then
        (a.finish p).createNewPacket else (p, a)).1 ∧
      Assembling.Carries P (if ConnectionPacketBuilder.packetMaxSize < (p.totalSize + size) % 2 ^ 32 then
        (a.finish p).createNewPacket else (p, a)).2 := by
    intro p a hp ha
    split_ifs
    · exact (ha.finish hp).createNewPacket
    · exact ⟨hp, ha⟩
  unfold Assembling.packetFor
  cases hp : a.packet with
  | none => exact hnext _ _ h.createNewPacket.1 h.createNewPacket.2
  | some p => exact hnext p a (h.packet p hp) h

theorem NetConnection.Assembling.Carries.placeBunch (h : a.Carries P) {index : ℕ} {ch : NetChannel} {bunch : OutReadyBunch}
    (hch : a.conn.channel? index = some ch) (hbunch : P bunch)
    (hadded : ∀ id ch', ch.addUnAckedOutBunch id bunch = some ch' → ∀ b ∈ ch'.bunches, P b) :
    (a.placeBunch index bunch).Carries P := by
  obtain ⟨hfill, hnext⟩ := h.packetFor bunch.totalSize
  have hpch := (packetFor_channel? (a := a) bunch.totalSize index).trans hch
  rcases placeBunch_cases hch bunch with ⟨-, he⟩ | ⟨hkept, he | ⟨ch', hadd, he⟩⟩
  · rw [he]
    exact ⟨h.conn.of_same rfl rfl, h.packet, h.ready⟩
  · rw [he]
    exact ⟨hnext.conn.of_same rfl rfl, hnext.packet, hnext.ready⟩
  · rw [he]
    generalize a.packetFor bunch.totalSize = pf at hfill hnext hpch hadd
    have hrecord : NetConnection.Carries P
        { pf.2.conn with record := pf.2.conn.record.pushChannelRecord pf.1.outPacketId ch.chIndex } :=
      hnext.conn.of_same rfl rfl
    refine ⟨hrecord.setChannel hpch fun b hb => .inr (hadded _ _ hadd b hb), ?_, hnext.ready⟩
    intro p hp
    obtain rfl := Option.some.inj hp
    exact hfill.append hbunch hkept

theorem NetConnection.Assembling.Carries.takeAndPlace (h : a.Carries P) {index : ℕ} {ch : NetChannel} {bunch : OutReadyBunch}
    {rest : List OutReadyBunch} (hch : a.conn.channel? index = some ch) (hq : ch.outBunchQueue = bunch :: rest) :
    (a.takeAndPlace index ch bunch rest).Carries P := by
  have hbunch : P bunch := by
    apply h.conn.channel index ch hch
    simp [NetChannel.bunches, hq]
  have hrest : ∀ b ∈ ({ ch with outBunchQueue := rest } : NetChannel).bunches, b ∈ ch.bunches ∨ P b := by
    intro b hb
    exact ((NetChannel.changed_dequeued hq).mem hb).imp_right fun hmem => absurd hmem List.not_mem_nil
  have htaken : Assembling.Carries P { a with conn := a.conn.setChannel index { ch with outBunchQueue := rest } } :=
    ⟨h.conn.setChannel hch hrest, h.packet, h.ready⟩
  have hset := channel?_setChannel (lt_of_channel? hch) { ch with outBunchQueue := rest } index
  rw [if_pos rfl] at hset
  apply htaken.placeBunch hset hbunch
  intro id ch' hadd b hb
  have hmem := (NetChannel.changed_recorded hq hadd).mem hb
  exact h.conn.channel index ch hch b (hmem.resolve_right List.not_mem_nil)

theorem NetConnection.Carries.assembling (h : c.Carries P) : c.assembling.Carries P :=
  passes_invariant (fun _ _ _ _ _ hI _ hch hq => hI.takeAndPlace hch hq) _ _ _
    ⟨h, fun _ hp => absurd hp (Option.some_ne_none _).symm, fun _ hp => absurd hp List.not_mem_nil⟩

theorem NetConnection.Assembling.Carries.confirm (h : a.Carries P) : a.confirm.Carries P := by
  unfold Assembling.confirm
  cases hp : a.packet with
  | none => exact h
  | some p =>
    simp only
    split_ifs
    · exact h
    · exact h.finish (h.packet p hp)

theorem NetConnection.Carries.assemble (h : c.Carries P) (keepAliveDue : Bool) :
    (c.assembleOutgoingPackets keepAliveDue).Carries P := by
  rcases c.assemble_cases keepAliveDue with ⟨-, he⟩ | ⟨-, he⟩ | ⟨-, he⟩ | ⟨-, -, he⟩
  · rw [he]; exact h
  · rw [he]
    refine ⟨h.channel, ?_⟩
    intro p hp
    rcases List.mem_append.mp hp with hp | hp
    · exact h.packet p hp
    · obtain rfl := List.mem_singleton.mp hp
      exact (filling_buildStart P _).packetSealed
  · rw [he]
    exact h.assembling.conn
  · rw [he]
    refine ⟨h.assembling.confirm.conn.channel, ?_⟩
    intro p hp
    rcases List.mem_append.mp hp with hp | hp
    · exact h.assembling.confirm.conn.packet p hp
    · exact h.assembling.confirm.ready p hp

/-! ## Flushing and receiving -/

theorem NetConnection.Carries.flushPacket (h : c.Carries P) (nowUs : ℕ) :
    (∀ p, (c.flushPacket nowUs).1 = some p → Laid P p) ∧ (c.flushPacket nowUs).2.Carries P := by
  unfold NetConnection.flushPacket NetConnection.tryDequeuePacket
  cases hq : c.outPacketQueue with
  | nil => exact ⟨fun _ hp => absurd hp (Option.some_ne_none _).symm, h⟩
  | cons packet rest =>
    have hlaid := h.packet packet (by rw [hq]; exact List.mem_cons_self ..)
    constructor
    · intro p hp
      obtain rfl := Option.some.inj hp
      exact ⟨hlaid.bunchs, hlaid.bufferViews, hlaid.headerSize⟩
    · refine ⟨h.channel, ?_⟩
      intro p hp
      exact h.packet p (by rw [hq]; exact List.mem_cons_of_mem _ hp)

theorem NetChannel.mem_bunches {ch : NetChannel} {b : OutReadyBunch} :
    b ∈ ch.bunches ↔ b ∈ ch.bunchBuilder.queuedOutBunch ∨ ch.Holds b := by
  rw [NetChannel.bunches, List.append_assoc, List.mem_append, List.mem_append, SortedMap.mem_members]
  rfl

theorem NetChannel.Requeued.mem {ch ch' : NetChannel} (h : ch.Requeued ch') {b : OutReadyBunch} (hb : b ∈ ch'.bunches) :
    b ∈ ch.bunches := by
  rw [NetChannel.mem_bunches] at hb ⊢
  have hbuilder : ch'.bunchBuilder = ch.bunchBuilder := by rw [h.moved]
  rw [hbuilder] at hb
  exact hb.imp_right (h.holds b)

theorem NetConnection.Carries.receivedPacket (h : c.Carries P) (reader : RecvPacketReader) :
    (c.receivedPacket reader).Carries P := by
  obtain ⟨hconn, hrel⟩ := c.receivedPacket_frame reader
  constructor
  · intro i ch' hi b hb
    cases hch : c.channel? i with
    | none =>
      rw [hrel.absent i hch] at hi
      cases hi
    | some ch =>
      obtain ⟨ch₁, hi₁, hreq⟩ := hrel.channel i ch hch
      obtain rfl : ch₁ = ch' := Option.some.inj (hi₁.symm.trans hi)
      exact h.channel i ch hch b (hreq.mem hb)
  · rw [hconn]
    exact h.packet

/-! ## Dispatching -/

theorem NetConnection.Carries.dispatchBunch (h : c.Carries P) (header : InBunchHeader) (view : List Byte) :
    (c.dispatchBunch header view).1.Carries P := by
  have hqueue : (c.dispatchBunch header view).1.outPacketQueue = c.outPacketQueue := by
    rw [(c.dispatchBunch_conn header view).1]
  refine ⟨?_, by rw [hqueue]; exact h.packet⟩
  -- a channel that is made for the bunch sends nothing yet
  have hfound : ∀ i ch, (c.findOrCreateChannel header).channel? i = some ch → ∀ b ∈ ch.bunches, P b := by
    intro i ch hi b hb
    rcases c.channel?_findOrCreate header hi with hold | ⟨-, -, rfl⟩
    · exact h.channel i ch hold b hb
    · exact absurd hb List.not_mem_nil
  intro i ch hi b hb
  rcases channel?_dispatchBunch hi with hold | ⟨-, ch₀, hch, htake⟩
  · exact hfound i ch hold b hb
  · obtain ⟨a, e, t, hstep⟩ := takeBunch_stepped htake
    rw [hstep.rest] at hb
    exact hfound i ch₀ hch b hb

theorem NetConnection.Carries.dispatchBunches : ∀ (bs : List (InBunchHeader × List Byte)) (c : NetConnection),
    c.Carries P → (dispatchBunches bs c).Carries P
  | [], _, h => h
  | (header, view) :: bs, c, h => by
    have hone := h.dispatchBunch header view
    unfold NetConnection.dispatchBunches
    split_ifs
    · exact Carries.dispatchBunches bs _ hone
    · exact hone

theorem NetConnection.Carries.dispatchPendingPacket (h : c.Carries P) : c.dispatchPendingPacket.Carries P := by
  have hreader : ∀ (c : NetConnection) (r : RecvPacketReader), c.Carries P → (c.dispatchReader r).Carries P := by
    intro c r hc
    by_cases hstate : c.state = .closed
    · rw [dispatchReader_of_closed hstate]
      exact hc.of_same rfl rfl
    · rw [dispatchReader_eq hstate]
      exact (Carries.dispatchBunches (c.payloadBunches r.payload) c hc).of_same rfl rfl
  have hfold : ∀ (rs : List RecvPacketReader) (c : NetConnection), c.Carries P → (rs.foldl dispatchReader c).Carries P := by
    intro rs
    induction rs with
    | nil => exact fun c hc => hc
    | cons r rs ih => exact fun c hc => ih _ (hreader c r hc)
  exact hfold _ _ (h.of_same rfl rfl)

end

end RudpEngine
