import RudpEngine.BunchTrip
import RudpEngine.StaleDatagram
import Mathlib.Algebra.Group.Action.Defs
import Mathlib.Algebra.Order.BigOperators.Group.List

/-!
# A payload on its way

The bunches a builder seals, put one behind the other into a packet, come out
of the loop of `DispatchPacket` as they went in; and each one, in its turn,
comes apart into its messages.
-/

namespace RudpEngine

open ChannelBunchBuilder

/-! ## What a builder seals -/

inductive BuilderAction
  | submit (m : NetMessage)
  | pump (nowUs : ℕ → ℕ) (batchLimit : ℕ) (flushTail : Bool) (outReliable : ℕ)
  | dequeue

/-- A builder under any calls of its methods, with any number as its owner's. -/
def builderSystem : System ChannelBunchBuilder BuilderAction where
  init b := ∃ chIndex bControl bOpen bClose bReliable policy, b = new chIndex bControl bOpen bClose bReliable policy
  next b
    | .submit m => b.submit m
    | .pump nowUs batchLimit flushTail outReliable => (b.pump nowUs batchLimit flushTail outReliable).1
    | .dequeue => (b.tryDequeueReady.map Prod.snd).getD b

namespace ChannelBunchBuilder

def Summed (b : ChannelBunchBuilder) : Prop := b.activePayload = (b.activeMsgs.map NetMessage.size).sum % 2 ^ 32

def SealedSummed (bunch : OutReadyBunch) : Prop :=
  ∃ (b : ChannelBunchBuilder) (k : ℕ), bunch = b.sealed k ∧ b.Summed

structure AllSummed (b : ChannelBunchBuilder) : Prop where
  active : b.Summed
  queued : ∀ bunch ∈ b.queuedOutBunch, SealedSummed bunch

variable {b : ChannelBunchBuilder}

theorem AllSummed.tryInsert (h : b.AllSummed) (m : NetMessage) : (b.tryInsert m).2.AllSummed := by
  unfold ChannelBunchBuilder.tryInsert
  split_ifs
  · exact h
  · exact h
  · refine ⟨?_, h.queued⟩
    show (b.activePayload + m.size) % 2 ^ 32 = ((b.activeMsgs ++ [m]).map NetMessage.size).sum % 2 ^ 32
    rw [h.active, List.map_append, List.sum_append, List.map_singleton, List.sum_singleton]
    omega

theorem AllSummed.sealAndReset (h : b.AllSummed) (nowUs o : ℕ) : (b.sealAndReset nowUs o).1.AllSummed := by
  refine ⟨rfl, ?_⟩
  intro bunch hb
  rcases List.mem_append.mp hb with hb | hb
  · exact h.queued bunch hb
  · obtain rfl := List.mem_singleton.mp hb
    exact ⟨b, _, rfl, h.active⟩

theorem AllSummed.pumpMessage (h : b.AllSummed) (nowUs : ℕ) (m : NetMessage) (o : ℕ) :
    (b.pumpMessage nowUs m o).1.AllSummed := by
  have hfirst := h.tryInsert m
  unfold ChannelBunchBuilder.pumpMessage
  generalize b.tryInsert m = t at hfirst
  obtain ⟨inserted, b'⟩ := t
  simp only at hfirst ⊢
  cases inserted with
  | true =>
    simp only [if_true]
    split_ifs
    · exact hfirst.sealAndReset nowUs o
    · exact hfirst
  | false =>
    simp only [Bool.false_eq_true, if_false]
    have hnext := (hfirst.sealAndReset nowUs o).tryInsert m
    split_ifs
    · exact hnext.sealAndReset nowUs _
    · exact hnext

theorem AllSummed.pump (h : b.AllSummed) (nowUs : ℕ → ℕ) (batchLimit : ℕ) (flushTail : Bool) (o : ℕ) :
    (b.pump nowUs batchLimit flushTail o).1.AllSummed := by
  refine pump_rule (I := fun b _ => b.AllSummed) (P := fun _ _ => True) (T := fun _ => True) ?_ ?_ ?_
    (pumpMeets_true nowUs batchLimit flushTail b o)
  · intro b o m rest now hb _ _
    exact AllSummed.pumpMessage (b := { b with queuedMessage := rest }) ⟨hb.active, hb.queued⟩ now m o
  · exact fun b o now hb _ _ => hb.sealAndReset now o
  · unfold begun
    split_ifs
    · exact h
    · exact ⟨rfl, h.queued⟩

theorem reach_allSummed (h : builderSystem.Reachable b) : b.AllSummed := by
  refine System.Reach.invariant (I := AllSummed) ?_ ?_ h
  · rintro b ⟨chIndex, bControl, bOpen, bClose, bReliable, policy, rfl⟩
    exact ⟨rfl, fun bunch hb => by cases hb⟩
  · intro b a hb _
    cases a with
    | submit m => exact ⟨hb.active, hb.queued⟩
    | pump nowUs batchLimit flushTail o => exact hb.pump nowUs batchLimit flushTail o
    | dequeue =>
      show ((b.tryDequeueReady.map Prod.snd).getD b).AllSummed
      unfold tryDequeueReady
      cases hq : b.queuedOutBunch with
      | nil => exact hb
      | cons bunch rest => exact ⟨hb.active, fun x hx => hb.queued x (by rw [hq]; exact List.mem_cons_of_mem _ hx)⟩

end ChannelBunchBuilder

/-! ## What a packet is laid out from -/

namespace ConnectionPacketBuilder

/-- The bunches put into a packet one after the other; `none` where one is refused. -/
def appendAll (p : OutReadyPacket) : List OutReadyBunch → Option OutReadyPacket
  | [] => some p
  | bunch :: bunches => if (append p bunch).1 then appendAll (append p bunch).2 bunches else none

theorem appendAll_some : ∀ {bunches : List OutReadyBunch} {p q : OutReadyPacket}, appendAll p bunches = some q →
    q.bunchs = p.bunchs ++ bunches ∧ (q.header = p.header ∧ q.headerSize = p.headerSize) ∧
      (p.dirtyFlag = true → q.dirtyFlag = true) ∧ ∀ bunch ∈ bunches, bunch.totalSize ≤ packetMaxSize
  | [], p, q, h => by
    obtain rfl := Option.some.inj h
    exact ⟨(List.append_nil _).symm, ⟨rfl, rfl⟩, fun hd => hd, fun _ hb => by cases hb⟩
  | bunch :: bunches, p, q, h => by
    unfold appendAll append at h
    by_cases h1 : packetMaxSize < bunch.totalSize
    · simp only [h1, if_true, Bool.false_eq_true, if_false] at h
      cases h
    · by_cases h2 : packetMaxSize < (p.totalSize + bunch.totalSize) % 2 ^ 32
      · simp only [h1, h2, if_true, Bool.false_eq_true, if_false] at h
        cases h
      simp only [h1, h2, if_true, if_false] at h
      obtain ⟨hb, hh, hd, hs⟩ := appendAll_some h
      refine ⟨?_, hh, fun _ => hd rfl, ?_⟩
      · rw [hb]
        show p.bunchs ++ [bunch] ++ bunches = _
        rw [List.append_assoc]; rfl
      · intro x hx
        rcases List.mem_cons.mp hx with rfl | hx
        · exact Nat.le_of_not_lt h1
        · exact hs x hx

end ConnectionPacketBuilder

namespace OutReadyPacket

theorem wire_packetSealed {p : OutReadyPacket} (hdirty : p.dirtyFlag = true)
    (hheader : ∀ bunch ∈ p.bunchs, bunch.headerBytes.length ≤ bunch.headerSize) :
    p.packetSealed.wire = p.header.take p.headerSize ++ p.bunchs.flatMap OutReadyBunch.bytes := by
  unfold packetSealed
  simp only [hdirty, Bool.not_true, Bool.false_eq_true, if_false]
  unfold wire
  rw [List.flatMap_cons, List.flatMap_assoc]
  congr 1
  apply List.flatMap_congr
  intro bunch hb
  rw [bunchViews, List.flatMap_cons, List.flatMap_map, List.take_of_length_le (hheader bunch hb), OutReadyBunch.bytes]

end OutReadyPacket

/-! ## There and back -/

/-- A call of `SealAndPush`: the builder it was called on, and the number it took. -/
structure Seal where
  builder : ChannelBunchBuilder
  chSequence : ℕ

namespace Seal

def bunch (s : Seal) : OutReadyBunch := s.builder.sealed s.chSequence

def received (s : Seal) : NetConnection.InBunchHeader × List Byte := s.builder.received s.chSequence

/-- A bunch that a builder of channel `0` or `1` sealed, of framed messages. -/
structure Valid (s : Seal) : Prop where
  sealed : ∃ b, builderSystem.Reachable b ∧ s.bunch ∈ b.queuedOutBunch
  chIndex : s.builder.chIndex ≤ 1
  chSequence : s.chSequence < 2 ^ 32
  nonempty : 1 ≤ s.builder.activeMsgs.length
  count : s.builder.activeMsgs.length ≤ 255
  framed : ∀ m ∈ s.builder.activeMsgs, m.Framed

variable {s : Seal}

theorem Valid.whole (h : s.Valid) (hsize : s.bunch.totalSize ≤ ConnectionPacketBuilder.packetMaxSize) :
    Whole s.builder.activeMsgs s.builder.activePayload := by
  obtain ⟨b, hb, hmem⟩ := h.sealed
  obtain ⟨b', k, he, hsummed⟩ := (reach_allSummed hb).queued _ hmem
  have hmsgs : s.builder.activeMsgs = b'.activeMsgs := congrArg OutReadyBunch.messages he
  have hpayload : s.builder.activePayload = b'.activePayload := congrArg OutReadyBunch.payloadBytes he
  have hcount := h.count
  -- at most 255 messages of less than 2 ^ 16 bytes: the sum does not wrap
  have hsum : (s.builder.activeMsgs.map NetMessage.size).sum ≤ s.builder.activeMsgs.length * 2 ^ 16 := by
    have hle : ∀ x ∈ s.builder.activeMsgs.map NetMessage.size, x ≤ 2 ^ 16 := by
      intro x hx
      obtain ⟨m, hm, rfl⟩ := List.mem_map.mp hx
      exact le_of_lt (h.framed m hm).small
    have := List.sum_le_card_nsmul _ _ hle
    rwa [List.length_map, smul_eq_mul] at this
  have hbound : (s.builder.activeMsgs.map NetMessage.size).sum < 2 ^ 32 := by
    have : s.builder.activeMsgs.length * 2 ^ 16 ≤ 255 * 2 ^ 16 := Nat.mul_le_mul_right _ hcount
    omega
  have heq : s.builder.activePayload = (s.builder.activeMsgs.map NetMessage.size).sum := by
    rw [hpayload, hsummed, ← hmsgs]
    exact Nat.mod_eq_of_lt hbound
  have htotal : s.bunch.totalSize = (s.builder.activePayload + 10) % 2 ^ 32 := by
    show (s.builder.activePayload + (BunchHeader.encode _).2) % 2 ^ 32 = _
    rw [BunchHeader.encode_size]
  have hpos : s.builder.activeMsgs.length * 2 ^ 16 ≤ 255 * 2 ^ 16 := Nat.mul_le_mul_right _ hcount
  refine ⟨⟨heq, ?_, by omega⟩, h.framed⟩
  unfold ConnectionPacketBuilder.packetMaxSize at hsize
  omega

theorem headerBytes_length (s : Seal) : s.bunch.headerBytes.length ≤ s.bunch.headerSize :=
  List.length_take_le _ _

/-- A bunch in its turn is handed on message by message; the views of the messages and their headers are all its bytes. -/
theorem Valid.dispatch (h : s.Valid) (ch : NetChannel) :
    ch.dispatchRawBunch s.received.2 s.received.1.messageCount =
      NetChannel.drain ch.inUnreadBunchMap.size { ch with
        receivedMessages := ch.receivedMessages ++ s.builder.activeMsgs.map NetMessage.received
        inReliable := (ch.inReliable + 1) % 2 ^ 32 } ∧
    s.received.2.length = ((s.builder.activeMsgs.map NetMessage.received).map fun m => 4 + m.view.length).sum := by
  have hread := NetChannel.readMessages_framed s.builder.activeMsgs h.framed []
  rw [List.append_nil] at hread
  constructor
  · have hraw := NetChannel.dispatchRawBunch_eq ch ⟨s.received.2, 0, s.received.1.messageCount⟩
    rw [InBunchReader.readable, InBunchReader.messages] at hraw
    simp only [received, ChannelBunchBuilder.received] at hraw ⊢
    rw [hraw]
    simp only [hread, if_true]
  · show (s.builder.activeMsgs.flatMap NetMessage.buffer).length = _
    rw [List.length_flatMap, List.map_map]
    congr 1
    apply List.map_congr_left
    intro m hm
    have hfour := (h.framed m hm).four
    unfold NetMessage.size at hfour
    show m.buffer.length = 4 + (m.buffer.drop 4).length
    rw [List.length_drop]
    omega

end Seal

namespace NetConnection

variable {c : NetConnection}

theorem bunchesOf_sealed {n : ℕ} (hn : 2 ≤ n) : ∀ (seals : List Seal) (fuel : ℕ), seals.length ≤ fuel →
    (∀ s ∈ seals, s.Valid ∧ s.bunch.totalSize ≤ ConnectionPacketBuilder.packetMaxSize) →
      bunchesOf n fuel ⟨(seals.map Seal.bunch).flatMap OutReadyBunch.bytes, false⟩ = seals.map Seal.received
  | [], 0, _, _ => rfl
  | [], fuel + 1, _, _ => rfl
  | s :: seals, fuel + 1, hfuel, h => by
    obtain ⟨hvalid, hsize⟩ := h s (List.mem_cons_self ..)
    have hi := hvalid.chIndex
    have ih := bunchesOf_sealed hn seals fuel (Nat.le_of_succ_le_succ hfuel) fun s hs => h s (List.mem_cons_of_mem _ hs)
    rw [List.map_cons, List.flatMap_cons, bunchesOf, Seal.bunch,
      readBunch_sealed (hvalid.whole hsize).toMeasured (by omega) hvalid.chSequence, if_neg (by omega)]
    simp only [ih, List.map_cons]
    rfl

def Dispatching (c : NetConnection) : Prop := ∀ i ≤ 1, ∀ ch, c.channel? i = some ch → ch.chIndex ≤ 1

theorem dispatching_findOrCreate (h : c.Dispatching) (header : InBunchHeader) : (c.findOrCreateChannel header).Dispatching := by
  intro i hi ch hch
  rcases c.channel?_findOrCreate header hch with hold | ⟨-, -, rfl⟩
  · exact h i hi ch hold
  · exact hi

theorem Dispatching.dispatchBunch (h : c.Dispatching) (header : InBunchHeader) (view : List Byte) :
    (c.dispatchBunch header view).1.Dispatching := by
  have hfound := dispatching_findOrCreate h header
  intro i hi ch hch
  rcases channel?_dispatchBunch hch with hold | ⟨-, ch₀, hch₀, htake⟩
  · exact hfound i hi ch hold
  · obtain ⟨a, e, t, hstep⟩ := takeBunch_stepped htake
    rw [hstep.rest]
    exact hfound i hi ch₀ hch₀

/-- A bunch of channel `0` or `1` whose channel is there or can be made is taken. -/
theorem Dispatching.bunchRefused (h : c.Dispatching) {header : InBunchHeader} (hi : header.chIndex ≤ 1)
    (hlen : 2 ≤ c.channels.length)
    (hmade : (c.channel? header.chIndex).isSome = true ∨ (header.bReliable || header.bOpen) = true) (view : List Byte) :
    c.bunchRefused header view = false := by
  have hfound : ∃ ch, (c.findOrCreateChannel header).channel? header.chIndex = some ch := by
    cases hch : c.channel? header.chIndex with
    | some ch => exact ⟨ch, by rw [findOrCreate_of_some hch, hch]⟩
    | none =>
      have hname := hmade.resolve_left (by rw [hch]; exact Bool.false_ne_true)
      unfold findOrCreateChannel
      rw [hch]
      simp only [hname, hi, decide_true, Bool.and_self, if_true]
      refine ⟨NetChannel.init header.chIndex c.initInReliable c.initOutReliable, ?_⟩
      rw [createChannelByName, channel?_setChannel (by omega), if_pos rfl]
  obtain ⟨ch, hch⟩ := hfound
  have hidx := dispatching_findOrCreate h header _ hi ch hch
  unfold NetConnection.bunchRefused
  rw [hch]
  unfold takeBunch
  simp only [hidx, if_true]
  split_ifs <;> rfl

def dispatchAll (bs : List (InBunchHeader × List Byte)) (c : NetConnection) : NetConnection :=
  bs.foldl (fun c b => (c.dispatchBunch b.1 b.2).1) c

theorem dispatchLoop_sealed : ∀ (seals : List Seal) (fuel : ℕ), seals.length ≤ fuel →
    (∀ s ∈ seals, s.Valid ∧ s.bunch.totalSize ≤ ConnectionPacketBuilder.packetMaxSize) →
    ∀ c : NetConnection, c.state ≠ .closed → 2 ≤ c.channels.length → c.Dispatching →
      (∀ s ∈ seals, (c.channel? s.builder.chIndex).isSome = true ∨ (s.builder.bReliable || s.builder.bOpen) = true) →
        dispatchLoop fuel ⟨(seals.map Seal.bunch).flatMap OutReadyBunch.bytes, false⟩ c =
          (dispatchAll (seals.map Seal.received) c, false)
  | [], 0, _, _, _, _, _, _, _ => rfl
  | [], fuel + 1, _, _, c, hstate, _, _, _ => by
    rw [dispatchLoop, dispatchRound_eq _ _ hstate]
    rfl
  | s :: seals, fuel + 1, hfuel, h, c, hstate, hlen, hdisp, hmade => by
    obtain ⟨hvalid, hsize⟩ := h s (List.mem_cons_self ..)
    have hi := hvalid.chIndex
    obtain ⟨hconn, hlength⟩ := c.dispatchBunch_conn s.received.1 s.received.2
    have href : c.bunchRefused s.received.1 s.received.2 = false :=
      hdisp.bunchRefused hi hlen (hmade s (List.mem_cons_self ..)) _
    have hrest : ∀ s' ∈ seals, ((c.dispatchBunch s.received.1 s.received.2).1.channel? s'.builder.chIndex).isSome = true ∨
        (s'.builder.bReliable || s'.builder.bOpen) = true := by
      intro s' hs'
      rcases hmade s' (List.mem_cons_of_mem _ hs') with hsome | hflag
      · obtain ⟨ch, hch⟩ := Option.isSome_iff_exists.mp hsome
        obtain ⟨ch', a, e, t, hch', -⟩ := c.dispatchBunch_stepped s.received.1 s.received.2 _ ch hch
        exact .inl (by rw [hch']; rfl)
      · exact .inr hflag
    have ih := dispatchLoop_sealed seals fuel (Nat.le_of_succ_le_succ hfuel)
      (fun s hs => h s (List.mem_cons_of_mem _ hs)) (c.dispatchBunch s.received.1 s.received.2).1
      (by rw [hconn]; exact hstate) (by rw [hlength]; exact hlen) (hdisp.dispatchBunch _ _) hrest
    rw [List.map_cons, List.flatMap_cons, dispatchLoop, dispatchRound_eq _ _ hstate, Seal.bunch,
      readBunch_sealed (hvalid.whole hsize).toMeasured (by omega) hvalid.chSequence, if_neg (by omega)]
    show (if c.bunchRefused s.received.1 s.received.2 = true then _ else _) = _
    rw [href, if_neg Bool.false_ne_true]
    exact ih

end NetConnection

/-- The bunches of a packet come out of the loop of `DispatchPacket` as they were sealed, in their order, with no error;
and a bunch whose turn it is is handed on as its messages, to its last byte. -/
theorem payload_round_trip {l : List Seal} {packet : OutReadyPacket} (hvalid : ∀ s ∈ l, s.Valid)
    (hpacket : ConnectionPacketBuilder.appendAll ConnectionPacketBuilder.buildStart (l.map Seal.bunch) = some packet) :
    ∃ payload, packet.packetSealed.wire = packet.header.take packet.headerSize ++ payload ∧
      (∀ c : NetConnection, 2 ≤ c.channels.length → c.payloadBunches payload = l.map Seal.received) ∧
      (∀ (c : NetConnection) (reader : RecvPacketReader), reader.payload = payload → c.state ≠ .closed →
        2 ≤ c.channels.length → c.Dispatching →
        (∀ s ∈ l, (c.channel? s.builder.chIndex).isSome = true ∨ (s.builder.bReliable || s.builder.bOpen) = true) →
          c.dispatchPacket reader = (NetConnection.dispatchAll (l.map Seal.received) c, false, false)) ∧
      ∀ s ∈ l, ∀ ch : NetChannel, ch.chIndex ≤ 1 →
        NetConnection.bunchSequence s.received.1 ch = (ch.inReliable + 1) % 2 ^ 32 →
          NetConnection.takeBunch s.received.1 s.received.2 ch =
            some (NetChannel.drain ch.inUnreadBunchMap.size { ch with
              receivedMessages := ch.receivedMessages ++ s.builder.activeMsgs.map NetMessage.received
              inReliable := (ch.inReliable + 1) % 2 ^ 32 }) ∧
          s.received.2.length =
            ((s.builder.activeMsgs.map NetMessage.received).map fun m => 4 + m.view.length).sum := by
  obtain ⟨hbunchs, -, hdirty, hsizes⟩ := ConnectionPacketBuilder.appendAll_some hpacket
  have hbunchs : packet.bunchs = l.map Seal.bunch := hbunchs
  have hall : ∀ s ∈ l, s.Valid ∧ s.bunch.totalSize ≤ ConnectionPacketBuilder.packetMaxSize :=
    fun s hs => ⟨hvalid s hs, hsizes _ (List.mem_map_of_mem hs)⟩
  have hwire := OutReadyPacket.wire_packetSealed (hdirty rfl) fun bunch hb => by
    rw [hbunchs] at hb
    obtain ⟨s, -, rfl⟩ := List.mem_map.mp hb
    exact s.headerBytes_length
  rw [hbunchs] at hwire
  -- every bunch has at least one byte, so the payload is long enough a bound for the loop
  have hlength : l.length ≤ ((l.map Seal.bunch).flatMap OutReadyBunch.bytes).length := by
    rw [List.length_flatMap, List.map_map]
    have hone : ∀ x ∈ l.map (List.length ∘ OutReadyBunch.bytes ∘ Seal.bunch), 1 ≤ x := by
      intro x hx
      obtain ⟨s, hs, rfl⟩ := List.mem_map.mp hx
      show 1 ≤ (s.builder.sealed s.chSequence).bytes.length
      rw [sealed_bytes ((hall s hs).1.whole (hall s hs).2).toMeasured, List.length_append, BunchHeader.bytes_length]
      omega
    have := List.card_nsmul_le_sum _ _ hone
    rw [List.length_map, smul_eq_mul, Nat.mul_one] at this
    exact this
  refine ⟨_, hwire, ?_, ?_, ?_⟩
  · intro c hlen
    exact NetConnection.bunchesOf_sealed hlen l _ hlength hall
  · intro c reader hreader hstate hlen hdisp hmade
    unfold NetConnection.dispatchPacket
    rw [hreader, NetConnection.dispatchLoop_sealed l _ hlength hall c hstate hlen hdisp hmade]
  · intro s hs ch hidx hnext
    obtain ⟨hraw, hbytes⟩ := (hvalid s hs).dispatch ch
    refine ⟨?_, hbytes⟩
    unfold NetConnection.takeBunch
    simp only [hnext, ne_eq, not_true_eq_false, decide_false, Bool.and_false, Bool.false_eq_true, if_false, hidx, if_true]
    rw [hraw]

def fiveBytes (id byte : Byte) : NetMessage := ⟨[5, 0, id, 0, byte], true, 0, of_decide_eq_true rfl⟩

/-- The first bunches of both channels, the one of channel `1` with two messages and the other with three. -/
def twoSeals : List Seal :=
  [⟨{ forChannel 1 with activeMsgs := [fiveBytes 1 9, fiveBytes 2 8], activePayload := 10 }, 1⟩,
    ⟨{ forChannel 0 with activeMsgs := [fiveBytes 3 7, fiveBytes 4 6, fiveBytes 5 5], activePayload := 15 }, 1⟩]

theorem twoSeals_valid : ∀ s ∈ twoSeals, s.Valid := by
  have hstart : ∀ i, builderSystem.Reachable (forChannel i) := fun i =>
    .init ⟨i, true, true, false, true, NetChannel.channelPolicy, rfl⟩
  intro s hs
  rcases List.mem_cons.mp hs with rfl | hs
  · refine ⟨⟨_, System.reachable_runFrom (hstart 1)
      [.submit (fiveBytes 1 9), .submit (fiveBytes 2 8), .pump (fun _ => 0) 2 true 0], by decide +kernel⟩, by decide,
      by decide, by decide, by decide, ?_⟩
    intro m hm
    rcases List.mem_pair.mp hm with rfl | rfl
    · exact ⟨by decide, by decide, by decide⟩
    · exact ⟨by decide, by decide, by decide⟩
  · obtain rfl := List.mem_singleton.mp hs
    refine ⟨⟨_, System.reachable_runFrom (hstart 0) [.submit (fiveBytes 3 7), .submit (fiveBytes 4 6),
      .submit (fiveBytes 5 5), .pump (fun _ => 0) 3 true 0], by decide +kernel⟩, by decide, by decide, by decide,
      by decide, ?_⟩
    intro m hm
    rcases List.mem_cons.mp hm with rfl | hm
    · exact ⟨by decide, by decide, by decide⟩
    · rcases List.mem_pair.mp hm with rfl | rfl
      · exact ⟨by decide, by decide, by decide⟩
      · exact ⟨by decide, by decide, by decide⟩

theorem payload_round_trip_two : ∃ payload packet, ConnectionPacketBuilder.appendAll ConnectionPacketBuilder.buildStart
    (twoSeals.map Seal.bunch) = some packet ∧ packet.packetSealed.wire = packet.header.take packet.headerSize ++ payload ∧
    NetConnection.payloadBunches NetConnection.openServer payload = twoSeals.map Seal.received ∧
    NetConnection.openServer.dispatchPacket ⟨BitReader.ofBytes [] 0, payload, false⟩ =
      (NetConnection.dispatchAll (twoSeals.map Seal.received) NetConnection.openServer, false, false) ∧
    ((NetConnection.dispatchAll (twoSeals.map Seal.received) NetConnection.openServer).channels.map fun ch =>
      ch.map NetChannel.receivedMessages) =
        [some [⟨[7], 3⟩, ⟨[6], 4⟩, ⟨[5], 5⟩], some [⟨[9], 1⟩, ⟨[8], 2⟩]] := by
  obtain ⟨packet, hpacket⟩ : ∃ packet, ConnectionPacketBuilder.appendAll ConnectionPacketBuilder.buildStart
      (twoSeals.map Seal.bunch) = some packet := Option.isSome_iff_exists.mp (by decide +kernel)
  obtain ⟨payload, hwire, hbunches, hdispatch, -⟩ := payload_round_trip twoSeals_valid hpacket
  refine ⟨payload, packet, hpacket, hwire, hbunches NetConnection.openServer (by decide), ?_, by decide +kernel⟩
  refine hdispatch NetConnection.openServer _ rfl (by decide) (by decide) ?_ (by decide)
  intro i hi ch hch
  interval_cases i
  · obtain rfl := Option.some.inj hch
    decide
  · obtain rfl := Option.some.inj hch
    decide

end RudpEngine
