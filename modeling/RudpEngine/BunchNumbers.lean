import RudpEngine.AssembleFrame
import RudpEngine.Run
import RudpEngine.Sealing
import Mathlib.Tactic.IntervalCases

/-!
# Channel sequence numbers

Every bunch a channel seals takes a sequence number, and the receiver waits for
each of them. A number is lost where the bunch is empty, or where it is larger
than a packet has room for: the builder allows 1176 bytes of messages, an empty
packet has room for 1004.
-/

namespace RudpEngine

open ChannelBunchBuilder NetConnection NetConnection.Assembling

def bunchRoom : ℕ := ConnectionPacketBuilder.packetMaxSize - packetHeaderSize - 10

def Placeable (ms : List NetMessage) (payload : ℕ) : Prop := ms ≠ [] ∧ 0 < payload ∧ payload ≤ bunchRoom

theorem Placeable.bunch {ms : List NetMessage} {payload : ℕ} (h : Placeable ms payload) (i k : ℕ) :
    (channelBunch i k ms payload).messages ≠ [] ∧ kept (channelBunch i k ms payload) = true ∧
      fits (channelBunch i k ms payload) = true := by
  obtain ⟨hne, hpos, hle⟩ := h
  have hroom : bunchRoom = 1004 := rfl
  have htotal : (channelBunch i k ms payload).totalSize = payload + 10 := by
    rw [channelBunch_totalSize]; omega
  refine ⟨hne, ?_, ?_⟩
  · rw [kept, htotal, channelBunch_headerSize, Bool.and_eq_true, decide_eq_true_eq, decide_eq_true_eq]
    exact ⟨by omega, by rw [ConnectionPacketBuilder.packetMaxSize]; omega⟩
  · rw [fits, htotal, decide_eq_true_eq, packetHeaderSize, ConnectionPacketBuilder.packetMaxSize]
    omega

namespace ChannelBunchBuilder

/-- The message leaves a bunch that fits: it goes into the active bunch within the room of a packet (and
not all of a full bunch is empty), or seals one that is not empty and begins the next one, or is dropped. -/
def MessageFits (b : ChannelBunchBuilder) (m : NetMessage) : Prop :=
  if (b.activePayload + m.size) % 2 ^ 32 ≤ b.maxBunchPayload then
    (b.activePayload + m.size) % 2 ^ 32 ≤ bunchRoom ∧
      (b.policy.maxMsgsPerBunch = b.activeMsgs.length + 1 → 0 < (b.activePayload + m.size) % 2 ^ 32)
  else 0 < b.activePayload ∧ (m.size ≤ bunchRoom ∨ b.maxBunchPayload < m.size)

def TailFits (b : ChannelBunchBuilder) : Prop := 0 < b.activePayload

def Open (ms : List NetMessage) (payload : ℕ) : Prop := (ms = [] → payload = 0) ∧ payload ≤ bunchRoom

theorem open_nil : Open [] 0 := ⟨fun _ => rfl, Nat.zero_le _⟩

variable {i o₀ : ℕ} {queue₀ : List OutReadyBunch}

theorem Building.pumpMessage {b : ChannelBunchBuilder} {o : ℕ} {m : NetMessage}
    (h : Building i o₀ Open Placeable queue₀ b o) (rest : List NetMessage) (hm : MessageFits b m) (nowUs : ℕ) :
    Building i o₀ Open Placeable queue₀ ({ b with queuedMessage := rest }.pumpMessage nowUs m o).1
      ({ b with queuedMessage := rest }.pumpMessage nowUs m o).2 := by
  have hroom : bunchRoom = 1004 := rfl
  have hb := h.withMessages rest
  have hactive : b.activePayload ≤ bunchRoom := h.active.2
  have hnonempty : 0 < b.activePayload → b.activeMsgs ≠ [] := by
    intro hpos hnil
    rw [h.active.1 hnil] at hpos
    exact absurd hpos (Nat.lt_irrefl 0)
  rw [MessageFits, h.installed.maxBunchPayload, h.installed.maxMsgs] at hm
  rcases pumpMessage_cases hb.installed hb.short nowUs m o with ⟨hs, he⟩ | ⟨hs, hsize, he⟩ | ⟨hs, hsize, he⟩
  · -- into the active bunch
    rw [if_pos hs] at hm
    rw [he]
    apply hb.insert open_nil
    · intro _
      exact ⟨fun hnil => absurd hnil (by simp), hm.1⟩
    · intro hfull
      have hlen := h.short
      rw [hb.installed.isFull_inserted m] at hfull
      have hfull : 255 ≤ b.activeMsgs.length + 1 ∨ 1176 ≤ (b.activePayload + m.size) % 2 ^ 32 := hfull
      refine ⟨by simp, hm.2 ?_, hm.1⟩
      have := hm.1
      omega
  · -- into a new one
    rw [if_neg (Nat.not_le.mpr hs)] at hm
    have hgood : Placeable b.activeMsgs b.activePayload := ⟨hnonempty hm.1, hm.1, hactive⟩
    have hle : m.size ≤ bunchRoom := hm.2.resolve_right (Nat.not_lt.mpr hsize)
    have hnext := Building.afterSeal open_nil hb.installed hb.sealed hgood nowUs
    have hsum : (0 + m.size) % 2 ^ 32 = m.size := by rw [Nat.zero_add]; exact Nat.mod_eq_of_lt m.size_lt
    rw [he]
    apply hnext.insert open_nil
    · intro _
      refine ⟨fun hnil => absurd hnil (by simp), ?_⟩
      show (0 + m.size) % 2 ^ 32 ≤ bunchRoom
      rw [hsum]; exact hle
    · intro hfull
      rw [hnext.installed.isFull_inserted m] at hfull
      have hfull : 255 ≤ 1 ∨ 1176 ≤ (0 + m.size) % 2 ^ 32 := hfull
      omega
  · -- dropped
    rw [if_neg (Nat.not_le.mpr hs)] at hm
    rw [he]
    exact Building.afterSeal open_nil hb.installed hb.sealed ⟨hnonempty hm.1, hm.1, hactive⟩ nowUs

/-- Every bunch `Pump` seals fits, where its messages and its tail do. -/
theorem Building.pump {b : ChannelBunchBuilder} {o : ℕ} {nowUs : ℕ → ℕ} {batchLimit : ℕ} {flushTail : Bool}
    (h : Building i o₀ Open Placeable queue₀ b o) (hp : PumpMeets MessageFits TailFits nowUs batchLimit flushTail b o) :
    Building i o₀ Open Placeable queue₀ (b.pump nowUs batchLimit flushTail o).1 (b.pump nowUs batchLimit flushTail o).2 :=
  pump_rule (fun _ _ _ rest now hI _ hm => hI.pumpMessage rest hm now)
    (fun _ _ now hI hne ht => .afterSeal open_nil hI.installed hI.sealed ⟨hne, ht, hI.active.2⟩ now)
    (h.begun (fun _ => open_nil) _) hp

end ChannelBunchBuilder

/-! ## The sending side of a connection -/

/-- A connection that sends, with the packets it sent and the bunches each channel sealed. -/
structure SendRun where
  conn : NetConnection
  sent : List OutReadyPacket
  sealed : ℕ → List OutReadyBunch

inductive SendAction
  | submit (i : ℕ) (m : NetMessage)
  | pump (i : ℕ) (nowUs : ℕ → ℕ) (batchLimit : ℕ) (flushTail : Bool)
  | ready (i : ℕ)
  | assemble (keepAliveDue : Bool)
  | flush (nowUs : ℕ)

namespace SendRun

def newBunches (s : SendRun) (i : ℕ) (nowUs : ℕ → ℕ) (batchLimit : ℕ) (flushTail : Bool) : List OutReadyBunch :=
  match s.conn.channel? i with
  | none => []
  | some ch =>
    (ch.pumpBunch nowUs batchLimit flushTail).bunchBuilder.queuedOutBunch.drop ch.bunchBuilder.queuedOutBunch.length

def next (s : SendRun) : SendAction → SendRun
  | .submit i m => { s with conn := s.conn.modifyChannel i fun ch => ch.registerMessage m }
  | .pump i nowUs batchLimit flushTail =>
    { s with
      conn := s.conn.modifyChannel i fun ch => ch.pumpBunch nowUs batchLimit flushTail
      sealed := Function.update s.sealed i (s.sealed i ++ s.newBunches i nowUs batchLimit flushTail) }
  | .ready i =>
    { s with conn := s.conn.modifyChannel i fun ch => ch.flushReady ch.bunchBuilder.queuedOutBunch.length }
  | .assemble keepAliveDue => { s with conn := s.conn.assembleOutgoingPackets keepAliveDue }
  | .flush nowUs =>
    { s with
      conn := (s.conn.flushPacket nowUs).2
      sent := s.sent ++ (s.conn.flushPacket nowUs).1.toList }

structure Fresh (s : SendRun) : Prop where
  channel : ∀ i ch, s.conn.channel? i = some ch → ch = NetChannel.init i s.conn.initInReliable s.conn.initOutReliable
  number : s.conn.initOutReliable < 2 ^ 32
  outPacketQueue : s.conn.outPacketQueue = []
  sent : s.sent = []
  sealed : s.sealed = fun _ => []

end SendRun

/-- The runs of `RegisterMessage`, `PumpBunch`, the rest of `TickFlush`, `AssembleOutgoingPackets` and flushes. -/
def sendSystem : System SendRun SendAction := ⟨SendRun.Fresh, SendRun.next⟩

def SendFits (s : SendRun) : SendAction → Prop
  | .pump i nowUs batchLimit flushTail => ∀ ch, s.conn.channel? i = some ch →
      PumpMeets MessageFits TailFits nowUs batchLimit flushTail ch.bunchBuilder ch.outReliable
  | _ => True

namespace SendRun

variable {s : SendRun}

/-- The bunches of channel `i` in the packets sent and the packets queued. -/
def placed (s : SendRun) (i : ℕ) : List OutReadyBunch :=
  ((s.sent ++ s.conn.outPacketQueue).flatMap OutReadyPacket.bunchs).filter fun b => b.chIndex = i

structure ChannelNumbered (s : SendRun) (i : ℕ) (ch : NetChannel) : Prop where
  bOpen : ch.bOpen = true
  building : Building i ch.outReliable Open Placeable ch.bunchBuilder.queuedOutBunch ch.bunchBuilder ch.outReliable
  issued : IssuedFrom i Placeable s.conn.initOutReliable (s.sealed i) ch.outReliable
  placed : s.conn.state ≠ .closed → s.sealed i = s.placed i ++ ch.outBunchQueue ++ ch.bunchBuilder.queuedOutBunch

/-- The numbers of every channel are those of the bunches sealed, and those are on their way. -/
structure Numbered (s : SendRun) : Prop where
  number : s.conn.initOutReliable < 2 ^ 32
  channel : ∀ i ch, s.conn.channel? i = some ch → s.ChannelNumbered i ch

theorem Fresh.numbered (h : s.Fresh) : s.Numbered := by
  refine ⟨h.number, ?_⟩
  intro i ch hi
  obtain rfl := h.channel i ch hi
  refine ⟨rfl, ?_, ?_, ?_⟩
  · exact ⟨installed_forChannel i, Nat.succ_pos 254, open_nil, [], rfl, rfl⟩
  · rw [h.sealed]; rfl
  · intro _
    rw [h.sealed, SendRun.placed, h.sent, h.outPacketQueue]; rfl

theorem Numbered.modify (h : s.Numbered) (i : ℕ) (f : NetChannel → NetChannel) (new : List OutReadyBunch)
    (hf : ∀ ch, s.conn.channel? i = some ch → (f ch).bOpen = ch.bOpen ∧
      Building i (f ch).outReliable Open Placeable (f ch).bunchBuilder.queuedOutBunch (f ch).bunchBuilder (f ch).outReliable ∧
      IssuedFrom i Placeable ch.outReliable new (f ch).outReliable ∧
      (f ch).outBunchQueue ++ (f ch).bunchBuilder.queuedOutBunch =
        ch.outBunchQueue ++ ch.bunchBuilder.queuedOutBunch ++ new) :
    Numbered { s with conn := s.conn.modifyChannel i f, sealed := Function.update s.sealed i (s.sealed i ++ new) } := by
  refine ⟨h.number, ?_⟩
  intro j ch hj
  rcases NetConnection.of_channel?_modifyChannel hj with ⟨ch₀, rfl, hch₀, rfl⟩ | ⟨hji, hj⟩
  · obtain ⟨hopen, hbuild, hissued, hqueue⟩ := hf ch₀ hch₀
    have hold := h.channel j ch₀ hch₀
    refine ⟨hopen.trans hold.bOpen, hbuild, ?_, ?_⟩
    · simp only [Function.update_self]
      exact hold.issued.append hissued
    · intro hstate
      simp only [Function.update_self]
      have hp := hold.placed hstate
      rw [hp, List.append_assoc, List.append_assoc, List.append_assoc, hqueue, List.append_assoc]
      rfl
  · have hold := h.channel j ch hj
    refine ⟨hold.bOpen, hold.building, ?_, ?_⟩
    · simp only [Function.update_of_ne hji]
      exact hold.issued
    · simp only [Function.update_of_ne hji]
      exact hold.placed

theorem flushReady_eq : ∀ (l : List OutReadyBunch) (ch : NetChannel), ch.bunchBuilder.queuedOutBunch = l →
    ch.flushReady l.length = { ch with
      bunchBuilder := { ch.bunchBuilder with queuedOutBunch := [] }
      outBunchQueue := ch.outBunchQueue ++ l }
  | [], ch, h => by
    obtain ⟨_, _, _, _, _, _, _, builder, _, _, _, _⟩ := ch
    obtain ⟨_, _, _, _, _, _, _, _, _, _, _, _, _⟩ := builder
    simp only at h
    subst h
    rw [List.append_nil]; rfl
  | bunch :: l, ch, h => by
    have hd : ch.bunchBuilder.tryDequeueReady = some (bunch, { ch.bunchBuilder with queuedOutBunch := l }) := by
      rw [tryDequeueReady, h]
    rw [List.length_cons, NetChannel.flushReady, hd]
    simp only
    rw [flushReady_eq l _ rfl]
    simp

theorem Numbered.submit (h : s.Numbered) (i : ℕ) (m : NetMessage) : (s.next (.submit i m)).Numbered := by
  have := h.modify i (fun ch => ch.registerMessage m) [] ?_
  · simpa [SendRun.next] using this
  · intro ch hch
    have hold := h.channel i ch hch
    exact ⟨rfl, hold.building.withMessages _, rfl, (List.append_nil _).symm⟩

theorem Numbered.pump (h : s.Numbered) (i : ℕ) {nowUs : ℕ → ℕ} {batchLimit : ℕ} {flushTail : Bool}
    (hfits : SendFits s (.pump i nowUs batchLimit flushTail)) :
    (s.next (.pump i nowUs batchLimit flushTail)).Numbered := by
  refine h.modify i _ _ fun ch hch => ?_
  have hold := (h.channel i ch hch).building
  have hnew := hold.pump (hfits ch hch)
  obtain ⟨new, hq, hissued⟩ := hnew.sealed
  have hdrop : s.newBunches i nowUs batchLimit flushTail = new := by
    rw [newBunches, hch]
    simp only [NetChannel.pumpBunch]
    rw [hq, List.drop_left]
  rw [hdrop]
  refine ⟨rfl, ⟨hnew.installed, hnew.short, hnew.active, [], ?_, rfl⟩, hissued, ?_⟩
  · exact (List.append_nil _).symm
  · show ch.outBunchQueue ++ (ch.bunchBuilder.pump nowUs batchLimit flushTail ch.outReliable).1.queuedOutBunch = _
    rw [hq, List.append_assoc]

theorem Numbered.ready (h : s.Numbered) (i : ℕ) : (s.next (.ready i)).Numbered := by
  have := h.modify i (fun ch => ch.flushReady ch.bunchBuilder.queuedOutBunch.length) [] ?_
  · simpa [SendRun.next] using this
  · intro ch hch
    have hold := (h.channel i ch hch).building
    rw [flushReady_eq _ ch rfl]
    refine ⟨rfl, ⟨⟨?_, ?_, ?_, ?_, ?_, ?_, ?_⟩, hold.short, hold.active, [], rfl, rfl⟩, rfl, ?_⟩
    · exact hold.installed.chIndex
    · exact hold.installed.bControl
    · exact hold.installed.bOpen
    · exact hold.installed.bClose
    · exact hold.installed.bReliable
    · exact hold.installed.policy
    · exact hold.installed.maxBunchPayload
    · simp

theorem Numbered.waiting (h : s.Numbered) (hstate : s.conn.state ≠ .closed) :
    s.conn.ChannelsNumbered ∧ AllFit s.conn := by
  have hmem : ∀ i ch, s.conn.channel? i = some ch → ∀ b ∈ ch.outBunchQueue, b ∈ s.sealed i := by
    intro i ch hi b hb
    rw [(h.channel i ch hi).placed hstate]
    exact List.mem_append_left _ (List.mem_append_right _ hb)
  constructor
  · intro i ch hi b hb
    obtain ⟨k, ms, payload, rfl, -⟩ := (h.channel i ch hi).issued.mem b (hmem i ch hi b hb)
    exact channelBunch_chIndex i k ms payload
  · intro i ch hi b hb _
    obtain ⟨k, ms, payload, rfl, hg⟩ := (h.channel i ch hi).issued.mem b (hmem i ch hi b hb)
    exact (hg.bunch i k).2.2

theorem Numbered.assemble (h : s.Numbered) (keepAliveDue : Bool) : (s.next (.assemble keepAliveDue)).Numbered := by
  have hframe := assemble_frame s.conn keepAliveDue
  have hnumber : (s.conn.assembleOutgoingPackets keepAliveDue).initOutReliable = s.conn.initOutReliable := by
    rw [hframe.conn]
  refine ⟨hnumber.trans_lt h.number, ?_⟩
  intro i ch' hi'
  have hi' : (s.conn.assembleOutgoingPackets keepAliveDue).channel? i = some ch' := hi'
  cases hch : s.conn.channel? i with
  | none =>
    rw [hframe.absent i hch] at hi'; cases hi'
  | some ch =>
    obtain ⟨ch₁, hi₁, hmoved⟩ := hframe.channel i ch hch
    obtain rfl : ch₁ = ch' := Option.some.inj (hi₁.symm.trans hi')
    have hold := h.channel i ch hch
    rw [hmoved]
    refine ⟨hold.bOpen, hold.building, ?_, ?_⟩
    · show IssuedFrom i Placeable (s.conn.assembleOutgoingPackets keepAliveDue).initOutReliable _ _
      rw [hnumber]; exact hold.issued
    · intro hstate
      have hstate : (s.conn.assembleOutgoingPackets keepAliveDue).state ≠ .closed := hstate
      rcases assemble_state s.conn keepAliveDue with ⟨-, hclosed⟩ | ⟨hov, hsame⟩
      · exact absurd hclosed hstate
      · rw [hsame] at hstate
        obtain ⟨hnum, hfit⟩ := h.waiting hstate
        obtain ⟨new, hex⟩ := assemble_exact s.conn keepAliveDue hnum hov fun _ => hfit
        obtain ⟨ch₂, taken, hi₂, hq, htaken⟩ := hex.dequeued i ch hch
        obtain rfl : ch₂ = ch₁ := Option.some.inj (hi₂.symm.trans hi₁)
        -- nothing that was taken is discarded
        have hall : taken.filter kept = taken := by
          refine List.filter_eq_self.mpr fun b hb => ?_
          have hb' : b ∈ s.sealed i := by
            rw [hold.placed hstate, hq]
            exact List.mem_append_left _ (List.mem_append_right _ (List.mem_append_left _ hb))
          obtain ⟨k, ms, payload, rfl, hg⟩ := hold.issued.mem b hb'
          exact (hg.bunch i k).2.1
        rw [hall] at htaken
        have hplaced : SendRun.placed { s with conn := s.conn.assembleOutgoingPackets keepAliveDue } i =
            s.placed i ++ taken := by
          rw [SendRun.placed, SendRun.placed, hex.outPacketQueue, ← List.append_assoc, List.flatMap_append,
            List.filter_append, htaken]
        show s.sealed i = SendRun.placed { s with conn := s.conn.assembleOutgoingPackets keepAliveDue } i ++
          ch₂.outBunchQueue ++ ch.bunchBuilder.queuedOutBunch
        rw [hplaced, hold.placed hstate, hq]
        simp only [List.append_assoc]

/-- A flush moves the first packet, with its bunches, to the packets sent. -/
theorem placed_flush (s : SendRun) (nowUs i : ℕ) : (s.next (.flush nowUs)).placed i = s.placed i := by
  show ((_ : List OutReadyPacket).flatMap _).filter _ = _
  simp only [SendRun.placed, SendRun.next, NetConnection.flushPacket, NetConnection.tryDequeuePacket]
  cases hq : s.conn.outPacketQueue with
  | nil => simp [hq]
  | cons packet rest =>
    have hb : ∀ c : NetConnection, (c.updatePacketHeader packet nowUs).1.bunchs = packet.bunchs := fun c => rfl
    have hrest : ∀ c : NetConnection, (c.updatePacketHeader packet nowUs).2.outPacketQueue = c.outPacketQueue := fun c => rfl
    simp [hb, hrest]

theorem Numbered.flush (h : s.Numbered) (nowUs : ℕ) : (s.next (.flush nowUs)).Numbered := by
  have hsame : (s.conn.flushPacket nowUs).2.channels = s.conn.channels ∧
      (s.conn.flushPacket nowUs).2.state = s.conn.state ∧
      (s.conn.flushPacket nowUs).2.initOutReliable = s.conn.initOutReliable := by
    unfold NetConnection.flushPacket NetConnection.tryDequeuePacket
    cases s.conn.outPacketQueue <;> exact ⟨rfl, rfl, rfl⟩
  obtain ⟨hchannels, hstate, hnumber⟩ := hsame
  refine ⟨hnumber.trans_lt h.number, ?_⟩
  intro i ch hi
  have hi : s.conn.channel? i = some ch := by rw [← hi]; simp only [NetConnection.channel?]; rw [← hchannels]; rfl
  have hold := h.channel i ch hi
  refine ⟨hold.bOpen, hold.building, ?_, ?_⟩
  · show IssuedFrom i Placeable (s.conn.flushPacket nowUs).2.initOutReliable _ _
    rw [hnumber]; exact hold.issued
  · intro hne
    have hne : (s.conn.flushPacket nowUs).2.state ≠ .closed := hne
    rw [placed_flush]
    exact hold.placed (by rw [← hstate]; exact hne)

theorem Numbered.next {a : SendAction} (h : s.Numbered) (ha : SendFits s a) : (s.next a).Numbered := by
  cases a with
  | submit i m => exact h.submit i m
  | pump i nowUs batchLimit flushTail => exact h.pump i ha
  | ready i => exact h.ready i
  | assemble keepAliveDue => exact h.assemble keepAliveDue
  | flush nowUs => exact h.flush nowUs

theorem reach_numbered (h : sendSystem.Reach SendFits s) : s.Numbered :=
  System.Reach.invariant (fun _ h => Fresh.numbered h) (fun _ _ h ha => Numbered.next h ha) h

/-! ## Everything sealed is sent -/

def flushAll (nowUs : ℕ) : ℕ → SendRun → SendRun
  | 0, s => s
  | n + 1, s => flushAll nowUs n (s.next (.flush nowUs))

theorem flushAll_placed (nowUs i : ℕ) : ∀ (n : ℕ) (s : SendRun), (flushAll nowUs n s).placed i = s.placed i
  | 0, _ => rfl
  | n + 1, s => by rw [flushAll, flushAll_placed nowUs i n, placed_flush]

theorem flushAll_queue (nowUs : ℕ) : ∀ (n : ℕ) (s : SendRun), s.conn.outPacketQueue.length = n →
    (flushAll nowUs n s).conn.outPacketQueue = []
  | 0, s, h => List.length_eq_zero_iff.mp h
  | n + 1, s, h => by
    rw [flushAll]
    apply flushAll_queue nowUs n
    obtain ⟨packet, rest, hq⟩ := List.exists_cons_of_length_eq_add_one h
    rw [hq] at h
    simp only [SendRun.next, NetConnection.flushPacket, NetConnection.tryDequeuePacket, hq]
    exact Nat.succ.inj h

/-- `TickFlush` behind the pump, one assembling and the flushes of what it queued. -/
def sendAll (s : SendRun) (i : ℕ) (keepAliveDue : Bool) (nowUs : ℕ) : SendRun :=
  let s := (s.next (.ready i)).next (.assemble keepAliveDue)
  flushAll nowUs s.conn.outPacketQueue.length s

/-- Where the connection is still open then, all the bunches channel `i` sealed have been sent. -/
theorem Numbered.sendAll (h : s.Numbered) {i : ℕ} {ch : NetChannel} (hch : s.conn.channel? i = some ch)
    (keepAliveDue : Bool) (nowUs : ℕ)
    (hstate : ((s.next (.ready i)).next (.assemble keepAliveDue)).conn.state ≠ .closed) :
    ((s.sendAll i keepAliveDue nowUs).sent.flatMap OutReadyPacket.bunchs).filter (fun b => b.chIndex = i) = s.sealed i := by
  have h₁ := h.ready i
  have h₂ := h₁.assemble keepAliveDue
  have hch₁ : (s.next (.ready i)).conn.channel? i =
      some (ch.flushReady ch.bunchBuilder.queuedOutBunch.length) := by
    rw [SendRun.next, channel?_modifyChannel, if_pos rfl, hch]; rfl
  obtain ⟨ch₂, hch₂, hmoved⟩ := (assemble_frame (s.next (.ready i)).conn keepAliveDue).channel i _ hch₁
  have hempty : ch₂.outBunchQueue = [] ∧ ch₂.bunchBuilder.queuedOutBunch = [] := by
    constructor
    · rcases assemble_state (s.next (.ready i)).conn keepAliveDue with ⟨-, hclosed⟩ | ⟨hov, -⟩
      · exact absurd hclosed hstate
      · exact assemble_queue_empty _ keepAliveDue hov hch₁ (h₁.channel i _ hch₁).bOpen hch₂
    · rw [hmoved, flushReady_eq _ ch rfl]
  have hplaced := (h₂.channel i ch₂ hch₂).placed hstate
  rw [hempty.1, hempty.2, List.append_nil, List.append_nil] at hplaced
  have hsent := flushAll_placed nowUs i ((s.next (.ready i)).next (.assemble keepAliveDue)).conn.outPacketQueue.length
    ((s.next (.ready i)).next (.assemble keepAliveDue))
  have hqueue := flushAll_queue nowUs _ ((s.next (.ready i)).next (.assemble keepAliveDue)) rfl
  rw [← hplaced, SendRun.placed, hqueue, List.append_nil] at hsent
  exact hsent

end SendRun

/-- In a run whose messages fit, every number a channel takes is that of a bunch with a message which is not
discarded and has room in a packet; sending on, all of them go to the wire. -/
theorem sequence_numbers_placed {s : SendRun} (h : sendSystem.Reach SendFits s) {i : ℕ} {ch : NetChannel}
    (hch : s.conn.channel? i = some ch) :
    (∀ bunch ∈ s.sealed i, bunch.messages ≠ [] ∧ kept bunch = true ∧ fits bunch = true) ∧
    ch.outReliable = (s.conn.initOutReliable + (s.sealed i).length) % 2 ^ 32 ∧
    (∀ n bunch, (s.sealed i)[n]? = some bunch →
      ∃ ms payload, bunch = channelBunch i ((s.conn.initOutReliable + n + 1) % 2 ^ 32) ms payload) ∧
    ∀ keepAliveDue nowUs, ((s.next (.ready i)).next (.assemble keepAliveDue)).conn.state ≠ .closed →
      ((s.sendAll i keepAliveDue nowUs).sent.flatMap OutReadyPacket.bunchs).filter (fun b => b.chIndex = i) =
        s.sealed i := by
  have hn := SendRun.reach_numbered h
  have hissued := (hn.channel i ch hch).issued
  refine ⟨?_, hissued.number hn.number, ?_, fun kd now hstate => hn.sendAll hch kd now hstate⟩
  · intro bunch hb
    obtain ⟨k, ms, payload, rfl, hg⟩ := hissued.mem bunch hb
    exact hg.bunch i k
  · intro n bunch hb
    obtain ⟨ms, payload, he, -⟩ := hissued.getElem? hb
    exact ⟨ms, payload, he⟩

def messageOf (n : ℕ) (h : n < 2 ^ 32 := by decide) : NetMessage :=
  ⟨List.replicate n 0, true, 0, length_zeros_lt h⟩

def SendRun.start : SendRun := ⟨(NetConnection.new true 2 .open).createInitialChannels, [], fun _ => []⟩

theorem SendRun.start_channel? {i : ℕ} {ch : NetChannel} (h : SendRun.start.conn.channel? i = some ch) :
    ch = NetChannel.init i 0 0 := by
  have hi : i < 2 := by have := lt_of_channel? h; exact this
  have : SendRun.start.conn.channel? i = some (NetChannel.init i 0 0) := by
    interval_cases i <;> rfl
  exact (Option.some.inj (this.symm.trans h)).symm

theorem SendRun.start_fresh : SendRun.start.Fresh :=
  ⟨fun _ _ h => SendRun.start_channel? h, Nat.succ_pos _, rfl, rfl, rfl⟩

theorem SendRun.start_reachable (as : List SendAction) : sendSystem.Reachable (sendSystem.runFrom SendRun.start as) :=
  System.reachable_runFrom (.init SendRun.start_fresh) as

theorem sequence_numbers_placed_small :
    ((sendSystem.next (sendSystem.next SendRun.start (.submit 0 (messageOf 5))) (.pump 0 (fun _ => 0) 1 true)).sealed
      0).length = 1 ∧
    ∀ bunch ∈ (sendSystem.next (sendSystem.next SendRun.start (.submit 0 (messageOf 5)))
      (.pump 0 (fun _ => 0) 1 true)).sealed 0, bunch.messages ≠ [] ∧ kept bunch = true ∧ fits bunch = true := by
  have hstart : sendSystem.Reach SendFits SendRun.start := .init SendRun.start_fresh
  have hsubmit : sendSystem.Reach SendFits (sendSystem.next SendRun.start (.submit 0 (messageOf 5))) :=
    .next hstart trivial
  have hfits : SendFits (sendSystem.next SendRun.start (.submit 0 (messageOf 5))) (.pump 0 (fun _ => 0) 1 true) := by
    intro ch hch
    obtain rfl := Option.some.inj hch
    exact ⟨⟨by unfold MessageFits; decide, trivial⟩, fun _ _ => by unfold TailFits; decide⟩
  exact ⟨by decide, (sequence_numbers_placed (.next hsubmit hfits) rfl).1⟩

/-- A message of 1100 bytes takes a number and is discarded. -/
theorem sequence_number_burned : ¬ ∀ s : SendRun, sendSystem.Reachable s → ∀ i ch, s.conn.channel? i = some ch →
    ∀ bunch ∈ s.sealed i, bunch.messages ≠ [] ∧ kept bunch = true := by
  intro h
  have hbad := h _ (SendRun.start_reachable [.submit 0 (messageOf 1100), .pump 0 (fun _ => 0) 1 true]) 0 _ rfl
  revert hbad
  decide +kernel

end RudpEngine
