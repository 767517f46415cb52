import RudpEngine.Connection
import Mathlib.Tactic.SplitIfs

/-!
# Assembling packets

The passes of `AssembleOutgoingPackets` take every channel's queue empty, one
bunch after the other. `Placed` follows the bunches: each one that is not
discarded is recorded under the id of the current packet, and is in that packet
if the packet has room for it.
-/

namespace RudpEngine

namespace NetChannel

def unAcked (ch : NetChannel) (packetId : ℤ) : List OutReadyBunch := (ch.outUnAckedBunches.find? packetId).getD []

end NetChannel

namespace NetConnection

namespace Assembling

variable {a : Assembling}

def takeAndPlace (a : Assembling) (index : ℕ) (ch : NetChannel) (bunch : OutReadyBunch) (rest : List OutReadyBunch) :
    Assembling :=
  { a with conn := a.conn.setChannel index { ch with outBunchQueue := rest } }.placeBunch index bunch

theorem drainChannel_cons {index : ℕ} {ch : NetChannel} {bunch : OutReadyBunch} {rest : List OutReadyBunch}
    (hov : a.overflow = false) (hch : a.conn.channel? index = some ch) (hq : ch.outBunchQueue = bunch :: rest)
    (fuel : ℕ) : drainChannel index (fuel + 1) a = (true, (drainChannel index fuel (a.takeAndPlace index ch bunch rest)).2) := by
  rw [drainChannel, if_neg (by rw [hov]; decide), hch]
  simp only [Option.bind_some, NetChannel.dequeueReadyBunch, hq]
  rfl

theorem drainChannel_stop {index : ℕ} (hov : a.overflow = false)
    (hch : ∀ ch, a.conn.channel? index = some ch → ch.outBunchQueue = []) (fuel : ℕ) :
    (drainChannel index fuel a).2 = a := by
  cases fuel with
  | zero => rfl
  | succ fuel =>
    rw [drainChannel, if_neg (by rw [hov]; decide)]
    cases h : a.conn.channel? index with
    | none => rfl
    | some ch => simp [NetChannel.dequeueReadyBunch, hch ch h]

theorem drainChannel_overflow {index : ℕ} (hov : a.overflow = true) (fuel : ℕ) : (drainChannel index fuel a).2 = a := by
  cases fuel with
  | zero => rfl
  | succ fuel => rw [drainChannel, hov]; rfl

/-! ## The rule of the passes -/

section
variable {I : Assembling → Prop}
variable (hs : ∀ a index ch bunch rest, I a → a.overflow = false → a.conn.channel? index = some ch →
  ch.outBunchQueue = bunch :: rest → I (a.takeAndPlace index ch bunch rest))
include hs

theorem drainChannel_invariant (index : ℕ) : ∀ (fuel : ℕ) (a : Assembling), I a → I (drainChannel index fuel a).2
  | 0, _, h => h
  | fuel + 1, a, h => by
    by_cases hov : a.overflow = true
    · rwa [drainChannel_overflow hov]
    · have hov : a.overflow = false := by simpa using hov
      by_cases hstop : ∀ ch, a.conn.channel? index = some ch → ch.outBunchQueue = []
      · rwa [drainChannel_stop hov hstop]
      · push Not at hstop
        obtain ⟨ch, hch, hne⟩ := hstop
        obtain ⟨bunch, rest, hq⟩ := List.exists_cons_of_ne_nil hne
        rw [drainChannel_cons hov hch hq]
        exact drainChannel_invariant index fuel _ (hs a index ch bunch rest h hov hch hq)

theorem pass_invariant (rr : ℕ) (h : I a) : I (a.pass rr).2 := by
  have hfold : ∀ (is : List ℕ) (n : ℕ) (s : Bool × Assembling), I s.2 → I (is.foldl (passStep rr n) s).2 := by
    intro is n
    induction is with
    | nil => exact fun s hI => hI
    | cons i is ih =>
      intro s hI
      exact ih _ (by rw [passStep]; exact drainChannel_invariant hs _ _ _ hI)
  exact hfold _ _ _ h

theorem passes_invariant : ∀ (fuel rr : ℕ) (a : Assembling), I a → I (passes fuel rr a)
  | 0, _, _, h => h
  | fuel + 1, rr, a, h => by
    have hp := pass_invariant hs rr h
    unfold passes
    simp only
    split
    · exact passes_invariant fuel _ _ hp
    · exact hp

end

/-! ## One bunch -/

def kept (bunch : OutReadyBunch) : Bool :=
  decide (bunch.headerSize < bunch.totalSize) && decide (bunch.totalSize ≤ ConnectionPacketBuilder.packetMaxSize)

def fits (bunch : OutReadyBunch) : Bool :=
  decide (packetHeaderSize + bunch.totalSize ≤ ConnectionPacketBuilder.packetMaxSize)

/-- What `placeBunch` can do with a bunch of a channel that exists. -/
theorem placeBunch_cases {index : ℕ} {ch : NetChannel} (hch : a.conn.channel? index = some ch) (bunch : OutReadyBunch) :
    (kept bunch = false ∧ a.placeBunch index bunch =
      { a with conn := { a.conn with released := a.conn.released ++ ChannelBunchBuilder.discardOutReadyBunch bunch } }) ∨
    (kept bunch = true ∧ (a.placeBunch index bunch =
        { (a.packetFor bunch.totalSize).2 with
          conn := NetConnection.close { (a.packetFor bunch.totalSize).2.conn with
            record := (a.packetFor bunch.totalSize).2.conn.record.pushChannelRecord
              (a.packetFor bunch.totalSize).1.outPacketId ch.chIndex }
          overflow := true } ∨
      ∃ ch', ch.addUnAckedOutBunch (a.packetFor bunch.totalSize).1.outPacketId bunch = some ch' ∧
        a.placeBunch index bunch =
          { (a.packetFor bunch.totalSize).2 with
            conn := { (a.packetFor bunch.totalSize).2.conn with
              record := (a.packetFor bunch.totalSize).2.conn.record.pushChannelRecord
                (a.packetFor bunch.totalSize).1.outPacketId ch.chIndex }.setChannel index ch'
            packet := some (ConnectionPacketBuilder.append (a.packetFor bunch.totalSize).1 bunch).2 })) := by
  have hkept : (ChannelBunchBuilder.isHeaderOnlyBunch bunch ||
      decide (ConnectionPacketBuilder.packetMaxSize < bunch.totalSize)) = !kept bunch := by
    unfold ChannelBunchBuilder.isHeaderOnlyBunch kept
    rw [Bool.eq_iff_iff]
    simp only [Bool.or_eq_true, decide_eq_true_eq, Bool.not_eq_true', Bool.and_eq_false_iff, decide_eq_false_iff_not]
    omega
  have hsame : (a.packetFor bunch.totalSize).2.conn.channel? index = some ch := by
    unfold packetFor createNewPacket finish
    cases a.packet <;> simp only <;> split_ifs <;> exact hch
  unfold placeBunch
  rw [hkept]
  cases hk : kept bunch with
  | false => exact .inl ⟨rfl, rfl⟩
  | true =>
    refine .inr ⟨rfl, ?_⟩
    simp only [Bool.not_true, Bool.false_eq_true, if_false]
    generalize a.packetFor bunch.totalSize = pf at hsame
    obtain ⟨packet, a'⟩ := pf
    simp only at hsame ⊢
    rw [hsame]
    simp only [Option.map_some, Option.getD_some]
    have hrec : NetConnection.channel? { a'.conn with
        record := a'.conn.record.pushChannelRecord packet.outPacketId ch.chIndex } index = some ch := hsame
    rw [hrec, Option.bind_some]
    cases hadd : ch.addUnAckedOutBunch packet.outPacketId bunch with
    | none => exact .inl rfl
    | some ch' => exact .inr ⟨ch', rfl, rfl⟩

/-! ## Where the bunches go -/

structure Placement where
  id : ℤ
  index : ℕ
  bunch : OutReadyBunch
  deriving DecidableEq

def packets (a : Assembling) : List OutReadyPacket := a.readyPackets ++ a.packet.toList

structure ChannelMoved (done : List OutReadyBunch) (log : List Placement) (i : ℕ) (ch ch' : NetChannel) : Prop where
  chIndex : ch'.chIndex = ch.chIndex
  queue : ch.outBunchQueue = done ++ ch'.outBunchQueue
  unAcked : ∀ p, ch'.unAcked p = ch.unAcked p ++ (log.filter fun e => e.index = i ∧ e.id = p).map Placement.bunch

structure ChannelsMoved (c : NetConnection) (done : ℕ → List OutReadyBunch) (log : List Placement) (c' : NetConnection) :
    Prop where
  absent : ∀ i, c.channel? i = none → c'.channel? i = none
  channel : ∀ i ch, c.channel? i = some ch → ∃ ch', c'.channel? i = some ch' ∧ ChannelMoved (done i) log i ch ch'
  logged : ∀ i, (log.filter fun e => e.index = i).map Placement.bunch = (done i).filter kept
  present : ∀ e ∈ log, c.channel? e.index ≠ none

structure PacketsMade (c : NetConnection) (log : List Placement) (a : Assembling) : Prop where
  outPacketQueue : a.conn.outPacketQueue = c.outPacketQueue
  outPacketId : a.conn.outPacketId = c.outPacketId + a.readyPackets.length
  ids : a.readyPackets.map OutReadyPacket.outPacketId =
    (List.range a.readyPackets.length).map fun k : ℕ => c.outPacketId + k
  packet : ∀ p, a.packet = some p → p.outPacketId = a.conn.outPacketId
  bunchs : ∀ p ∈ a.packets, p.bunchs = (log.filter fun e => e.id = p.outPacketId ∧ fits e.bunch).map Placement.bunch
  size : ∀ p ∈ a.packets, p.totalSize = packetHeaderSize + (p.bunchs.map OutReadyBunch.totalSize).sum ∧
    p.totalSize ≤ ConnectionPacketBuilder.packetMaxSize
  logIds : ∀ e ∈ log, c.outPacketId ≤ e.id ∧ e.id ≤ a.conn.outPacketId
  sorted : log.Pairwise fun e e' => e.id ≤ e'.id
  start : a.packet = none → log = []

variable {c : NetConnection} {done : ℕ → List OutReadyBunch} {log : List Placement}

theorem ChannelsMoved.begin (c : NetConnection) : ChannelsMoved c (fun _ => []) [] c :=
  ⟨fun _ h => h, fun _ ch h => ⟨ch, h, rfl, rfl, fun p => by simp⟩, fun _ => rfl, fun e he => by cases he⟩

theorem PacketsMade.begin (c : NetConnection) : PacketsMade c [] ⟨c, none, [], false⟩ where
  outPacketQueue := rfl
  outPacketId := by simp
  ids := rfl
  packet := fun p h => by simp at h
  bunchs := fun p h => by simp [packets] at h
  size := fun p h => by simp [packets] at h
  logIds := fun e h => by simp at h
  sorted := List.Pairwise.nil
  start := fun _ => rfl

@[simp] theorem packetSealed_outPacketId (p : OutReadyPacket) : p.packetSealed.outPacketId = p.outPacketId := by
  unfold OutReadyPacket.packetSealed; split <;> rfl

@[simp] theorem packetSealed_bunchs (p : OutReadyPacket) : p.packetSealed.bunchs = p.bunchs := by
  unfold OutReadyPacket.packetSealed; split <;> rfl

@[simp] theorem packetSealed_totalSize (p : OutReadyPacket) : p.packetSealed.totalSize = p.totalSize := by
  unfold OutReadyPacket.packetSealed; split <;> rfl

theorem PacketsMade.ready_lt (h : PacketsMade c log a) {p : OutReadyPacket} (hp : p ∈ a.readyPackets) :
    c.outPacketId ≤ p.outPacketId ∧ p.outPacketId < a.conn.outPacketId := by
  have hm : p.outPacketId ∈ a.readyPackets.map OutReadyPacket.outPacketId := List.mem_map_of_mem hp
  rw [h.ids] at hm
  obtain ⟨k, hk, he⟩ := List.mem_map.mp hm
  have := List.mem_range.mp hk
  have := h.outPacketId
  omega

theorem header_le_max : packetHeaderSize ≤ ConnectionPacketBuilder.packetMaxSize := by decide

theorem PacketsMade.create (h : PacketsMade c log a) (hnone : a.packet = none) :
    PacketsMade c log { a.createNewPacket.2 with packet := some a.createNewPacket.1 } where
  outPacketQueue := h.outPacketQueue
  outPacketId := h.outPacketId
  ids := h.ids
  packet := fun p hp => by cases hp; rfl
  bunchs := fun p hp => by
    have hlog := h.start hnone
    subst hlog
    rcases List.mem_append.mp hp with hp | hp
    · exact h.bunchs p (List.mem_append_left _ hp)
    · obtain rfl := List.mem_singleton.mp hp; rfl
  size := fun p hp => by
    rcases List.mem_append.mp hp with hp | hp
    · exact h.size p (List.mem_append_left _ hp)
    · obtain rfl := List.mem_singleton.mp hp; exact ⟨rfl, header_le_max⟩
  logIds := h.logIds
  sorted := h.sorted
  start := fun hp => by cases hp

theorem PacketsMade.replace (h : PacketsMade c log a) {packet : OutReadyPacket} (hp : a.packet = some packet) :
    PacketsMade c log
      { (a.finish packet).createNewPacket.2 with packet := some (a.finish packet).createNewPacket.1 } := by
  have hid := h.packet packet hp
  have hmem : packet ∈ a.packets := by simp [packets, hp]
  have hout : (a.finish packet).createNewPacket.2.conn.outPacketId = a.conn.outPacketId + 1 := rfl
  refine ⟨h.outPacketQueue, ?_, ?_, ?_, ?_, ?_, ?_, h.sorted, ?_⟩
  · have := h.outPacketId
    simp only [finish, createNewPacket, List.length_append, List.length_singleton]
    push_cast; omega
  · have hids := h.ids
    have hout := h.outPacketId
    simp only [finish, createNewPacket, List.map_append, List.length_append, List.length_singleton, List.range_succ,
      List.map_cons, List.map_nil, packetSealed_outPacketId, hids, hid, hout]
  · intro p hp'; cases hp'; rfl
  · intro p hp'
    rcases List.mem_append.mp hp' with hp' | hp'
    · rcases List.mem_append.mp hp' with hp' | hp'
      · exact h.bunchs p (List.mem_append_left _ hp')
      · obtain rfl := List.mem_singleton.mp hp'
        simpa using h.bunchs packet hmem
    · obtain rfl := List.mem_singleton.mp hp'
      -- the new packet has an id above those in the log
      have hempty : (log.filter fun e => e.id = a.conn.outPacketId + 1 ∧ fits e.bunch) = [] := by
        refine List.filter_eq_nil_iff.mpr fun e he => ?_
        have := (h.logIds e he).2
        simp only [decide_eq_true_eq, not_and]
        omega
      show [] = ((log.filter fun e => e.id = a.conn.outPacketId + 1 ∧ fits e.bunch).map Placement.bunch)
      rw [hempty]; rfl
  · intro p hp'
    rcases List.mem_append.mp hp' with hp' | hp'
    · rcases List.mem_append.mp hp' with hp' | hp'
      · exact h.size p (List.mem_append_left _ hp')
      · obtain rfl := List.mem_singleton.mp hp'
        simpa using h.size packet hmem
    · obtain rfl := List.mem_singleton.mp hp'; exact ⟨rfl, header_le_max⟩
  · intro e he
    have := h.logIds e he
    rw [hout]; omega
  · intro hn; cases hn

theorem packetFor_overflow (size : ℕ) : (a.packetFor size).2.overflow = a.overflow := by
  unfold packetFor createNewPacket finish
  cases a.packet <;> simp only <;> split_ifs <;> rfl

/-- The packet for a bunch has room for it, or is empty and never will have. -/
theorem PacketsMade.packetFor (h : PacketsMade c log a) {size : ℕ}
    (hsize : size ≤ ConnectionPacketBuilder.packetMaxSize) :
    PacketsMade c log { (a.packetFor size).2 with packet := some (a.packetFor size).1 } ∧
      ((a.packetFor size).1.totalSize + size ≤ ConnectionPacketBuilder.packetMaxSize ∨
        (a.packetFor size).1.totalSize = packetHeaderSize) := by
  have hmod : ∀ n, n ≤ ConnectionPacketBuilder.packetMaxSize →
      (ConnectionPacketBuilder.packetMaxSize < (n + size) % 2 ^ 32 ↔ ConnectionPacketBuilder.packetMaxSize < n + size) := by
    unfold ConnectionPacketBuilder.packetMaxSize at hsize ⊢; omega
  unfold Assembling.packetFor
  cases hp : a.packet with
  | none =>
    have hnew := h.create hp
    simp only
    have hle : a.createNewPacket.1.totalSize ≤ ConnectionPacketBuilder.packetMaxSize := header_le_max
    rw [if_congr (hmod _ hle) rfl rfl]
    split_ifs with hlt
    · exact ⟨hnew.replace rfl, .inr rfl⟩
    · exact ⟨hnew, .inl (Nat.le_of_not_lt hlt)⟩
  | some packet =>
    have hle := (h.size packet (by simp [packets, hp])).2
    simp only
    rw [if_congr (hmod _ hle) rfl rfl]
    split_ifs with hlt
    · exact ⟨h.replace hp, .inr rfl⟩
    · refine ⟨?_, .inl (Nat.le_of_not_lt hlt)⟩
      rw [← hp]
      exact h

theorem PacketsMade.congr (h : PacketsMade c log a) {b : Assembling}
    (hqueue : b.conn.outPacketQueue = a.conn.outPacketQueue) (hid : b.conn.outPacketId = a.conn.outPacketId)
    (hready : b.readyPackets = a.readyPackets) (hpacket : b.packet = a.packet) : PacketsMade c log b := by
  obtain ⟨conn, packet, ready, ov⟩ := b
  simp only at hqueue hid hready hpacket
  subst hready hpacket
  exact ⟨hqueue.trans h.outPacketQueue, hid.trans h.outPacketId, h.ids, fun p hp => (h.packet p hp).trans hid.symm,
    h.bunchs, h.size, fun e he => by rw [hid]; exact h.logIds e he, h.sorted, h.start⟩

theorem PacketsMade.append {packet : OutReadyPacket} (h : PacketsMade c log { a with packet := some packet })
    {bunch : OutReadyBunch} (hkept : kept bunch = true)
    (hroom : packet.totalSize + bunch.totalSize ≤ ConnectionPacketBuilder.packetMaxSize ∨
      packet.totalSize = packetHeaderSize) (index : ℕ) :
    PacketsMade c (log ++ [⟨packet.outPacketId, index, bunch⟩])
      { a with packet := some (ConnectionPacketBuilder.append packet bunch).2 } := by
  have hmem : packet ∈ ({ a with packet := some packet } : Assembling).packets := by simp [packets]
  have hid : packet.outPacketId = a.conn.outPacketId := h.packet packet rfl
  obtain ⟨htotal, hmax⟩ := h.size packet hmem
  have hle : bunch.totalSize ≤ ConnectionPacketBuilder.packetMaxSize := by
    simp only [kept, Bool.and_eq_true, decide_eq_true_eq] at hkept; exact hkept.2
  have hsmall : ConnectionPacketBuilder.packetMaxSize < 2 ^ 31 := by decide
  have hmod : (packet.totalSize + bunch.totalSize) % 2 ^ 32 = packet.totalSize + bunch.totalSize :=
    Nat.mod_eq_of_lt (by omega)
  -- the packet after `Append`
  have happ : (ConnectionPacketBuilder.append packet bunch).2 = if fits bunch then packet.push bunch else packet := by
    unfold ConnectionPacketBuilder.append fits
    rw [if_neg (by omega), hmod]
    by_cases hfit : packetHeaderSize + bunch.totalSize ≤ ConnectionPacketBuilder.packetMaxSize
    · rw [if_neg (by omega), if_pos (by simpa using hfit)]
    · rw [if_pos (by omega), if_neg (by simpa using hfit)]
  have hpid : (ConnectionPacketBuilder.append packet bunch).2.outPacketId = packet.outPacketId := by
    rw [happ]; split_ifs <;> rfl
  refine ⟨h.outPacketQueue, h.outPacketId, h.ids, fun p hp => ?_, fun p hp => ?_, fun p hp => ?_, fun e he => ?_,
    List.pairwise_append.mpr ⟨h.sorted, List.pairwise_singleton _ _, fun e he e' he' => ?_⟩, fun hn => by cases hn⟩
  · cases hp; exact hpid.trans hid
  · rw [List.filter_append, List.map_append]
    rcases List.mem_append.mp hp with hp | hp
    · have hlt := (h.ready_lt hp).2
      have hne : (packet.outPacketId = p.outPacketId ∧ fits bunch) = False := by
        have : packet.outPacketId ≠ p.outPacketId := by simp only at hlt; omega
        simp [this]
      simpa [hne] using h.bunchs p (List.mem_append_left _ hp)
    · obtain rfl := List.mem_singleton.mp hp
      have hold := h.bunchs packet hmem
      rw [hpid, happ]
      by_cases hfit : fits bunch = true
      · rw [if_pos hfit]
        simp [OutReadyPacket.push, hold, hfit]
      · rw [if_neg hfit]
        simpa [hfit] using hold
  · rcases List.mem_append.mp hp with hp | hp
    · exact h.size p (List.mem_append_left _ hp)
    · obtain rfl := List.mem_singleton.mp hp
      rw [happ]
      by_cases hfit : fits bunch = true
      · have hfit' : packetHeaderSize + bunch.totalSize ≤ ConnectionPacketBuilder.packetMaxSize := by
          simpa [fits] using hfit
        rw [if_pos hfit]
        simp only [OutReadyPacket.push, hmod, List.map_append, List.map_cons, List.map_nil, List.sum_append,
          List.sum_cons, List.sum_nil]
        omega
      · rw [if_neg hfit]; exact ⟨htotal, hmax⟩
  · rcases List.mem_append.mp he with he | he
    · exact h.logIds e he
    · obtain rfl := List.mem_singleton.mp he
      have hout := h.outPacketId
      simp only at hout hid ⊢
      omega
  · obtain rfl := List.mem_singleton.mp he'
    have := (h.logIds e he).2
    simp only at this ⊢
    omega

theorem ChannelsMoved.take {conn conn' : NetConnection} (h : ChannelsMoved c done log conn) {index : ℕ}
    {ch : NetChannel} (ch' : NetChannel) {bunch : OutReadyBunch} {rest : List OutReadyBunch} (log' : List Placement)
    (hch : conn.channel? index = some ch) (hq : ch.outBunchQueue = bunch :: rest)
    (hconn : ∀ j, conn'.channel? j = if j = index then some ch' else conn.channel? j)
    (hidx : ch'.chIndex = ch.chIndex) (hq' : ch'.outBunchQueue = rest)
    (hlog' : ∀ e ∈ log', e.index = index)
    (hunacked : ∀ p, ch'.unAcked p = ch.unAcked p ++ (log'.filter fun e => e.id = p).map Placement.bunch)
    (hkept : log'.map Placement.bunch = [bunch].filter kept) :
    ChannelsMoved c (Function.update done index (done index ++ [bunch])) (log ++ log') conn' := by
  have hall : ∀ P : Placement → Bool, (log'.filter fun e => e.index = index ∧ P e) = log'.filter P := by
    intro P
    refine List.filter_congr fun e he => ?_
    simp [hlog' e he]
  have hother : ∀ (P : Placement → Bool) {i : ℕ}, i ≠ index → (log'.filter fun e => e.index = i ∧ P e) = [] := by
    intro P i hi
    refine List.filter_eq_nil_iff.mpr fun e he => ?_
    simp [hlog' e he, Ne.symm hi]
  refine ⟨fun i hi => ?_, fun i ch₀ hi => ?_, fun i => ?_, fun e he => ?_⟩
  · have hne : i ≠ index := fun he => by
      rw [he] at hi
      rw [h.absent index hi] at hch; cases hch
    rw [hconn, if_neg hne]; exact h.absent i hi
  · obtain ⟨ch₁, hch₁, hm⟩ := h.channel i ch₀ hi
    by_cases hne : i = index
    · subst hne
      obtain rfl : ch₁ = ch := by rw [hch] at hch₁; exact (Option.some.inj hch₁).symm
      refine ⟨ch', by rw [hconn, if_pos rfl], hidx.trans hm.chIndex, ?_, fun p => ?_⟩
      · rw [Function.update_self, hq', hm.queue, hq, List.append_assoc]; rfl
      · rw [hunacked p, hm.unAcked p, List.filter_append, List.map_append, List.append_assoc]
        have := hall fun e => e.id = p
        simp only [decide_eq_true_eq] at this
        rw [this]
    · refine ⟨ch₁, by rw [hconn, if_neg hne]; exact hch₁, hm.chIndex, ?_, fun p => ?_⟩
      · rw [Function.update_of_ne hne]; exact hm.queue
      · have := hother (fun e => e.id = p) hne
        simp only [decide_eq_true_eq] at this
        rw [List.filter_append, this, List.append_nil]; exact hm.unAcked p
  · rw [List.filter_append, List.map_append, h.logged i]
    by_cases hne : i = index
    · subst hne
      have := hall fun _ => true
      simp only [and_true, List.filter_true] at this
      rw [Function.update_self, List.filter_append, this, hkept]
    · have := hother (fun _ => true) hne
      simp only [and_true] at this
      rw [Function.update_of_ne hne, this]; simp
  · rcases List.mem_append.mp he with he | he
    · exact h.present e he
    · rw [hlog' e he]
      intro hnone
      rw [h.absent index hnone] at hch; cases hch

/-! ## All the passes -/

theorem addUnAckedOutBunch_some {ch ch' : NetChannel} {id : ℤ} {bunch : OutReadyBunch}
    (h : ch.addUnAckedOutBunch id bunch = some ch') :
    ch' = { ch with outUnAckedBunches := ch.outUnAckedBunches.insert id (ch.unAcked id ++ [bunch]) } := by
  unfold NetChannel.addUnAckedOutBunch at h
  split_ifs at h
  exact (Option.some.inj h).symm

theorem unAcked_insert (ch : NetChannel) (id : ℤ) (bunch : OutReadyBunch) (p : ℤ) :
    NetChannel.unAcked { ch with outUnAckedBunches := ch.outUnAckedBunches.insert id (ch.unAcked id ++ [bunch]) } p =
      ch.unAcked p ++ if id = p then [bunch] else [] := by
  rw [NetChannel.unAcked, SortedMap.find?_insert]
  by_cases h : p = id
  · subst h; simp
  · rw [if_neg h, if_neg (Ne.symm h), List.append_nil]; rfl

theorem packetFor_channel? (size i : ℕ) : (a.packetFor size).2.conn.channel? i = a.conn.channel? i := by
  unfold packetFor createNewPacket finish
  cases a.packet <;> simp only <;> split_ifs <;> rfl

/-- What has happened so far: the placements made, for the bunches taken. -/
def Placed (c : NetConnection) (a : Assembling) : Prop :=
  ∃ done log, ChannelsMoved c done log a.conn ∧ PacketsMade c log a

theorem Placed.takeAndPlace (h : Placed c a) {index : ℕ} {ch : NetChannel} {bunch : OutReadyBunch}
    {rest : List OutReadyBunch} (hch : a.conn.channel? index = some ch) (hq : ch.outBunchQueue = bunch :: rest)
    (hov : (a.takeAndPlace index ch bunch rest).overflow = false) : Placed c (a.takeAndPlace index ch bunch rest) := by
  obtain ⟨done, log, hm, hp⟩ := h
  have hlt := lt_of_channel? hch
  have hset : ∀ j, (a.conn.setChannel index { ch with outBunchQueue := rest }).channel? j =
      if j = index then some { ch with outBunchQueue := rest } else a.conn.channel? j := fun j =>
    channel?_setChannel hlt _ j
  have hhead : (a.conn.setChannel index { ch with outBunchQueue := rest }).channel? index =
      some { ch with outBunchQueue := rest } := by rw [hset, if_pos rfl]
  unfold Assembling.takeAndPlace at hov ⊢
  generalize hb : ({ a with conn := a.conn.setChannel index { ch with outBunchQueue := rest } } : Assembling) = b
    at hov hhead ⊢
  have hbconn : b.conn = a.conn.setChannel index { ch with outBunchQueue := rest } := by rw [← hb]
  have hpb : PacketsMade c log b := by rw [← hb]; exact hp.congr rfl rfl rfl rfl
  have hbch : b.conn.channel? index = some { ch with outBunchQueue := rest } := by rw [hbconn]; exact hhead
  rcases placeBunch_cases hbch bunch with ⟨hk, he⟩ | ⟨hk, he | ⟨ch', hadd, he⟩⟩
  · -- discarded
    refine ⟨_, _, hm.take { ch with outBunchQueue := rest } [] hch hq ?_ rfl rfl (by simp)
      (by simp [NetChannel.unAcked]) (by simp [hk]), ?_⟩
    · intro j
      rw [he, ← hset j, ← hbconn]; rfl
    · rw [he, List.append_nil]
      exact hpb.congr rfl rfl rfl rfl
  · rw [he] at hov; cases hov
  · have hle : bunch.totalSize ≤ ConnectionPacketBuilder.packetMaxSize := by
      simp only [kept, Bool.and_eq_true, decide_eq_true_eq] at hk; exact hk.2
    obtain ⟨hpf, hroom⟩ := hpb.packetFor hle
    have hch' := addUnAckedOutBunch_some hadd
    refine ⟨_, _, hm.take ch' [⟨(b.packetFor bunch.totalSize).1.outPacketId, index, bunch⟩] hch hq
      ?_ (by rw [hch']) (by rw [hch']) (by simp) (fun p => ?_) (by simp [hk]), ?_⟩
    · intro j
      rw [he]
      have hlt' : index < (b.packetFor bunch.totalSize).2.conn.channels.length :=
        lt_of_channel? ((packetFor_channel? _ _).trans hbch)
      refine (channel?_setChannel (by exact hlt') ch' j).trans ?_
      by_cases hj : j = index
      · rw [if_pos hj, if_pos hj]
      · rw [if_neg hj, if_neg hj]
        have h1 := packetFor_channel? (a := b) bunch.totalSize j
        rw [hbconn, hset j, if_neg hj] at h1
        exact h1
    · rw [hch', unAcked_insert]
      by_cases hid : (b.packetFor bunch.totalSize).1.outPacketId = p
      · rw [if_pos hid]; simp [hid, NetChannel.unAcked]
      · rw [if_neg hid]; simp [hid, NetChannel.unAcked]
    · rw [he]
      exact (hpf.append hk hroom index).congr rfl rfl rfl rfl

/-! ## The queues end empty -/

def queueOf (a : Assembling) (i : ℕ) : List OutReadyBunch := ((a.conn.channel? i).map NetChannel.outBunchQueue).getD []

theorem queueOf_placeBunch {index : ℕ} {ch : NetChannel} (hch : a.conn.channel? index = some ch) (bunch : OutReadyBunch)
    (hov : (a.placeBunch index bunch).overflow = false) (i : ℕ) :
    (a.placeBunch index bunch).queueOf i = a.queueOf i := by
  rcases placeBunch_cases hch bunch with ⟨-, he⟩ | ⟨-, he | ⟨ch', hadd, he⟩⟩
  · rw [he]; rfl
  · rw [he] at hov; cases hov
  · have hlt : index < (a.packetFor bunch.totalSize).2.conn.channels.length :=
      lt_of_channel? ((packetFor_channel? _ _).trans hch)
    rw [he, queueOf]
    simp only
    have hset := channel?_setChannel (c := { (a.packetFor bunch.totalSize).2.conn with
      record := (a.packetFor bunch.totalSize).2.conn.record.pushChannelRecord
        (a.packetFor bunch.totalSize).1.outPacketId ch.chIndex }) hlt ch' i
    rw [hset]
    by_cases hi : i = index
    · subst hi
      rw [if_pos rfl, queueOf, hch, addUnAckedOutBunch_some hadd]; rfl
    · rw [if_neg hi]
      have := packetFor_channel? (a := a) bunch.totalSize i
      rw [queueOf, ← this]; rfl

theorem queueOf_takeAndPlace {index : ℕ} {ch : NetChannel} {bunch : OutReadyBunch} {rest : List OutReadyBunch}
    (hch : a.conn.channel? index = some ch) (hov : (a.takeAndPlace index ch bunch rest).overflow = false) (i : ℕ) :
    (a.takeAndPlace index ch bunch rest).queueOf i = if i = index then rest else a.queueOf i := by
  have hset := channel?_setChannel (lt_of_channel? hch) { ch with outBunchQueue := rest }
  have hhead := hset index
  rw [if_pos rfl] at hhead
  unfold takeAndPlace at hov ⊢
  rw [queueOf_placeBunch hhead bunch hov i, queueOf]
  simp only
  rw [hset i]
  by_cases hi : i = index
  · rw [if_pos hi, if_pos hi]; rfl
  · rw [if_neg hi, if_neg hi]; rfl

theorem queueOf_drainChannel (index : ℕ) : ∀ (fuel : ℕ) (a : Assembling), (a.queueOf index).length < fuel →
    (drainChannel index fuel a).2.overflow = false →
      ∀ i, (drainChannel index fuel a).2.queueOf i = if i = index then [] else a.queueOf i
  | 0, _, h, _, _ => by omega
  | fuel + 1, a, hf, hov, i => by
    have hov0 : a.overflow = false := by
      by_contra hne
      have hne : a.overflow = true := by simpa using hne
      rw [drainChannel_overflow hne, hne] at hov; cases hov
    by_cases hstop : ∀ ch, a.conn.channel? index = some ch → ch.outBunchQueue = []
    · rw [drainChannel_stop hov0 hstop]
      by_cases hi : i = index
      · subst hi
        rw [if_pos rfl, queueOf]
        cases h : a.conn.channel? i with
        | none => rfl
        | some ch => exact hstop ch h
      · rw [if_neg hi]
    · push Not at hstop
      obtain ⟨ch, hch, hne⟩ := hstop
      obtain ⟨bunch, rest, hq⟩ := List.exists_cons_of_ne_nil hne
      rw [drainChannel_cons hov0 hch hq] at hov ⊢
      have hqi : a.queueOf index = bunch :: rest := by rw [queueOf, hch]; exact hq
      have hov1 : (a.takeAndPlace index ch bunch rest).overflow = false := by
        by_contra hne
        have hne : (a.takeAndPlace index ch bunch rest).overflow = true := by simpa using hne
        rw [drainChannel_overflow hne, hne] at hov; cases hov
      have htake := queueOf_takeAndPlace hch hov1
      have hlen : ((a.takeAndPlace index ch bunch rest).queueOf index).length < fuel := by
        rw [htake, if_pos rfl]
        rw [hqi, List.length_cons] at hf; omega
      simp only at hov ⊢
      rw [queueOf_drainChannel index fuel _ hlen hov i, htake i]
      by_cases hi : i = index
      · rw [if_pos hi, if_pos hi]
      · rw [if_neg hi, if_neg hi, if_neg hi]

theorem queueLength_eq (a : Assembling) (i : ℕ) : a.queueLength i = (a.queueOf i).length := by
  unfold queueLength queueOf; cases a.conn.channel? i <;> rfl

theorem foldl_passStep_overflow (rr n : ℕ) (is : List ℕ) : ∀ s : Bool × Assembling, s.2.overflow = true →
    (is.foldl (passStep rr n) s).2.overflow = true := by
  induction is with
  | nil => exact fun _ h => h
  | cons i is ih => exact fun s h => ih _ (by rw [passStep, drainChannel_overflow h]; exact h)

theorem queueOf_foldl_passStep (n : ℕ) (is : List ℕ) : (∀ i ∈ is, i < n) → ∀ s : Bool × Assembling,
    (is.foldl (passStep 0 n) s).2.overflow = false → ∀ j, (j ∈ is ∨ s.2.queueOf j = []) →
      (is.foldl (passStep 0 n) s).2.queueOf j = [] := by
  induction is with
  | nil => exact fun _ s _ j hj => hj.resolve_left (by simp)
  | cons i is ih =>
    intro hlt s hov j hj
    have hmod : (0 + i) % n = i := by rw [Nat.zero_add]; exact Nat.mod_eq_of_lt (hlt i (by simp))
    have hov1 : (passStep 0 n s i).2.overflow = false := by
      by_contra hne
      rw [List.foldl_cons, foldl_passStep_overflow 0 n is _ (by simpa using hne)] at hov; cases hov
    have hstep : (passStep 0 n s i).2 = (drainChannel i (s.2.queueLength i + 1) s.2).2 := by
      rw [passStep, hmod]
    have hq := queueOf_drainChannel i (s.2.queueLength i + 1) s.2 (by rw [queueLength_eq]; omega) (by rw [← hstep]; exact hov1) j
    refine ih (fun k hk => hlt k (List.mem_cons_of_mem _ hk)) _ hov j ?_
    rw [hstep, hq]
    by_cases hji : j = i
    · exact .inr (by rw [if_pos hji])
    · rw [if_neg hji]
      exact hj.imp_left fun hm => (List.mem_cons.mp hm).resolve_left hji

theorem queueOf_of_length_le {i : ℕ} (h : a.conn.channels.length ≤ i) : a.queueOf i = [] := by
  rw [queueOf, channel?, List.getElem?_eq_none h]; rfl

theorem queueOf_pass_zero (hov : (a.pass 0).2.overflow = false) (i : ℕ) : (a.pass 0).2.queueOf i = [] := by
  refine queueOf_foldl_passStep _ _ (fun i hi => List.mem_range.mp hi) (false, a) hov i ?_
  rcases Nat.lt_or_ge i a.conn.channels.length with hi | hi
  · exact .inl (List.mem_range.mpr hi)
  · exact .inr (queueOf_of_length_le hi)

theorem passes_overflow_of_pass (fuel : ℕ) (h : (a.pass 0).2.overflow = true) :
    (passes (fuel + 1) 0 a).overflow = true := by
  unfold passes; simp [h]

theorem queueOf_passes (fuel : ℕ) (hov : (passes (fuel + 1) 0 a).overflow = false) (i : ℕ) :
    (passes (fuel + 1) 0 a).queueOf i = [] := by
  have hov1 : (a.pass 0).2.overflow = false := by
    by_contra hne
    rw [passes_overflow_of_pass fuel (by simpa using hne)] at hov; cases hov
  have hinv := passes_invariant (I := fun b => b.overflow = false → ∀ i, b.queueOf i = [])
    (fun b index ch bunch rest hI hb hch hq _ j => by
      have := hI hb index
      rw [queueOf, hch] at this
      simp [hq] at this) fuel ((0 + 1) % max 1 (a.pass 0).2.conn.channels.length) (a.pass 0).2
    (fun hb => queueOf_pass_zero hb)
  unfold passes at hov ⊢
  simp only at hov ⊢
  split at hov
  · rename_i h; rw [if_pos h]; exact hinv hov i
  · rename_i h; rw [if_neg h]; exact queueOf_pass_zero hov i

end Assembling

end NetConnection

end RudpEngine
