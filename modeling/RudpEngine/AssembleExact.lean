import RudpEngine.Assemble

/-!
# Records and packets agree

A bunch is recorded as un-acknowledged before it is appended to its packet, and
the result of the append is ignored. The two agree for all of a call exactly
when no bunch is too large for an empty packet.
-/

namespace RudpEngine

namespace NetConnection

open Assembling

/-! ## Lists sorted by a key -/

section
variable {α : Type} (key : α → ℤ)

theorem filter_lt_append_filter_eq (t : ℤ) : ∀ l : List α, l.Pairwise (fun x y => key x ≤ key y) → (∀ x ∈ l, key x ≤ t) →
    (l.filter fun x => key x < t) ++ (l.filter fun x => key x = t) = l
  | [], _, _ => rfl
  | x :: l, hp, ht => by
    obtain ⟨hx, hl⟩ := List.pairwise_cons.mp hp
    have ih := filter_lt_append_filter_eq t l hl fun y hy => ht y (List.mem_cons_of_mem _ hy)
    by_cases hlt : key x < t
    · have hne : ¬ key x = t := by omega
      rw [List.filter_cons_of_pos (by simpa using hlt), List.filter_cons_of_neg (by simpa using hne), List.cons_append, ih]
    · have heq : key x = t := by have := ht x (by simp); omega
      have hnil : (l.filter fun x => key x < t) = [] :=
        List.filter_eq_nil_iff.mpr fun y hy => by have := hx y hy; simp; omega
      rw [hnil, List.nil_append] at ih
      rw [List.filter_cons_of_neg (by simpa using hlt), List.filter_cons_of_pos (by simpa using heq), hnil, ih]; rfl

/-- A list sorted by a key is the concatenation of its parts of one key. -/
theorem flatMap_filter_key (m : ℤ) : ∀ (n : ℕ) (l : List α), l.Pairwise (fun x y => key x ≤ key y) →
    (∀ x ∈ l, m ≤ key x ∧ key x < m + n) →
    ((List.range n).flatMap fun k : ℕ => l.filter fun x => key x = m + k) = l
  | 0, l, _, hl => by
    have hnil : l = [] := List.eq_nil_iff_forall_not_mem.mpr fun x hx => by have := hl x hx; omega
    rw [hnil]; rfl
  | n + 1, l, hp, hl => by
    have ih := flatMap_filter_key m n (l.filter fun x => key x < m + n) (hp.filter _) fun x hx => by
      have hx' := List.mem_filter.mp hx
      exact ⟨(hl x hx'.1).1, by simpa using hx'.2⟩
    have hparts : ∀ k ∈ List.range n, ((l.filter fun x => key x < m + n).filter fun x => key x = m + k) =
        l.filter fun x => key x = m + k := by
      intro k hk
      have := List.mem_range.mp hk
      rw [List.filter_filter]
      refine List.filter_congr fun x _ => ?_
      by_cases he : key x = m + k
      · simp [he]; omega
      · simp [he]
    rw [List.range_succ, List.flatMap_append, List.flatMap_singleton,
      ← List.flatMap_congr hparts, ih]
    exact filter_lt_append_filter_eq key (m + n) l hp fun x hx => by have := (hl x hx).2; push_cast at this; omega

theorem flatMap_filter {β : Type} (P : α → Bool) (g : α → List β) (l : List α) :
    (l.filter P).flatMap g = l.flatMap fun x => if P x then g x else [] := by
  induction l with
  | nil => rfl
  | cons x l ih => cases h : P x <;> simp [h, ih]

end

/-! ## The state behind the passes -/

variable {c : NetConnection}

theorem assembling_placed (hov : c.assembling.overflow = false) : Placed c c.assembling :=
  passes_invariant (I := fun a => a.overflow = false → Placed c a)
    (fun _ _ _ _ _ hI hb hch hq h => (hI hb).takeAndPlace hch hq h) _ _ _
    (fun _ => ⟨_, _, ChannelsMoved.begin c, PacketsMade.begin c⟩) hov

structure Assembled (c : NetConnection) (log : List Placement) (c' : NetConnection) (new : List OutReadyPacket) : Prop where
  absent : ∀ i, c.channel? i = none → c'.channel? i = none
  channel : ∀ i ch, c.channel? i = some ch → ∃ ch', c'.channel? i = some ch' ∧
    ChannelMoved ch.outBunchQueue log i ch ch' ∧ (log.filter fun e => e.index = i).map Placement.bunch =
      ch.outBunchQueue.filter kept
  outPacketQueue : c'.outPacketQueue = c.outPacketQueue ++ new
  outPacketId : c'.outPacketId = c.outPacketId + new.length
  ids : new.map OutReadyPacket.outPacketId = (List.range new.length).map fun k : ℕ => c.outPacketId + k
  bunchs : ∀ p ∈ new, p.bunchs = (log.filter fun e => e.id = p.outPacketId ∧ fits e.bunch).map Placement.bunch
  size : ∀ p ∈ new, p.totalSize = packetHeaderSize + (p.bunchs.map OutReadyBunch.totalSize).sum ∧
    p.totalSize ≤ ConnectionPacketBuilder.packetMaxSize
  sorted : log.Pairwise fun e e' => e.id ≤ e'.id
  present : ∀ e ∈ log, c.channel? e.index ≠ none
  logIds : ∀ e ∈ log, c.outPacketId ≤ e.id ∧ (fits e.bunch = true → e.id < c.outPacketId + new.length)

theorem confirm_conn (a : Assembling) :
    a.confirm.conn.channels = a.conn.channels ∧ a.confirm.conn.outPacketQueue = a.conn.outPacketQueue := by
  unfold Assembling.confirm finish
  cases a.packet with
  | none => exact ⟨rfl, rfl⟩
  | some p => simp only; split_ifs <;> exact ⟨rfl, rfl⟩

structure Confirmed (c : NetConnection) (log : List Placement) (a : Assembling) : Prop where
  outPacketId : a.conn.outPacketId = c.outPacketId + a.readyPackets.length
  ids : a.readyPackets.map OutReadyPacket.outPacketId =
    (List.range a.readyPackets.length).map fun k : ℕ => c.outPacketId + k
  bunchs : ∀ p ∈ a.readyPackets, p.bunchs = (log.filter fun e => e.id = p.outPacketId ∧ fits e.bunch).map Placement.bunch
  size : ∀ p ∈ a.readyPackets, p.totalSize = packetHeaderSize + (p.bunchs.map OutReadyBunch.totalSize).sum ∧
    p.totalSize ≤ ConnectionPacketBuilder.packetMaxSize
  logIds : ∀ e ∈ log, fits e.bunch = true → e.id < c.outPacketId + a.readyPackets.length

theorem confirmed {log : List Placement} {a : Assembling} (h : PacketsMade c log a) : Confirmed c log a.confirm := by
  have hready : ∀ p ∈ a.readyPackets, p ∈ a.packets := fun p hp => List.mem_append_left _ hp
  have hout := h.outPacketId
  cases hp : a.packet with
  | none =>
    have hc : a.confirm = a := by rw [Assembling.confirm, hp]
    rw [hc]
    exact ⟨hout, h.ids, fun p hp => h.bunchs p (hready p hp), fun p hp => h.size p (hready p hp),
      fun e he => by rw [h.start hp] at he; cases he⟩
  | some packet =>
    have hmem : packet ∈ a.packets := by simp [packets, hp]
    have hid := h.packet packet hp
    by_cases hemp : packet.bunchs.isEmpty = true
    · have hc : a.confirm = a := by rw [Assembling.confirm, hp]; simp [hemp]
      rw [hc]
      refine ⟨hout, h.ids, fun p hp => h.bunchs p (hready p hp), fun p hp => h.size p (hready p hp),
        fun e he hfit => ?_⟩
      -- a bunch that fits is in a packet, and the last one is empty
      have hle := (h.logIds e he).2
      rcases Int.lt_or_eq_of_le hle with hlt | heq
      · omega
      · have hb := h.bunchs packet hmem
        rw [List.isEmpty_iff.mp hemp] at hb
        have hin : e.bunch ∈ (log.filter fun e => e.id = packet.outPacketId ∧ fits e.bunch).map Placement.bunch :=
          List.mem_map_of_mem (List.mem_filter.mpr ⟨he, by simp [hid, heq, hfit]⟩)
        rw [← hb] at hin; cases hin
    · have hc : a.confirm = a.finish packet := by rw [Assembling.confirm, hp]; simp [hemp]
      rw [hc]
      refine ⟨?_, ?_, fun p hp' => ?_, fun p hp' => ?_, fun e he _ => ?_⟩
      · simp only [finish, List.length_append, List.length_singleton]
        push_cast; omega
      · simp only [finish, List.map_append, List.length_append, List.length_singleton, List.range_succ, List.map_cons,
          List.map_nil, packetSealed_outPacketId, h.ids, hid, hout]
      · rcases List.mem_append.mp hp' with hp' | hp'
        · exact h.bunchs p (hready p hp')
        · obtain rfl := List.mem_singleton.mp hp'
          simpa using h.bunchs packet hmem
      · rcases List.mem_append.mp hp' with hp' | hp'
        · exact h.size p (hready p hp')
        · obtain rfl := List.mem_singleton.mp hp'
          simpa using h.size packet hmem
      · have hle := (h.logIds e he).2
        simp only [finish, List.length_append, List.length_singleton]
        push_cast; omega

theorem assemble_assembled (kd : Bool) (hreq : c.isRequireAssembleBunch = true) (hov : c.assembling.overflow = false) :
    ∃ log new, Assembled c log (c.assembleOutgoingPackets kd) new := by
  obtain ⟨done, log, hm, hp⟩ := assembling_placed hov
  have hconf := confirmed hp
  have hempty := queueOf_passes _ hov
  have hc' : c.assembleOutgoingPackets kd = { c.assembling.confirm.conn with
      outPacketQueue := c.assembling.confirm.conn.outPacketQueue ++ c.assembling.confirm.readyPackets } := by
    rw [assembleOutgoingPackets, hreq]
    simp [hov]
  have hch : ∀ i, (c.assembleOutgoingPackets kd).channel? i = c.assembling.conn.channel? i := fun i => by
    rw [hc', channel?, channel?]
    simp only [(confirm_conn c.assembling).1]
  refine ⟨log, c.assembling.confirm.readyPackets, fun i hi => by rw [hch]; exact hm.absent i hi, fun i ch hi => ?_, ?_, ?_, ?_,
    ?_, ?_, hp.sorted, hm.present, ?_⟩
  · obtain ⟨ch', hch', hmoved⟩ := hm.channel i ch hi
    have hnil : ch'.outBunchQueue = [] := by
      have := hempty i
      rw [queueOf] at this
      have hch'' : (Assembling.passes _ 0 ⟨c, none, [], false⟩).conn.channel? i = some ch' := hch'
      rw [hch''] at this
      exact this
    have hdone : done i = ch.outBunchQueue := by rw [hmoved.queue, hnil, List.append_nil]
    refine ⟨ch', by rw [hch]; exact hch', hdone ▸ hmoved, hdone ▸ hm.logged i⟩
  · rw [hc', (confirm_conn _).2, hp.outPacketQueue]
  · rw [hc']; exact hconf.outPacketId
  · exact hconf.ids
  · exact hconf.bunchs
  · exact hconf.size
  · exact fun e he => ⟨(hp.logIds e he).1, hconf.logIds e he⟩

/-! ## Agreement -/

def ChannelsNumbered (c : NetConnection) : Prop :=
  ∀ i ch, c.channel? i = some ch → ∀ b ∈ ch.outBunchQueue, b.chIndex = i

/-- From `c` to `c'` the packets `new` were queued, and they hold what was recorded and dequeued. -/
structure PacketsExact (c c' : NetConnection) (new : List OutReadyPacket) : Prop where
  outPacketQueue : c'.outPacketQueue = c.outPacketQueue ++ new
  ids : new.map OutReadyPacket.outPacketId = (List.range new.length).map fun k : ℕ => c.outPacketId + k
  nextId : c'.outPacketId = c.outPacketId + new.length
  size : ∀ p ∈ new, p.totalSize ≤ ConnectionPacketBuilder.packetMaxSize
  unAcked : ∀ i ch ch', c.channel? i = some ch → c'.channel? i = some ch' → ∀ id, ch'.unAcked id =
    ch.unAcked id ++ ((new.filter fun p => p.outPacketId = id).flatMap OutReadyPacket.bunchs).filter fun b => b.chIndex = i
  dequeued : ∀ i ch, c.channel? i = some ch → ∃ ch' taken, c'.channel? i = some ch' ∧
    ch.outBunchQueue = taken ++ ch'.outBunchQueue ∧
      ((new.flatMap OutReadyPacket.bunchs).filter fun b => b.chIndex = i) = taken.filter kept

theorem PacketsExact.of_same {c' : NetConnection} {new : List OutReadyPacket} (hch : c'.channels = c.channels)
    (hq : c'.outPacketQueue = c.outPacketQueue ++ new) (hnext : c'.outPacketId = c.outPacketId + new.length)
    (hids : new.map OutReadyPacket.outPacketId = (List.range new.length).map fun k : ℕ => c.outPacketId + k)
    (hempty : ∀ p ∈ new, p.bunchs = [] ∧ p.totalSize ≤ ConnectionPacketBuilder.packetMaxSize) : PacketsExact c c' new := by
  have hnil : ∀ l : List OutReadyPacket, (∀ p ∈ l, p ∈ new) → l.flatMap OutReadyPacket.bunchs = [] := fun l hl =>
    List.flatMap_eq_nil_iff.mpr fun p hp => (hempty p (hl p hp)).1
  refine ⟨hq, hids, hnext, fun p hp => (hempty p hp).2, fun i ch ch' h h' id => ?_, fun i ch h => ⟨ch, [], ?_, rfl, ?_⟩⟩
  · rw [channel?, hch] at h'
    obtain rfl : ch = ch' := Option.some.inj (h.symm.trans h')
    rw [hnil _ fun p hp => List.mem_of_mem_filter hp]; simp
  · rw [channel?, hch]; exact h
  · rw [hnil new fun p hp => hp]; rfl

section
variable {log : List Placement} {c' : NetConnection} {new : List OutReadyPacket} (h : Assembled c log c' new)
include h

theorem Assembled.mem_queue {e : Placement} (he : e ∈ log) :
    ∃ ch, c.channel? e.index = some ch ∧ e.bunch ∈ ch.outBunchQueue ∧ kept e.bunch = true := by
  obtain ⟨ch, hch⟩ := Option.ne_none_iff_exists'.mp (h.present e he)
  obtain ⟨ch', -, -, hlog⟩ := h.channel e.index ch hch
  have hm : e.bunch ∈ (log.filter fun e' => e'.index = e.index).map Placement.bunch :=
    List.mem_map_of_mem (List.mem_filter.mpr ⟨he, by simp⟩)
  rw [hlog] at hm
  exact ⟨ch, hch, List.mem_filter.mp hm⟩

def AllFit (c : NetConnection) : Prop := ∀ i ch, c.channel? i = some ch → ∀ b ∈ ch.outBunchQueue, kept b = true → fits b = true

theorem Assembled.packetsExact (hnum : c.ChannelsNumbered) (hfit : AllFit c) : PacketsExact c c' new := by
  have hfits : ∀ e ∈ log, fits e.bunch = true := fun e he => by
    obtain ⟨ch, hch, hmem, hk⟩ := h.mem_queue he
    exact hfit _ ch hch _ hmem hk
  have hindex : ∀ e ∈ log, e.bunch.chIndex = e.index := fun e he => by
    obtain ⟨ch, hch, hmem, -⟩ := h.mem_queue he
    exact hnum _ ch hch _ hmem
  have hbunchs : ∀ p ∈ new, p.bunchs = (log.filter fun e => e.id = p.outPacketId).map Placement.bunch := fun p hp => by
    rw [h.bunchs p hp]
    congr 1
    exact List.filter_congr fun e he => by simp [hfits e he]
  have hchannel : ∀ (i : ℕ) (l : List Placement), (∀ e ∈ l, e ∈ log) →
      ((l.map Placement.bunch).filter fun b => b.chIndex = i) = (l.filter fun e => e.index = i).map Placement.bunch := by
    intro i l hl
    rw [List.filter_map]
    congr 1
    exact List.filter_congr fun e he => by simp [hindex e (hl e he)]
  -- the packets hold the whole log, in its order
  have hlog : (new.flatMap fun p => log.filter fun e => e.id = p.outPacketId) = log := by
    have hsplit := flatMap_filter_key Placement.id c.outPacketId new.length log h.sorted fun e he =>
      ⟨(h.logIds e he).1, (h.logIds e he).2 (hfits e he)⟩
    rw [← List.flatMap_map (f := OutReadyPacket.outPacketId) (g := fun id => log.filter fun e => e.id = id), h.ids,
      List.flatMap_map]
    exact hsplit
  have hall : new.flatMap OutReadyPacket.bunchs = log.map Placement.bunch := by
    rw [List.flatMap_congr hbunchs, ← List.map_flatMap, hlog]
  refine ⟨h.outPacketQueue, h.ids, h.outPacketId, fun p hp => (h.size p hp).2, fun i ch ch' hi hi' id => ?_, fun i ch hi => ?_⟩
  · obtain ⟨ch₁, h₁, hmoved, -⟩ := h.channel i ch hi
    obtain rfl : ch₁ = ch' := Option.some.inj (h₁.symm.trans hi')
    have hone : ((new.filter fun p => p.outPacketId = id).flatMap fun p => log.filter fun e => e.id = p.outPacketId) =
        log.filter fun e => e.id = id := by
      conv_rhs => rw [← hlog]
      rw [List.filter_flatMap, flatMap_filter]
      refine List.flatMap_congr fun p _ => ?_
      rw [List.filter_filter]
      by_cases hp : p.outPacketId = id
      · simp [hp]
      · rw [if_neg (by simpa using hp)]
        exact (List.filter_eq_nil_iff.mpr fun e _ => by simp; omega).symm
    have hb : (new.filter fun p => p.outPacketId = id).flatMap OutReadyPacket.bunchs =
        (log.filter fun e => e.id = id).map Placement.bunch := by
      rw [List.flatMap_congr fun p hp => hbunchs p (List.mem_of_mem_filter hp), ← List.map_flatMap, hone]
    rw [hmoved.unAcked id, hb, hchannel i _ fun e he => List.mem_of_mem_filter he, List.filter_filter]
    simp only [Bool.decide_and]
  · obtain ⟨ch₁, h₁, hmoved, hlog⟩ := h.channel i ch hi
    refine ⟨ch₁, ch.outBunchQueue, h₁, hmoved.queue, ?_⟩
    rw [hall, hchannel i log fun e he => he, hlog]

theorem Assembled.allFit {new' : List OutReadyPacket} (hex : PacketsExact c c' new') : AllFit c := by
  intro i ch hi b hb hk
  obtain rfl : new = new' := List.append_cancel_left (h.outPacketQueue.symm.trans hex.outPacketQueue)
  obtain ⟨ch', hi', hmoved, hlog⟩ := h.channel i ch hi
  have hm : b ∈ (log.filter fun e => e.index = i).map Placement.bunch := by
    rw [hlog]; exact List.mem_filter.mpr ⟨hb, hk⟩
  obtain ⟨e, he, rfl⟩ := List.mem_map.mp hm
  obtain ⟨helog, hei⟩ := List.mem_filter.mp he
  have hun := hex.unAcked i ch ch' hi hi' e.id
  rw [hmoved.unAcked e.id] at hun
  have hin : e.bunch ∈ (log.filter fun e' => e'.index = i ∧ e'.id = e.id).map Placement.bunch :=
    List.mem_map_of_mem (List.mem_filter.mpr ⟨helog, by simpa using hei⟩)
  rw [List.append_cancel_left hun] at hin
  obtain ⟨p, hp, hbp⟩ := List.mem_flatMap.mp (List.mem_of_mem_filter hin)
  rw [h.bunchs p (List.mem_of_mem_filter hp)] at hbp
  obtain ⟨e', he', heq⟩ := List.mem_map.mp hbp
  have := (List.mem_filter.mp he').2
  rw [← heq]
  simp only [Bool.decide_and, Bool.and_eq_true] at this
  simpa using this.2

end

/-- The call returns early, at the bound on un-acknowledged packets. -/
def OverflowsReliableBuffer (c : NetConnection) : Prop :=
  c.isRequireAssembleBunch = true ∧ c.assembling.overflow = true

theorem keepAlive_packetsExact (c : NetConnection) :
    PacketsExact c c.keepAlive [{ ConnectionPacketBuilder.buildStart with outPacketId := c.outPacketId }.packetSealed] :=
  .of_same rfl rfl rfl (by simp) (by simp [ConnectionPacketBuilder.buildStart, OutReadyPacket.buildBegin, header_le_max])

theorem idle_packetsExact (c : NetConnection) : PacketsExact c c [] :=
  .of_same rfl (List.append_nil _).symm (by simp) rfl (by simp)

theorem assembling_overflow (hreq : c.isRequireAssembleBunch = true) (hov : ¬ c.OverflowsReliableBuffer) :
    c.assembling.overflow = false := by
  by_contra hne
  exact hov ⟨hreq, by simpa using hne⟩

/-- A call that does not overflow, for bunches that fit. -/
theorem assemble_exact (c : NetConnection) (keepAliveDue : Bool) (hnum : c.ChannelsNumbered)
    (hov : ¬ c.OverflowsReliableBuffer) (hfit : c.isRequireAssembleBunch = true → AllFit c) :
    ∃ new, PacketsExact c (c.assembleOutgoingPackets keepAliveDue) new := by
  cases hreq : c.isRequireAssembleBunch with
  | false =>
    rw [assembleOutgoingPackets, hreq]
    cases keepAliveDue with
    | true => exact ⟨_, c.keepAlive_packetsExact⟩
    | false => exact ⟨_, c.idle_packetsExact⟩
  | true =>
    obtain ⟨log, new, hass⟩ := assemble_assembled keepAliveDue hreq (assembling_overflow hreq hov)
    exact ⟨new, hass.packetsExact hnum (hfit hreq)⟩

theorem assemble_queue_empty (c : NetConnection) (keepAliveDue : Bool) (hov : ¬ c.OverflowsReliableBuffer)
    {i : ℕ} {ch ch' : NetChannel} (hi : c.channel? i = some ch) (hopen : ch.bOpen = true)
    (hi' : (c.assembleOutgoingPackets keepAliveDue).channel? i = some ch') : ch'.outBunchQueue = [] := by
  cases hreq : c.isRequireAssembleBunch with
  | false =>
    have hsame : (c.assembleOutgoingPackets keepAliveDue).channel? i = c.channel? i := by
      rw [assembleOutgoingPackets, hreq]
      cases keepAliveDue <;> rfl
    obtain rfl : ch = ch' := Option.some.inj ((hsame.trans hi).symm.trans hi')
    have hmem : some ch ∈ c.channels := by
      obtain ⟨o, ho, rfl⟩ : ∃ o, c.channels[i]? = some o ∧ o = some ch := by
        rw [channel?] at hi
        cases ho : c.channels[i]? with
        | none => rw [ho] at hi; cases hi
        | some o => exact ⟨o, rfl, by simpa [ho] using hi⟩
      exact List.mem_of_getElem? ho
    by_contra hne
    rw [isRequireAssembleBunch, List.any_eq_false] at hreq
    apply hreq (some ch) hmem
    simp [NetChannel.hasReadyBunch, hopen, hne]
  | true =>
    obtain ⟨log, new, hass⟩ := assemble_assembled keepAliveDue hreq (assembling_overflow hreq hov)
    obtain ⟨ch₁, hi₁, hm, -⟩ := hass.channel i ch hi
    obtain rfl : ch₁ = ch' := Option.some.inj (hi₁.symm.trans hi')
    exact List.append_cancel_left ((List.append_nil _).trans hm.queue).symm

/-- Un-acked records and packets agree exactly when every bunch that is sent fits into an empty packet. -/
theorem unAcked_exact_iff (c : NetConnection) (keepAliveDue : Bool) (hnum : c.ChannelsNumbered)
    (hov : ¬ c.OverflowsReliableBuffer) :
    (∃ new, PacketsExact c (c.assembleOutgoingPackets keepAliveDue) new) ↔
      (c.isRequireAssembleBunch = true → AllFit c) := by
  constructor
  · intro ⟨_, hex⟩ hreq
    obtain ⟨log, new, hass⟩ := assemble_assembled keepAliveDue hreq (assembling_overflow hreq hov)
    exact hass.allFit hex
  · exact c.assemble_exact keepAliveDue hnum hov

def bunchOf (n : ℕ) (h : n < 2 ^ 32 := by decide) : OutReadyBunch where
  headerBytes := BunchHeader.bytes ⟨true, true, false, true, 0, 1, 1, n⟩
  headerSize := 10
  messages := [⟨List.replicate n 0, true, 0, length_zeros_lt h⟩]
  payloadBytes := n
  totalSize := n + 10
  chIndex := 0

def withReady (bunches : List OutReadyBunch) : NetConnection :=
  { NetConnection.new true 1 .open with channels := [some { NetChannel.init 0 0 0 with outBunchQueue := bunches }] }

theorem withReady_channel? {bunches : List OutReadyBunch} {i : ℕ} {ch : NetChannel}
    (h : (withReady bunches).channel? i = some ch) : i = 0 ∧ ch.outBunchQueue = bunches := by
  have hi : i = 0 := by have := lt_of_channel? h; simp [withReady] at this; omega
  subst hi
  obtain rfl := Option.some.inj h
  exact ⟨rfl, rfl⟩

theorem unAcked_exact_small : ∃ new, PacketsExact (withReady [bunchOf 600, bunchOf 600])
    ((withReady [bunchOf 600, bunchOf 600]).assembleOutgoingPackets false) new := by
  refine (unAcked_exact_iff _ false (fun i ch hch => ?_) fun h => absurd h.2 (by decide)).mpr fun _ i ch hch => ?_
  · obtain ⟨rfl, hq⟩ := withReady_channel? hch
    rw [hq]; decide
  · rw [(withReady_channel? hch).2]; decide

/-- A bunch of 1020 bytes is recorded, and is in no packet. -/
theorem unAcked_not_exact : ¬ ∀ (c : NetConnection) (keepAliveDue : Bool), c.ChannelsNumbered →
    (∀ i ch, c.channel? i = some ch → ∀ b ∈ ch.outBunchQueue, b.totalSize ≤ ConnectionPacketBuilder.packetMaxSize) →
    ¬ c.OverflowsReliableBuffer → ∃ new, PacketsExact c (c.assembleOutgoingPackets keepAliveDue) new := by
  intro h
  have hov : (withReady [bunchOf 1010]).assembling.overflow = false := by decide
  obtain ⟨new, hex⟩ := h (withReady [bunchOf 1010]) false
    (fun i ch hch => by obtain ⟨rfl, hq⟩ := withReady_channel? hch; rw [hq]; decide)
    (fun i ch hch => by rw [(withReady_channel? hch).2]; decide)
    (fun hover => Bool.false_ne_true (hov.symm.trans hover.2))
  obtain ⟨log, new', hass⟩ := assemble_assembled false (c := withReady [bunchOf 1010]) (by decide) hov
  have hfit := hass.allFit hex 0 _ rfl (bunchOf 1010) (by simp) (by decide)
  revert hfit; decide

end NetConnection

end RudpEngine
