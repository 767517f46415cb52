import RudpEngine.InitSequence

/-!
# The early return of the assembling

Where a channel's reliable buffer is full, `AssembleOutgoingPackets` returns with
its packets lost: the ids of those that were complete are used up, and none of
them is queued. Only an exit that comes while the first packet of the call is
filled leaves the ids and the queue in step.
-/

namespace RudpEngine

namespace NetConnection

/-! ## What the call takes -/

/-- The bunches of the queues with their channels, in the order in which they are taken. -/
def readyBunches (c : NetConnection) : List (ℕ × OutReadyBunch) :=
  (List.range c.channels.length).flatMap fun i =>
    (((c.channel? i).map NetChannel.outBunchQueue).getD []).map fun bunch => (i, bunch)

def keptBunches (c : NetConnection) : List (ℕ × OutReadyBunch) := c.readyBunches.filter fun e => Assembling.kept e.2

/-- Channel `i` can take no other bunch once the bunches `before` are un-acked under the next packet id. -/
def BufferFull (c : NetConnection) (before : List (ℕ × OutReadyBunch)) (i : ℕ) : Prop :=
  ∃ ch, c.channel? i = some ch ∧ NetChannel.reliableBuffer ≤ ch.outUnAckedBunches.size +
    if ch.outUnAckedBunches.find? c.outPacketId = none ∧ i ∈ before.map Prod.fst then 1 else 0

def filledSize (es : List (ℕ × OutReadyBunch)) : ℕ := packetHeaderSize + (es.map fun e => e.2.totalSize).sum

/-- The first packet has room for the bunch that meets a full buffer, and for all those before it. -/
def OverflowsInFirstPacket (c : NetConnection) : Prop :=
  ∃ n e, c.keptBunches[n]? = some e ∧ c.BufferFull (c.keptBunches.take n) e.1 ∧
    filledSize (c.keptBunches.take (n + 1)) ≤ ConnectionPacketBuilder.packetMaxSize

namespace Assembling

def takeNext (a : Assembling) (i : ℕ) : Assembling :=
  if a.overflow then a
  else
    match a.conn.channel? i with
    | none => a
    | some ch =>
      match ch.outBunchQueue with
      | [] => a
      | bunch :: rest => a.takeAndPlace i ch bunch rest

def takeAll (a : Assembling) (es : List (ℕ × OutReadyBunch)) : Assembling := es.foldl (fun a e => a.takeNext e.1) a

variable {a : Assembling}

theorem takeNext_of_overflow (h : a.overflow = true) (i : ℕ) : a.takeNext i = a := by
  rw [takeNext, if_pos h]

theorem takeNext_cons {i : ℕ} {ch : NetChannel} {bunch : OutReadyBunch} {rest : List OutReadyBunch}
    (hov : a.overflow = false) (hch : a.conn.channel? i = some ch) (hq : ch.outBunchQueue = bunch :: rest) :
    a.takeNext i = a.takeAndPlace i ch bunch rest := by
  rw [takeNext, if_neg (by rw [hov]; decide), hch]
  simp only [hq]

theorem takeAll_of_overflow (h : a.overflow = true) (es : List (ℕ × OutReadyBunch)) : a.takeAll es = a := by
  induction es with
  | nil => rfl
  | cons e es ih =>
    rw [takeAll, List.foldl_cons, takeNext_of_overflow h]
    exact ih

theorem exists_channel_of_queueOf {i : ℕ} {bunch : OutReadyBunch} {rest : List OutReadyBunch}
    (h : a.queueOf i = bunch :: rest) : ∃ ch, a.conn.channel? i = some ch ∧ ch.outBunchQueue = bunch :: rest := by
  unfold queueOf at h
  cases hch : a.conn.channel? i with
  | none =>
    rw [hch] at h
    cases h
  | some ch =>
    rw [hch] at h
    exact ⟨ch, rfl, h⟩

theorem drainChannel_eq (i : ℕ) : ∀ (fuel : ℕ) (a : Assembling), (a.queueOf i).length < fuel →
    (drainChannel i fuel a).2 = a.takeAll ((a.queueOf i).map fun bunch => (i, bunch))
  | 0, _, h => by omega
  | fuel + 1, a, hfuel => by
    cases hov : a.overflow with
    | true => rw [drainChannel_overflow hov, takeAll_of_overflow hov]
    | false =>
      cases hq : a.queueOf i with
      | nil =>
        have hstop : ∀ ch, a.conn.channel? i = some ch → ch.outBunchQueue = [] := by
          intro ch hch
          rw [queueOf, hch] at hq
          exact hq
        rw [drainChannel_stop hov hstop]
        rfl
      | cons bunch rest =>
        obtain ⟨ch, hch, hqueue⟩ := exists_channel_of_queueOf hq
        rw [drainChannel_cons hov hch hqueue, List.map_cons, takeAll, List.foldl_cons, takeNext_cons hov hch hqueue]
        show (drainChannel i fuel (a.takeAndPlace i ch bunch rest)).2 =
          (a.takeAndPlace i ch bunch rest).takeAll (rest.map fun bunch => (i, bunch))
        cases hov' : (a.takeAndPlace i ch bunch rest).overflow with
        | true => rw [drainChannel_overflow hov', takeAll_of_overflow hov']
        | false =>
          have hrest : (a.takeAndPlace i ch bunch rest).queueOf i = rest := by
            rw [queueOf_takeAndPlace hch hov', if_pos rfl]
          rw [hq, List.length_cons] at hfuel
          rw [drainChannel_eq i fuel _ (by rw [hrest]; omega), hrest]

theorem foldl_passStep_eq (n : ℕ) : ∀ (is : List ℕ) (s : Bool × Assembling), (∀ i ∈ is, i < n) → is.Nodup →
    (is.foldl (passStep 0 n) s).2 = s.2.takeAll (is.flatMap fun i => (s.2.queueOf i).map fun bunch => (i, bunch))
  | [], _, _, _ => rfl
  | i :: is, s, hlt, hnodup => by
    obtain ⟨hi, his⟩ := List.nodup_cons.mp hnodup
    have hmod : (0 + i) % n = i := by
      rw [Nat.zero_add]
      exact Nat.mod_eq_of_lt (hlt i (List.mem_cons_self ..))
    have hstep : (passStep 0 n s i).2 = s.2.takeAll ((s.2.queueOf i).map fun bunch => (i, bunch)) := by
      rw [passStep, hmod]
      exact drainChannel_eq i _ s.2 (by rw [queueLength_eq]; omega)
    have hqueue := queueOf_drainChannel i (s.2.queueLength i + 1) s.2 (by rw [queueLength_eq]; omega)
    rw [drainChannel_eq i _ s.2 (by rw [queueLength_eq]; omega), ← hstep] at hqueue
    rw [List.foldl_cons, foldl_passStep_eq n is _ (fun j hj => hlt j (List.mem_cons_of_mem _ hj)) his, List.flatMap_cons]
    show _ = List.foldl _ s.2 (_ ++ _)
    rw [List.foldl_append]
    show _ = (s.2.takeAll ((s.2.queueOf i).map fun bunch => (i, bunch))).takeAll _
    rw [← hstep]
    cases hov : (passStep 0 n s i).2.overflow with
    | true => rw [takeAll_of_overflow hov, takeAll_of_overflow hov]
    | false =>
      congr 1
      refine List.flatMap_congr fun j hj => ?_
      rw [hqueue hov j, if_neg fun h => hi (by rw [← h]; exact hj)]

theorem assembling_eq_takeAll {c : NetConnection} (hov : c.assembling.overflow = true) :
    c.assembling = (Assembling.mk c none [] false).takeAll c.readyBunches := by
  have hpass : ((Assembling.mk c none [] false).pass 0).2 = (Assembling.mk c none [] false).takeAll c.readyBunches :=
    foldl_passStep_eq c.channels.length _ (false, ⟨c, none, [], false⟩) (fun i hi => List.mem_range.mp hi) List.nodup_range
  rw [← hpass]
  unfold assembling at hov ⊢
  generalize ((List.range c.channels.length).map (Assembling.mk c none [] false).queueLength).sum = fuel at hov ⊢
  cases hfirst : ((Assembling.mk c none [] false).pass 0).2.overflow with
  | true =>
    unfold passes
    simp [hfirst]
  | false =>
    -- nothing is left for the other passes
    have hrest := passes_invariant (I := fun b => b.overflow = false ∧ ∀ i, b.queueOf i = [])
      (fun b index ch bunch rest hI _ hch hq => by
        have hnil := hI.2 index
        rw [queueOf, hch] at hnil
        rw [show ch.outBunchQueue = [] from hnil] at hq
        cases hq)
      fuel ((0 + 1) % max 1 ((Assembling.mk c none [] false).pass 0).2.conn.channels.length) _
      ⟨hfirst, fun i => queueOf_pass_zero hfirst i⟩
    unfold passes at hov
    simp only at hov
    split_ifs at hov
    · rw [hrest.1] at hov
      cases hov
    · rw [hfirst] at hov
      cases hov

/-! ## The ids and the ready packets -/

theorem packetFor_ready (size : ℕ) : a.readyPackets.length ≤ (a.packetFor size).2.readyPackets.length ∧
    (a.packetFor size).2.conn.outPacketQueue = a.conn.outPacketQueue ∧
    (a.packetFor size).2.conn.outPacketId - (a.packetFor size).2.readyPackets.length =
      a.conn.outPacketId - a.readyPackets.length := by
  unfold packetFor createNewPacket finish
  cases a.packet <;> simp only <;> split_ifs <;> simp

/-- What placing a bunch does to the ids: each packet that is ready has used one up. -/
theorem placeBunch_ready {index : ℕ} {ch : NetChannel} (hch : a.conn.channel? index = some ch) (bunch : OutReadyBunch) :
    a.readyPackets.length ≤ (a.placeBunch index bunch).readyPackets.length ∧
      (a.placeBunch index bunch).conn.outPacketQueue = a.conn.outPacketQueue ∧
      (a.placeBunch index bunch).conn.outPacketId - (a.placeBunch index bunch).readyPackets.length =
        a.conn.outPacketId - a.readyPackets.length := by
  have hpf := packetFor_ready (a := a) bunch.totalSize
  rcases placeBunch_cases hch bunch with ⟨-, he⟩ | ⟨-, he | ⟨ch', -, he⟩⟩
  · rw [he]
    exact ⟨Nat.le_refl _, rfl, rfl⟩
  · rw [he]
    exact hpf
  · rw [he]
    exact hpf

theorem takeNext_ready (i : ℕ) : a.readyPackets.length ≤ (a.takeNext i).readyPackets.length ∧
    (a.takeNext i).conn.outPacketQueue = a.conn.outPacketQueue ∧
    (a.takeNext i).conn.outPacketId - (a.takeNext i).readyPackets.length = a.conn.outPacketId - a.readyPackets.length := by
  unfold takeNext
  split_ifs
  · exact ⟨Nat.le_refl _, rfl, rfl⟩
  · cases hch : a.conn.channel? i with
    | none => exact ⟨Nat.le_refl _, rfl, rfl⟩
    | some ch =>
      cases hq : ch.outBunchQueue with
      | nil => simp [hq]
      | cons bunch rest =>
        simp only [hq]
        have hset := channel?_setChannel (lt_of_channel? hch) { ch with outBunchQueue := rest } i
        rw [if_pos rfl] at hset
        exact placeBunch_ready (a := { a with conn := a.conn.setChannel i { ch with outBunchQueue := rest } }) hset bunch

theorem takeAll_ready (es : List (ℕ × OutReadyBunch)) : ∀ a : Assembling,
    a.readyPackets.length ≤ (a.takeAll es).readyPackets.length ∧
      (a.takeAll es).conn.outPacketQueue = a.conn.outPacketQueue ∧
      (a.takeAll es).conn.outPacketId - (a.takeAll es).readyPackets.length = a.conn.outPacketId - a.readyPackets.length := by
  induction es with
  | nil => exact fun a => ⟨Nat.le_refl _, rfl, rfl⟩
  | cons e es ih =>
    intro a
    obtain ⟨hle, hqueue, hid⟩ := takeNext_ready (a := a) e.1
    obtain ⟨hle', hqueue', hid'⟩ := ih (a.takeNext e.1)
    exact ⟨hle.trans hle', hqueue'.trans hqueue, hid'.trans hid⟩

/-! ## Filling the first packet -/

/-- No packet is complete yet; the bunches `before` are in the current one, and un-acked under its id. -/
structure InFirstPacket (c : NetConnection) (before : List (ℕ × OutReadyBunch)) (a : Assembling) : Prop where
  overflow : a.overflow = false
  ready : a.readyPackets = []
  outPacketId : a.conn.outPacketId = c.outPacketId
  empty : a.packet = none → before = []
  packet : ∀ p, a.packet = some p → p.outPacketId = c.outPacketId ∧ p.totalSize = filledSize before
  channel : ∀ i ch, a.conn.channel? i = some ch → ∃ ch₀, c.channel? i = some ch₀ ∧
    ch.outUnAckedBunches.size = ch₀.outUnAckedBunches.size +
      (if ch₀.outUnAckedBunches.find? c.outPacketId = none ∧ i ∈ before.map Prod.fst then 1 else 0) ∧
    (ch.outUnAckedBunches.find? c.outPacketId = none ↔
      ch₀.outUnAckedBunches.find? c.outPacketId = none ∧ i ∉ before.map Prod.fst)

variable {c : NetConnection} {before : List (ℕ × OutReadyBunch)}

theorem InFirstPacket.begin (c : NetConnection) : InFirstPacket c [] ⟨c, none, [], false⟩ where
  overflow := rfl
  ready := rfl
  outPacketId := rfl
  empty := fun _ => rfl
  packet := fun p hp => by cases hp
  channel := fun i ch hch => ⟨ch, hch, by simp, by simp⟩

theorem InFirstPacket.bufferFull_iff (h : InFirstPacket c before a) {i : ℕ} {ch : NetChannel}
    (hch : a.conn.channel? i = some ch) :
    c.BufferFull before i ↔ NetChannel.reliableBuffer ≤ ch.outUnAckedBunches.size := by
  obtain ⟨ch₀, hch₀, hsize, -⟩ := h.channel i ch hch
  rw [hsize]
  constructor
  · rintro ⟨ch₁, hch₁, hle⟩
    obtain rfl : ch₀ = ch₁ := Option.some.inj (hch₀.symm.trans hch₁)
    exact hle
  · exact fun hle => ⟨ch₀, hch₀, hle⟩

theorem InFirstPacket.packetFor_fits (h : InFirstPacket c before a) {size : ℕ}
    (hfit : filledSize before + size ≤ ConnectionPacketBuilder.packetMaxSize) :
    (a.packetFor size).1.outPacketId = c.outPacketId ∧ (a.packetFor size).1.totalSize = filledSize before ∧
      (a.packetFor size).2.readyPackets = [] ∧ (a.packetFor size).2.conn.outPacketId = c.outPacketId ∧
      (a.packetFor size).2.overflow = false := by
  have hroom : ¬ ConnectionPacketBuilder.packetMaxSize < (filledSize before + size) % 2 ^ 32 := by
    unfold ConnectionPacketBuilder.packetMaxSize at hfit ⊢
    omega
  unfold Assembling.packetFor
  cases hp : a.packet with
  | none =>
    have hsize : a.createNewPacket.1.totalSize = filledSize before := by
      rw [h.empty hp]
      rfl
    simp only
    rw [hsize, if_neg hroom]
    exact ⟨h.outPacketId, hsize, h.ready, h.outPacketId, h.overflow⟩
  | some p =>
    obtain ⟨hid, hsize⟩ := h.packet p hp
    simp only
    rw [hsize, if_neg hroom]
    exact ⟨hid, hsize, h.ready, h.outPacketId, h.overflow⟩

theorem InFirstPacket.packetFor_full (h : InFirstPacket c before a) {size : ℕ}
    (hbefore : filledSize before ≤ ConnectionPacketBuilder.packetMaxSize) (hsize : size ≤ ConnectionPacketBuilder.packetMaxSize)
    (hfull : ConnectionPacketBuilder.packetMaxSize < filledSize before + size) :
    (a.packetFor size).2.readyPackets ≠ [] := by
  have hroom : ConnectionPacketBuilder.packetMaxSize < (filledSize before + size) % 2 ^ 32 := by
    unfold ConnectionPacketBuilder.packetMaxSize at hbefore hsize hfull ⊢
    omega
  unfold Assembling.packetFor
  cases hp : a.packet with
  | none =>
    have hnew : a.createNewPacket.1.totalSize = filledSize before := by
      rw [h.empty hp]
      rfl
    simp only
    rw [hnew, if_pos hroom]
    exact List.append_ne_nil_of_right_ne_nil _ (List.cons_ne_nil _ _)
  | some p =>
    obtain ⟨-, hold⟩ := h.packet p hp
    simp only
    rw [hold, if_pos hroom]
    exact List.append_ne_nil_of_right_ne_nil _ (List.cons_ne_nil _ _)

theorem filledSize_append (es : List (ℕ × OutReadyBunch)) (e : ℕ × OutReadyBunch) :
    filledSize (es ++ [e]) = filledSize es + e.2.totalSize := by
  rw [filledSize, filledSize, List.map_append, List.sum_append, List.map_singleton, List.sum_singleton, Nat.add_assoc]

theorem placeBunch_overflow_of_room {index : ℕ} {ch : NetChannel} (hch : a.conn.channel? index = some ch)
    (bunch : OutReadyBunch) (hroom : ¬ NetChannel.reliableBuffer ≤ ch.outUnAckedBunches.size) :
    (a.placeBunch index bunch).overflow = a.overflow := by
  have hpf := packetFor_overflow (a := a) bunch.totalSize
  have hsame := packetFor_channel? (a := a) bunch.totalSize index
  unfold placeBunch
  split_ifs
  · rfl
  · generalize a.packetFor bunch.totalSize = pf at hpf hsame
    obtain ⟨packet, a'⟩ := pf
    have hadd : ∃ ch', ch.addUnAckedOutBunch packet.outPacketId bunch = some ch' := by
      rw [NetChannel.addUnAckedOutBunch, if_neg hroom]
      exact ⟨_, rfl⟩
    obtain ⟨ch', hadd⟩ := hadd
    have hch' : a'.conn.channel? index = some ch := hsame.trans hch
    have hrecord : ∀ record, NetConnection.channel? { a'.conn with record := record } index = some ch := fun _ => hch'
    simp only [hrecord, Option.bind_some, hadd]
    exact hpf

theorem append_totalSize {p : OutReadyPacket} {bunch : OutReadyBunch}
    (hfit : p.totalSize + bunch.totalSize ≤ ConnectionPacketBuilder.packetMaxSize) :
    (ConnectionPacketBuilder.append p bunch).2.totalSize = p.totalSize + bunch.totalSize := by
  have hmod : (p.totalSize + bunch.totalSize) % 2 ^ 32 = p.totalSize + bunch.totalSize := by
    unfold ConnectionPacketBuilder.packetMaxSize at hfit
    omega
  unfold ConnectionPacketBuilder.append
  rw [if_neg (by omega), hmod, if_neg (by omega)]
  exact hmod

theorem insert_unAcked {m m₀ : SortedMap ℤ (List OutReadyBunch)} {id : ℤ} {known : Prop} [Decidable known]
    (hsize : m.size = m₀.size + if m₀.find? id = none ∧ known then 1 else 0)
    (hnone : m.find? id = none ↔ m₀.find? id = none ∧ ¬ known) (l : List OutReadyBunch) :
    (m.insert id l).size = (m₀.size + if m₀.find? id = none then 1 else 0) ∧ (m.insert id l).find? id ≠ none := by
  refine ⟨?_, by rw [SortedMap.find?_insert, if_pos rfl]; exact Option.some_ne_none l⟩
  cases hfind : m.find? id with
  | none =>
    obtain ⟨h0, hk⟩ := hnone.mp hfind
    rw [m.size_insert l hfind, hsize, if_neg fun h => hk h.2, if_pos h0]
  | some w =>
    rw [m.size_insert_of_some l hfind, hsize]
    congr 1
    by_cases h0 : m₀.find? id = none
    · have hk : known := by
        by_contra hk
        rw [hnone.mpr ⟨h0, hk⟩] at hfind
        cases hfind
      rw [if_pos ⟨h0, hk⟩, if_pos h0]
    · rw [if_neg fun h => h0 h.1, if_neg h0]

theorem InFirstPacket.takeAndPlace (h : InFirstPacket c before a)
    (hbefore : filledSize before ≤ ConnectionPacketBuilder.packetMaxSize) {i : ℕ} {ch : NetChannel}
    (bunch : OutReadyBunch) (rest : List OutReadyBunch) (hch : a.conn.channel? i = some ch) :
    (kept bunch = false ∧ InFirstPacket c before (a.takeAndPlace i ch bunch rest)) ∨
    (kept bunch = true ∧ ConnectionPacketBuilder.packetMaxSize < filledSize (before ++ [(i, bunch)]) ∧
      (a.takeAndPlace i ch bunch rest).readyPackets ≠ []) ∨
    (kept bunch = true ∧ filledSize (before ++ [(i, bunch)]) ≤ ConnectionPacketBuilder.packetMaxSize ∧
      (c.BufferFull before i ∧ (a.takeAndPlace i ch bunch rest).overflow = true ∧
          (a.takeAndPlace i ch bunch rest).readyPackets = [] ∨
        ¬ c.BufferFull before i ∧ InFirstPacket c (before ++ [(i, bunch)]) (a.takeAndPlace i ch bunch rest))) := by
  have hset := channel?_setChannel (lt_of_channel? hch) { ch with outBunchQueue := rest }
  have hhead : ({ a with conn := a.conn.setChannel i { ch with outBunchQueue := rest } } : Assembling).conn.channel? i =
      some { ch with outBunchQueue := rest } := by rw [hset, if_pos rfl]
  have hfull := h.bufferFull_iff hch
  obtain ⟨ch₀, hch₀, hsize₀, hnone₀⟩ := h.channel i ch hch
  have hb : InFirstPacket c before { a with conn := a.conn.setChannel i { ch with outBunchQueue := rest } } := by
    refine ⟨h.overflow, h.ready, h.outPacketId, h.empty, h.packet, ?_⟩
    intro j ch' hj
    rw [hset j] at hj
    split_ifs at hj with hji
    · obtain rfl := Option.some.inj hj
      rw [hji]
      exact ⟨ch₀, hch₀, hsize₀, hnone₀⟩
    · exact h.channel j ch' hj
  unfold Assembling.takeAndPlace
  generalize ({ a with conn := a.conn.setChannel i { ch with outBunchQueue := rest } } : Assembling) = b at hb hhead ⊢
  rcases placeBunch_cases hhead bunch with ⟨hk, he⟩ | ⟨hk, hcases⟩
  · refine .inl ⟨hk, ?_⟩
    rw [he]
    exact ⟨hb.overflow, hb.ready, hb.outPacketId, hb.empty, hb.packet, hb.channel⟩
  · have hsize : bunch.totalSize ≤ ConnectionPacketBuilder.packetMaxSize := by
      simp only [kept, Bool.and_eq_true, decide_eq_true_eq] at hk
      exact hk.2
    rw [filledSize_append]
    by_cases hfit : filledSize before + bunch.totalSize ≤ ConnectionPacketBuilder.packetMaxSize
    · refine .inr (.inr ⟨hk, hfit, ?_⟩)
      obtain ⟨hid, htotal, hready, hout, hov⟩ := hb.packetFor_fits hfit
      rcases hcases with he | ⟨ch', hadd, he⟩
      · have hover : (b.placeBunch i bunch).overflow = true := by rw [he]
        refine .inl ⟨?_, hover, by rw [he]; exact hready⟩
        rw [hfull]
        by_contra hroom
        have hstay := placeBunch_overflow_of_room hhead bunch hroom
        rw [hover, hb.overflow] at hstay
        cases hstay
      · have hroom : ¬ NetChannel.reliableBuffer ≤ ch.outUnAckedBunches.size := by
          intro hle
          unfold NetChannel.addUnAckedOutBunch at hadd
          rw [if_pos hle] at hadd
          cases hadd
        refine .inr ⟨fun hbuf => hroom (hfull.mp hbuf), ?_⟩
        obtain rfl := addUnAckedOutBunch_some hadd
        rw [hid] at he
        rw [he]
        refine ⟨hov, hready, hout, (fun hp => by cases hp), ?_, ?_⟩
        · intro p hp
          obtain rfl := Option.some.inj hp
          refine ⟨(append_outPacketId _ bunch).trans hid, ?_⟩
          rw [filledSize_append, ← htotal]
          exact append_totalSize (by rw [htotal]; exact hfit)
        · intro j ch' hj
          have hlt : i < (b.packetFor bunch.totalSize).2.conn.channels.length :=
            lt_of_channel? ((packetFor_channel? _ _).trans hhead)
          have hj := (channel?_setChannel (by exact hlt) _ j).symm.trans hj
          by_cases hji : j = i
          · subst hji
            rw [if_pos rfl] at hj
            obtain rfl := Option.some.inj hj
            obtain ⟨hnew, hsome⟩ := insert_unAcked hsize₀ hnone₀ (ch.unAcked c.outPacketId ++ [bunch])
            have hmem : j ∈ (before ++ [(j, bunch)]).map Prod.fst := by simp
            refine ⟨ch₀, hch₀, hnew.trans ?_, ?_⟩
            · congr 1
              exact if_congr (and_iff_left hmem).symm rfl rfl
            · exact ⟨fun hn => absurd hn hsome, fun hn => absurd hmem hn.2⟩
          · rw [if_neg hji] at hj
            obtain ⟨ch₁, hch₁, hsize₁, hnone₁⟩ := hb.channel j ch' ((packetFor_channel? _ _).symm.trans hj)
            refine ⟨ch₁, hch₁, ?_⟩
            have hmem : j ∈ (before ++ [(i, bunch)]).map Prod.fst ↔ j ∈ before.map Prod.fst := by
              rw [List.map_append, List.mem_append, List.map_singleton, List.mem_singleton, or_iff_left hji]
            simp only [hmem]
            exact ⟨hsize₁, hnone₁⟩
    · have hover := Nat.lt_of_not_le hfit
      refine .inr (.inl ⟨hk, hover, ?_⟩)
      have hready := hb.packetFor_full hbefore hsize hover
      rcases hcases with he | ⟨ch', -, he⟩
      · rw [he]
        exact hready
      · rw [he]
        exact hready

def Remaining (a : Assembling) (es : List (ℕ × OutReadyBunch)) : Prop :=
  ∀ i, a.queueOf i = (es.filter fun e => e.1 = i).map Prod.snd

theorem Remaining.cons {i : ℕ} {bunch : OutReadyBunch} {es : List (ℕ × OutReadyBunch)} (h : Remaining a ((i, bunch) :: es)) :
    ∃ ch, a.conn.channel? i = some ch ∧ ch.outBunchQueue = bunch :: ((es.filter fun e => e.1 = i).map Prod.snd) ∧
      ∀ rest, rest = (es.filter fun e => e.1 = i).map Prod.snd →
        (a.takeAndPlace i ch bunch rest).overflow = false → Remaining (a.takeAndPlace i ch bunch rest) es := by
  have hi := h i
  rw [List.filter_cons_of_pos (by simp), List.map_cons] at hi
  obtain ⟨ch, hch, hq⟩ := exists_channel_of_queueOf hi
  refine ⟨ch, hch, hq, ?_⟩
  rintro rest rfl hov j
  rw [queueOf_takeAndPlace hch hov]
  by_cases hji : j = i
  · rw [if_pos hji, hji]
  · rw [if_neg hji, h j, List.filter_cons_of_neg (by simpa using Ne.symm hji)]

theorem remaining_readyBunches (c : NetConnection) : Remaining (Assembling.mk c none [] false) c.readyBunches := by
  have key : ∀ (is : List ℕ) (j : ℕ), is.Nodup →
      ((is.flatMap fun i => ((Assembling.mk c none [] false).queueOf i).map fun bunch => (i, bunch)).filter
        fun e => e.1 = j).map Prod.snd = if j ∈ is then (Assembling.mk c none [] false).queueOf j else [] := by
    intro is j
    induction is with
    | nil => exact fun _ => rfl
    | cons i is ih =>
      intro hnodup
      obtain ⟨hi, his⟩ := List.nodup_cons.mp hnodup
      rw [List.flatMap_cons, List.filter_append, List.map_append, ih his, List.filter_map]
      by_cases hij : i = j
      · subst hij
        have hall : ((Assembling.mk c none [] false).queueOf i).filter ((fun e : ℕ × OutReadyBunch => decide (e.1 = i)) ∘
            fun bunch => (i, bunch)) = (Assembling.mk c none [] false).queueOf i :=
          List.filter_eq_self.mpr fun _ _ => decide_eq_true rfl
        rw [hall, List.map_map, if_neg hi, if_pos (List.mem_cons_self ..), List.append_nil]
        exact List.map_id _
      · have hnone : ((Assembling.mk c none [] false).queueOf i).filter ((fun e : ℕ × OutReadyBunch => decide (e.1 = j)) ∘
            fun bunch => (i, bunch)) = [] := List.filter_eq_nil_iff.mpr fun _ _ => by simpa using hij
        have hmem : j ∈ i :: is ↔ j ∈ is := by rw [List.mem_cons, or_iff_right (Ne.symm hij)]
        rw [hnone, List.map_nil, List.map_nil, List.nil_append]
        exact if_congr hmem.symm rfl rfl
  intro j
  show _ = (((List.range c.channels.length).flatMap fun i =>
    ((Assembling.mk c none [] false).queueOf i).map fun bunch => (i, bunch)).filter fun e => e.1 = j).map Prod.snd
  rw [key _ j List.nodup_range]
  split_ifs with hj
  · rfl
  · exact queueOf_of_length_le (a := Assembling.mk c none [] false) (Nat.le_of_not_lt fun h => hj (List.mem_range.mpr h))

theorem filledSize_le_of_prefix (es fs : List (ℕ × OutReadyBunch)) : filledSize es ≤ filledSize (es ++ fs) := by
  unfold filledSize
  rw [List.map_append, List.sum_append]
  omega

/-- On an early return no packet is complete exactly where the bunches up to the failing one fit into the first. -/
theorem InFirstPacket.exit_iff : ∀ (es : List (ℕ × OutReadyBunch)) (before : List (ℕ × OutReadyBunch)) (a : Assembling),
    InFirstPacket c before a → filledSize before ≤ ConnectionPacketBuilder.packetMaxSize → Remaining a es →
    (a.takeAll es).overflow = true →
    ((a.takeAll es).readyPackets = [] ↔ ∃ n e, (es.filter fun e => kept e.2)[n]? = some e ∧
      c.BufferFull (before ++ (es.filter fun e => kept e.2).take n) e.1 ∧
      filledSize (before ++ (es.filter fun e => kept e.2).take (n + 1)) ≤ ConnectionPacketBuilder.packetMaxSize)
  | [], _, a, h, _, _, hov => by
    have hnot : a.overflow = true := hov
    rw [h.overflow] at hnot
    cases hnot
  | (i, bunch) :: es, before, a, h, hbefore, hremaining, hov => by
    obtain ⟨ch, hch, hq, hrest⟩ := hremaining.cons
    have htake : a.takeAll ((i, bunch) :: es) =
        (a.takeAndPlace i ch bunch ((es.filter fun e => e.1 = i).map Prod.snd)).takeAll es := by
      rw [takeAll, List.foldl_cons, takeNext_cons h.overflow hch hq]
      rfl
    rw [htake] at hov ⊢
    have hcases := h.takeAndPlace hbefore bunch ((es.filter fun e => e.1 = i).map Prod.snd) hch
    have hremaining' := hrest _ rfl
    generalize a.takeAndPlace i ch bunch ((es.filter fun e => e.1 = i).map Prod.snd) = b at hcases hov hremaining' ⊢
    rcases hcases with ⟨hk, hb⟩ | ⟨hk, hfull, hready⟩ | ⟨hk, hfit, ⟨hbuf, hover, hready⟩ | ⟨hbuf, hb⟩⟩
    · rw [List.filter_cons_of_neg (by simpa using hk)]
      exact exit_iff es before b hb hbefore (hremaining' hb.overflow) hov
    · -- a packet is complete
      rw [List.filter_cons_of_pos (by simpa using hk)]
      have hle := (takeAll_ready es b).1
      have hpos := List.length_pos_iff.mpr hready
      refine ⟨fun hnil => ?_, ?_⟩
      · rw [hnil, List.length_nil] at hle
        omega
      · rintro ⟨n, e, -, -, hsize⟩
        have hprefix := filledSize_le_of_prefix (before ++ [(i, bunch)]) ((es.filter fun e => kept e.2).take n)
        rw [List.append_assoc, List.singleton_append, ← List.take_succ_cons] at hprefix
        omega
    · -- the failing bunch
      rw [List.filter_cons_of_pos (by simpa using hk), takeAll_of_overflow hover]
      refine ⟨fun _ => ⟨0, (i, bunch), rfl, ?_, ?_⟩, fun _ => hready⟩
      · rw [List.take_zero, List.append_nil]
        exact hbuf
      · exact hfit
    · rw [List.filter_cons_of_pos (by simpa using hk), exit_iff es _ b hb hfit (hremaining' hb.overflow) hov]
      constructor
      · rintro ⟨n, e, he, hfull, hsize⟩
        refine ⟨n + 1, e, he, ?_, ?_⟩
        · rw [List.take_succ_cons, ← List.singleton_append, ← List.append_assoc]
          exact hfull
        · rw [List.take_succ_cons, ← List.singleton_append, ← List.append_assoc]
          exact hsize
      · rintro ⟨n, e, he, hfull, hsize⟩
        cases n with
        | zero =>
          obtain rfl := Option.some.inj he
          rw [List.take_zero, List.append_nil] at hfull
          exact absurd hfull hbuf
        | succ n =>
          refine ⟨n, e, he, ?_, ?_⟩
          · rw [List.append_assoc, List.singleton_append, ← List.take_succ_cons]
            exact hfull
          · rw [List.append_assoc, List.singleton_append, ← List.take_succ_cons]
            exact hsize

end Assembling

open Assembling

/-! ## The counters behind the early return -/

/-- `OutPacketId` has moved on by the number of packets that came into `OutPacketQueue`. -/
def CountersKept (c c' : NetConnection) : Prop :=
  c'.outPacketId - c.outPacketId = (c'.outPacketQueue.length : ℤ) - c.outPacketQueue.length

variable {c : NetConnection}

theorem assemble_of_overflow (hov : c.OverflowsReliableBuffer) (keepAliveDue : Bool) :
    c.assembleOutgoingPackets keepAliveDue = ((Assembling.mk c none [] false).takeAll c.readyBunches).conn := by
  rw [← assembling_eq_takeAll hov.2]
  unfold assembleOutgoingPackets
  simp [hov.1, hov.2]

theorem overflow_ready (hov : c.OverflowsReliableBuffer) (keepAliveDue : Bool) :
    (c.assembleOutgoingPackets keepAliveDue).outPacketQueue = c.outPacketQueue ∧
      (c.assembleOutgoingPackets keepAliveDue).outPacketId =
        c.outPacketId + ((Assembling.mk c none [] false).takeAll c.readyBunches).readyPackets.length := by
  obtain ⟨-, hqueue, hid⟩ := takeAll_ready c.readyBunches (Assembling.mk c none [] false)
  rw [assemble_of_overflow hov]
  refine ⟨hqueue, ?_⟩
  simp only [List.length_nil] at hid
  omega

theorem ready_nil_iff (hov : c.OverflowsReliableBuffer) :
    ((Assembling.mk c none [] false).takeAll c.readyBunches).readyPackets = [] ↔ c.OverflowsInFirstPacket := by
  have hover := hov.2
  rw [assembling_eq_takeAll hov.2] at hover
  have hexit := InFirstPacket.exit_iff c.readyBunches [] _ (.begin c) header_le_max (remaining_readyBunches c) hover
  simp only [List.nil_append] at hexit
  exact hexit

theorem countersKept_iff (hov : c.OverflowsReliableBuffer) (keepAliveDue : Bool) :
    CountersKept c (c.assembleOutgoingPackets keepAliveDue) ↔ c.OverflowsInFirstPacket := by
  obtain ⟨hqueue, hid⟩ := overflow_ready hov keepAliveDue
  rw [← ready_nil_iff hov, ← List.length_eq_zero_iff, CountersKept, hqueue, hid]
  omega

theorem overflow_record {gs : List (List ℕ)} {last : ℤ} (hgs : c.record.Groups last c.outPacketId gs)
    (hlt : last < c.outPacketId) (hov : c.OverflowsReliableBuffer) (keepAliveDue : Bool) :
    ∃ gs, (c.assembleOutgoingPackets keepAliveDue).record.Groups last
      (c.assembleOutgoingPackets keepAliveDue).outPacketId gs := by
  have hinv : (c.assembling.overflow = false → Begun last c.assembling) ∧
      ∃ gs, c.assembling.conn.record.Groups last c.assembling.conn.outPacketId gs :=
    passes_invariant (I := fun a => (a.overflow = false → Begun last a) ∧ ∃ gs, a.conn.record.Groups last a.conn.outPacketId gs)
      (fun _ _ _ _ _ hI hb hch _ => ⟨fun h => (hI.1 hb).takeAndPlace hch h, (hI.1 hb).takeAndPlace_record hch⟩) _ _ _
      ⟨fun _ => ⟨⟨gs, hgs⟩, hlt, fun p hp => by cases hp⟩, gs, hgs⟩
  rw [assemble_of_overflow hov, ← assembling_eq_takeAll hov.2]
  exact hinv.2

/-- The early return in the first packet leaves the send side in step. -/
theorem SendSync.overflow (h : c.SendSync) (hov : c.OverflowsReliableBuffer) (hfirst : c.OverflowsInFirstPacket)
    (keepAliveDue : Bool) : (c.assembleOutgoingPackets keepAliveDue).SendSync := by
  obtain ⟨hqueue, hid⟩ := overflow_ready hov keepAliveDue
  rw [(ready_nil_iff hov).mpr hfirst] at hid
  obtain ⟨gs, hgs⟩ := h.record
  exact h.assembled keepAliveDue [] (hqueue.trans (List.append_nil _).symm) hid rfl
    (overflow_record hgs h.last_lt hov keepAliveDue)

theorem firstUnsent_assemble (hok : c.OverflowsReliableBuffer → c.OverflowsInFirstPacket) (keepAliveDue : Bool) :
    (c.assembleOutgoingPackets keepAliveDue).firstUnsent = c.firstUnsent := by
  unfold firstUnsent
  by_cases hov : c.OverflowsReliableBuffer
  · obtain ⟨hqueue, hid⟩ := overflow_ready hov keepAliveDue
    rw [(ready_nil_iff hov).mpr (hok hov)] at hid
    rw [hqueue, hid, List.length_nil, Nat.cast_zero, Int.add_zero]
  · obtain ⟨new, hqueue, hid, -⟩ := assemble_ids (c := c) keepAliveDue hov
    rw [hqueue, hid, List.length_append]
    push_cast
    ring

theorem flushPacket_none {c' : NetConnection} {nowUs : ℕ} (h : c.flushPacket nowUs = (none, c')) : c' = c := by
  unfold flushPacket tryDequeuePacket at h
  cases hq : c.outPacketQueue with
  | nil =>
    rw [hq] at h
    exact (Prod.mk.inj h).2.symm
  | cons packet rest =>
    rw [hq] at h
    cases (Prod.mk.inj h).1

theorem SendSync.flushed (h : c.SendSync) {c' : NetConnection} {packet : OutReadyPacket} {nowUs : ℕ}
    (hflush : c.flushPacket nowUs = (some packet, c')) :
    packet.outPacketId = c.firstUnsent ∧ c'.firstUnsent = c.firstUnsent + 1 := by
  cases hq : c.outPacketQueue with
  | nil =>
    rw [flushPacket_nil hq] at hflush
    cases (Prod.mk.inj hflush).1
  | cons first rest =>
    rw [flushPacket_cons hq h.handler] at hflush
    obtain ⟨hpacket, rfl⟩ := Prod.mk.inj hflush
    obtain rfl := Option.some.inj hpacket
    refine ⟨(builtHeader_outPacketId c.packetNotify first nowUs).trans (h.head_outPacketId hq), ?_⟩
    show c.outPacketId - (rest.length : ℤ) = c.outPacketId - (c.outPacketQueue.length : ℤ) + 1
    rw [hq, List.length_cons]
    push_cast
    ring

end NetConnection

/-! ## The jobs that come later -/

/-- A connection behind `InitSequence`, with the first id of its packets and the packets it has sent. The callers mask
their sequences, so a run starts with an id that is not negative. -/
structure JobRun where
  conn : NetConnection
  first : ℤ
  sent : List OutReadyPacket

namespace JobRun

variable (s : JobRun)

def Starts : Prop :=
  ∃ isServer n state cs incomingSequence outgoingSequence, 0 ≤ outgoingSequence ∧
    s = ⟨({ NetConnection.new isServer n state with channels := cs }.initSequence incomingSequence outgoingSequence).2,
      outgoingSequence, []⟩

def sentBy : NetConnection.ConnectionAction → List OutReadyPacket
  | .flush nowUs => (s.conn.flushPacket nowUs).1.toList
  | _ => []

/-- The jobs do not ask whether the connection is closed. -/
def next (a : NetConnection.ConnectionAction) : JobRun :=
  { s with conn := (NetConnection.connectionSystem NetConnection.AfterInit).next s.conn a, sent := s.sent ++ s.sentBy a }

/-- A call that returns early does so in its first packet. -/
def FirstPacketExits : NetConnection.ConnectionAction → Prop
  | .assemble _ => s.conn.OverflowsReliableBuffer → s.conn.OverflowsInFirstPacket
  | _ => True

/-- Packets are sent under their ids, and acks and nacks come for ids that were sent: they are for
`LastNotifiedSendPacketId`, counted up from the first id on. -/
structure Consistent : Prop where
  sent : ∀ packet ∈ s.sent, ∀ payload,
    (peerReads (packet.header.take packetHeaderSize ++ payload)).2.2.seq = Seq.ofInt packet.outPacketId
  answered : ∀ id, s.first ≤ id → id ≤ s.conn.lastNotifiedSendPacketId → id ∈ s.sent.map OutReadyPacket.outPacketId
  inStep : s.conn.InStep

end JobRun

def jobRunSystem : System JobRun NetConnection.ConnectionAction := ⟨JobRun.Starts, JobRun.next⟩

namespace JobRun

structure Kept (s : JobRun) : Prop where
  sync : s.conn.SendSync
  sent : ∀ packet ∈ s.sent, ∀ payload,
    (peerReads (packet.header.take packetHeaderSize ++ payload)).2.2.seq = Seq.ofInt packet.outPacketId
  ids : s.sent.map OutReadyPacket.outPacketId = (List.range s.sent.length).map fun k : ℕ => s.first + k
  unsent : s.conn.firstUnsent = s.first + s.sent.length

variable {s : JobRun}

theorem Kept.consistent (h : s.Kept) : s.Consistent := by
  refine ⟨h.sent, ?_, h.sync.inStep⟩
  intro id hfirst hlast
  have hlt := h.sync.lt
  rw [h.unsent] at hlt
  obtain ⟨k, hk⟩ := Int.eq_ofNat_of_zero_le (Int.sub_nonneg.mpr hfirst)
  rw [h.ids]
  exact List.mem_map.mpr ⟨k, List.mem_range.mpr (by omega), by omega⟩

theorem Kept.start (h : s.Starts) : s.Kept := by
  obtain ⟨isServer, n, state, cs, incomingSequence, outgoingSequence, hle, rfl⟩ := h
  have hsync := NetConnection.AfterInit.sendSync ⟨isServer, n, state, cs, incomingSequence, outgoingSequence, hle, rfl⟩
  refine ⟨hsync, (fun packet hpacket => by cases hpacket), rfl, ?_⟩
  show outgoingSequence - ((0 : ℕ) : ℤ) = outgoingSequence + ((0 : ℕ) : ℤ)
  rw [Nat.cast_zero, Int.sub_zero, Int.add_zero]

theorem Kept.of_unsent (h : s.Kept) {conn : NetConnection} (hsync : conn.SendSync) (hunsent : conn.firstUnsent = s.conn.firstUnsent) :
    Kept { s with conn := conn, sent := s.sent ++ [] } := by
  rw [List.append_nil]
  exact ⟨hsync, h.sent, h.ids, hunsent.trans h.unsent⟩

theorem Kept.flush (h : s.Kept) (nowUs : ℕ) : (s.next (.flush nowUs)).Kept := by
  have hsync := h.sync.flush nowUs
  show Kept ⟨(s.conn.flushPacket nowUs).2, s.first, s.sent ++ (s.conn.flushPacket nowUs).1.toList⟩
  cases hflush : s.conn.flushPacket nowUs with
  | mk built conn =>
    rw [hflush] at hsync
    cases built with
    | none =>
      obtain rfl := NetConnection.flushPacket_none hflush
      exact h.of_unsent h.sync rfl
    | some packet =>
      obtain ⟨hid, hunsent⟩ := h.sync.flushed hflush
      refine ⟨hsync, ?_, ?_, ?_⟩
      · intro p hp payload
        rcases List.mem_append.mp hp with hp | hp
        · exact h.sent p hp payload
        · obtain rfl := List.mem_singleton.mp hp
          exact h.sync.inStep.sent nowUs p conn payload hflush
      · show (s.sent ++ [packet]).map OutReadyPacket.outPacketId = (List.range (s.sent ++ [packet]).length).map _
        rw [List.map_append, h.ids, List.length_append, List.length_singleton, List.range_succ, List.map_append,
          List.map_singleton, List.map_singleton, hid, h.unsent]
      · show conn.firstUnsent = s.first + ((s.sent ++ [packet]).length : ℤ)
        rw [hunsent, h.unsent, List.length_append, List.length_singleton]
        push_cast
        ring

theorem Kept.next (h : s.Kept) {a : NetConnection.ConnectionAction} (hok : s.FirstPacketExits a) : (s.next a).Kept := by
  cases a with
  | assemble keepAliveDue =>
    have hsync : (s.conn.assembleOutgoingPackets keepAliveDue).SendSync := by
      by_cases hov : s.conn.OverflowsReliableBuffer
      · exact h.sync.overflow hov (hok hov) keepAliveDue
      · exact h.sync.assemble_of_room keepAliveDue hov
    exact h.of_unsent hsync (NetConnection.firstUnsent_assemble hok keepAliveDue)
  | flush nowUs => exact h.flush nowUs
  | receive reader =>
    refine h.of_unsent (h.sync.receivedPacket reader) ?_
    show (s.conn.receivedPacket reader).firstUnsent = s.conn.firstUnsent
    unfold NetConnection.firstUnsent
    rw [(s.conn.receivedPacket_frame reader).conn]
  | dispatch =>
    refine h.of_unsent h.sync.dispatchPendingPacket ?_
    show s.conn.dispatchPendingPacket.firstUnsent = s.conn.firstUnsent
    unfold NetConnection.firstUnsent
    rw [s.conn.dispatchPendingPacket_dispatched.1]
  | channels cs => exact h.of_unsent (h.sync.channels cs) rfl

end JobRun

namespace NetConnection

/-- The early return keeps the counters exactly where it is in the first packet, and with such returns only, every job finds
the connection consistent. -/
theorem overflow_exit_consistent (c : NetConnection) (keepAliveDue : Bool) (s : JobRun) :
    (c.OverflowsReliableBuffer →
      (CountersKept c (c.assembleOutgoingPackets keepAliveDue) ↔ c.OverflowsInFirstPacket)) ∧
    (jobRunSystem.Reach JobRun.FirstPacketExits s → s.Consistent) := by
  refine ⟨fun hov => countersKept_iff hov keepAliveDue, fun h => ?_⟩
  have hkept := h.invariant (I := JobRun.Kept) (fun _ h0 => .start h0) fun _ _ h hok => h.next hok
  exact hkept.consistent

def oneInEach (n : ℕ) : SortedMap ℤ (List OutReadyBunch) :=
  ⟨(List.range n).map fun k : ℕ => ((k : ℤ), [bunchOf 6]), List.pairwise_map.mpr
    (List.pairwise_lt_range.imp fun h => Int.ofNat_lt.mpr h)⟩

/-- A connection that has sent 511 packets with no answer, and has the given bunches ready. -/
def sent511 (bunches : List OutReadyBunch) : NetConnection :=
  { NetConnection.new true 1 .open with
    channels := [some { NetChannel.init 0 0 0 with outBunchQueue := bunches, outUnAckedBunches := oneInEach 511 }]
    outPacketId := 511
    packetNotify := { NetPacketNotify.new.init (Seq.ofInt (-1)) (Seq.ofInt 0) with outSeq := Seq.ofInt 511 }
    record := ⟨(List.range 511).flatMap fun k : ℕ => [⟨(k : ℤ), true⟩, ⟨0, false⟩], 510⟩ }

def overflown : NetConnection := (sent511 [bunchOf 600, bunchOf 600]).assembleOutgoingPackets false

/-- The packet 511 is complete when the buffer overflows, and is lost; the keep-alive packet that a later job sends has the
id 512 and the sequence number 511. -/
theorem overflow_loses_id :
    (sent511 [bunchOf 600, bunchOf 600]).OverflowsReliableBuffer ∧
      ¬ CountersKept (sent511 [bunchOf 600, bunchOf 600]) overflown ∧
      ((overflown.assembleOutgoingPackets true).flushPacket 0).1.map OutReadyPacket.outPacketId = some 512 ∧
      (overflown.assembleOutgoingPackets true).packetNotify.outSeq = Seq.ofInt 511 := by
  refine ⟨⟨by decide +kernel, by decide +kernel⟩, ?_, by decide +kernel, by decide +kernel⟩
  unfold CountersKept
  decide +kernel

end NetConnection

end RudpEngine
