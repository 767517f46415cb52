import RudpEngine.InTurn

/-!
# Two connections and the network between them

Each end sends packets of its own and takes in those of the other. The network
delivers a datagram in flight, in any order, or duplicates or loses it. `sealed`
and `submitted` keep what each end has sealed and submitted on each channel.
-/

namespace RudpEngine

open ChannelBunchBuilder NetConnection NetConnection.Assembling

namespace NetConnection

/-- `ReceivedRawPacket`: the processor, and what is left to the connection behind it. -/
def receivedRawPacket (c : NetConnection) (data : List Byte) : NetConnection :=
  let reader := c.handler.incoming (RecvPacketReader.ofEvent data data.length)
  if reader.bConnectionlessPacket then c else c.receivedPacket reader

def newBunches (c : NetConnection) (i : ℕ) (nowUs : ℕ → ℕ) (batchLimit : ℕ) (flushTail : Bool) : List OutReadyBunch :=
  SendRun.newBunches ⟨c, [], fun _ => []⟩ i nowUs batchLimit flushTail

end NetConnection

/-- `network b` are the datagrams in flight that end `b` has sent; end `true` is the server. -/
structure Link where
  ends : Bool → NetConnection
  network : Bool → List OutReadyPacket
  sealed : Bool → ℕ → List OutReadyBunch
  submitted : Bool → ℕ → List NetMessage

inductive LinkAction
  | submit (i : ℕ) (m : NetMessage)
  | pump (i : ℕ) (nowUs : ℕ → ℕ) (batchLimit : ℕ) (flushTail : Bool)
  | ready (i : ℕ)
  | assemble (keepAliveDue : Bool)
  | flush (nowUs : ℕ)
  | deliver (k : ℕ)
  | duplicate (k : ℕ)
  | lose (k : ℕ)
  | dispatch

namespace Link

variable (s : Link)

def setEnd (b : Bool) (c : NetConnection) : Link := { s with ends := Function.update s.ends b c }

def setNetwork (b : Bool) (packets : List OutReadyPacket) : Link := { s with network := Function.update s.network b packets }

/-- End `b` takes in the `k`-th datagram of the other end. -/
def deliver (b : Bool) (k : ℕ) : Link :=
  match (s.network (!b))[k]? with
  | none => s
  | some packet =>
    (s.setEnd b ((s.ends b).receivedRawPacket packet.wire)).setNetwork (!b) ((s.network (!b)).eraseIdx k)

/-- An action of end `b`; `duplicate` and `lose` are about the datagrams it sent. -/
def next (s : Link) : Bool × LinkAction → Link
  | (b, .submit i m) =>
    { s.setEnd b ((s.ends b).modifyChannel i fun ch => ch.registerMessage m) with
      submitted := Function.update s.submitted b (Function.update (s.submitted b) i (s.submitted b i ++ [m])) }
  | (b, .pump i nowUs batchLimit flushTail) =>
    { s.setEnd b ((s.ends b).modifyChannel i fun ch => ch.pumpBunch nowUs batchLimit flushTail) with
      sealed := Function.update s.sealed b (Function.update (s.sealed b) i
        (s.sealed b i ++ (s.ends b).newBunches i nowUs batchLimit flushTail)) }
  | (b, .ready i) =>
    s.setEnd b ((s.ends b).modifyChannel i fun ch => ch.flushReady ch.bunchBuilder.queuedOutBunch.length)
  | (b, .assemble keepAliveDue) => s.setEnd b ((s.ends b).assembleOutgoingPackets keepAliveDue)
  | (b, .flush nowUs) =>
    (s.setEnd b ((s.ends b).flushPacket nowUs).2).setNetwork b (s.network b ++ ((s.ends b).flushPacket nowUs).1.toList)
  | (b, .deliver k) => s.deliver b k
  | (b, .duplicate k) => s.setNetwork b (s.network b ++ (s.network b)[k]?.toList)
  | (b, .lose k) => s.setNetwork b ((s.network b).eraseIdx k)
  | (b, .dispatch) => s.setEnd b (s.ends b).dispatchPendingPacket

/-- Both ends are new, behind an `InitSequence` with matching sequences. -/
structure Start (s : Link) : Prop where
  ends : ∃ (n : ℕ) (sequence : Bool → ℤ), 2 ≤ n ∧ ∀ b, s.ends b =
    ((NetConnection.new b n .open).createInitialChannels.initSequence (sequence (!b)) (sequence b)).2
  network : s.network = fun _ => []
  sealed : s.sealed = fun _ _ => []
  submitted : s.submitted = fun _ _ => []

end Link

def linkSystem : System Link (Bool × LinkAction) := ⟨Link.Start, Link.next⟩

namespace Link

variable {s : Link}

@[simp] theorem setEnd_same (s : Link) (b : Bool) (c : NetConnection) : (s.setEnd b c).ends b = c := Function.update_self ..

@[simp] theorem setEnd_other (s : Link) (b : Bool) (c : NetConnection) : (s.setEnd b c).ends (!b) = s.ends (!b) :=
  Function.update_of_ne (by simp) ..

@[simp] theorem setEnd_not (s : Link) (b : Bool) (c : NetConnection) : (s.setEnd (!b) c).ends b = s.ends b :=
  Function.update_of_ne (by simp) ..

@[simp] theorem setNetwork_same (s : Link) (b : Bool) (ps : List OutReadyPacket) : (s.setNetwork b ps).network b = ps :=
  Function.update_self ..

@[simp] theorem setNetwork_not (s : Link) (b : Bool) (ps : List OutReadyPacket) :
    (s.setNetwork (!b) ps).network b = s.network b :=
  Function.update_of_ne (by simp) ..

/-! ## What is on its way -/

def Headed (p : OutReadyPacket) : Prop :=
  ∃ notify packet nowUs, p.header.take packetHeaderSize = wireHeader notify packet nowUs

/-- All bunches from end `b` meet `P`: in its channels and queued packets, in flight, and in the payloads that wait at the
other end. -/
structure Carried (P : OutReadyBunch → Prop) (b : Bool) (s : Link) : Prop where
  conn : (s.ends b).Carries P
  network : ∀ p ∈ s.network b, Laid P p ∧ Headed p
  pending : ∀ r ∈ (s.ends (!b)).pendingDispatchPacketReaders,
    ∃ bs : List OutReadyBunch, (∀ x ∈ bs, P x ∧ kept x = true) ∧ r.payload = bs.flatMap OutReadyBunch.bytes

def Handled (s : Link) : Prop := ∀ b, (s.ends b).handler = defaultProcessor

section
variable {P Q : OutReadyBunch → Prop} {b : Bool}

theorem Carried.mono (h : Carried P b s) (hpq : ∀ x, P x → Q x) : Carried Q b s := by
  refine ⟨h.conn.mono hpq, fun p hp => ⟨(h.network p hp).1.mono hpq, (h.network p hp).2⟩, ?_⟩
  intro r hr
  obtain ⟨bs, hbs, he⟩ := h.pending r hr
  exact ⟨bs, fun x hx => ⟨hpq x (hbs x hx).1, (hbs x hx).2⟩, he⟩

theorem Carried.setEnd (h : Carried P b s) (x : Bool) {c : NetConnection}
    (hcarries : x = b → (s.ends x).Carries P → c.Carries P)
    (hpending : ∀ r ∈ c.pendingDispatchPacketReaders, r ∈ (s.ends x).pendingDispatchPacketReaders) :
    Carried P b (s.setEnd x c) := by
  by_cases hx : x = b
  · subst hx
    refine ⟨?_, h.network, ?_⟩
    · rw [setEnd_same]
      exact hcarries rfl h.conn
    · rw [setEnd_other]
      exact h.pending
  · obtain rfl := Bool.eq_not.mpr hx
    refine ⟨?_, h.network, ?_⟩
    · rw [setEnd_not]
      exact h.conn
    · rw [setEnd_same]
      intro r hr
      exact h.pending r (hpending r hr)

theorem Carried.setNetwork (h : Carried P b s) (x : Bool) {ps : List OutReadyPacket}
    (hps : x = b → ∀ p ∈ ps, p ∈ s.network b ∨ Laid P p ∧ Headed p) : Carried P b (s.setNetwork x ps) := by
  by_cases hx : x = b
  · subst hx
    refine ⟨h.conn, ?_, h.pending⟩
    rw [setNetwork_same]
    intro p hp
    exact (hps rfl p hp).elim (h.network p) id
  · obtain rfl := Bool.eq_not.mpr hx
    refine ⟨h.conn, ?_, h.pending⟩
    rw [setNetwork_not]
    exact h.network

theorem headed_flush {c : NetConnection} (hhandler : c.handler = defaultProcessor) {nowUs : ℕ} {p : OutReadyPacket}
    (hp : (c.flushPacket nowUs).1 = some p) : Headed p := by
  cases hq : c.outPacketQueue with
  | nil =>
    rw [flushPacket_nil hq] at hp
    cases hp
  | cons packet rest =>
    obtain rfl := Option.some.inj ((congrArg Prod.fst (flushPacket_cons hq hhandler nowUs)).symm.trans hp)
    exact ⟨_, packet, nowUs, rfl⟩

theorem incoming_payload (u : UdpConnectionProcessor) (r : RecvPacketReader) : (u.incoming r).payload = r.payload := by
  unfold UdpConnectionProcessor.incoming
  simp only
  split_ifs <;> rfl

theorem ofEvent_payload (hP : ∀ x, P x → Numbered x) {p : OutReadyPacket} (hlaid : Laid P p) (hheaded : Headed p) :
    (RecvPacketReader.ofEvent p.wire p.wire.length).payload = p.bunchs.flatMap OutReadyBunch.bytes := by
  obtain ⟨notify, packet, nowUs, he⟩ := hheaded
  rw [hlaid.wire hP, he]
  obtain ⟨buf, hread, -⟩ := ofEvent_wire notify packet nowUs (p.bunchs.flatMap OutReadyBunch.bytes)
  rw [hread]

theorem receivedPacket_pending (c : NetConnection) (reader : RecvPacketReader) {r : RecvPacketReader}
    (hr : r ∈ (c.receivedPacket reader).pendingDispatchPacketReaders) :
    r ∈ c.pendingDispatchPacketReaders ∨ r.payload = reader.payload := by
  unfold NetConnection.receivedPacket at hr
  generalize NetPacketNotify.readHeader reader.header = read at hr
  obtain ⟨ok, header, buffer⟩ := read
  have hnotified : (c.notified header).pendingDispatchPacketReaders = c.pendingDispatchPacketReaders := by
    rw [(c.notified_frame header).conn]
  have hnew : ∀ l : List RecvPacketReader, l = c.pendingDispatchPacketReaders →
      r ∈ l ++ [({ reader with header := buffer } : RecvPacketReader)] →
        r ∈ c.pendingDispatchPacketReaders ∨ r.payload = reader.payload := by
    intro l hl hmem
    rcases List.mem_append.mp hmem with hmem | hmem
    · exact .inl (hl ▸ hmem)
    · obtain rfl := List.mem_singleton.mp hmem
      exact .inr rfl
  cases ok with
  | false => exact .inl hr
  | true =>
    simp only [if_true] at hr
    by_cases hd : 0 < c.packetNotify.getSequenceDelta header
    · cases hw : (c.notifyUpdated header).1.isWaitingForSequenceHistoryFlush with
      | true =>
        rw [receivedHeader_of_waiting hd hw] at hr
        exact .inl (hnotified ▸ hr)
      | false =>
        rw [receivedHeader_of_accepted hd hw] at hr
        exact hnew _ hnotified hr
    · rw [receivedHeader_of_not_pos hd] at hr
      exact hnew _ rfl hr

end

/-! ## The steps -/

theorem Handled.setEnd (h : s.Handled) (x : Bool) {c : NetConnection} (hc : c.handler = (s.ends x).handler) :
    (s.setEnd x c).Handled := by
  intro b
  by_cases hx : b = x
  · subst hx
    rw [setEnd_same, hc]
    exact h b
  · obtain rfl := Bool.eq_not.mpr (Ne.symm hx)
    rw [setEnd_not]
    exact h b

theorem receivedRawPacket_cases (c : NetConnection) (data : List Byte) : c.receivedRawPacket data = c ∨
    ∃ reader : RecvPacketReader, reader.payload = (RecvPacketReader.ofEvent data data.length).payload ∧
      c.receivedRawPacket data = c.receivedPacket reader := by
  unfold NetConnection.receivedRawPacket
  simp only
  split_ifs
  · exact .inl rfl
  · exact .inr ⟨_, incoming_payload c.handler _, rfl⟩

theorem handler_receivedRawPacket (c : NetConnection) (data : List Byte) :
    (c.receivedRawPacket data).handler = c.handler := by
  rcases receivedRawPacket_cases c data with he | ⟨reader, -, he⟩
  · rw [he]
  · rw [he, (c.receivedPacket_frame reader).conn]

theorem handler_flushPacket (c : NetConnection) (nowUs : ℕ) : (c.flushPacket nowUs).2.handler = c.handler := by
  unfold NetConnection.flushPacket NetConnection.tryDequeuePacket
  cases c.outPacketQueue <;> rfl

theorem Handled.next (h : s.Handled) (a : Bool × LinkAction) : (s.next a).Handled := by
  obtain ⟨b, a⟩ := a
  cases a with
  | submit i m => exact h.setEnd b rfl
  | pump i nowUs batchLimit flushTail => exact h.setEnd b rfl
  | ready i => exact h.setEnd b rfl
  | assemble keepAliveDue =>
    apply h.setEnd b
    rw [(assemble_frame (s.ends b) keepAliveDue).conn]
  | flush nowUs => exact h.setEnd b (handler_flushPacket _ nowUs)
  | deliver k =>
    show (s.deliver b k).Handled
    unfold Link.deliver
    cases (s.network (!b))[k]? with
    | none => exact h
    | some packet => exact h.setEnd b (handler_receivedRawPacket _ _)
  | duplicate k => exact h
  | lose k => exact h
  | dispatch =>
    apply h.setEnd b
    rw [(s.ends b).dispatchPendingPacket_dispatched.1]

section
variable {P : OutReadyBunch → Prop} {b : Bool}

/-- `Pump` puts the bunches it seals behind those that are queued. -/
theorem pump_extends (builder : ChannelBunchBuilder) (nowUs : ℕ → ℕ) (batchLimit : ℕ) (flushTail : Bool) (o : ℕ) :
    ∃ new, (builder.pump nowUs batchLimit flushTail o).1.queuedOutBunch = builder.queuedOutBunch ++ new := by
  refine pump_rule (I := fun b' _ => ∃ l, b'.queuedOutBunch = builder.queuedOutBunch ++ l) ?_ ?_ ?_
    (pumpMeets_true nowUs batchLimit flushTail builder o)
  · intro b' o' m rest now ⟨l, hl⟩ hq _
    obtain ⟨l', dropped, hr, -⟩ := Repacked.pumpMessage hq now o'
    exact ⟨l ++ l', by rw [hr.queue, hl, List.append_assoc]⟩
  · intro b' o' now ⟨l, hl⟩ _ _
    exact ⟨l ++ [b'.sealed ((o' + 1) % 2 ^ 32)], by rw [sealAndReset_eq, hl, List.append_assoc]⟩
  · refine ⟨[], ?_⟩
    rw [List.append_nil]
    unfold begun
    split_ifs <;> rfl

theorem queuedOutBunch_pumpBunch {c : NetConnection} {i : ℕ} {ch : NetChannel} (hch : c.channel? i = some ch)
    (nowUs : ℕ → ℕ) (batchLimit : ℕ) (flushTail : Bool) :
    (ch.pumpBunch nowUs batchLimit flushTail).bunchBuilder.queuedOutBunch =
      ch.bunchBuilder.queuedOutBunch ++ c.newBunches i nowUs batchLimit flushTail := by
  obtain ⟨new, hnew⟩ := pump_extends ch.bunchBuilder nowUs batchLimit flushTail ch.outReliable
  have hq : (ch.pumpBunch nowUs batchLimit flushTail).bunchBuilder.queuedOutBunch = ch.bunchBuilder.queuedOutBunch ++ new :=
    hnew
  rw [newBunches, SendRun.newBunches, hch]
  simp only [hq, List.drop_left]

theorem mem_pumpBunch {c : NetConnection} {i : ℕ} {ch : NetChannel} (hch : c.channel? i = some ch)
    {nowUs : ℕ → ℕ} {batchLimit : ℕ} {flushTail : Bool} {x : OutReadyBunch}
    (hx : x ∈ (ch.pumpBunch nowUs batchLimit flushTail).bunches) :
    x ∈ ch.bunches ∨ x ∈ c.newBunches i nowUs batchLimit flushTail := by
  rw [NetChannel.bunches, queuedOutBunch_pumpBunch hch] at hx
  have hx : x ∈ ch.bunchBuilder.queuedOutBunch ++ c.newBunches i nowUs batchLimit flushTail ++ ch.outBunchQueue ++
    ch.outUnAckedBunches.members := hx
  simp only [NetChannel.bunches, List.mem_append] at hx ⊢
  tauto

theorem Carried.congr {s' : Link} (h : Carried P b s) (h1 : s'.ends = s.ends) (h2 : s'.network = s.network) :
    Carried P b s' := by
  constructor
  · rw [h1]; exact h.conn
  · rw [h2]; exact h.network
  · rw [h1]; exact h.pending

theorem Carried.deliver (h : Carried P b s) (hP : ∀ x, P x → Numbered x) {p : OutReadyPacket} (hp : p ∈ s.network b) :
    Carried P b (s.setEnd (!b) ((s.ends (!b)).receivedRawPacket p.wire)) := by
  obtain ⟨hlaid, hheaded⟩ := h.network p hp
  refine ⟨?_, h.network, ?_⟩
  · rw [setEnd_not]
    exact h.conn
  · rw [setEnd_same]
    intro r hr
    rcases receivedRawPacket_cases (s.ends (!b)) p.wire with he | ⟨reader, hpayload, he⟩
    · rw [he] at hr
      exact h.pending r hr
    · rw [he] at hr
      rcases receivedPacket_pending _ reader hr with hold | hnew
      · exact h.pending r hold
      · refine ⟨p.bunchs, hlaid.bunchs, ?_⟩
        rw [hnew, hpayload, ofEvent_payload hP hlaid hheaded]

/-- What is on its way stays what it was, and what is sealed joins it. -/
theorem Carried.next (h : Carried P b s) (hhandler : s.Handled) (hP : ∀ x, P x → Numbered x) (a : Bool × LinkAction)
    (hnew : ∀ i nowUs batchLimit flushTail, a = (b, .pump i nowUs batchLimit flushTail) →
      ∀ x ∈ (s.ends b).newBunches i nowUs batchLimit flushTail, P x) : Carried P b (s.next a) := by
  obtain ⟨x, a⟩ := a
  cases a with
  | submit i m =>
    have hstep := h.setEnd x (c := (s.ends x).modifyChannel i fun ch => ch.registerMessage m)
      (fun _ hc => hc.modifyChannel i fun ch _ y hy => .inl hy) fun r hr => hr
    exact hstep.congr rfl rfl
  | pump i nowUs batchLimit flushTail =>
    have hstep := h.setEnd x (c := (s.ends x).modifyChannel i fun ch => ch.pumpBunch nowUs batchLimit flushTail)
      (by
        rintro rfl hc
        apply hc.modifyChannel i
        intro ch hch y hy
        exact (mem_pumpBunch hch hy).imp_right (hnew i nowUs batchLimit flushTail rfl y)) fun r hr => hr
    exact hstep.congr rfl rfl
  | ready i =>
    refine h.setEnd x ?_ fun r hr => hr
    intro _ hc
    apply hc.modifyChannel i
    intro ch _ y hy
    exact ((NetChannel.changed_flushReady ch).mem hy).imp_right fun hmem => absurd hmem List.not_mem_nil
  | assemble keepAliveDue =>
    refine h.setEnd x (fun _ hc => hc.assemble keepAliveDue) ?_
    rw [(assemble_frame (s.ends x) keepAliveDue).conn]
    exact fun r hr => hr
  | flush nowUs =>
    have hstep := h.setEnd x (c := ((s.ends x).flushPacket nowUs).2) (fun _ hc => (hc.flushPacket nowUs).2) (by
      unfold NetConnection.flushPacket NetConnection.tryDequeuePacket
      cases (s.ends x).outPacketQueue <;> exact fun r hr => hr)
    apply hstep.setNetwork x
    rintro rfl p hp
    rcases List.mem_append.mp hp with hp | hp
    · exact .inl hp
    · have hp := Option.mem_toList.mp hp
      exact .inr ⟨(h.conn.flushPacket nowUs).1 p hp, headed_flush (hhandler x) hp⟩
  | deliver k =>
    show Carried P b (s.deliver x k)
    unfold Link.deliver
    cases hget : (s.network (!x))[k]? with
    | none => exact h
    | some packet =>
      have hmem := List.mem_of_getElem? hget
      have hstep : Carried P b (s.setEnd x ((s.ends x).receivedRawPacket packet.wire)) := by
        by_cases hx : x = b
        · subst hx
          refine ⟨?_, h.network, ?_⟩
          · rw [setEnd_same]
            rcases receivedRawPacket_cases (s.ends x) packet.wire with he | ⟨reader, -, he⟩
            · rw [he]; exact h.conn
            · rw [he]; exact h.conn.receivedPacket reader
          · rw [setEnd_other]
            exact h.pending
        · obtain rfl := Bool.eq_not.mpr hx
          rw [Bool.not_not] at hmem
          exact h.deliver hP hmem
      apply hstep.setNetwork (!x)
      rintro rfl p hp
      exact .inl (List.mem_of_mem_eraseIdx hp)
  | duplicate k =>
    apply h.setNetwork x
    rintro rfl p hp
    rcases List.mem_append.mp hp with hp | hp
    · exact .inl hp
    · exact .inl (List.mem_of_getElem? (Option.mem_toList.mp hp))
  | lose k =>
    apply h.setNetwork x
    rintro rfl p hp
    exact .inl (List.mem_of_mem_eraseIdx hp)
  | dispatch =>
    apply h.setEnd x
    · exact fun _ hc => hc.dispatchPendingPacket
    · intro r hr
      rw [(s.ends x).dispatchPendingPacket_dispatched.1] at hr
      cases hr


end

end Link

end RudpEngine
