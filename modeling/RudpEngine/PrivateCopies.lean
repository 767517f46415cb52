import RudpEngine.ReceiveSteps

/-!
# Shared buffers, and buffers that are lost

Nobody can tell that the receive path shares its buffers: in every run each
connection and each handler gets what it would get out of private copies. What
keeps a buffer going is its next post; one that fails takes it away for good.
-/

namespace RudpEngine

namespace ReceivePath

variable {s : ReceivePath} {i : ℕ} {c : ReceivingConnection}

/-! ## Datagrams and their views -/

/-- The entries of completed events that have no reader yet. -/
def completions (s : ReceivePath) : List Completion := s.port ++ s.threads.flatMap ReceivingThread.entries

/-- The size byte of every datagram fits, and the payload of every reader lies in its datagram. -/
structure Framed (s : ReceivePath) : Prop where
  fits : ∀ c ∈ s.completions, SizeByteFits (s.data c.event) c.numOfBytes ∧ c.numOfBytes ≤ (s.data c.event).length
  inside : ∀ reader ∈ s.readers, reader.payload.offset + reader.payload.size ≤ reader.datagram.length

structure SameDatagrams (s t : ReceivePath) : Prop where
  data : t.data = s.data
  completions : ∀ c ∈ t.completions, c ∈ s.completions
  readers : ∀ reader ∈ t.readers, ∃ old ∈ s.readers, old.payload = reader.payload ∧ old.datagram = reader.datagram

section
variable {t u : ReceivePath} {k r : ℕ}

theorem SameDatagrams.of_eq (hdata : t.data = s.data) (hport : t.port = s.port) (hthreads : t.threads = s.threads)
    (hreaders : t.readers = s.readers) : s.SameDatagrams t := by
  refine ⟨hdata, fun c hc => ?_, fun reader hreader => ⟨reader, hreaders ▸ hreader, rfl, rfl⟩⟩
  unfold ReceivePath.completions at hc ⊢
  rw [hport, hthreads] at hc
  exact hc

theorem SameDatagrams.trans (h : s.SameDatagrams t) (h' : t.SameDatagrams u) : s.SameDatagrams u := by
  refine ⟨h'.data.trans h.data, fun c hc => h.completions c (h'.completions c hc), fun reader hreader => ?_⟩
  obtain ⟨mid, hmid, hp, hd⟩ := h'.readers reader hreader
  obtain ⟨old, hold, hp', hd'⟩ := h.readers mid hmid
  exact ⟨old, hold, hp'.trans hp, hd'.trans hd⟩

theorem sameDatagrams_setThread (thread' : ReceivingThread) {thread : ReceivingThread} (hk : s.threads[k]? = some thread)
    (hentries : ∀ c ∈ thread'.entries, c ∈ thread.entries) : s.SameDatagrams (s.setThread k thread') := by
  refine ⟨rfl, fun c hc => ?_, fun reader hreader => ⟨reader, hreader, rfl, rfl⟩⟩
  rcases List.mem_append.mp hc with hc | hc
  · exact List.mem_append_left _ hc
  · obtain ⟨other, hother, hin⟩ := List.mem_flatMap.mp hc
    rcases List.mem_or_eq_of_mem_set hother with hother | heq
    · exact List.mem_append_right _ (List.mem_flatMap.mpr ⟨other, hother, hin⟩)
    · exact List.mem_append_right _ (mem_flatMap_of_getElem? hk (hentries c (heq ▸ hin)))

theorem sameDatagrams_passReader {reader : EventReader} (hr : s.readers[r]? = some reader) (left : RecvPacketReader) :
    s.SameDatagrams (s.passReader r reader left) := by
  refine ⟨rfl, fun c hc => hc, fun other hother => ?_⟩
  rcases List.mem_or_eq_of_mem_set hother with hother | rfl
  · exact ⟨other, hother, rfl, rfl⟩
  · exact ⟨reader, List.mem_of_getElem? hr, rfl, rfl⟩

theorem Framed.of_same (h : s.Framed) (hsame : s.SameDatagrams t) : t.Framed := by
  refine ⟨fun c hc => ?_, fun reader hreader => ?_⟩
  · rw [hsame.data]
    exact h.fits c (hsame.completions c hc)
  · obtain ⟨old, hold, hp, hd⟩ := hsame.readers reader hreader
    rw [← hp, ← hd]
    exact h.inside old hold

theorem mem_arrived {c : Completion} (hc : c ∈ s.completions) : c.event ∈ s.arrived := by
  rcases List.mem_append.mp hc with hc | hc
  · exact List.mem_append_left _ (List.mem_map_of_mem hc)
  · obtain ⟨thread, hthread, hc⟩ := List.mem_flatMap.mp hc
    exact List.mem_append_right _ (List.mem_flatMap.mpr ⟨thread, hthread, List.mem_map_of_mem hc⟩)

/-- A datagram whose size byte fits is written into a buffer that no completed event has. -/
theorem Framed.complete (h : s.Framed) (hsound : s.Sound) {datagram : List Byte}
    (hfits : SizeByteFits (datagram.take maxPacketSize) (datagram.take maxPacketSize).length) (i : ℕ) (hashKey : BitVec 64) :
    (s.complete i hashKey datagram).Framed := by
  unfold ReceivePath.complete
  cases hi : s.posted[i]? with
  | none => exact h
  | some event =>
    generalize datagram.take maxPacketSize = bytes at hfits
    have hnew : SizeByteFits (bytes ++ (s.data event).drop bytes.length) bytes.length := by
      have hpos : 0 < bytes.length := Nat.lt_of_lt_of_le hfits.1 hfits.2
      have hfirst : byteAt ((bytes ++ (s.data event).drop bytes.length).take bytes.length) 0 =
          byteAt (bytes ++ (s.data event).drop bytes.length) 0 := byteAt_take hpos
      rw [List.take_left] at hfirst
      unfold SizeByteFits
      rw [← hfirst]
      exact hfits
    have hother : ∀ c ∈ s.completions, c.event ≠ event := by
      intro c hc heq
      have hle := hsound.places_le event
      have hposted := List.count_pos_iff.mpr (List.mem_of_getElem? hi)
      have harrived := List.count_pos_iff.mpr (heq ▸ mem_arrived hc)
      unfold places at hle
      omega
    refine ⟨fun c hc => ?_, h.inside⟩
    have hcases : c ∈ s.completions ∨ c = ⟨event, bytes.length, hashKey⟩ := by
      rcases List.mem_append.mp hc with hc | hc
      · rcases List.mem_append.mp hc with hc | hc
        · exact .inl (List.mem_append_left _ hc)
        · exact .inr (List.mem_singleton.mp hc)
      · exact .inl (List.mem_append_right _ hc)
    rcases hcases with hc | rfl
    · show SizeByteFits (Function.update s.data event _ c.event) c.numOfBytes ∧
        c.numOfBytes ≤ (Function.update s.data event _ c.event).length
      rw [Function.update_of_ne (hother c hc)]
      exact h.fits c hc
    · show SizeByteFits (Function.update s.data event _ event) bytes.length ∧
        bytes.length ≤ (Function.update s.data event _ event).length
      rw [Function.update_self]
      exact ⟨hnew, by rw [List.length_append]; exact Nat.le_add_right _ _⟩

theorem sameDatagrams_pumpIo (s : ReceivePath) (k removedCount : ℕ) : s.SameDatagrams (s.pumpIo k removedCount) := by
  unfold ReceivePath.pumpIo
  split
  · refine ⟨rfl, fun c hc => ?_, fun reader hreader => ⟨reader, hreader, rfl, rfl⟩⟩
    rcases List.mem_append.mp hc with hc | hc
    · exact List.mem_append_left _ (List.mem_of_mem_drop hc)
    · obtain ⟨thread, hthread, hc⟩ := List.mem_flatMap.mp hc
      rcases List.mem_or_eq_of_mem_set hthread with hthread | rfl
      · exact List.mem_append_right _ (List.mem_flatMap.mpr ⟨thread, hthread, hc⟩)
      · exact List.mem_append_left _ (List.mem_of_mem_take hc)
  · exact .of_eq rfl rfl rfl rfl

theorem Framed.recvCompletionEvent (h : s.Framed) (k : ℕ) (now : ℤ) (rolls : SimulatorRolls) :
    (s.recvCompletionEvent k now rolls).Framed := by
  unfold ReceivePath.recvCompletionEvent
  split
  case h_2 => exact h
  rename_i entry entries hk
  have hset := sameDatagrams_setThread ⟨entries, some entry.event, (s.simulator.process s.readers.length now rolls).1⟩ hk
    fun c hc => List.mem_cons_of_mem _ hc
  obtain ⟨⟨-, hfits⟩, hlen⟩ := h.fits entry
    (List.mem_append_right _ (mem_flatMap_of_getElem? hk List.mem_cons_self))
  refine ⟨fun c hc => h.fits c (hset.completions c hc), fun reader hreader => ?_⟩
  rcases List.mem_append.mp hreader with hreader | hreader
  · exact h.inside reader hreader
  · obtain rfl := List.mem_singleton.mp hreader
    simp only [EventReader.ofEvent, RecvPacketReader.payloadView, List.length_take]
    omega

theorem sameDatagrams_dispatch (s : ReceivePath) (mode : Reading) (k : ℕ) :
    s.SameDatagrams (s.dispatchReceivedDatagram mode k) := by
  unfold ReceivePath.dispatchReceivedDatagram
  split
  case h_2 => exact .of_eq rfl rfl rfl rfl
  rename_i entries eventOwner r toDispatch hk
  have hset := sameDatagrams_setThread ⟨entries, eventOwner, toDispatch⟩ hk fun c hc => hc
  simp only
  generalize s.setThread k ⟨entries, eventOwner, toDispatch⟩ = u at hset
  cases hread : u.readers[r]? with
  | none => exact hset
  | some reader =>
    simp only
    cases u.hashToConnectionMap reader.hashKey with
    | some i =>
      simp only
      unfold receivedRawPacket
      cases u.connections[i]? with
      | none => exact hset.trans (.of_eq rfl rfl rfl rfl)
      | some c => exact hset.trans (.of_eq rfl rfl rfl rfl)
    | none =>
      simp only
      split
      · exact hset.trans ((sameDatagrams_passReader hread _).trans (.of_eq rfl rfl rfl rfl))
      · exact hset.trans (.of_eq rfl rfl rfl rfl)

theorem sameDatagrams_receivedJob (s : ReceivePath) (mode : Reading) (i r : ℕ) (c : ReceivingConnection) (found : Bool)
    (sequences : Option (ℤ × ℤ)) : s.SameDatagrams (s.receivedJob mode i r c found sequences) := by
  unfold ReceivePath.receivedJob
  cases hread : s.readers[r]? with
  | none => exact .of_eq rfl rfl rfl rfl
  | some reader =>
    simp only
    split
    · split
      · exact (sameDatagrams_passReader hread _).trans (.of_eq rfl rfl rfl rfl)
      · exact (sameDatagrams_passReader hread _).trans (.of_eq rfl rfl rfl rfl)
    · rename_i left _
      refine (sameDatagrams_passReader hread left).trans ?_
      unfold ReceivePath.initSequence
      split
      · exact .of_eq rfl rfl rfl rfl
      · split <;> exact .of_eq rfl rfl rfl rfl
    · exact (sameDatagrams_passReader hread _).trans (.of_eq rfl rfl rfl rfl)

end

def FitsAction : ReceiveAction → Prop
  | .complete _ _ datagram => SizeByteFits (datagram.take maxPacketSize) (datagram.take maxPacketSize).length
  | _ => True

theorem Framed.next (h : s.Framed) (hsound : s.Sound) {a : ReceiveAction} (hfits : FitsAction a) (mode : Reading) :
    (s.next mode a).Framed := by
  have hsame : ∀ t, s.SameDatagrams t → t.Framed := fun _ => h.of_same
  cases a with
  | complete i hashKey datagram => exact h.complete hsound hfits i hashKey
  | recvCompletionEvent k now rolls => exact h.recvCompletionEvent k now rolls
  | pumpIo k removedCount => exact hsame _ (sameDatagrams_pumpIo s k removedCount)
  | dispatch k => exact hsame _ (sameDatagrams_dispatch s mode k)
  | post i posts =>
    refine hsame (s.postRecvEvent i posts) ?_
    unfold ReceivePath.postRecvEvent
    split
    · exact .of_eq rfl rfl rfl rfl
    · simp only
      split <;> exact .of_eq rfl rfl rfl rfl
  | endRecvCompletionEvent k =>
    refine hsame (s.endRecvCompletionEvent k) ?_
    unfold ReceivePath.endRecvCompletionEvent
    split
    · rename_i entries event hk
      exact (sameDatagrams_setThread ⟨entries, none, []⟩ hk fun c hc => hc).trans (.of_eq rfl rfl rfl rfl)
    · exact .of_eq rfl rfl rfl rfl
  | flushStale k now =>
    refine hsame (s.flushStale k now) ?_
    unfold ReceivePath.flushStale
    split
    · rename_i hk
      exact (sameDatagrams_setThread ⟨[], none, (s.simulator.flushStale now).1⟩ hk fun c hc => hc).trans
        (.of_eq rfl rfl rfl rfl)
    · exact .of_eq rfl rfl rfl rfl
  | reconfigure settings => exact hsame _ (.of_eq rfl rfl rfl rfl)
  | addClient hashKey conn => exact hsame _ (.of_eq rfl rfl rfl rfl)
  | removeConnection i => exact hsame _ (.of_eq rfl rfl rfl rfl)
  | destroy i =>
    refine hsame (s.destroy i) ?_
    unfold ReceivePath.destroy
    split
    · exact .of_eq rfl rfl rfl rfl
    · split <;> exact .of_eq rfl rfl rfl rfl
  | tickDispatch i =>
    refine hsame (s.tickDispatch i) ?_
    unfold ReceivePath.tickDispatch
    split <;> exact .of_eq rfl rfl rfl rfl
  | runJob i found sequences =>
    refine hsame (s.runJob mode i found sequences) ?_
    unfold ReceivePath.runJob
    split
    · exact .of_eq rfl rfl rfl rfl
    · split
      · exact .of_eq rfl rfl rfl rfl
      · split
        · exact .of_eq rfl rfl rfl rfl
        · split
          · exact sameDatagrams_receivedJob ..
          · exact .of_eq rfl rfl rfl rfl
        · exact .of_eq rfl rfl rfl rfl
  | tickStep i =>
    refine hsame (s.tickStep mode i) ?_
    unfold ReceivePath.tickStep ReceivePath.dispatchPending ReceivePath.dispatchPendingMessage
    repeat' split
    all_goals exact .of_eq rfl rfl rfl rfl
  | work i change =>
    refine hsame (s.work i change) ?_
    unfold ReceivePath.work
    split <;> exact .of_eq rfl rfl rfl rfl

theorem framed_start (isServer : Bool) (posts : ℕ → Bool) (settings : PacketSimulationSettings) (threads : ℕ) :
    (start isServer posts settings threads).Framed := by
  have hentries : (start isServer posts settings threads).threads.flatMap ReceivingThread.entries = [] :=
    List.flatMap_eq_nil_iff.mpr fun t ht => by rw [List.eq_of_mem_replicate ht]
  refine ⟨fun c hc => ?_, fun reader hreader => absurd hreader List.not_mem_nil⟩
  rw [completions, hentries] at hc
  exact absurd hc List.not_mem_nil

/-! ## What is shown -/

theorem Sound.shown_eq (h : s.Sound) (hframed : s.Framed) {r : ℕ} {reader : EventReader} (hr : r ∈ s.pointers)
    (hreader : s.readers[r]? = some reader) : s.shown .inPlace reader = s.shown .copied reader := by
  have hintact := h.intact r hr reader hreader
  have hinside := hframed.inside reader (List.mem_of_getElem? hreader)
  have hbytes : reader.payload.bytes (s.data reader.ownerEvent) = reader.payload.bytes reader.datagram := by
    rw [← hintact, BufferView.bytes, BufferView.bytes, List.drop_take, List.take_take, Nat.min_eq_left (by omega)]
  exact congrArg (fun payload => RecvPacketReader.mk reader.header payload reader.bConnectionlessPacket) hbytes

theorem Sound.read_eq (h : s.Sound) (hc : s.connections[i]? = some c) {m : ℕ × PendingMessage}
    (hm : m ∈ c.pendingDispatchMessages) : s.read .inPlace m.2 = s.read .copied m.2 := by
  have hshows := h.shows c (List.mem_of_getElem? hc) m hm
  unfold read
  cases ho : m.2.ownerEvent with
  | none => rfl
  | some e => exact congrArg (fun view => { m.2.message with view := view }) (hshows e ho)

/-! ## What each step makes of it -/

theorem Sound.dispatchReceivedDatagram_eq (h : s.Sound) (hframed : s.Framed) (k : ℕ) :
    s.dispatchReceivedDatagram .inPlace k = s.dispatchReceivedDatagram .copied k := by
  unfold ReceivePath.dispatchReceivedDatagram
  split
  case h_2 => rfl
  rename_i entries eventOwner r toDispatch hk
  have hlt := h.made r (pointer_of_thread hk List.mem_cons_self)
  have hread := List.getElem?_eq_getElem hlt
  have hshown : (s.setThread k ⟨entries, eventOwner, toDispatch⟩).shown .inPlace s.readers[r] =
      (s.setThread k ⟨entries, eventOwner, toDispatch⟩).shown .copied s.readers[r] :=
    h.shown_eq hframed (pointer_of_thread hk List.mem_cons_self) hread
  have hsame : (s.setThread k ⟨entries, eventOwner, toDispatch⟩).readers[r]? = some s.readers[r] := hread
  simp only [hsame, hshown]

theorem Sound.receivedJob_eq (h : s.Sound) (hframed : s.Framed) (hc : s.connections[i]? = some c) {r : ℕ} (hr : r ∈ c.readers)
    (c' : ReceivingConnection) (found : Bool) (sequences : Option (ℤ × ℤ)) :
    s.receivedJob .inPlace i r c' found sequences = s.receivedJob .copied i r c' found sequences := by
  unfold ReceivePath.receivedJob
  cases hread : s.readers[r]? with
  | none => rfl
  | some reader => simp only [h.shown_eq hframed (pointer_of_connection hc hr) hread]

theorem Sound.runJob_eq (h : s.Sound) (hframed : s.Framed) (i : ℕ) (found : Bool) (sequences : Option (ℤ × ℤ)) :
    s.runJob .inPlace i found sequences = s.runJob .copied i found sequences := by
  unfold ReceivePath.runJob
  cases hc : s.connections[i]? with
  | none => rfl
  | some c =>
    simp only
    cases hjobs : c.jobs with
    | nil => simp only
    | cons job jobs =>
      cases job with
      | tick => simp only
      | received r =>
        have hr : r ∈ c.readers := List.mem_append_left _ (by rw [hjobs]; exact List.mem_cons_self)
        simp only [h.receivedJob_eq hframed hc hr]

theorem Sound.tickStep_eq (h : s.Sound) (hframed : s.Framed) (i : ℕ) : s.tickStep .inPlace i = s.tickStep .copied i := by
  unfold ReceivePath.tickStep
  cases hc : s.connections[i]? with
  | none => rfl
  | some c =>
    cases hpending : c.pendingDispatchPacketReaders with
    | cons r rest =>
      have hr : r ∈ c.readers := List.mem_append_right _ (by rw [hpending]; exact List.mem_cons_self)
      have hdispatch : ∀ c', s.dispatchPending .inPlace i r c' = s.dispatchPending .copied i r c' := by
        intro c'
        unfold ReceivePath.dispatchPending
        cases hread : s.readers[r]? with
        | none => rfl
        | some reader => simp only [h.shown_eq hframed (pointer_of_connection hc hr) hread]
      simp only [hpending, hdispatch]
    | nil =>
      have hmessage : ∀ j, s.dispatchPendingMessage .inPlace i j c = s.dispatchPendingMessage .copied i j c := by
        intro j
        unfold ReceivePath.dispatchPendingMessage
        cases hj : c.pendingDispatchMessages[j]? with
        | none => rfl
        | some m => simp only [h.read_eq hc (List.mem_of_getElem? hj)]
      simp only [hpending, hmessage]

theorem Sound.next_eq (h : s.Sound) (hframed : s.Framed) (a : ReceiveAction) : s.next .inPlace a = s.next .copied a := by
  cases a with
  | dispatch k => exact h.dispatchReceivedDatagram_eq hframed k
  | runJob i found sequences => exact h.runJob_eq hframed i found sequences
  | tickStep i => exact h.tickStep_eq hframed i
  | _ => rfl

/-- Whatever the threads, the jobs, the socket and the simulator do and in which order, a run in which all share the
buffers is step by step the run in which everybody reads a private copy of the datagram: the connections are in the same
states and the handlers have got the same messages. -/
theorem shared_buffers_as_private_copies (isServer : Bool) (posts : ℕ → Bool) (settings : PacketSimulationSettings)
    (threads : ℕ) {as : List ReceiveAction} (hfits : ∀ a ∈ as, FitsAction a) :
    (receivePath .inPlace).runFrom (start isServer posts settings threads) as =
      (receivePath .copied).runFrom (start isServer posts settings threads) as :=
  System.runFrom_congr (S := receivePath .inPlace) (T := receivePath .copied) (I := fun s => s.Sound ∧ s.Framed)
    (fun _ a h ha => ⟨h.1.next a, h.2.next h.1 ha .inPlace⟩) (fun _ a h => h.1.next_eq h.2 a)
    ⟨sound_start isServer posts settings threads, framed_start isServer posts settings threads⟩ hfits

instance : DecidablePred FitsAction
  | .complete _ _ datagram => inferInstanceAs (Decidable (1 ≤ (byteAt (datagram.take maxPacketSize) 0).toNat ∧
      (byteAt (datagram.take maxPacketSize) 0).toNat ≤ (datagram.take maxPacketSize).length))
  | .post .. | .pumpIo .. | .recvCompletionEvent .. | .endRecvCompletionEvent .. | .flushStale .. | .reconfigure ..
  | .dispatch .. | .addClient .. | .removeConnection .. | .destroy .. | .tickDispatch .. | .runJob .. | .tickStep ..
  | .work .. => inferInstanceAs (Decidable True)

def messageDatagram (p : NetPacketNotify) (chSequence : ℕ) (message : List Byte) : List Byte :=
  wireHeader p ConnectionPacketBuilder.buildStart 0 ++
    BunchHeader.bytes ⟨true, true, false, true, 0, chSequence, 1, message.length + 4⟩ ++
    leBytes 2 (message.length + 4) ++ [1, 0] ++ message

/-- A datagram comes into the `i`-th of the posted buffers, and its message is handled. -/
def handleDatagram (i : ℕ) (datagram : List Byte) : List ReceiveAction :=
  [.complete i 5 datagram, .pumpIo 0 1, .recvCompletionEvent 0 0 .zero, .dispatch 0, .endRecvCompletionEvent 0,
    .runJob 0 true none, .tickDispatch 0, .runJob 0 true none, .tickStep 0, .tickStep 0, .tickStep 0]

/-- Two datagrams come one after the other, the second into the buffer of the first. -/
def repostedRun : List ReceiveAction :=
  [.addClient 5 ReceiveLog.receiver.conn] ++
    handleDatagram 0 (messageDatagram ReceiveLog.receiver.conn.packetNotify 1 [42, 43]) ++ [.post 0 true] ++
    handleDatagram 99 (messageDatagram ReceiveLog.receiver.conn.packetNotify.commitAndIncrementOutSeq 2 [44])

theorem shared_buffers_as_private_copies_reposted :
    ((receivePath .copied).runFrom (start true (fun _ => true) {} 1) repostedRun).connections.map
      ReceivingConnection.handled = [[(0, ⟨[42, 43], 1⟩), (0, ⟨[44], 1⟩)]] := by
  rw [← shared_buffers_as_private_copies true (fun _ => true) {} 1 (by decide +kernel)]
  decide +kernel

/-! ## Buffers in use and buffers that are lost -/

/-- Each of the events is in one place. It is in use as long as a reader or a message of it is somewhere, and once all of
them are gone and the deleter is done it is posted or it is lost. -/
theorem receive_buffers_conserved (h : (receivePath .inPlace).Reachable s) :
    (∀ e < recvEventCount, s.places e = 1) ∧ (∀ e, s.events.inUse e = 1 ↔ e ∈ s.uses) ∧
      (s.uses = [] → s.arrived = [] → s.events.released = [] → ∀ e < recvEventCount, e ∈ s.posted ∨ e ∈ s.lost) := by
  have hsound := Sound.of_reachable h
  have hin : ∀ e, s.events.inUse e = 1 ↔ e ∈ s.uses := by
    intro e
    refine ⟨fun hone => ?_, hsound.inUse_of_mem⟩
    by_contra hnot
    rw [(s.events.inUse_eq_zero e).mpr ((hsound.owned e).trans (List.count_eq_zero.mpr hnot))] at hone
    cases hone
  refine ⟨fun e he => (hsound.placed e).trans (if_pos he), hin, fun huses harrived hreleased e he => ?_⟩
  have hplaced := (hsound.placed e).trans (if_pos he)
  have hunused : s.events.inUse e = 0 := (s.events.inUse_eq_zero e).mpr ((hsound.owned e).trans (by rw [huses]; rfl))
  rw [places, harrived, hreleased, hunused, List.count_nil] at hplaced
  by_contra hnot
  push Not at hnot
  rw [List.count_eq_zero.mpr hnot.1, List.count_eq_zero.mpr hnot.2] at hplaced
  omega

/-- One datagram of an unknown peer has come and gone, and its buffer waits again. -/
def oneDatagram : ReceivePath :=
  (receivePath .inPlace).runFrom (start true (fun _ => true) {} 1)
    [.complete 0 5 [1], .pumpIo 0 1, .recvCompletionEvent 0 0 .zero, .dispatch 0, .endRecvCompletionEvent 0, .post 0 true]

theorem receive_buffers_conserved_one : oneDatagram.places 0 = 1 ∧ (0 ∈ oneDatagram.posted ∨ 0 ∈ oneDatagram.lost) := by
  have hstart : (receivePath .inPlace).Reachable (start true (fun _ => true) {} 1) := .init ⟨_, _, _, _, rfl⟩
  have hreach : (receivePath .inPlace).Reachable oneDatagram := System.reachable_runFrom hstart _
  have h := receive_buffers_conserved hreach
  exact ⟨h.1 0 (by decide), h.2.2 (by decide +kernel) (by decide +kernel) (by decide +kernel) 0 (by decide)⟩

/-- Only a post adds to what is lost, and nothing takes from it. -/
theorem lost_next (mode : Reading) (s : ReceivePath) (a : ReceiveAction) : s.lost <+: (s.next mode a).lost := by
  cases a with
  | complete i hashKey datagram =>
    show s.lost <+: (s.complete i hashKey datagram).lost
    unfold complete
    split <;> exact List.prefix_rfl
  | post i posts =>
    show s.lost <+: (s.postRecvEvent i posts).lost
    unfold postRecvEvent
    split
    · exact List.prefix_rfl
    · split
      · exact List.prefix_rfl
      · exact List.prefix_append _ _
  | pumpIo k removedCount =>
    show s.lost <+: (s.pumpIo k removedCount).lost
    unfold pumpIo
    split <;> exact List.prefix_rfl
  | recvCompletionEvent k now rolls =>
    show s.lost <+: (s.recvCompletionEvent k now rolls).lost
    unfold recvCompletionEvent
    split <;> exact List.prefix_rfl
  | endRecvCompletionEvent k =>
    show s.lost <+: (s.endRecvCompletionEvent k).lost
    unfold endRecvCompletionEvent
    split <;> exact List.prefix_rfl
  | flushStale k now =>
    show s.lost <+: (s.flushStale k now).lost
    unfold flushStale
    split <;> exact List.prefix_rfl
  | reconfigure settings => exact List.prefix_rfl
  | dispatch k =>
    show s.lost <+: (s.dispatchReceivedDatagram mode k).lost
    unfold dispatchReceivedDatagram receivedRawPacket
    simp only
    repeat' split
    all_goals exact List.prefix_rfl
  | addClient hashKey conn => exact List.prefix_rfl
  | removeConnection i => exact List.prefix_rfl
  | destroy i =>
    show s.lost <+: (s.destroy i).lost
    unfold destroy
    repeat' split
    all_goals exact List.prefix_rfl
  | tickDispatch i =>
    show s.lost <+: (s.tickDispatch i).lost
    unfold tickDispatch
    split <;> exact List.prefix_rfl
  | runJob i found sequences =>
    show s.lost <+: (s.runJob mode i found sequences).lost
    unfold runJob receivedJob initSequence
    simp only
    repeat' split
    all_goals exact List.prefix_rfl
  | tickStep i =>
    show s.lost <+: (s.tickStep mode i).lost
    unfold tickStep dispatchPending dispatchPendingMessage
    repeat' split
    all_goals exact List.prefix_rfl
  | work i change =>
    show s.lost <+: (s.work i change).lost
    unfold work
    split <;> exact List.prefix_rfl

theorem Sound.lt_of_places (h : s.Sound) {e : ℕ} (he : 0 < s.places e) : e < recvEventCount := by
  rw [h.placed e] at he
  split_ifs at he with hlt
  · exact hlt
  · exact absurd he (Nat.lt_irrefl 0)

/-- An event that could not be posted never takes a datagram again, and a driver that has lost them all is deaf. -/
theorem lost_buffers_stay_lost (h : (receivePath .inPlace).Reachable s) (as : List ReceiveAction) :
    (∀ e ∈ s.lost, e ∉ ((receivePath .inPlace).runFrom s as).posted ∧ e ∉ ((receivePath .inPlace).runFrom s as).arrived ∧
      e ∉ ((receivePath .inPlace).runFrom s as).uses) ∧
    (s.lost.length = recvEventCount → ((receivePath .inPlace).runFrom s as).posted = [] ∧
      ((receivePath .inPlace).runFrom s as).arrived = [] ∧ ((receivePath .inPlace).runFrom s as).uses = []) := by
  have hlost : s.lost <+: ((receivePath .inPlace).runFrom s as).lost := by
    clear h
    induction as generalizing s with
    | nil => exact List.prefix_rfl
    | cons a as ih => exact (lost_next .inPlace s a).trans ih
  have hreach := System.reachable_runFrom h as
  generalize (receivePath .inPlace).runFrom s as = t at hlost hreach
  have hsound := Sound.of_reachable hreach
  have hgone : ∀ e ∈ t.lost, e ∉ t.posted ∧ e ∉ t.arrived ∧ e ∉ t.uses := by
    intro e he
    have hle := hsound.places_le e
    have hpos := List.count_pos_iff.mpr he
    unfold places at hle
    refine ⟨fun hmem => ?_, fun hmem => ?_, hsound.not_mem_uses (by omega)⟩
    · have := List.count_pos_iff.mpr hmem
      omega
    · have := List.count_pos_iff.mpr hmem
      omega
  refine ⟨fun e he => hgone e (hlost.subset he), fun hall => ?_⟩
  have hbefore := Sound.of_reachable h
  have hnodup : s.lost.Nodup := List.nodup_iff_count_le_one.mpr fun e => by
    have hle := hbefore.places_le e
    unfold places at hle
    omega
  have hperm : s.lost.Perm (List.range recvEventCount) :=
    (List.subperm_of_subset hnodup fun e he => List.mem_range.mpr (hbefore.lt_of_places (by
      have := List.count_pos_iff.mpr he
      unfold places
      omega))).perm_of_length_le (by rw [List.length_range, hall])
  have hnone : ∀ e, 0 < t.places e → e ∈ t.lost := fun e he =>
    hlost.subset (hperm.mem_iff.mpr (List.mem_range.mpr (hsound.lt_of_places he)))
  refine ⟨?_, ?_, ?_⟩
  · refine List.eq_nil_iff_forall_not_mem.mpr fun e he => (hgone e (hnone e ?_)).1 he
    have := List.count_pos_iff.mpr he
    unfold places
    omega
  · refine List.eq_nil_iff_forall_not_mem.mpr fun e he => (hgone e (hnone e ?_)).2.1 he
    have := List.count_pos_iff.mpr he
    unfold places
    omega
  · refine List.eq_nil_iff_forall_not_mem.mpr fun e he => (hgone e (hnone e ?_)).2.2 he
    have := hsound.inUse_of_mem he
    unfold places
    omega

theorem lost_buffers_stay_lost_all : ((receivePath .inPlace).runFrom (start true (fun _ => false) {} 1)
    [.complete 0 5 [1], .pumpIo 0 1]).arrived = [] :=
  ((lost_buffers_stay_lost (.init ⟨_, _, _, _, rfl⟩) _).2 (by decide +kernel)).2.1

end ReceivePath

end RudpEngine
