import RudpEngine.ReceiveBuffers
import Mathlib.Data.List.Infix

/-!
# Every step keeps the buffers apart

Each step of the receive path hands pointers on, copies them or lets them go; the
socket writes the buffers of events that are posted, and nobody has a pointer to
those.
-/

namespace RudpEngine

namespace ReceivePath

variable {s : ReceivePath} {mode : Reading} {k i r : ℕ}

/-! ## The start and the socket -/

theorem sound_start (isServer : Bool) (posts : ℕ → Bool) (settings : PacketSimulationSettings) (threads : ℕ) :
    (start isServer posts settings threads).Sound := by
  have hdispatch : (start isServer posts settings threads).threads.flatMap ReceivingThread.toDispatch = [] :=
    List.flatMap_eq_nil_iff.mpr fun t ht => by rw [List.eq_of_mem_replicate ht]
  have howner : ((start isServer posts settings threads).threads.flatMap fun t => t.eventOwner.toList) = [] :=
    List.flatMap_eq_nil_iff.mpr fun t ht => by rw [List.eq_of_mem_replicate ht]; rfl
  have hentries : ((start isServer posts settings threads).threads.flatMap fun t => t.entries.map Completion.event) = [] :=
    List.flatMap_eq_nil_iff.mpr fun t ht => by rw [List.eq_of_mem_replicate ht]; rfl
  have hpointers : (start isServer posts settings threads).pointers = [] := by
    rw [pointers, hdispatch]
    rfl
  constructor
  case owned =>
    intro e
    rw [uses, hpointers, owners, howner]
    rfl
  case placed =>
    intro e
    rw [places, arrived, hentries]
    show ((List.range recvEventCount).filter posts).count e + ([] : List ℕ).count e + 0 + ([] : List ℕ).count e +
      ((List.range recvEventCount).filter fun e => !posts e).count e = _
    have hsplit := (List.filter_append_perm posts (List.range recvEventCount)).count_eq e
    rw [List.count_append] at hsplit
    simp only [List.count_nil, Nat.add_zero]
    rw [hsplit]
    split_ifs with he
    · exact List.count_eq_one_of_mem List.nodup_range (List.mem_range.mpr he)
    · exact List.count_eq_zero.mpr fun hmem => he (List.mem_range.mp hmem)
  case made =>
    rw [hpointers]
    exact fun r hr => absurd hr List.not_mem_nil
  case intact =>
    rw [hpointers]
    exact fun r hr => absurd hr List.not_mem_nil
  case shows => exact fun c hc => absurd hc List.not_mem_nil

theorem count_eraseIdx {α : Type} [BEq α] [LawfulBEq α] {l : List α} {i : ℕ} {a : α} (h : l[i]? = some a) (b : α) :
    (l.eraseIdx i).count b + [a].count b = l.count b := by
  obtain ⟨hi, rfl⟩ := List.getElem?_eq_some_iff.mp h
  rw [← (List.getElem_cons_eraseIdx_perm hi).count_eq b, List.count_cons, List.count_cons, List.count_nil, Nat.zero_add]

/-- A buffer that is written has no pointer to it. -/
theorem Sound.complete (h : s.Sound) (i : ℕ) (hashKey : BitVec 64) (datagram : List Byte) :
    (s.complete i hashKey datagram).Sound := by
  unfold ReceivePath.complete
  cases hi : s.posted[i]? with
  | none => exact h
  | some event =>
    simp only
    have hposted := count_eraseIdx hi
    have hunused : event ∉ s.uses := by
      refine h.not_mem_uses ?_
      have hle := h.places_le event
      have hpos := List.count_pos_iff.mpr (List.mem_of_getElem? hi)
      unfold places at hle
      omega
    refine ⟨h.owned, ?_, h.made, ?_, ?_⟩
    · intro e
      have hplaced := h.placed e
      have he := hposted e
      simp only [places, arrived, List.map_append, List.map_cons, List.map_nil, List.count_append] at hplaced ⊢
      omega
    · intro r hr reader hreader
      have hne : reader.ownerEvent ≠ event := fun heq => hunused (heq ▸ mem_uses_of_pointer hr hreader)
      show (Function.update s.data event _ reader.ownerEvent).take _ = _
      rw [Function.update_of_ne hne]
      exact h.intact r hr reader hreader
    · intro c hc m hm e he
      have hne : e ≠ event := fun heq => hunused (heq ▸ mem_uses_of_message hc hm he)
      show m.2.ShownBy (Function.update s.data event _ e)
      rw [Function.update_of_ne hne]
      exact h.shows c hc m hm e he

theorem Sound.postRecvEvent (h : s.Sound) (i : ℕ) (posts : Bool) : (s.postRecvEvent i posts).Sound := by
  unfold ReceivePath.postRecvEvent
  cases hi : s.events.released[i]? with
  | none => exact h
  | some event =>
    have hreleased := count_eraseIdx hi
    have hplaced : ∀ e, (s.posted.count e + s.arrived.count e + s.events.inUse e + (s.events.released.eraseIdx i).count e +
        s.lost.count e) + [event].count e = if e < recvEventCount then 1 else 0 := by
      intro e
      have he := hreleased e
      have hplaced := h.placed e
      unfold places at hplaced
      omega
    cases posts with
    | true =>
      refine ⟨h.owned, fun e => ?_, h.made, h.intact, h.shows⟩
      rw [← hplaced e]
      show (s.posted ++ [event]).count e + s.arrived.count e + s.events.inUse e + (s.events.released.eraseIdx i).count e +
        s.lost.count e = _
      rw [List.count_append]
      omega
    | false =>
      refine ⟨h.owned, fun e => ?_, h.made, h.intact, h.shows⟩
      rw [← hplaced e]
      show s.posted.count e + s.arrived.count e + s.events.inUse e + (s.events.released.eraseIdx i).count e +
        (s.lost ++ [event]).count e = _
      rw [List.count_append]
      omega

/-! ## The threads -/

theorem Sound.pumpIo (h : s.Sound) (k removedCount : ℕ) : (s.pumpIo k removedCount).Sound := by
  unfold ReceivePath.pumpIo
  split
  · rename_i hk
    generalize min removedCount 64 = n
    refine h.moved rfl rfl (fun e => ?_) rfl rfl rfl ?_ ?_ h.shows
    · have hset := count_flatMap_set (fun t : ReceivingThread => t.entries.map Completion.event) e hk { entries := s.port.take n }
      have hport : ((s.port.take n).map Completion.event).count e + ((s.port.drop n).map Completion.event).count e =
          (s.port.map Completion.event).count e := by
        rw [← List.count_append, ← List.map_append, List.take_append_drop]
      simp only [arrived, setThread, List.count_append, List.map_nil, List.count_nil] at hset ⊢
      omega
    · exact List.perm_iff_count.mpr fun r => count_pointers_setThread _ hk r
    · exact List.perm_iff_count.mpr fun e => count_owners_setThread _ hk e
  · exact h

/-- A completed event gets a reader, with as many pointers as `Process` keeps, and the pointer of its thread. -/
theorem Sound.recvCompletionEvent (h : s.Sound) (k : ℕ) (now : ℤ) (rolls : SimulatorRolls) :
    (s.recvCompletionEvent k now rolls).Sound := by
  unfold ReceivePath.recvCompletionEvent
  split
  case h_2 => exact h
  rename_i entry entries hk
  obtain ⟨-, hperm, -⟩ := s.simulator.process_cases s.readers.length now rolls
  have hentering : ∀ r ∈ PacketSimulator.entering s.simulator.settings s.readers.length rolls, r = s.readers.length := by
    unfold PacketSimulator.entering
    split_ifs <;> simp
  simp only
  generalize s.simulator.process s.readers.length now rolls = result at hperm
  generalize PacketSimulator.entering s.simulator.settings s.readers.length rolls = entering at hperm hentering
  generalize hreader : EventReader.ofEvent entry.event entry.hashKey (s.data entry.event) entry.numOfBytes = reader
  have howner : reader.ownerEvent = entry.event := by rw [← hreader]; rfl
  have hdatagram : reader.datagram = (s.data entry.event).take entry.numOfBytes := by rw [← hreader]; rfl
  generalize ht : ({ s.setThread k ⟨entries, some entry.event, result.1⟩ with
    readers := s.readers ++ [reader]
    simulator := result.2
    events := _ } : ReceivePath) = t
  have hevents : t.events = ((s.events.copy entry.event).copyAll (entry.event :: entering.map fun _ => entry.event)).reset
    entry.event := by rw [← ht]; rfl
  have hreaders : t.readers = s.readers ++ [reader] := by rw [← ht]
  have hpointers : t.pointers.Perm (s.pointers ++ entering) := by
    refine List.perm_iff_count.mpr fun r => ?_
    have hset := count_flatMap_set ReceivingThread.toDispatch r hk ⟨entries, some entry.event, result.1⟩
    have hcount := hperm.count_eq r
    rw [← ht]
    simp only [pointers, setThread, List.count_append, List.count_nil] at hset hcount ⊢
    omega
  have howners : t.owners.Perm (s.owners ++ [entry.event]) := by
    refine List.perm_iff_count.mpr fun e => ?_
    have hset := count_owners_setThread ⟨entries, some entry.event, result.1⟩ hk e
    have hsame : t.owners = (s.setThread k ⟨entries, some entry.event, result.1⟩).owners := by rw [← ht]; rfl
    rw [List.count_append, hsame]
    exact hset
  have harrived : ∀ e, t.arrived.count e + [entry.event].count e = s.arrived.count e := by
    intro e
    have hset := count_arrived_setThread ⟨entries, some entry.event, result.1⟩ hk e
    have hsame : t.arrived = (s.setThread k ⟨entries, some entry.event, result.1⟩).arrived := by rw [← ht]; rfl
    simp only [List.map_cons, List.count_cons, List.count_nil] at hset ⊢
    rw [hsame]
    omega
  -- The event has arrived, so it has no pointer yet.
  have hunused : s.events.inUse entry.event = 0 := by
    have hle := h.places_le entry.event
    have hone := harrived entry.event
    rw [List.count_singleton_self] at hone
    unfold places at hle
    omega
  have hold : ∀ r ∈ s.pointers, t.eventOf r = s.eventOf r := by
    intro r hr
    rw [eventOf, eventOf, hreaders, List.getElem?_append_left (h.made r hr)]
  have hnew : t.eventOf s.readers.length = some entry.event := by
    rw [eventOf, hreaders, List.getElem?_concat_length]
    exact congrArg some howner
  have huses : ∀ e, t.uses.count e = s.uses.count e + ((entry.event :: entering.map fun _ => entry.event).count e) := by
    intro e
    have hp := (hpointers.filterMap t.eventOf).count_eq e
    have ho := howners.count_eq e
    have hentered : entering.filterMap t.eventOf = entering.map fun _ => entry.event := by
      rw [← List.filterMap_eq_map']
      refine List.filterMap_congr fun r hr => ?_
      rw [hentering r hr]
      exact hnew
    rw [List.filterMap_append, List.filterMap_congr hold, hentered] at hp
    simp only [uses, List.count_append, List.count_cons, List.count_nil] at hp ho ⊢
    omega
  constructor
  case owned =>
    intro e
    rw [hevents, SharedPointers.useCount_reset, SharedPointers.useCount_copyAll, SharedPointers.useCount_copy, huses e,
      ← h.owned e, List.count_cons]
    simp only [beq_iff_eq]
    split_ifs <;> omega
  case placed =>
    intro e
    have hrel := ((s.events.copy entry.event).copyAll (entry.event :: entering.map fun _ => entry.event)).count_released_reset
      entry.event e
    rw [← hevents, SharedPointers.released_copyAll, SharedPointers.inUse_copyAll, SharedPointers.inUse_copy_of_unused _ _ _
      ((s.events.inUse_eq_zero _).mp hunused), SharedPointers.released_copy] at hrel
    · have hplaced := h.placed e
      have hone := harrived e
      have hposted : t.posted = s.posted := by rw [← ht]; rfl
      have hlost : t.lost = s.lost := by rw [← ht]; rfl
      rw [List.count_singleton] at hone
      simp only [beq_iff_eq] at hone
      unfold places at hplaced ⊢
      rw [hposted, hlost]
      omega
    · intro p hp
      have hpe : p = entry.event := by
        rcases List.mem_cons.mp hp with hp | hp
        · exact hp
        · obtain ⟨-, -, hp⟩ := List.mem_map.mp hp
          exact hp.symm
      rw [hpe, SharedPointers.useCount_copy, if_pos rfl]
      exact Nat.succ_pos _
  case made =>
    intro r hr
    rw [hreaders, List.length_append, List.length_singleton]
    rcases List.mem_append.mp (hpointers.subset hr) with hr | hr
    · exact Nat.lt_succ_of_lt (h.made r hr)
    · rw [hentering r hr]
      exact Nat.lt_succ_self _
  case intact =>
    intro r hr found hfound
    have hdata : t.data = s.data := by rw [← ht]; rfl
    rw [hreaders] at hfound
    rw [hdata]
    rcases List.mem_append.mp (hpointers.subset hr) with hr | hr
    · rw [List.getElem?_append_left (h.made r hr)] at hfound
      exact h.intact r hr found hfound
    · rw [hentering r hr, List.getElem?_concat_length] at hfound
      obtain rfl := Option.some.inj hfound
      rw [howner, hdatagram, List.length_take, List.take_eq_take_min, Nat.min_assoc, Nat.min_self, ← List.take_eq_take_min]
  case shows =>
    have hconnections : t.connections = s.connections := by rw [← ht]; rfl
    have hdata : t.data = s.data := by rw [← ht]; rfl
    rw [hconnections, hdata]
    exact h.shows

theorem Sound.endRecvCompletionEvent (h : s.Sound) (k : ℕ) : (s.endRecvCompletionEvent k).Sound := by
  unfold ReceivePath.endRecvCompletionEvent
  split
  case h_2 => exact h
  rename_i entries event hk
  refine h.handOver [] [] [event] rfl rfl ?_ rfl (SameReaders.of_eq rfl) ?_ ?_
    (fun e he => absurd he List.not_mem_nil) rfl h.shows
  · exact fun e => Nat.add_right_cancel (count_arrived_setThread _ hk e)
  · rw [List.append_nil]
    exact List.perm_iff_count.mpr fun r => count_pointers_setThread _ hk r
  · rw [List.append_nil]
    refine List.perm_iff_count.mpr fun e => ?_
    rw [List.count_append]
    exact count_owners_setThread _ hk e

theorem Sound.flushStale (h : s.Sound) (k : ℕ) (now : ℤ) : (s.flushStale k now).Sound := by
  unfold ReceivePath.flushStale
  split
  case h_2 => exact h
  rename_i hk
  have hperm : ((s.simulator.flushStale now).1 ++ (s.simulator.flushStale now).2.reorderWindow).Perm
      s.simulator.reorderWindow := by
    rcases s.simulator.flushStale_cases now with heq | heq
    · rw [heq]
      exact .refl _
    · rw [heq, List.append_nil]
  generalize s.simulator.flushStale now = result at hperm
  obtain ⟨stale, simulator⟩ := result
  refine h.moved rfl rfl ?_ rfl rfl rfl ?_ ?_ h.shows
  · exact fun e => count_arrived_setThread _ hk e
  · refine List.perm_iff_count.mpr fun r => ?_
    have hset := count_flatMap_set ReceivingThread.toDispatch r hk ⟨[], none, stale⟩
    have hcount := hperm.count_eq r
    simp only [pointers, setThread, List.count_append, List.count_nil] at hset hcount ⊢
    omega
  · exact List.perm_iff_count.mpr fun e => count_owners_setThread _ hk e

theorem Sound.dispatchReceivedDatagram (h : s.Sound) (k : ℕ) : (s.dispatchReceivedDatagram mode k).Sound := by
  unfold ReceivePath.dispatchReceivedDatagram
  split
  case h_2 => exact h
  rename_i entries eventOwner r toDispatch hk
  have hcount := count_pointers_setThread ⟨entries, eventOwner, toDispatch⟩ hk
  have howners := count_owners_setThread ⟨entries, eventOwner, toDispatch⟩ hk
  have harrived := count_arrived_setThread ⟨entries, eventOwner, toDispatch⟩ hk
  have hlt := h.made r (pointer_of_thread hk List.mem_cons_self)
  simp only
  generalize hu : s.setThread k ⟨entries, eventOwner, toDispatch⟩ = u at hcount howners harrived
  have hread : u.readers[r]? = some s.readers[r] := by
    rw [← hu]
    exact List.getElem?_eq_getElem hlt
  rw [hread]
  simp only
  -- Where the reader goes away, its thread gives it up.
  have hgone : ∀ readers, s.SameReaders { s with readers := readers } →
      Sound { u with readers := readers, events := s.events.resetAll ([r].filterMap s.eventOf) } := by
    intro readers hreaders
    refine h.handOver [r] [] [] ?_ ?_ ?_ ?_ hreaders ?_ ?_
      (fun e he => absurd he List.not_mem_nil) (by rw [List.append_nil]; rfl) ?_
    · rw [← hu]
      rfl
    · rw [← hu]
      rfl
    · exact fun e => Nat.add_right_cancel (harrived e)
    · rw [← hu]
      rfl
    · refine List.perm_iff_count.mpr fun q => ?_
      have hq := hcount q
      simp only [List.count_cons] at hq
      rw [List.count_append, List.count_cons, List.count_nil]
      show u.pointers.count q + _ = _
      omega
    · rw [List.append_nil, List.append_nil]
      exact List.perm_iff_count.mpr fun e => Nat.add_right_cancel (howners e)
    · rw [← hu]
      exact h.shows
  have hsame : s.SameReaders u := SameReaders.of_eq (by rw [← hu]; rfl)
  have hevents : u.events = s.events := by rw [← hu]; rfl
  cases u.hashToConnectionMap s.readers[r].hashKey with
  | some i =>
    simp only
    unfold receivedRawPacket
    cases hc : u.connections[i]? with
    | none =>
      simp only
      rw [resetReaders, hsame.eventOf, hevents]
      exact hgone u.readers hsame
    | some c =>
      simp only
      refine h.moved ?_ ?_ ?_ ?_ hevents ?_ ?_ ?_ ?_
      · rw [← hu]
        rfl
      · rw [← hu]
        rfl
      · exact fun e => Nat.add_right_cancel (harrived e)
      · rw [← hu]
        rfl
      · rw [← hu]
        rfl
      · refine List.perm_iff_count.mpr fun q => ?_
        have hq := hcount q
        have hset := count_pointers_setConnection { c with jobs := c.jobs ++ [.received r] } hc q
        simp only [ReceivingConnection.readers, List.flatMap_append, List.flatMap_cons, List.flatMap_nil,
          ConnectionJob.readers, List.count_append, List.count_cons, List.count_nil] at hq hset
        omega
      · refine List.perm_iff_count.mpr fun e => ?_
        have he := howners e
        have hset := count_owners_setConnection { c with jobs := c.jobs ++ [.received r] } hc e
        simp only [ReceivingConnection.owners] at he hset
        omega
      · intro d hd m hm
        have hold : ∀ d ∈ u.connections, ∀ m ∈ d.pendingDispatchMessages, ∀ e, m.2.ownerEvent = some e →
            m.2.ShownBy (s.data e) := by
          rw [← hu]
          exact h.shows
        rcases List.mem_or_eq_of_mem_set hd with hd | rfl
        · exact hold d hd m hm
        · exact hold c (List.mem_of_getElem? hc) m hm
  | none =>
    simp only
    split_ifs
    · generalize defaultProcessor.incomingConnectionless _ = left
      have hpass := sameReaders_passReader hread left
      have heventOf : (u.passReader r s.readers[r] left).eventOf = s.eventOf := hpass.eventOf.trans hsame.eventOf
      rw [resetReaders, heventOf]
      show Sound { u with
        readers := (u.passReader r s.readers[r] left).readers
        events := u.events.resetAll ([r].filterMap s.eventOf) }
      rw [hevents]
      exact hgone _ fun q => (hpass q).trans (hsame q)
    · rw [resetReaders, hsame.eventOf, hevents]
      exact hgone u.readers hsame

/-! ## The connections -/

variable {c c' : ReceivingConnection} {reader : EventReader}

theorem resetReaders_resetReaders (s : ReceivePath) (as bs : List ℕ) :
    (s.resetReaders as).resetReaders bs = s.resetReaders (as ++ bs) := by
  unfold resetReaders
  rw [List.filterMap_append, ← SharedPointers.resetAll_append]
  rfl

theorem Sound.passed (h : s.Sound) (hc : s.connections[i]? = some c) (hreader : s.readers[r]? = some reader)
    (left : RecvPacketReader) (gone : List ℕ) (hp : (c'.readers ++ gone).Perm c.readers)
    (hm : c'.pendingDispatchMessages = c.pendingDispatchMessages) :
    (((s.passReader r reader left).setConnection i c').resetReaders gone).Sound := by
  have hpass := sameReaders_passReader hreader left
  have heventOf : ((s.passReader r reader left).setConnection i c').eventOf = s.eventOf := hpass.eventOf
  rw [resetReaders, heventOf]
  exact h.connection_gone hc gone hpass hp hm

theorem Sound.reset (h : s.Sound) (hc : s.connections[i]? = some c) {gone : List ℕ} (hp : (c'.readers ++ gone).Perm c.readers)
    (hm : c'.pendingDispatchMessages = c.pendingDispatchMessages) : ((s.setConnection i c').resetReaders gone).Sound :=
  h.connection_gone hc _ (SameReaders.of_eq rfl) hp hm

theorem Sound.set (h : s.Sound) (hc : s.connections[i]? = some c) (hp : c'.readers.Perm c.readers)
    (hm : c'.pendingDispatchMessages = c.pendingDispatchMessages) : (s.setConnection i c').Sound :=
  h.connection_kept hc (SameReaders.of_eq rfl) hp hm

theorem Sound.receivedJob (h : s.Sound) {jobs : List ConnectionJob} (hc : s.connections[i]? = some c)
    (hjobs : c.jobs = .received r :: jobs) (found : Bool) (sequences : Option (ℤ × ℤ)) :
    (s.receivedJob mode i r { c with jobs := jobs } found sequences).Sound := by
  have hreaders : c.readers = r :: (jobs.flatMap ConnectionJob.readers ++ c.pendingDispatchPacketReaders) := by
    unfold ReceivingConnection.readers
    rw [hjobs]
    rfl
  have hgone : ∀ conn : NetConnection, (ReceivingConnection.readers { c with conn := conn, jobs := jobs } ++ [r]).Perm c.readers := by
    intro conn
    rw [hreaders]
    exact List.perm_append_comm
  have hlt := h.made r (pointer_of_connection hc (by rw [hreaders]; exact List.mem_cons_self))
  unfold ReceivePath.receivedJob
  rw [List.getElem?_eq_getElem hlt]
  simp only
  have hread := List.getElem?_eq_getElem hlt
  generalize s.readers[r] = reader at hread
  rcases (s.shown mode reader).dispatch found with ⟨what, left⟩
  cases what with
  | packet header payload =>
    simp only
    generalize NetConnection.receivedHeader _ header left = conn
    split_ifs
    · exact h.passed hc hread left _ (hgone _) rfl
    · refine h.passed hc hread left [] ?_ rfl
      rw [List.append_nil, hreaders]
      show (_ ++ (c.pendingDispatchPacketReaders ++ [r])).Perm _
      rw [← List.append_assoc]
      exact List.perm_append_comm
  | handshake data =>
    simp only
    unfold ReceivePath.initSequence
    split
    · exact h.passed hc hread left _ (hgone _) rfl
    · rename_i incomingSequence outgoingSequence
      split
      · exact h.passed hc hread left _ (hgone _) rfl
      · rename_i conn _
        rw [resetReaders_resetReaders]
        refine h.passed hc hread left _ ?_ rfl
        show (jobs.flatMap ConnectionJob.readers ++ [] ++ (c.pendingDispatchPacketReaders ++ [r])).Perm _
        rw [hreaders, List.append_nil, ← List.append_assoc]
        exact List.perm_append_comm
  | connectionless => exact h.passed hc hread left _ (hgone _) rfl
  | unreadable => exact h.passed hc hread left _ (hgone _) rfl

theorem Sound.runJob (h : s.Sound) (i : ℕ) (found : Bool) (sequences : Option (ℤ × ℤ)) :
    (s.runJob mode i found sequences).Sound := by
  unfold ReceivePath.runJob
  cases hc : s.connections[i]? with
  | none => exact h
  | some c =>
    simp only
    split
    · exact h
    · split
      · exact h
      · rename_i r jobs hjobs
        split
        · exact h.receivedJob hc hjobs found sequences
        · refine h.reset hc ?_ rfl
          unfold ReceivingConnection.readers
          rw [hjobs]
          exact List.perm_append_comm
      · rename_i jobs hjobs
        refine h.set hc ?_ rfl
        unfold ReceivingConnection.readers
        rw [hjobs]
        exact .refl _

/-- The messages of a packet take its event over before its reader goes away. -/
theorem Sound.dispatchPending (h : s.Sound) {rest : List ℕ} (hc : s.connections[i]? = some c)
    (hpending : c.pendingDispatchPacketReaders = r :: rest) :
    (s.dispatchPending mode i r { c with pendingDispatchPacketReaders := rest }).Sound := by
  have hmem : r ∈ s.pointers := pointer_of_connection hc (List.mem_append_right _ (by rw [hpending]; exact List.mem_cons_self))
  have hlt := h.made r hmem
  unfold ReceivePath.dispatchPending
  rw [List.getElem?_eq_getElem hlt]
  simp only
  have hread := List.getElem?_eq_getElem hlt
  generalize s.readers[r] = reader at hread
  have hbuffer : s.bufferOf mode reader <+: s.data reader.ownerEvent := by
    cases mode with
    | inPlace => exact List.prefix_rfl
    | copied =>
      show reader.datagram <+: _
      rw [← h.intact r hmem reader hread]
      exact List.take_prefix _ _
  have hpayload : (s.shown mode reader).payload <+: (s.data reader.ownerEvent).drop reader.payload.offset :=
    (List.take_prefix _ _).trans (List.IsPrefix.drop hbuffer _)
  have hshown := c.conn.queuedMessages_shown reader.ownerEvent reader.payload.offset hpayload
  generalize c.conn.queuedMessages reader.ownerEvent reader.payload.offset (s.shown mode reader).payload = messages at hshown
  have hstep := h.connection (i := i)
    { c with
      conn := c.conn.dispatchReader (s.shown mode reader)
      pendingDispatchPacketReaders := rest
      pendingDispatchMessages := c.pendingDispatchMessages ++ messages }
    s.readers [r] (ownerEvents messages) [] hc (SameReaders.of_eq rfl) ?_ ?_ ?_ ?_
  · rw [List.append_nil] at hstep
    exact hstep
  · unfold ReceivingConnection.readers
    rw [hpending, List.append_assoc]
    exact List.Perm.append_left _ List.perm_append_comm
  · unfold ReceivingConnection.owners ownerEvents
    rw [List.append_nil, List.filterMap_append]
  · intro e he
    obtain ⟨m, hm, hme⟩ := List.mem_filterMap.mp he
    rcases hshown m hm with hnone | ⟨hsome, -⟩
    · rw [hnone] at hme
      cases hme
    · rw [hsome] at hme
      obtain rfl := Option.some.inj hme
      exact mem_uses_of_pointer hmem hread
  · intro m hm e he
    rcases List.mem_append.mp hm with hm | hm
    · exact h.shows c (List.mem_of_getElem? hc) m hm e he
    · rcases hshown m hm with hnone | ⟨hsome, hshow⟩
      · rw [hnone] at he
        cases he
      · rw [hsome] at he
        obtain rfl := Option.some.inj he
        exact hshow

theorem Sound.dispatchPendingMessage (h : s.Sound) (hc : s.connections[i]? = some c) (j : ℕ) :
    (s.dispatchPendingMessage mode i j c).Sound := by
  unfold ReceivePath.dispatchPendingMessage
  cases hj : c.pendingDispatchMessages[j]? with
  | none => exact h
  | some m =>
    obtain ⟨ch, p⟩ := m
    refine h.connection _ s.readers [] [] p.ownerEvent.toList hc
      (SameReaders.of_eq rfl) (by rw [List.append_nil]; exact .refl _) ?_ (fun e he => absurd he List.not_mem_nil) ?_
    · obtain ⟨hlt, hget⟩ := List.getElem?_eq_some_iff.mp hj
      have hperm := (List.getElem_cons_eraseIdx_perm hlt).filterMap fun m => m.2.ownerEvent
      rw [hget, List.filterMap_cons] at hperm
      unfold ReceivingConnection.owners ownerEvents
      rw [List.append_nil]
      refine List.perm_append_comm.trans (.trans (.of_eq ?_) hperm)
      cases p.ownerEvent <;> rfl
    · exact fun m hm => h.shows c (List.mem_of_getElem? hc) m (List.mem_of_mem_eraseIdx hm)

theorem Sound.tickStep (h : s.Sound) (i : ℕ) : (s.tickStep mode i).Sound := by
  unfold ReceivePath.tickStep
  cases hc : s.connections[i]? with
  | none => exact h
  | some c =>
    simp only
    split_ifs
    · exact h
    · split
      · rename_i r rest hpending
        exact h.dispatchPending hc hpending
      · split
        · exact h.set hc (.refl _) rfl
        · exact h.dispatchPendingMessage hc _

theorem Sound.destroy (h : s.Sound) (i : ℕ) : (s.destroy i).Sound := by
  unfold ReceivePath.destroy
  cases hc : s.connections[i]? with
  | none => exact h
  | some c =>
    simp only
    split_ifs
    · exact h
    · refine h.connection _ s.readers _ [] _ hc (SameReaders.of_eq rfl) ?_ ?_
        (fun e he => absurd he List.not_mem_nil) (fun m hm => absurd hm List.not_mem_nil)
      · unfold ReceivingConnection.readers
        rw [List.append_nil]
      · rw [List.append_nil]
        exact .refl _

/-! ## Every step -/

theorem Sound.next (h : s.Sound) (a : ReceiveAction) : (s.next mode a).Sound := by
  cases a with
  | complete i hashKey datagram => exact h.complete i hashKey datagram
  | post i posts => exact h.postRecvEvent i posts
  | pumpIo k removedCount => exact h.pumpIo k removedCount
  | recvCompletionEvent k now rolls => exact h.recvCompletionEvent k now rolls
  | endRecvCompletionEvent k => exact h.endRecvCompletionEvent k
  | flushStale k now => exact h.flushStale k now
  | reconfigure settings => exact h.moved rfl rfl (fun _ => rfl) rfl rfl rfl (.refl _) (.refl _) h.shows
  | dispatch k => exact h.dispatchReceivedDatagram k
  | addClient hashKey conn =>
    refine h.moved rfl rfl (fun _ => rfl) rfl rfl rfl ?_ ?_ ?_
    · refine .of_eq ?_
      simp [pointers, ReceivePath.next, ReceivingConnection.readers]
    · refine .of_eq ?_
      simp [owners, ReceivePath.next, ReceivingConnection.owners, ownerEvents]
    · intro d hd m hm
      rcases List.mem_append.mp hd with hd | hd
      · exact h.shows d hd m hm
      · obtain rfl := List.mem_singleton.mp hd
        exact absurd hm List.not_mem_nil
  | removeConnection i => exact h.moved rfl rfl (fun _ => rfl) rfl rfl rfl (.refl _) (.refl _) h.shows
  | destroy i => exact h.destroy i
  | tickDispatch i =>
    show (s.tickDispatch i).Sound
    unfold tickDispatch
    cases hc : s.connections[i]? with
    | none => exact h
    | some c =>
      refine h.set hc ?_ rfl
      unfold ReceivingConnection.readers
      exact .of_eq (by simp [ConnectionJob.readers])
  | runJob i found sequences => exact h.runJob i found sequences
  | tickStep i => exact h.tickStep i
  | work i change =>
    show (s.work i change).Sound
    unfold work
    cases hc : s.connections[i]? with
    | none => exact h
    | some c => exact h.set hc (.refl _) rfl

theorem Sound.of_reachable (h : (receivePath mode).Reachable s) : s.Sound :=
  System.Reach.invariant (by rintro _ ⟨isServer, posts, settings, threads, rfl⟩; exact sound_start isServer posts settings threads)
    (fun _ a h _ => h.next a) h

end ReceivePath

end RudpEngine
