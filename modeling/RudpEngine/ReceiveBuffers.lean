import RudpEngine.ReceivePath

/-!
# Each buffer in one place

An event is posted, it has completed, somebody has a pointer to it, it is with
the deleter, or it is lost. So no buffer is written while somebody reads it.
-/

namespace RudpEngine

/-! ## One entry of a list of lists -/

theorem count_flatMap_set {α β : Type} [BEq β] [LawfulBEq β] (f : α → List β) (b : β) : ∀ {l : List α} {i : ℕ} {x : α},
    l[i]? = some x → ∀ y, ((l.set i y).flatMap f).count b + (f x).count b = (l.flatMap f).count b + (f y).count b
  | [], i, x, h, y => by simp at h
  | a :: l, 0, x, h, y => by
    obtain rfl : a = x := by simpa using h
    rw [List.set_cons_zero, List.flatMap_cons, List.flatMap_cons, List.count_append, List.count_append]
    omega
  | a :: l, i + 1, x, h, y => by
    have ih := count_flatMap_set f b (l := l) (i := i) (x := x) (by simpa using h) y
    rw [List.set_cons_succ, List.flatMap_cons, List.flatMap_cons, List.count_append, List.count_append]
    omega

theorem mem_flatMap_of_getElem? {α β : Type} {f : α → List β} {l : List α} {i : ℕ} {x : α} {b : β} (h : l[i]? = some x)
    (hb : b ∈ f x) : b ∈ l.flatMap f := List.mem_flatMap.mpr ⟨x, List.mem_of_getElem? h, hb⟩

/-! ## Who has a pointer -/

def ConnectionJob.readers : ConnectionJob → List ℕ
  | .received r => [r]
  | .tick => []

def ReceivingConnection.readers (c : ReceivingConnection) : List ℕ :=
  c.jobs.flatMap ConnectionJob.readers ++ c.pendingDispatchPacketReaders

def ReceivingConnection.owners (c : ReceivingConnection) : List ℕ := ownerEvents c.pendingDispatchMessages

def EventReader.origin (r : EventReader) : ℕ × List Byte × BufferView := (r.ownerEvent, r.datagram, r.payload)

namespace ReceivePath

variable (s : ReceivePath)

def pointers : List ℕ :=
  s.simulator.reorderWindow ++ s.threads.flatMap ReceivingThread.toDispatch ++ s.connections.flatMap ReceivingConnection.readers

def owners : List ℕ :=
  (s.threads.flatMap fun t => t.eventOwner.toList) ++ s.connections.flatMap ReceivingConnection.owners

def uses : List ℕ := s.pointers.filterMap s.eventOf ++ s.owners

def arrived : List ℕ := s.port.map Completion.event ++ s.threads.flatMap fun t => t.entries.map Completion.event

def places (e : ℕ) : ℕ :=
  s.posted.count e + s.arrived.count e + s.events.inUse e + s.events.released.count e + s.lost.count e

structure Sound : Prop where
  owned : ∀ e, s.events.useCount e = s.uses.count e
  placed : ∀ e, s.places e = if e < recvEventCount then 1 else 0
  made : ∀ r ∈ s.pointers, r < s.readers.length
  intact : ∀ r ∈ s.pointers, ∀ reader, s.readers[r]? = some reader →
    (s.data reader.ownerEvent).take reader.datagram.length = reader.datagram
  shows : ∀ c ∈ s.connections, ∀ m ∈ c.pendingDispatchMessages, ∀ e, m.2.ownerEvent = some e → m.2.ShownBy (s.data e)

section
variable {s} {t : ReceivePath}

theorem Sound.places_le (h : s.Sound) (e : ℕ) : s.places e ≤ 1 := by
  rw [h.placed e]
  split_ifs <;> omega

theorem Sound.inUse_of_mem (h : s.Sound) {e : ℕ} (he : e ∈ s.uses) : s.events.inUse e = 1 := by
  unfold SharedPointers.inUse
  rw [h.owned e, if_pos (List.count_pos_iff.mpr he)]

theorem Sound.not_mem_uses (h : s.Sound) {e : ℕ} (he : s.events.inUse e = 0) : e ∉ s.uses := by
  intro hmem
  rw [h.inUse_of_mem hmem] at he
  exact absurd he Nat.one_ne_zero

theorem mem_uses_of_pointer {r : ℕ} {reader : EventReader} (hr : r ∈ s.pointers) (hreader : s.readers[r]? = some reader) :
    reader.ownerEvent ∈ s.uses :=
  List.mem_append_left _ (List.mem_filterMap.mpr ⟨r, hr, by rw [eventOf, hreader]; rfl⟩)

theorem mem_uses_of_message {c : ReceivingConnection} {m : ℕ × PendingMessage} {e : ℕ} (hc : c ∈ s.connections)
    (hm : m ∈ c.pendingDispatchMessages) (he : m.2.ownerEvent = some e) : e ∈ s.uses :=
  List.mem_append_right _ (List.mem_append_right _ (List.mem_flatMap.mpr ⟨c, hc, List.mem_filterMap.mpr ⟨m, hm, he⟩⟩))

def SameReaders (s t : ReceivePath) : Prop :=
  ∀ r : ℕ, t.readers[r]?.map EventReader.origin = s.readers[r]?.map EventReader.origin

theorem SameReaders.of_eq (h : t.readers = s.readers) : s.SameReaders t := fun r => by rw [h]

theorem SameReaders.eventOf (h : s.SameReaders t) : t.eventOf = s.eventOf := by
  funext r
  have hr := congrArg (Option.map Prod.fst) (h r)
  rw [Option.map_map, Option.map_map] at hr
  exact hr

theorem SameReaders.find (h : s.SameReaders t) {r : ℕ} {reader : EventReader} (hr : t.readers[r]? = some reader) :
    ∃ old, s.readers[r]? = some old ∧ old.ownerEvent = reader.ownerEvent ∧ old.datagram = reader.datagram ∧
      old.payload = reader.payload := by
  have heq := h r
  rw [hr] at heq
  obtain ⟨old, hold, horigin⟩ := Option.map_eq_some_iff.mp heq.symm
  exact ⟨old, hold, congrArg Prod.fst horigin, congrArg (fun o => o.2.1) horigin, congrArg (fun o => o.2.2) horigin⟩

theorem SameReaders.lt (h : s.SameReaders t) {r : ℕ} (hr : r < s.readers.length) : r < t.readers.length := by
  have heq := h r
  rw [List.getElem?_eq_getElem hr] at heq
  obtain ⟨new, hnew, -⟩ := Option.map_eq_some_iff.mp heq
  exact (List.getElem?_eq_some_iff.mp hnew).1

/-- Pointers go from hand to hand: those to readers in `gone` go away, owners come for events that are in use and go. -/
theorem Sound.handOver (h : s.Sound) (gone taken dropped : List ℕ) (hdata : t.data = s.data) (hposted : t.posted = s.posted)
    (harrived : ∀ e, t.arrived.count e = s.arrived.count e) (hlost : t.lost = s.lost) (hreaders : s.SameReaders t)
    (hpointers : (t.pointers ++ gone).Perm s.pointers)
    (howners : (t.owners ++ dropped).Perm (s.owners ++ taken)) (htaken : ∀ e ∈ taken, e ∈ s.uses)
    (hevents : t.events = (s.events.copyAll taken).resetAll (gone.filterMap s.eventOf ++ dropped))
    (hshows : ∀ c ∈ t.connections, ∀ m ∈ c.pendingDispatchMessages, ∀ e, m.2.ownerEvent = some e → m.2.ShownBy (s.data e)) :
    t.Sound := by
  have hsub : ∀ r ∈ t.pointers, r ∈ s.pointers := fun r hr => hpointers.subset (List.mem_append_left _ hr)
  constructor
  case owned =>
    intro e
    have hp := (hpointers.filterMap s.eventOf).count_eq e
    have ho := howners.count_eq e
    rw [List.filterMap_append, List.count_append] at hp
    rw [List.count_append, List.count_append] at ho
    rw [hevents, SharedPointers.useCount_resetAll, SharedPointers.useCount_copyAll, h.owned e, uses, uses, hreaders.eventOf,
      List.count_append, List.count_append, List.count_append]
    omega
  case placed =>
    intro e
    have hrel := (s.events.copyAll taken).count_released_resetAll e (gone.filterMap s.eventOf ++ dropped)
    rw [← hevents, SharedPointers.released_copyAll, SharedPointers.inUse_copyAll _ _ fun e he => by
      rw [h.owned e]
      exact List.count_pos_iff.mpr (htaken e he)] at hrel
    have hold := h.placed e
    unfold places at hold ⊢
    rw [hposted, harrived, hlost]
    omega
  case made => exact fun r hr => hreaders.lt (h.made r (hsub r hr))
  case intact =>
    intro r hr reader hreader
    obtain ⟨old, hold, howner, hdatagram, -⟩ := hreaders.find hreader
    rw [hdata, ← howner, ← hdatagram]
    exact h.intact r (hsub r hr) old hold
  case shows =>
    rw [hdata]
    exact hshows

theorem Sound.moved (h : s.Sound) (hdata : t.data = s.data) (hposted : t.posted = s.posted)
    (harrived : ∀ e, t.arrived.count e = s.arrived.count e) (hlost : t.lost = s.lost) (hevents : t.events = s.events)
    (hreaders : t.readers = s.readers) (hpointers : t.pointers.Perm s.pointers) (howners : t.owners.Perm s.owners)
    (hshows : ∀ c ∈ t.connections, ∀ m ∈ c.pendingDispatchMessages, ∀ e, m.2.ownerEvent = some e → m.2.ShownBy (s.data e)) :
    t.Sound := by
  rw [← List.append_nil t.pointers] at hpointers
  rw [← List.append_nil t.owners, ← List.append_nil s.owners] at howners
  exact h.handOver [] [] [] hdata hposted harrived hlost (SameReaders.of_eq hreaders) hpointers howners
    (fun e he => absurd he List.not_mem_nil) hevents hshows

/-! ## One thread or one connection set -/

variable {k i r : ℕ} {thread thread' : ReceivingThread} {c c' : ReceivingConnection}

theorem count_pointers_setThread (thread' : ReceivingThread) (hk : s.threads[k]? = some thread) (r : ℕ) :
    (s.setThread k thread').pointers.count r + thread.toDispatch.count r = s.pointers.count r + thread'.toDispatch.count r := by
  have hset := count_flatMap_set ReceivingThread.toDispatch r hk thread'
  simp only [pointers, setThread, List.count_append] at hset ⊢
  omega

theorem count_owners_setThread (thread' : ReceivingThread) (hk : s.threads[k]? = some thread) (e : ℕ) :
    (s.setThread k thread').owners.count e + thread.eventOwner.toList.count e =
      s.owners.count e + thread'.eventOwner.toList.count e := by
  have hset := count_flatMap_set (fun t : ReceivingThread => t.eventOwner.toList) e hk thread'
  simp only [owners, setThread, List.count_append] at hset ⊢
  omega

theorem count_arrived_setThread (thread' : ReceivingThread) (hk : s.threads[k]? = some thread) (e : ℕ) :
    (s.setThread k thread').arrived.count e + (thread.entries.map Completion.event).count e =
      s.arrived.count e + (thread'.entries.map Completion.event).count e := by
  have hset := count_flatMap_set (fun t : ReceivingThread => t.entries.map Completion.event) e hk thread'
  simp only [arrived, setThread, List.count_append] at hset ⊢
  omega

theorem count_pointers_setConnection (c' : ReceivingConnection) (hc : s.connections[i]? = some c) (r : ℕ) :
    (s.setConnection i c').pointers.count r + c.readers.count r = s.pointers.count r + c'.readers.count r := by
  have hset := count_flatMap_set ReceivingConnection.readers r hc c'
  simp only [pointers, setConnection, List.count_append] at hset ⊢
  omega

theorem count_owners_setConnection (c' : ReceivingConnection) (hc : s.connections[i]? = some c) (e : ℕ) :
    (s.setConnection i c').owners.count e + c.owners.count e = s.owners.count e + c'.owners.count e := by
  have hset := count_flatMap_set ReceivingConnection.owners e hc c'
  simp only [owners, setConnection, List.count_append] at hset ⊢
  omega

theorem sameReaders_passReader {reader : EventReader} (hr : s.readers[r]? = some reader) (left : RecvPacketReader) :
    s.SameReaders (s.passReader r reader left) := by
  intro q
  rw [passReader, setReader, List.getElem?_set]
  split_ifs with hq hlt
  · subst hq
    rw [hr]
    rfl
  · subst hq
    rw [List.getElem?_eq_none (Nat.le_of_not_lt hlt)] at hr
    cases hr
  · rfl

theorem pointer_of_connection (hc : s.connections[i]? = some c) (hr : r ∈ c.readers) : r ∈ s.pointers :=
  List.mem_append_right _ (mem_flatMap_of_getElem? hc hr)

theorem pointer_of_thread (hk : s.threads[k]? = some thread) (hr : r ∈ thread.toDispatch) : r ∈ s.pointers :=
  List.mem_append_left _ (List.mem_append_right _ (mem_flatMap_of_getElem? hk hr))

theorem Sound.connection (h : s.Sound) (c' : ReceivingConnection) (readers : List EventReader) (gone taken dropped : List ℕ)
    (hc : s.connections[i]? = some c) (hreaders : s.SameReaders { s with readers := readers }) (hp : (c'.readers ++ gone).Perm c.readers)
    (ho : (c'.owners ++ dropped).Perm (c.owners ++ taken)) (htaken : ∀ e ∈ taken, e ∈ s.uses)
    (hshows : ∀ m ∈ c'.pendingDispatchMessages, ∀ e, m.2.ownerEvent = some e → m.2.ShownBy (s.data e)) :
    Sound { s.setConnection i c' with
      readers := readers
      events := (s.events.copyAll taken).resetAll (gone.filterMap s.eventOf ++ dropped) } := by
  refine h.handOver gone taken dropped rfl rfl (fun _ => rfl) rfl hreaders ?_ ?_ htaken rfl ?_
  · refine List.perm_iff_count.mpr fun r => ?_
    have hcount := hp.count_eq r
    have hset := count_pointers_setConnection c' hc r
    rw [List.count_append] at hcount ⊢
    show (s.setConnection i c').pointers.count r + _ = _
    omega
  · refine List.perm_iff_count.mpr fun e => ?_
    have hcount := ho.count_eq e
    have hset := count_owners_setConnection c' hc e
    rw [List.count_append, List.count_append] at hcount ⊢
    show (s.setConnection i c').owners.count e + _ = _
    omega
  · intro d hd m hm
    rcases List.mem_or_eq_of_mem_set hd with hd | rfl
    · exact h.shows d hd m hm
    · exact hshows m hm

theorem Sound.connection_gone (h : s.Sound) (hc : s.connections[i]? = some c) {readers : List EventReader} (gone : List ℕ)
    (hreaders : s.SameReaders { s with readers := readers }) (hp : (c'.readers ++ gone).Perm c.readers)
    (hm : c'.pendingDispatchMessages = c.pendingDispatchMessages) :
    Sound { s.setConnection i c' with readers := readers, events := s.events.resetAll (gone.filterMap s.eventOf) } := by
  have hstep := h.connection c' readers gone [] [] hc hreaders hp ?_ (fun e he => absurd he List.not_mem_nil) ?_
  · rw [List.append_nil] at hstep
    exact hstep
  · rw [List.append_nil, List.append_nil, ReceivingConnection.owners, ReceivingConnection.owners, hm]
  · rw [hm]
    exact h.shows c (List.mem_of_getElem? hc)

theorem Sound.connection_kept (h : s.Sound) (hc : s.connections[i]? = some c) {readers : List EventReader}
    (hreaders : s.SameReaders { s with readers := readers }) (hp : c'.readers.Perm c.readers)
    (hm : c'.pendingDispatchMessages = c.pendingDispatchMessages) :
    Sound { s.setConnection i c' with readers := readers } :=
  h.connection_gone hc [] hreaders (by rw [List.append_nil]; exact hp) hm

end

end ReceivePath

end RudpEngine
