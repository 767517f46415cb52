import RudpEngine.ServerSteps

/-!
# The registers agree

In every run each register of the server holds the clients that are in its
stages and no others, whatever the threads do in between; once all threads are
through, the registers hold the same clients. A handler that looks its status
up when that was erased makes it anew, and nothing erases it again.
-/

namespace RudpEngine

namespace GameServer

variable {Double Addr : Type} {s t : GameServer Addr} {i : ℕ} {c : Client Addr}

/-! ## The other steps -/

theorem Kept.close (h : s.Kept) (i : ℕ) : (s.close i).Kept := by
  unfold GameServer.close
  split
  case h_2 => exact h
  case h_1 key connection r heardLate hi =>
    have hkeys := h.numbered.nodup
    have hlate := h.notLate hi rfl
    refine h.set hi rfl rfl rfl (h.tables.modify (f := fun c => { c with conn := c.conn.close }) (fun _ => rfl) r)
      ?_ ?_ ?_
    · intro hl
      rw [show heardLate = true from hl] at hlate
      cases hlate
    · constructor
      · exact h.listed.connections.keep hkeys hi rfl fun _ => Iff.rfl
      · exact h.listed.statuses.keep hkeys hi rfl fun _ => Iff.rfl
      · exact h.listed.numbers.keep hkeys hi rfl fun _ => Iff.rfl
      · exact h.listed.rooms.keep hkeys hi rfl fun _ => Iff.rfl
    · exact h.roomy.keep hi rfl rfl rfl rfl (by simp)

theorem Kept.of_same (h : s.Kept) (hclients : t.clients = s.clients) (hdriver : t.driver = s.driver)
    (hrooms : t.roomManager = s.roomManager) (hstatus : t.connectionRUDPMap = s.connectionRUDPMap)
    (hnumber : ∀ id, (t.connectionReliableMap id).isSome ↔ (s.connectionReliableMap id).isSome) : t.Kept := by
  refine ⟨?_, ?_, ?_, ?_, ⟨?_, ?_, ?_, ?_⟩, ⟨?_, ?_, ?_, ?_⟩⟩
  · exact hclients ▸ h.numbered
  · rw [hclients, hdriver]
    exact h.allocator
  · exact hdriver ▸ h.tables
  · exact hclients ▸ h.late
  · rw [hclients, hdriver]
    exact h.listed.connections
  · rw [hclients, hstatus]
    exact h.listed.statuses
  · intro id v
    rw [hclients]
    exact (hnumber id).trans (h.listed.numbers id v)
  · rw [hclients, hrooms]
    exact h.listed.rooms
  · exact hrooms ▸ h.roomy.wellKept
  · exact hclients ▸ h.roomy.oneSeeks
  · rw [hclients, hrooms]
    exact h.roomy.seeking
  · rw [hclients, hrooms]
    exact h.roomy.leaving

theorem Kept.lookUpStatus (h : s.Kept) (i : ℕ) (m : BitVec 64) : (s.lookUpStatus i m).Kept := by
  unfold GameServer.lookUpStatus
  cases hi : s.clients[i]? with
  | none => exact h
  | some c =>
    simp only
    split
    case isFalse => exact h
    case isTrue hknown =>
      obtain ⟨statuses, map, heq, hin, hother⟩ := s.statusOf_spec c.id
      have hkeys := h.numbered.nodup
      rw [heq]
      refine h.set hi rfl rfl rfl h.tables ?_ ?_ ?_
      · intro hlate
        rcases Bool.or_eq_true_iff.mp hlate with hlate | herased
        · exact h.late c (List.mem_of_getElem? hi) hlate
        · exact herased
      · constructor
        · exact h.listed.connections.keep hkeys hi rfl fun _ => Iff.rfl
        · refine h.listed.statuses.set hkeys hi rfl ?_ ?_
          · intro k _ hk
            show (map k).isSome ↔ _
            rw [hother k hk]
          · intro _
            refine iff_of_true hin ?_
            cases hstage : c.stage <;> rw [hstage] at hknown <;>
              simp_all [ClientStage.isKnown, ClientStage.hasStatus, ClientStage.isErased]
        · exact h.listed.numbers.keep hkeys hi rfl fun _ => Iff.rfl
        · exact h.listed.rooms.keep hkeys hi rfl fun _ => Iff.rfl
      · refine h.roomy.keep hi rfl rfl rfl ?_ fun _ hstage => hstage
        cases hstage : c.stage <;> rw [hstage] at hknown <;> simp_all [ClientStage.isKnown, ClientStage.isSeeking]

theorem Kept.countMessage (h : s.Kept) (handler : ℕ) : (s.countMessage handler).Kept := by
  unfold GameServer.countMessage
  split
  · exact h
  · exact h.of_same rfl rfl rfl rfl fun _ => Iff.rfl

theorem Kept.checkEntry (h : s.Kept) (i : ℕ) : (s.checkEntry i).Kept := by
  unfold GameServer.checkEntry
  split
  case h_2 => exact h
  case h_1 ids c _ _ =>
    cases hnumber : s.connectionReliableMap c.id with
    | none => exact h
    | some number =>
      simp only
      split
      case isTrue => exact h
      case isFalse =>
        refine h.of_same rfl rfl rfl rfl ?_
        intro id
        show (s.connectionReliableMap.set c.id (number + 1) id).isSome ↔ _
        by_cases hid : id = c.id
        · rw [hid, UnorderedMap.set_self, hnumber]
          simp
        · rw [UnorderedMap.set_of_ne hid]

theorem Kept.next (h : s.Kept) (a : ServerAction Double Addr) (ha : s.IdsLast a) : (s.next a).Kept := by
  cases a with
  | addClient key p => exact h.addClient ha key p
  | advance i => exact h.advance i
  | close i => exact h.close i
  | lookUpStatus i m => exact h.lookUpStatus i m
  | countMessage handler => exact h.countMessage handler
  | beginStatusCheck =>
    show s.beginStatusCheck.Kept
    unfold GameServer.beginStatusCheck
    split
    · exact h
    · exact h.of_same rfl rfl rfl rfl fun _ => Iff.rfl
  | checkEntry i => exact h.checkEntry i
  | endStatusCheck =>
    show s.endStatusCheck.Kept
    unfold GameServer.endStatusCheck
    split
    · exact h
    · split
      · exact h.of_same rfl rfl rfl rfl fun _ => Iff.rfl
      · exact h

theorem kept_start (maxChannelsSize : ℕ) (override : Option ℤ) : (start maxChannelsSize override : GameServer Addr).Kept := by
  refine ⟨⟨?_, ?_⟩, rfl, ⟨?_, ?_, ?_, ?_⟩, ?_, ⟨?_, ?_, ?_, ?_⟩, ⟨RoomManager.wellKept_new, ?_, ?_, ?_⟩⟩
  all_goals simp [start, IpNetDriver.initListen, UnorderedMap.empty, Registers, RoomManager.Has, RoomManager.new,
    RoomManager.addNewRoom, Room.new, Room.ids]

theorem Kept.of_reach (h : (gameServer Double Addr).Reach IdsLast s) : s.Kept := by
  apply h.invariant
  · intro s hs
    obtain ⟨maxChannelsSize, override, rfl⟩ := hs
    exact kept_start maxChannelsSize override
  · intro s a hk ha
    exact hk.next a ha

/-! ## What the registers say -/

structure Consistent (s : GameServer Addr) : Prop where
  connectionMap : ∀ id r, s.driver.connectionMap id = some r ↔ ∃ c ∈ s.clients, c.id = id ∧ c.stage.connection? = some r
  remoteConnections : ∀ r, r ∈ s.driver.remoteConnections ↔ ∃ c ∈ s.clients, c.stage.connection? = some r
  hashToConnectionMap : ∀ key r, s.driver.hashToConnectionMap key = some r → ∃ c ∈ s.clients, c.stage.connection? = some r
  connectionReliableMap : ∀ id, (s.connectionReliableMap id).isSome ↔ ∃ c ∈ s.clients, c.id = id ∧ c.stage.hasNumber
  rooms : ∀ id, (s.roomManager.findRoomWithConnection id).isSome ↔ ∃ c ∈ s.clients, c.id = id ∧ c.stage.hasRoom
  connectionRUDPMap : ∀ id, (s.connectionRUDPMap id).isSome ↔
    ∃ c ∈ s.clients, c.id = id ∧ (c.stage.hasStatus ∨ c.heardLate)

theorem Kept.consistent (h : s.Kept) : s.Consistent := by
  have hremote : ∀ r, r ∈ s.driver.remoteConnections → ∃ c ∈ s.clients, c.stage.connection? = some r := by
    intro r hr
    obtain ⟨id, hid⟩ := (h.tables.remote r).mp hr
    obtain ⟨c, hc, -, hin⟩ := (h.listed.connections id r).mp hid
    exact ⟨c, hc, hin⟩
  refine ⟨h.listed.connections, ?_, ?_, fun id => h.listed.numbers id (), ?_, fun id => h.listed.statuses id ()⟩
  · intro r
    refine ⟨hremote r, ?_⟩
    intro hex
    obtain ⟨c, hc, hin⟩ := hex
    exact (h.tables.remote r).mpr ⟨c.id, (h.listed.connections c.id r).mpr ⟨c, hc, rfl, hin⟩⟩
  · exact fun key r hr => hremote r (h.tables.hashed key r hr)
  · intro id
    rw [← h.listed.rooms id (), Option.isSome_iff_ne_none]
    exact (not_congr h.roomy.wellKept.findRoomWithConnection_eq_none).trans not_not

/-- All threads are through: a client is in the game or gone. -/
def Quiet (s : GameServer Addr) : Prop := ∀ c ∈ s.clients, (∃ r, c.stage = .published r) ∨ c.stage = .gone

/-- In every run the registers hold the clients in their stages. Where all threads are through, `ConnectionMap`,
`ConnectionReliableMap` and the rooms hold the same ids, and `ConnectionRUDPMap` those and the ids that were heard late. -/
theorem registers_agree (h : (gameServer Double Addr).Reach IdsLast s) : s.Consistent ∧ (s.Quiet → ∀ id,
    ((s.connectionReliableMap id).isSome ↔ (s.driver.connectionMap id).isSome) ∧
    ((s.roomManager.findRoomWithConnection id).isSome ↔ (s.driver.connectionMap id).isSome) ∧
    ((s.connectionRUDPMap id).isSome ↔ (s.driver.connectionMap id).isSome ∨ ∃ c ∈ s.clients, c.id = id ∧ c.heardLate)) := by
  have hkept := Kept.of_reach h
  have hcons := hkept.consistent
  refine ⟨hcons, ?_⟩
  intro hquiet id
  have hin : (s.driver.connectionMap id).isSome ↔ ∃ c ∈ s.clients, c.id = id ∧ ∃ r, c.stage = .published r := by
    rw [Option.isSome_iff_exists]
    simp only [hcons.connectionMap]
    constructor
    · intro hex
      obtain ⟨r, c, hc, hid, hr⟩ := hex
      rcases hquiet c hc with hpub | hgone
      · exact ⟨c, hc, hid, hpub⟩
      · rw [hgone] at hr
        cases hr
    · intro hex
      obtain ⟨c, hc, hid, r, hr⟩ := hex
      exact ⟨r, c, hc, hid, by rw [hr]; rfl⟩
  -- in the game or gone, a client is in all registers or in none
  have hsame : ∀ has : ClientStage → Bool, (∀ r, has (.published r) = true) → has .gone = false →
      ((∃ c ∈ s.clients, c.id = id ∧ has c.stage) ↔ ∃ c ∈ s.clients, c.id = id ∧ ∃ r, c.stage = .published r) := by
    intro has hpub hgone
    refine exists_congr fun c => and_congr_right fun hc => and_congr_right fun _ => ?_
    rcases hquiet c hc with ⟨r, hr⟩ | hg
    · rw [hr]
      exact iff_of_true (hpub r) ⟨r, rfl⟩
    · rw [hg]
      refine iff_of_false ?_ (by simp)
      rw [hgone]
      simp
  refine ⟨?_, ?_, ?_⟩
  · rw [hcons.connectionReliableMap, hin, hsame _ (fun _ => rfl) rfl]
  · rw [hcons.rooms, hin, hsame _ (fun _ => rfl) rfl]
  · rw [hcons.connectionRUDPMap, hin, ← hsame ClientStage.hasStatus (fun _ => rfl) rfl, ← exists_or]
    refine exists_congr fun c => ?_
    tauto

def entering (i : ℕ) : List (ServerAction ℤ (BitVec 64)) := List.replicate 5 (.advance i)

/-- One client is in the game; another has left it, and its last message is handled in between. -/
def leftBehind : GameServer (BitVec 64) :=
  (gameServer ℤ (BitVec 64)).runFrom (start 2 none)
    ([.addClient 5 pendingClient, .addClient 6 pendingClient] ++ entering 0 ++ entering 1 ++
      [.close 0, .advance 0, .advance 0, .lookUpStatus 0 7, .advance 0, .advance 0, .advance 0])

theorem leftBehind_reach : (gameServer ℤ (BitVec 64)).Reach IdsLast leftBehind := by
  have hstart : (gameServer ℤ (BitVec 64)).Reach IdsLast (start 2 none) := .init ⟨2, none, rfl⟩
  exact hstart.of_checked _ (by decide +kernel)

theorem registers_agree_leftBehind : (leftBehind.connectionRUDPMap 1).isSome ↔
    (leftBehind.driver.connectionMap 1).isSome ∨ ∃ c ∈ leftBehind.clients, c.id = 1 ∧ c.heardLate := by
  refine ((registers_agree leftBehind_reach).2 ?_ 1).2.2
  have hall : ∀ c ∈ leftBehind.clients, c.stage = .published 1 ∨ c.stage = .gone := by decide +kernel
  exact fun c hc => (hall c hc).imp_left fun hr => ⟨1, hr⟩

end GameServer

end RudpEngine
