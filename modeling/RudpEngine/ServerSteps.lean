import RudpEngine.ServerTables

/-!
# What each step of the server does to its registers

One invariant for all registers at once: each holds the ids of the clients that
are in certain stages, and no others. A step moves one client and touches the
registers at its id only.
-/

namespace RudpEngine

/-! ## The stages in which a client is in a register -/

namespace ClientStage

def connection? : ClientStage → Option ℕ
  | .published connection | .closed connection => some connection
  | _ => none

def hasStatus : ClientStage → Bool
  | .allocated | .statusErased | .numberErased | .leaving _ | .gone => false
  | _ => true

def hasNumber : ClientStage → Bool
  | .allocated | .statusEntered | .numberErased | .leaving _ | .gone => false
  | _ => true

def hasRoom : ClientStage → Bool
  | .allocated | .statusEntered | .numberEntered | .seeking _ | .gone => false
  | _ => true

end ClientStage

/-! ## The invariant -/

namespace GameServer

variable {Double Addr : Type}

structure Numbered (clients : List (Client Addr)) : Prop where
  id : ∀ i c, clients[i]? = some c → c.id = BitVec.ofNat 32 (i + 1)
  few : clients.length < 2 ^ 32

structure Listed (s : GameServer Addr) : Prop where
  connections : Registers Client.id (fun id r => s.driver.connectionMap id = some r)
    (fun c r => c.stage.connection? = some r) s.clients
  statuses : Registers Client.id (fun id (_ : Unit) => (s.connectionRUDPMap id).isSome)
    (fun c _ => c.stage.hasStatus ∨ c.heardLate) s.clients
  numbers : Registers Client.id (fun id (_ : Unit) => (s.connectionReliableMap id).isSome)
    (fun c _ => c.stage.hasNumber) s.clients
  rooms : Registers Client.id (fun id (_ : Unit) => s.roomManager.Has id) (fun c _ => c.stage.hasRoom) s.clients

structure Roomy (s : GameServer Addr) : Prop where
  wellKept : s.roomManager.WellKept
  oneSeeks : ∀ (i j : ℕ) (c d : Client Addr), s.clients[i]? = some c → s.clients[j]? = some d → c.stage.isSeeking →
    d.stage.isSeeking → i = j
  seeking : ∀ c ∈ s.clients, ∀ rooms, c.stage = .seeking rooms → s.roomManager.Takes rooms
  leaving : ∀ c ∈ s.clients, ∀ room, c.stage = .leaving room → ∃ p, room = some p ∧ s.roomManager.Sits c.id p

structure Kept (s : GameServer Addr) : Prop where
  numbered : Numbered s.clients
  allocator : s.driver.playerUniqueIdAllocator = ⟨BitVec.ofNat 32 (s.clients.length + 1), []⟩
  tables : s.driver.TablesAgree
  late : ∀ c ∈ s.clients, c.heardLate → c.stage.isErased
  listed : s.Listed
  roomy : s.Roomy

variable {s t : GameServer Addr} {i : ℕ} {c c' : Client Addr}

theorem Numbered.nodup {clients : List (Client Addr)} (h : Numbered clients) : (clients.map Client.id).Nodup := by
  rw [List.nodup_iff_injective_get]
  intro i j hij
  have hfew := h.few
  have hi := i.isLt
  have hj := j.isLt
  simp only [List.length_map] at hi hj
  simp only [List.get_eq_getElem, List.getElem_map] at hij
  rw [h.id i _ (List.getElem?_eq_getElem hi), h.id j _ (List.getElem?_eq_getElem hj)] at hij
  have hnat := congrArg BitVec.toNat hij
  simp only [BitVec.toNat_ofNat] at hnat
  rw [Nat.mod_eq_of_lt (by omega), Nat.mod_eq_of_lt (by omega)] at hnat
  exact Fin.ext (by omega)

theorem Numbered.set {clients : List (Client Addr)} (h : Numbered clients) (hi : clients[i]? = some c)
    (hid : c'.id = c.id) : Numbered (clients.set i c') := by
  constructor
  · intro j d hj
    by_cases hij : i = j
    · subst hij
      rw [List.getElem?_set_self (List.getElem?_eq_some_iff.mp hi).1, Option.some.injEq] at hj
      rw [← hj, hid]
      exact h.id i c hi
    · rw [List.getElem?_set_ne hij] at hj
      exact h.id j d hj
  · rw [List.length_set]
    exact h.few

theorem Numbered.id_ne (h : Numbered s.clients) {j : ℕ} {d : Client Addr} (hi : s.clients[i]? = some c)
    (hj : s.clients[j]? = some d) (hne : j ≠ i) : d.id ≠ c.id := by
  intro hid
  have hidx := h.id i c hi
  have hjdx := h.id j d hj
  have hilt := (List.getElem?_eq_some_iff.mp hi).1
  have hjlt := (List.getElem?_eq_some_iff.mp hj).1
  have hfew := h.few
  rw [hidx, hjdx] at hid
  have hnat := congrArg BitVec.toNat hid
  simp only [BitVec.toNat_ofNat] at hnat
  rw [Nat.mod_eq_of_lt (by omega), Nat.mod_eq_of_lt (by omega)] at hnat
  omega

theorem getElem?_set_cases {α : Type} {l : List α} {a b : α} {j : ℕ} (h : (l.set i a)[j]? = some b) :
    (j = i ∧ b = a) ∨ (j ≠ i ∧ l[j]? = some b) := by
  by_cases hij : i = j
  · subst hij
    rw [List.getElem?_set, if_pos rfl] at h
    split_ifs at h
    exact .inl ⟨rfl, (Option.some.inj h).symm⟩
  · rw [List.getElem?_set_ne hij] at h
    exact .inr ⟨Ne.symm hij, h⟩

theorem Roomy.set (h : s.Roomy) (hclients : t.clients = s.clients.set i c') (hwellKept : t.roomManager.WellKept)
    (hone : c'.stage.isSeeking → ∀ (j : ℕ) (d : Client Addr), j ≠ i → s.clients[j]? = some d → d.stage.isSeeking = false)
    (hseeking : ∀ (j : ℕ) (d : Client Addr) rooms, j ≠ i → s.clients[j]? = some d → d.stage = .seeking rooms →
      t.roomManager.Takes rooms)
    (hown : ∀ rooms, c'.stage = .seeking rooms → t.roomManager.Takes rooms)
    (hsits : ∀ (j : ℕ) (d : Client Addr) p, j ≠ i → s.clients[j]? = some d → s.roomManager.Sits d.id p →
      t.roomManager.Sits d.id p)
    (hleaving : ∀ room, c'.stage = .leaving room → ∃ p, room = some p ∧ t.roomManager.Sits c'.id p) : t.Roomy := by
  refine ⟨hwellKept, ?_, ?_, ?_⟩
  · intro j k d e hj hk hd he
    rw [hclients] at hj hk
    rcases getElem?_set_cases hj with ⟨rfl, rfl⟩ | ⟨hji, hold⟩
    · rcases getElem?_set_cases hk with ⟨rfl, rfl⟩ | ⟨hki, hold⟩
      · rfl
      · rw [hone hd k e hki hold] at he
        cases he
    · rcases getElem?_set_cases hk with ⟨rfl, rfl⟩ | ⟨-, hold'⟩
      · rw [hone he j d hji hold] at hd
        cases hd
      · exact h.oneSeeks j k d e hold hold' hd he
  · intro d hd rooms hstage
    rw [hclients] at hd
    obtain ⟨j, hj⟩ := List.getElem?_of_mem hd
    rcases getElem?_set_cases hj with ⟨-, rfl⟩ | ⟨hji, hj⟩
    · exact hown rooms hstage
    · exact hseeking j d rooms hji hj hstage
  · intro d hd room hstage
    rw [hclients] at hd
    obtain ⟨j, hj⟩ := List.getElem?_of_mem hd
    rcases getElem?_set_cases hj with ⟨-, rfl⟩ | ⟨hji, hj⟩
    · exact hleaving room hstage
    · obtain ⟨p, hp, hsit⟩ := h.leaving d (List.mem_of_getElem? hj) room hstage
      exact ⟨p, hp, hsits j d p hji hj hsit⟩

theorem Roomy.keep (h : s.Roomy) (hi : s.clients[i]? = some c) (hclients : t.clients = s.clients.set i c')
    (hmanager : t.roomManager = s.roomManager) (hid : c'.id = c.id) (hseeks : c'.stage.isSeeking = false)
    (hleaves : ∀ room, c'.stage = .leaving room → c.stage = .leaving room) : t.Roomy := by
  apply h.set hclients (hmanager ▸ h.wellKept)
  · intro hd
    rw [hseeks] at hd
    cases hd
  · intro j d rooms _ hj hstage
    rw [hmanager]
    exact h.seeking d (List.mem_of_getElem? hj) rooms hstage
  · intro rooms hstage
    rw [hstage] at hseeks
    cases hseeks
  · intro j d p _ _ hsit
    rwa [hmanager]
  · intro room hstage
    rw [hmanager, hid]
    exact h.leaving c (List.mem_of_getElem? hi) room (hleaves room hstage)

theorem Kept.set (h : s.Kept) (hi : s.clients[i]? = some c) (hclients : t.clients = s.clients.set i c')
    (hid : c'.id = c.id) (hallocator : t.driver.playerUniqueIdAllocator = s.driver.playerUniqueIdAllocator)
    (htables : t.driver.TablesAgree) (hlate : c'.heardLate → c'.stage.isErased) (hlisted : t.Listed) (hroomy : t.Roomy) :
    t.Kept := by
  refine ⟨?_, ?_, htables, ?_, hlisted, hroomy⟩
  · rw [hclients]
    exact h.numbered.set hi hid
  · rw [hclients, hallocator, List.length_set]
    exact h.allocator
  · intro d hd
    rw [hclients] at hd
    rcases List.mem_or_eq_of_mem_set hd with hd | rfl
    · exact h.late d hd
    · exact hlate

/-! ## `AddClient` and `Close` -/

theorem statusOf_spec (s : GameServer Addr) (id : BitVec 32) : ∃ statuses map, (s.statusOf id).2 =
    { s with statuses := statuses, connectionRUDPMap := map } ∧ (map id).isSome ∧
      ∀ k, k ≠ id → map k = s.connectionRUDPMap k := by
  unfold statusOf
  cases hid : s.connectionRUDPMap id with
  | some status => exact ⟨s.statuses, s.connectionRUDPMap, rfl, by simp [hid], fun _ _ => rfl⟩
  | none => exact ⟨_, _, rfl, by simp [UnorderedMap.set_self], fun k hk => UnorderedMap.set_of_ne hk⟩

theorem Kept.addClient (h : s.Kept) (hfew : s.clients.length + 1 < 2 ^ 32) (key : BitVec 64)
    (p : PendingRemoteConnection Double Addr) : (s.addClient key p).Kept := by
  have hid : s.driver.playerUniqueIdAllocator.allocate =
      (BitVec.ofNat 32 (s.clients.length + 1), ⟨BitVec.ofNat 32 (s.clients.length + 2), []⟩) := by
    rw [h.allocator]
    exact congrArg (fun n => (_, IDAllocator.mk n [])) (BitVec.ofNat_add (s.clients.length + 1) 1).symm
  unfold GameServer.addClient IpNetDriver.makeConnection
  rw [hid]
  simp only
  constructor
  · constructor
    · intro i c hi
      rcases getElem?_concat_eq_some.mp hi with hi | ⟨rfl, rfl⟩
      · exact h.numbered.id i c hi
      · rfl
    · rw [List.length_append]
      exact hfew
  · rw [List.length_append, List.length_singleton]
  · exact ⟨h.tables.remote, h.tables.identified, h.tables.hashed, h.tables.nodup⟩
  · intro c hc hlate
    rcases List.mem_append.mp hc with hc | hc
    · exact h.late c hc hlate
    · rw [List.mem_singleton.mp hc] at hlate
      cases hlate
  · refine ⟨h.listed.connections.concat ?_, h.listed.statuses.concat ?_, h.listed.numbers.concat ?_,
      h.listed.rooms.concat ?_⟩ <;>
      simp [ClientStage.connection?, ClientStage.hasStatus, ClientStage.hasNumber, ClientStage.hasRoom]
  · refine ⟨h.roomy.wellKept, ?_, ?_, ?_⟩
    · intro i j c d hi hj hc hd
      rcases getElem?_concat_eq_some.mp hi with hi | ⟨-, rfl⟩
      · rcases getElem?_concat_eq_some.mp hj with hj | ⟨-, rfl⟩
        · exact h.roomy.oneSeeks i j c d hi hj hc hd
        · cases hd
      · cases hc
    · intro c hc rooms hstage
      rcases List.mem_append.mp hc with hc | hc
      · exact h.roomy.seeking c hc rooms hstage
      · rw [List.mem_singleton.mp hc] at hstage
        cases hstage
    · intro c hc room hstage
      rcases List.mem_append.mp hc with hc | hc
      · exact h.roomy.leaving c hc room hstage
      · rw [List.mem_singleton.mp hc] at hstage
        cases hstage

theorem Kept.notLate (h : s.Kept) (hi : s.clients[i]? = some c) (hstage : c.stage.isErased = false) : c.heardLate = false := by
  rw [← Bool.not_eq_true]
  intro hlate
  rw [h.late c (List.mem_of_getElem? hi) hlate] at hstage
  cases hstage

section
variable (h : s.Kept) (hi : s.clients[i]? = some c)
include h hi

theorem Kept.enterStatus (hstage : c.stage = .allocated) :
    ((s.statusOf c.id).2.setClient i { c with stage := .statusEntered }).Kept := by
  obtain ⟨statuses, map, heq, hin, hother⟩ := s.statusOf_spec c.id
  have hkeys := h.numbered.nodup
  have hlate := h.notLate hi (by rw [hstage]; rfl)
  rw [heq]
  refine h.set hi rfl rfl rfl h.tables ?_ ?_ ?_
  · simp [hlate]
  · constructor
    · exact h.listed.connections.keep hkeys hi rfl fun _ => by rw [hstage]; rfl
    · refine h.listed.statuses.set hkeys hi rfl ?_ ?_
      · intro k _ hk
        show (map k).isSome ↔ _
        rw [hother k hk]
      · intro _
        exact iff_of_true hin (.inl rfl)
    · exact h.listed.numbers.keep hkeys hi rfl fun _ => by rw [hstage]; rfl
    · exact h.listed.rooms.keep hkeys hi rfl fun _ => by rw [hstage]; rfl
  · exact h.roomy.keep hi rfl rfl rfl rfl (by simp)

theorem Kept.enterNumber (hstage : c.stage = .statusEntered) :
    ({ s with connectionReliableMap := s.connectionReliableMap.insert c.id 0 }.setClient i
      { c with stage := .numberEntered }).Kept := by
  have hkeys := h.numbered.nodup
  have hlate := h.notLate hi (by rw [hstage]; rfl)
  refine h.set hi rfl rfl rfl h.tables ?_ ?_ ?_
  · simp [hlate]
  · constructor
    · exact h.listed.connections.keep hkeys hi rfl fun _ => by rw [hstage]; rfl
    · exact h.listed.statuses.keep hkeys hi rfl fun _ => by rw [hstage]; rfl
    · refine h.listed.numbers.set hkeys hi rfl ?_ ?_
      · intro k _ hk
        show (s.connectionReliableMap.insert c.id 0 k).isSome ↔ _
        rw [UnorderedMap.insert_of_ne hk]
      · intro _
        exact iff_of_true UnorderedMap.insert_isSome rfl
    · exact h.listed.rooms.keep hkeys hi rfl fun _ => by rw [hstage]; rfl
  · exact h.roomy.keep hi rfl rfl rfl rfl (by simp)

theorem Kept.notIn (hstage : c.stage.hasRoom = false) : ¬ s.roomManager.Has c.id := by
  intro hhas
  have hin := (h.listed.rooms.holds_iff h.numbered.nodup (List.mem_of_getElem? hi) ()).mp hhas
  rw [hstage] at hin
  cases hin

theorem Kept.look {rooms : List ℕ} (hbefore : c.stage = .numberEntered ∨ c.stage.isSeeking)
    (hone : ∀ (j : ℕ) (d : Client Addr), j ≠ i → s.clients[j]? = some d → d.stage.isSeeking = false)
    (htakes : s.roomManager.Takes rooms) : (s.setClient i { c with stage := .seeking rooms }).Kept := by
  have hkeys := h.numbered.nodup
  obtain ⟨hlate, hconnection, hstatus, hnumber, hroom⟩ : c.heardLate = false ∧ c.stage.connection? = none ∧
      c.stage.hasStatus = true ∧ c.stage.hasNumber = true ∧ c.stage.hasRoom = false := by
    refine ⟨h.notLate hi ?_, ?_⟩ <;> cases hc : c.stage <;> rw [hc] at hbefore <;>
      simp_all [ClientStage.isSeeking, ClientStage.isErased, ClientStage.connection?, ClientStage.hasStatus,
        ClientStage.hasNumber, ClientStage.hasRoom]
  refine h.set hi rfl rfl rfl h.tables ?_ ?_ ?_
  · simp [hlate]
  · constructor
    · exact h.listed.connections.keep hkeys hi rfl fun _ => by rw [hconnection]; rfl
    · exact h.listed.statuses.keep hkeys hi rfl fun _ => by rw [hstatus]; rfl
    · exact h.listed.numbers.keep hkeys hi rfl fun _ => by rw [hnumber]; rfl
    · exact h.listed.rooms.keep hkeys hi rfl fun _ => by rw [hroom]; rfl
  · refine h.roomy.set rfl h.roomy.wellKept (fun _ => hone) ?_ ?_ (fun _ _ _ _ _ hsit => hsit) (by simp)
    · intro j d rooms _ hj hd
      exact h.roomy.seeking d (List.mem_of_getElem? hj) rooms hd
    · intro rooms' heq
      obtain rfl := ClientStage.seeking.inj heq
      exact htakes

theorem Kept.join {manager : RoomManager} (hstage : c.stage.isSeeking) (hwellKept : manager.WellKept)
    (hhas : ∀ id, manager.Has id ↔ id = c.id ∨ s.roomManager.Has id)
    (hsits : ∀ id p, s.roomManager.Sits id p → manager.Sits id p) :
    ({ s with roomManager := manager }.setClient i { c with stage := .joined }).Kept := by
  have hkeys := h.numbered.nodup
  obtain ⟨hlate, hconnection, hstatus, hnumber⟩ : c.heardLate = false ∧ c.stage.connection? = none ∧
      c.stage.hasStatus = true ∧ c.stage.hasNumber = true := by
    refine ⟨h.notLate hi ?_, ?_⟩ <;> cases hc : c.stage <;> rw [hc] at hstage <;>
      simp_all [ClientStage.isSeeking, ClientStage.isErased, ClientStage.connection?, ClientStage.hasStatus,
        ClientStage.hasNumber]
  refine h.set hi rfl rfl rfl h.tables ?_ ?_ ?_
  · simp [hlate]
  · constructor
    · exact h.listed.connections.keep hkeys hi rfl fun _ => by rw [hconnection]; rfl
    · exact h.listed.statuses.keep hkeys hi rfl fun _ => by rw [hstatus]; rfl
    · exact h.listed.numbers.keep hkeys hi rfl fun _ => by rw [hnumber]; rfl
    · refine h.listed.rooms.set hkeys hi rfl ?_ ?_
      · intro k _ hk
        exact (hhas k).trans (or_iff_right hk)
      · intro _
        exact iff_of_true ((hhas c.id).mpr (.inl rfl)) rfl
  · refine h.roomy.set rfl hwellKept (by simp [ClientStage.isSeeking]) ?_ (by simp) (fun _ d p _ _ hsit => hsits d.id p hsit)
      (by simp)
    -- the mutex lets no other client seek
    intro j d rooms hne hj hd
    exact absurd (h.roomy.oneSeeks j i d c hj hi (by rw [hd]; rfl) hstage) hne

theorem Kept.seek {rooms : List ℕ} (hstage : c.stage = .seeking rooms) : (s.seek i c rooms).Kept := by
  have hseeks : c.stage.isSeeking := by rw [hstage]; rfl
  have htakes := h.roomy.seeking c (List.mem_of_getElem? hi) rooms hstage
  have hnew : ¬ s.roomManager.Has c.id := h.notIn hi (by rw [hstage]; rfl)
  have hwell := h.roomy.wellKept
  cases rooms with
  | cons it rooms =>
    obtain ⟨room, hroom⟩ := hwell.mem_rooms.mp (htakes.1 it List.mem_cons_self)
    have hkept := hwell.room room (List.mem_of_getElem? hroom)
    unfold GameServer.seek
    simp only [RoomManager.room_eq hroom]
    cases hfree : room.isAddPlayer with
    | false =>
      refine h.look hi (.inr hseeks) ?_ (hwell.takes_tail htakes (by rw [RoomManager.room_eq hroom, hfree]))
      intro j d hne hj
      rw [← Bool.not_eq_true]
      exact fun hd => hne (h.roomy.oneSeeks j i d c hj hi hd hseeks)
    | true =>
      have hlt := hkept.isAddPlayer_iff.mp hfree
      have hadd := hkept.addPlayer_eq (p := ⟨i, c.id⟩) hlt fun hid => hnew ⟨room, List.mem_of_getElem? hroom, hid⟩
      have hinto := hwell.addTo hroom ⟨i, c.id⟩ hlt hnew
      rw [hadd] at hinto ⊢
      refine h.join hi hseeks hinto.1 hinto.2 ?_
      intro id p hsit
      apply hsit.setRoom hroom
      intro hid
      have hout : c.id ∉ room.ids := fun hid => hnew ⟨room, List.mem_of_getElem? hroom, hid⟩
      have hmem := (hkept.mem_ids_addPlayer (p := ⟨i, c.id⟩) hlt hout).mpr (.inr hid)
      rw [hadd] at hmem
      exact hmem
  | nil =>
    have hfew : s.roomManager.heap.length < 2 ^ 22 := htakes.2.resolve_right (by simp)
    have hroom := hwell.getElem?_addNewRoom hfew
    have hfst : s.roomManager.addNewRoom.1 = s.roomManager.heap.length := by rw [hwell.allocate hfew]
    have hsame : ∀ id, s.roomManager.addNewRoom.2.Has id ↔ s.roomManager.Has id := fun id => hwell.has_addNewRoom hfew
    have hinto := (hwell.addNewRoom hfew).addTo hroom ⟨i, c.id⟩ (show 0 < 1024 by decide)
      (fun hhas => hnew ((hsame c.id).mp hhas))
    unfold GameServer.seek
    simp only
    rw [hfst, RoomManager.room_eq hroom]
    refine h.join hi hseeks hinto.1 (fun id => (hinto.2 id).trans (or_congr_right (hsame id))) ?_
    intro id p hsit
    obtain ⟨room, hp, hid⟩ := hsit
    have hnewRoom : s.roomManager.addNewRoom.2.Sits id p := by
      refine ⟨room, ?_, hid⟩
      rw [hwell.allocate hfew]
      exact List.getElem?_append_left (List.getElem?_eq_some_iff.mp hp).1 ▸ hp
    exact hnewRoom.setRoom hroom fun hid => absurd hid List.not_mem_nil

theorem Kept.publish (hstage : c.stage = .joined) : ({ s with driver := s.driver.publish c.key c.connection }.setClient i
    { c with stage := .published s.driver.connections.length }).Kept := by
  have hkeys := h.numbered.nodup
  have hlate := h.notLate hi (by rw [hstage]; rfl)
  have hnone : s.driver.connectionMap c.connection.uniqueConnectionId = none := by
    rw [Option.eq_none_iff_forall_ne_some]
    intro r hr
    have hin := (h.listed.connections.holds_iff hkeys (List.mem_of_getElem? hi) r).mp hr
    rw [hstage] at hin
    cases hin
  refine h.set hi rfl rfl rfl (h.tables.publish hnone) ?_ ?_ ?_
  · simp [hlate]
  · constructor
    · refine h.listed.connections.set hkeys hi rfl ?_ ?_
      · intro k r hk
        have hk : k ≠ c.connection.uniqueConnectionId := hk
        show (s.driver.publish c.key c.connection).connectionMap k = some r ↔ _
        rw [IpNetDriver.connectionMap_publish _ hnone, UnorderedMap.set_of_ne hk]
      · intro r
        show (s.driver.publish c.key c.connection).connectionMap c.connection.uniqueConnectionId = some r ↔ _
        rw [IpNetDriver.connectionMap_publish _ hnone, UnorderedMap.set_self]
        rfl
    · exact h.listed.statuses.keep hkeys hi rfl fun _ => by rw [hstage]; rfl
    · exact h.listed.numbers.keep hkeys hi rfl fun _ => by rw [hstage]; rfl
    · exact h.listed.rooms.keep hkeys hi rfl fun _ => by rw [hstage]; rfl
  · exact h.roomy.keep hi rfl rfl rfl rfl (by simp)

theorem Kept.withdraw {r : ℕ} (hstage : c.stage = .closed r) :
    ({ s with driver := s.driver.removeConnection r }.setClient i { c with stage := .withdrawn }).Kept := by
  have hkeys := h.numbered.nodup
  have hlate := h.notLate hi (by rw [hstage]; rfl)
  have hin : s.driver.connectionMap c.id = some r :=
    (h.listed.connections.holds_iff hkeys (List.mem_of_getElem? hi) r).mpr (by rw [hstage]; rfl)
  have heq := IpNetDriver.removeConnection_eq (h.tables.identified c.id r hin)
  refine h.set hi rfl rfl (by rw [heq]; rfl) (h.tables.removeConnection hin) ?_ ?_ ?_
  · simp [hlate]
  · constructor
    · refine h.listed.connections.set hkeys hi rfl ?_ ?_
      · intro k r' hk
        show (s.driver.removeConnection r).connectionMap k = some r' ↔ _
        rw [heq]
        exact iff_of_eq (congrArg (· = some r') (UnorderedMap.erase_of_ne hk))
      · intro r'
        show (s.driver.removeConnection r).connectionMap c.id = some r' ↔ _
        rw [heq]
        exact iff_of_eq (congrArg (· = some r') UnorderedMap.erase_self)
    · exact h.listed.statuses.keep hkeys hi rfl fun _ => by rw [hstage]; rfl
    · exact h.listed.numbers.keep hkeys hi rfl fun _ => by rw [hstage]; rfl
    · exact h.listed.rooms.keep hkeys hi rfl fun _ => by rw [hstage]; rfl
  · exact h.roomy.keep hi rfl rfl rfl rfl (by simp)

theorem Kept.eraseStatus (hstage : c.stage = .withdrawn) :
    ({ s with connectionRUDPMap := s.connectionRUDPMap.erase c.id }.setClient i { c with stage := .statusErased }).Kept := by
  have hkeys := h.numbered.nodup
  have hlate := h.notLate hi (by rw [hstage]; rfl)
  refine h.set hi rfl rfl rfl h.tables (fun _ => rfl) ?_ ?_
  · constructor
    · exact h.listed.connections.keep hkeys hi rfl fun _ => by rw [hstage]; rfl
    · refine h.listed.statuses.set hkeys hi rfl ?_ ?_
      · intro k _ hk
        show (s.connectionRUDPMap.erase c.id k).isSome ↔ _
        rw [UnorderedMap.erase_of_ne hk]
      · intro _
        show (s.connectionRUDPMap.erase c.id c.id).isSome ↔ _
        rw [UnorderedMap.erase_self]
        simp [hlate, ClientStage.hasStatus]
    · exact h.listed.numbers.keep hkeys hi rfl fun _ => by rw [hstage]; rfl
    · exact h.listed.rooms.keep hkeys hi rfl fun _ => by rw [hstage]; rfl
  · exact h.roomy.keep hi rfl rfl rfl rfl (by simp)

theorem Kept.eraseNumber (hstage : c.stage = .statusErased) :
    ({ s with connectionReliableMap := s.connectionReliableMap.erase c.id }.setClient i
      { c with stage := .numberErased }).Kept := by
  have hkeys := h.numbered.nodup
  refine h.set hi rfl rfl rfl h.tables (fun _ => rfl) ?_ ?_
  · constructor
    · exact h.listed.connections.keep hkeys hi rfl fun _ => by rw [hstage]; rfl
    · exact h.listed.statuses.keep hkeys hi rfl fun _ => by rw [hstage]; rfl
    · refine h.listed.numbers.set hkeys hi rfl ?_ ?_
      · intro k _ hk
        show (s.connectionReliableMap.erase c.id k).isSome ↔ _
        rw [UnorderedMap.erase_of_ne hk]
      · intro _
        show (s.connectionReliableMap.erase c.id c.id).isSome ↔ _
        rw [UnorderedMap.erase_self]
        simp [ClientStage.hasNumber]
    · exact h.listed.rooms.keep hkeys hi rfl fun _ => by rw [hstage]; rfl
  · exact h.roomy.keep hi rfl rfl rfl rfl (by simp)

theorem Kept.goOn {stage : ClientStage} (herased : c.stage.isErased → stage.isErased)
    (hconnection : stage.connection? = c.stage.connection?) (hstatus : stage.hasStatus = c.stage.hasStatus)
    (hnumber : stage.hasNumber = c.stage.hasNumber) (hroom : stage.hasRoom = c.stage.hasRoom)
    (hseeking : stage.isSeeking = false)
    (hleaving : ∀ room, stage = .leaving room → ∃ p, room = some p ∧ s.roomManager.Sits c.id p) :
    (s.setClient i { c with stage := stage }).Kept := by
  have hkeys := h.numbered.nodup
  refine h.set hi rfl rfl rfl h.tables ?_ ?_ ?_
  · exact fun hlate => herased (h.late c (List.mem_of_getElem? hi) hlate)
  · constructor
    · exact h.listed.connections.keep hkeys hi rfl fun _ => by rw [hconnection]
    · exact h.listed.statuses.keep hkeys hi rfl fun _ => by rw [hstatus]
    · exact h.listed.numbers.keep hkeys hi rfl fun _ => by rw [hnumber]
    · exact h.listed.rooms.keep hkeys hi rfl fun _ => by rw [hroom]
  · refine h.roomy.set rfl h.roomy.wellKept ?_ ?_ ?_ (fun _ _ _ _ _ hsit => hsit) hleaving
    · intro hd
      rw [show stage.isSeeking = true from hd] at hseeking
      cases hseeking
    · intro j d rooms _ hj hd
      exact h.roomy.seeking d (List.mem_of_getElem? hj) rooms hd
    · intro rooms hd
      rw [show stage = .seeking rooms from hd] at hseeking
      cases hseeking

theorem Kept.findRoom (hstage : c.stage = .numberErased) :
    (s.setClient i { c with stage := .leaving (s.roomManager.findRoomWithConnection c.id) }).Kept := by
  have hhas : s.roomManager.Has c.id :=
    (h.listed.rooms.holds_iff h.numbered.nodup (List.mem_of_getElem? hi) ()).mpr (by rw [hstage]; rfl)
  obtain ⟨p, hfind, hsit⟩ := h.roomy.wellKept.find_of_has hhas
  refine h.goOn hi (fun _ => rfl) ?_ ?_ ?_ ?_ rfl ?_
  · rw [hstage]; rfl
  · rw [hstage]; rfl
  · rw [hstage]; rfl
  · rw [hstage]; rfl
  · intro room hroom
    obtain rfl := ClientStage.leaving.inj hroom
    exact ⟨p, hfind, hsit⟩

theorem Kept.leave {p : ℕ} (hstage : c.stage = .leaving (some p)) :
    ({ s with roomManager := s.roomManager.setRoom p ((s.roomManager.room p).removePlayer c.id).2 }.setClient i
      { c with stage := .gone }).Kept := by
  have hkeys := h.numbered.nodup
  obtain ⟨q, hq, room, hroom, hid⟩ := h.roomy.leaving c (List.mem_of_getElem? hi) (some p) hstage
  obtain rfl := Option.some.inj hq
  have hwell := h.roomy.wellKept
  have hkept := hwell.room room (List.mem_of_getElem? hroom)
  have hfrom := hwell.removeFrom hroom hid
  rw [RoomManager.room_eq hroom]
  refine h.set hi rfl rfl rfl h.tables (fun _ => rfl) ?_ ?_
  · constructor
    · exact h.listed.connections.keep hkeys hi rfl fun _ => by rw [hstage]; rfl
    · exact h.listed.statuses.keep hkeys hi rfl fun _ => by rw [hstage]; rfl
    · exact h.listed.numbers.keep hkeys hi rfl fun _ => by rw [hstage]; rfl
    · refine h.listed.rooms.set hkeys hi rfl ?_ ?_
      · intro k _ hk
        exact (hfrom.2 k).trans (and_iff_right hk)
      · intro _
        refine iff_of_false ?_ (by simp [ClientStage.hasRoom])
        exact fun hhas => ((hfrom.2 c.id).mp hhas).1 rfl
  · refine h.roomy.set rfl hfrom.1 (by simp [ClientStage.isSeeking]) ?_ (by simp) ?_ (by simp)
    · intro j d rooms _ hj hd
      apply (h.roomy.seeking d (List.mem_of_getElem? hj) rooms hd).setRoom hroom
      intro hlt
      rw [hkept.removePlayer_eq hid]
      exact Nat.lt_of_le_of_lt (List.length_filter_le _ _) hlt
    · intro j d q hne hj hsit
      apply hsit.setRoom hroom
      intro hd
      exact (hkept.mem_ids_removePlayer hid).mpr ⟨h.numbered.id_ne hi hj hne, hd⟩

end

theorem Kept.advance (h : s.Kept) (i : ℕ) : (s.advance i).Kept := by
  unfold GameServer.advance
  cases hi : s.clients[i]? with
  | none => exact h
  | some c =>
    cases hstage : c.stage with
    | allocated => simpa only [hstage] using h.enterStatus hi hstage
    | statusEntered =>
      simp only [hstage]
      split
      · exact h
      · exact h.enterNumber hi hstage
    | numberEntered =>
      simp only [hstage]
      split
      case isTrue => exact h
      case isFalse hfree =>
        refine h.look hi (.inl hstage) ?_ (h.roomy.wellKept.takes (h.notIn hi (by rw [hstage]; rfl)))
        intro j d _ hj
        have hall : ∀ e ∈ s.clients, e.stage.isSeeking = false := by simpa [roomsLocked] using hfree
        exact hall d (List.mem_of_getElem? hj)
    | seeking rooms => simpa only [hstage] using h.seek hi hstage
    | joined => simpa only [hstage] using h.publish hi hstage
    | published r => simpa only [hstage] using h
    | closed r => simpa only [hstage] using h.withdraw hi hstage
    | withdrawn => simpa only [hstage] using h.eraseStatus hi hstage
    | statusErased =>
      simp only [hstage]
      split
      · exact h
      · exact h.eraseNumber hi hstage
    | numberErased =>
      simp only [hstage]
      split
      · exact h
      · exact h.findRoom hi hstage
    | leaving room =>
      cases room with
      | some p => simpa only [hstage] using h.leave hi hstage
      | none =>
        obtain ⟨p, hp, -⟩ := h.roomy.leaving c (List.mem_of_getElem? hi) none hstage
        cases hp
    | gone => simpa only [hstage] using h

end GameServer

end RudpEngine
