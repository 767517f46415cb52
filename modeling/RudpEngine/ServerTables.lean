import RudpEngine.GameServer
import RudpEngine.OnePerAddress

/-!
# The tables and the rooms under one step

What `ConnectionMap` and `RemoteConnections` agree on when a connection comes
and goes, and what the rooms keep when players leave while a thread is looking
for a room with a free place.
-/

namespace RudpEngine

/-! ## Maps and tables -/

namespace UnorderedMap

variable {κ ν : Type} [DecidableEq κ] {m : UnorderedMap κ ν} {k k' : κ} {v : ν}

theorem set_self : m.set k v k = some v := if_pos rfl

theorem set_of_ne (h : k' ≠ k) : m.set k v k' = m k' := if_neg h

theorem erase_self : m.erase k k = none := if_pos rfl

theorem erase_of_ne (h : k' ≠ k) : m.erase k k' = m k' := if_neg h

theorem insert_of_some {w : ν} (h : m k = some w) (v : ν) : m.insert k v = m := by
  unfold insert
  rw [h]

theorem insert_isSome : (m.insert k v k).isSome := by
  cases h : m k with
  | none => simp [insert_of_none h, set_self]
  | some w => simp [insert_of_some h, h]

theorem insert_of_ne (h : k' ≠ k) : m.insert k v k' = m k' := by
  cases hk : m k with
  | none => rw [insert_of_none hk, set_of_ne h]
  | some w => rw [insert_of_some hk]

end UnorderedMap

namespace IpNetDriver

variable {Addr : Type}

/-- `ConnectionMap` and `RemoteConnections` hold the same connections under their ids, and no datagram gets to others. -/
structure TablesAgree (d : IpNetDriver Addr) : Prop where
  remote : ∀ r, r ∈ d.remoteConnections ↔ ∃ id, d.connectionMap id = some r
  identified : ∀ id r, d.connectionMap id = some r → d.id? r = some id
  hashed : ∀ key r, d.hashToConnectionMap key = some r → r ∈ d.remoteConnections
  nodup : d.remoteConnections.Nodup

variable {d : IpNetDriver Addr} {key : BitVec 64} {c : GameNetConnection Addr} {r : ℕ}

theorem lt_of_id? {id : BitVec 32} (h : d.id? r = some id) : r < d.connections.length := by
  by_contra hle
  rw [id?, List.getElem?_eq_none (Nat.le_of_not_lt hle)] at h
  cases h

theorem TablesAgree.lt (h : d.TablesAgree) (hr : r ∈ d.remoteConnections) : r < d.connections.length := by
  obtain ⟨id, hid⟩ := (h.remote r).mp hr
  exact lt_of_id? (h.identified id r hid)

theorem connectionMap_publish (key : BitVec 64) (hid : d.connectionMap c.uniqueConnectionId = none) :
    (d.publish key c).connectionMap = d.connectionMap.set c.uniqueConnectionId d.connections.length :=
  UnorderedMap.insert_of_none hid _

theorem TablesAgree.publish (h : d.TablesAgree) (hid : d.connectionMap c.uniqueConnectionId = none) :
    (d.publish key c).TablesAgree := by
  have hmap := connectionMap_publish key hid
  constructor
  · intro r
    rw [hmap]
    simp only [IpNetDriver.publish, List.mem_append, List.mem_singleton, h.remote, UnorderedMap.set_eq_some]
    constructor
    · intro hr
      rcases hr with ⟨id, hr⟩ | rfl
      · refine ⟨id, .inr ⟨?_, hr⟩⟩
        intro heq
        rw [heq, hid] at hr
        cases hr
      · exact ⟨_, .inl ⟨rfl, rfl⟩⟩
    · intro hr
      obtain ⟨id, ⟨-, hr⟩ | ⟨-, hr⟩⟩ := hr
      · exact .inr hr.symm
      · exact .inl ⟨id, hr⟩
  · intro id r hr
    rw [hmap, UnorderedMap.set_eq_some] at hr
    rw [id?_publish]
    rcases hr with ⟨rfl, rfl⟩ | ⟨-, hr⟩
    · simp
    · have hid := h.identified id r hr
      rw [if_neg (Nat.ne_of_lt (lt_of_id? hid)), hid]
  · intro k r hr
    have hr : (d.hashToConnectionMap.insert key d.connections.length) k = some r := hr
    show r ∈ d.remoteConnections ++ [d.connections.length]
    cases hkey : d.hashToConnectionMap key with
    | some w =>
      rw [UnorderedMap.insert_of_some hkey] at hr
      exact List.mem_append_left _ (h.hashed k r hr)
    | none =>
      rw [UnorderedMap.insert_of_none hkey, UnorderedMap.set_eq_some] at hr
      rcases hr with ⟨-, rfl⟩ | ⟨-, hr⟩
      · simp
      · exact List.mem_append_left _ (h.hashed k r hr)
  · show (d.remoteConnections ++ [d.connections.length]).Nodup
    rw [List.nodup_append]
    refine ⟨h.nodup, by simp, ?_⟩
    intro r hr r' hr' heq
    rw [List.mem_singleton.mp hr'] at heq
    exact Nat.ne_of_lt (h.lt hr) heq

theorem removeConnection_eq {id : BitVec 32} (hid : d.id? r = some id) : d.removeConnection r = { d with
    hashToConnectionMap := d.hashToConnectionMap.eraseIf fun v => v = r
    connectionMap := d.connectionMap.erase id
    remoteConnections := d.remoteConnections.filter fun v => v ≠ r } := by
  obtain ⟨c, hc, rfl⟩ := Option.map_eq_some_iff.mp hid
  unfold IpNetDriver.removeConnection
  rw [hc]

theorem TablesAgree.removeConnection (h : d.TablesAgree) {id : BitVec 32} (hr : d.connectionMap id = some r) :
    (d.removeConnection r).TablesAgree := by
  have hid := h.identified id r hr
  rw [removeConnection_eq hid]
  constructor
  · intro r'
    simp only [List.mem_filter, h.remote, UnorderedMap.erase_eq_some, decide_eq_true_eq]
    constructor
    · intro hr'
      obtain ⟨⟨id', hr'⟩, hne⟩ := hr'
      refine ⟨id', ?_, hr'⟩
      intro heq
      rw [heq, hr] at hr'
      exact hne (Option.some.inj hr').symm
    · intro hr'
      obtain ⟨id', hne, hr'⟩ := hr'
      refine ⟨⟨id', hr'⟩, ?_⟩
      intro heq
      subst heq
      exact hne (Option.some.inj ((h.identified id' r' hr').symm.trans hid))
  · intro id' r' hr'
    exact h.identified id' r' (UnorderedMap.erase_eq_some.mp hr').2
  · intro k r' hr'
    obtain ⟨hr', hne⟩ := UnorderedMap.eraseIf_eq_some.mp hr'
    simp only [List.mem_filter]
    exact ⟨h.hashed k r' hr', by simpa using hne⟩
  · exact h.nodup.filter _

theorem TablesAgree.modify (h : d.TablesAgree) {f : GameNetConnection Addr → GameNetConnection Addr}
    (hf : ∀ c, (f c).uniqueConnectionId = c.uniqueConnectionId) (r : ℕ) :
    TablesAgree { d with connections := d.connections.modify r f } := by
  refine ⟨h.remote, ?_, h.hashed, h.nodup⟩
  intro id r' hr'
  rw [← h.identified id r' hr']
  exact map_getElem?_modify _ _ _ hf _

end IpNetDriver

/-! ## Rooms -/

namespace RoomManager

def Sits (m : RoomManager) (id : BitVec 32) (p : ℕ) : Prop := ∃ r, m.heap[p]? = some r ∧ id ∈ r.ids

/-- Among `rooms` there is one with a free place, or there are not too many rooms for one more. -/
def Takes (m : RoomManager) (rooms : List ℕ) : Prop :=
  (∀ p ∈ rooms, p ∈ m.rooms) ∧
    (m.heap.length < 2 ^ 22 ∨ ∃ p ∈ rooms, ∃ r, m.heap[p]? = some r ∧ r.players.length < r.maxPlayer)

variable {m : RoomManager} {p q : ℕ} {r r' : Room} {id k : BitVec 32}

theorem Sits.has (h : m.Sits id p) : m.Has id := by
  obtain ⟨r, hr, hid⟩ := h
  exact ⟨r, List.mem_of_getElem? hr, hid⟩

theorem Sits.setRoom (h : m.Sits id q) (hp : m.heap[p]? = some r) (hids : id ∈ r.ids → id ∈ r'.ids) :
    (m.setRoom p r').Sits id q := by
  obtain ⟨s, hs, hid⟩ := h
  have hlt : p < m.heap.length := (List.getElem?_eq_some_iff.mp hp).1
  by_cases hpq : p = q
  · subst hpq
    rw [hp, Option.some.injEq] at hs
    subst hs
    exact ⟨r', List.getElem?_set_self hlt, hids hid⟩
  · exact ⟨s, (List.getElem?_set_ne hpq).trans hs, hid⟩

theorem Takes.setRoom {rooms : List ℕ} (h : m.Takes rooms) (hp : m.heap[p]? = some r)
    (hroom : r.players.length < r.maxPlayer → r'.players.length < r'.maxPlayer) : (m.setRoom p r').Takes rooms := by
  refine ⟨h.1, ?_⟩
  have hlen : (m.setRoom p r').heap.length = m.heap.length := List.length_set
  rw [hlen]
  refine h.2.imp_right ?_
  intro hex
  obtain ⟨q, hq, s, hs, hfree⟩ := hex
  have hlt : p < m.heap.length := (List.getElem?_eq_some_iff.mp hp).1
  by_cases hpq : p = q
  · subst hpq
    rw [hp, Option.some.injEq] at hs
    subst hs
    exact ⟨p, hq, r', List.getElem?_set_self hlt, hroom hfree⟩
  · exact ⟨q, hq, s, (List.getElem?_set_ne hpq).trans hs, hfree⟩

namespace WellKept

variable (h : m.WellKept)
include h

theorem find_of_has (hhas : m.Has id) : ∃ p, m.findRoomWithConnection id = some p ∧ m.Sits id p := by
  cases hfind : m.findRoomWithConnection id with
  | none => exact absurd hhas (h.findRoomWithConnection_eq_none.mp hfind)
  | some p => exact ⟨p, rfl, h.findRoomWithConnection_eq_some.mp hfind⟩

/-- Somewhere there is a place for a new connection, or all rooms are full and few. -/
theorem takes (hnew : ¬ m.Has id) : m.Takes m.rooms := by
  refine ⟨fun _ hp => hp, ?_⟩
  by_cases hfull : ∀ r ∈ m.heap, r.players.length = 1024
  · exact .inl (h.few_full hfull hnew)
  · push Not at hfull
    obtain ⟨r, hr, hne⟩ := hfull
    obtain ⟨p, hp⟩ := List.getElem?_of_mem hr
    have hmax := (h.room r hr).maxPlayer
    have hbound := (h.room r hr).bound
    exact .inr ⟨p, h.mem_rooms.mpr ⟨r, hp⟩, r, hp, by omega⟩

theorem takes_tail {rooms : List ℕ} (htakes : m.Takes (p :: rooms)) (hfull : (m.room p).isAddPlayer = false) :
    m.Takes rooms := by
  refine ⟨fun q hq => htakes.1 q (List.mem_cons_of_mem _ hq), htakes.2.imp_right ?_⟩
  intro hex
  obtain ⟨q, hq, r, hr, hfree⟩ := hex
  rcases List.mem_cons.mp hq with rfl | hq
  · rw [room_eq hr, Bool.eq_false_iff, Ne, (h.room r (List.mem_of_getElem? hr)).isAddPlayer_iff] at hfull
    exact absurd hfree hfull
  · exact ⟨q, hq, r, hr, hfree⟩

variable (hp : m.heap[p]? = some r)
include hp

theorem addTo (player : Player) (hlt : r.players.length < r.maxPlayer) (hnew : ¬ m.Has player.connectionId) :
    (m.setRoom p (r.addPlayer player).2).WellKept ∧
      ∀ id, (m.setRoom p (r.addPlayer player).2).Has id ↔ id = player.connectionId ∨ m.Has id := by
  have hmem := List.mem_of_getElem? hp
  have hkept := h.room r hmem
  have hnew' : player.connectionId ∉ r.ids := fun hid => hnew ⟨r, hmem, hid⟩
  have hids : ∀ id, id ∈ (r.addPlayer player).2.ids ↔ id = player.connectionId ∨ id ∈ r.ids :=
    fun id => hkept.mem_ids_addPlayer hlt hnew'
  constructor
  · apply h.setRoom hp (hkept.addPlayer hlt hnew') (by rw [hkept.addPlayer_eq hlt hnew'])
    intro id hid
    rcases (hids id).mp hid with rfl | hid
    · exact .inr hnew
    · exact .inl hid
  · intro id
    have hin : id ∈ r.ids → m.Has id := fun hid => ⟨r, hmem, hid⟩
    rw [h.has_setRoom hp, hids]
    tauto

theorem removeFrom (hk : k ∈ r.ids) : (m.setRoom p (r.removePlayer k).2).WellKept ∧
    ∀ id, (m.setRoom p (r.removePlayer k).2).Has id ↔ id ≠ k ∧ m.Has id := by
  have hmem := List.mem_of_getElem? hp
  have hkept := h.room r hmem
  have hids : ∀ id, id ∈ (r.removePlayer k).2.ids ↔ id ≠ k ∧ id ∈ r.ids := fun id => hkept.mem_ids_removePlayer hk
  constructor
  · apply h.setRoom hp (hkept.removePlayer hk) (by rw [hkept.removePlayer_eq hk])
    intro id hid
    exact .inl ((hids id).mp hid).2
  · intro id
    have hin : id ∈ r.ids → m.Has id := fun hid => ⟨r, hmem, hid⟩
    have hout : id = k → id ∈ r.ids := fun heq => heq ▸ hk
    rw [h.has_setRoom hp, hids]
    tauto

end WellKept

end RoomManager

end RudpEngine
