import RudpEngine.Driver
import RudpEngine.Room
import RudpEngine.Run
import Mathlib.Data.FinEnum
import Mathlib.Data.List.Nodup

/-!
# The rooms and their players

`RoomManager` puts a new player into the first room that takes it and makes a
new room where none does. As long as only new connection ids come, every
connection that is present is in one room, where it is found; and there are
never so many rooms that the counter of their ids would come round.
-/

namespace RudpEngine

/-- A pointer to a room is its place among all rooms ever made; the credentials and the ids of verified players are
left out. -/
structure RoomManager where
  heap : List Room
  rooms : List ℕ
  roomMap : UnorderedMap ℤ ℕ
  roomIdAllocator : IDAllocator

namespace RoomManager

variable (m : RoomManager)

def room (p : ℕ) : Room := m.heap.getD p (Room.new 0)

def setRoom (p : ℕ) (r : Room) : RoomManager := { m with heap := m.heap.set p r }

def addNewRoom : ℕ × RoomManager :=
  let (roomId, roomIdAllocator) := m.roomIdAllocator.allocate
  let newRoom := m.heap.length
  (newRoom, {
    heap := m.heap ++ [Room.new roomId.toInt]
    rooms := m.rooms ++ [newRoom]
    roomMap := m.roomMap.insert roomId.toInt newRoom
    roomIdAllocator := roomIdAllocator })

def new : RoomManager := (addNewRoom ⟨[], [], .empty, .new⟩).2

def addToFirst (newPlayer : Player) : List ℕ → RoomManager → Bool × RoomManager
  | [], m => (false, m)
  | it :: rest, m =>
    if (m.room it).isAddPlayer then
      let (added, r) := (m.room it).addPlayer newPlayer
      if added then (true, m.setRoom it r) else addToFirst newPlayer rest (m.setRoom it r)
    else addToFirst newPlayer rest m

def addPlayer (newPlayer : Player) : RoomManager :=
  let (added, m) := addToFirst newPlayer m.rooms m
  if added then m
  else
    let (room, m) := m.addNewRoom
    m.setRoom room ((m.room room).addPlayer newPlayer).2

def findRoomWithConnection (connectionId : BitVec 32) : Option ℕ :=
  m.rooms.find? fun p => ((m.room p).getPlayer connectionId).isSome

def removePlayer (connectionId : BitVec 32) : RoomManager :=
  match m.findRoomWithConnection connectionId with
  | some p => m.setRoom p ((m.room p).removePlayer connectionId).2
  | none => m

end RoomManager

/-! ## Runs -/

/-- The manager, and the connections that were added and not removed. -/
structure RoomRun where
  manager : RoomManager
  present : List (BitVec 32)

inductive RoomAction
  | addPlayer (newPlayer : Player)
  | removePlayer (connectionId : BitVec 32)

namespace RoomRun

def new : RoomRun := ⟨.new, []⟩

def next (s : RoomRun) : RoomAction → RoomRun
  | .addPlayer p => ⟨s.manager.addPlayer p, p.connectionId :: s.present⟩
  | .removePlayer id => ⟨s.manager.removePlayer id, s.present.filter (· ≠ id)⟩

/-- A player that is added has a connection id that is not present. -/
def AddsNew (s : RoomRun) : RoomAction → Prop
  | .addPlayer p => p.connectionId ∉ s.present
  | .removePlayer _ => True

end RoomRun

def roomSystem : System RoomRun RoomAction where
  init s := s = .new
  next := RoomRun.next

/-! ## What is kept -/

/-- Each connection in at most one room, and the rooms numbered from 1 on in the order in which they were made. -/
structure RoomManager.WellKept (m : RoomManager) : Prop where
  rooms : m.rooms = List.range m.heap.length
  room : ∀ r ∈ m.heap, r.WellKept
  roomId : ∀ (p : ℕ) (r : Room), m.heap[p]? = some r → r.roomId = p + 1
  apart : ∀ (p q : ℕ) (r r' : Room) (id : BitVec 32), m.heap[p]? = some r → m.heap[q]? = some r' → id ∈ r.ids → id ∈ r'.ids → p = q
  counter : m.roomIdAllocator = ⟨BitVec.ofNat 32 (m.heap.length + 1), []⟩
  roomMap : ∀ (k : ℤ) (p : ℕ), m.roomMap k = some p ↔ p < m.heap.length ∧ k = p + 1
  bound : m.heap.length ≤ 2 ^ 22

def RoomManager.Has (m : RoomManager) (id : BitVec 32) : Prop := ∃ r ∈ m.heap, id ∈ r.ids

theorem RoomManager.room_eq {m : RoomManager} {p : ℕ} {r : Room} (hp : m.heap[p]? = some r) : m.room p = r := by
  rw [room, List.getD_eq_getElem?_getD, hp, Option.getD_some]

namespace RoomManager.WellKept

variable {m : RoomManager} (h : m.WellKept) {p : ℕ} {r r' : Room} {id : BitVec 32}
include h

theorem mem_rooms : p ∈ m.rooms ↔ ∃ r, m.heap[p]? = some r := by
  rw [h.rooms, List.mem_range]
  exact ⟨fun hp => ⟨_, List.getElem?_eq_getElem hp⟩, fun ⟨r, hr⟩ => (List.getElem?_eq_some_iff.mp hr).1⟩

theorem setRoom (hp : m.heap[p]? = some r) (hr : r'.WellKept) (hid : r'.roomId = r.roomId)
    (hids : ∀ id ∈ r'.ids, id ∈ r.ids ∨ ¬ m.Has id) : (m.setRoom p r').WellKept := by
  have hlen : (m.heap.set p r').length = m.heap.length := List.length_set
  have hlt : p < m.heap.length := (List.getElem?_eq_some_iff.mp hp).1
  have hget : ∀ {q s}, (m.heap.set p r')[q]? = some s → (q = p ∧ s = r') ∨ (q ≠ p ∧ m.heap[q]? = some s) := by
    intro q s hq
    by_cases hqp : q = p
    · subst hqp
      rw [List.getElem?_set_self hlt, Option.some.injEq] at hq
      exact .inl ⟨rfl, hq.symm⟩
    · rw [List.getElem?_set_ne (Ne.symm hqp)] at hq
      exact .inr ⟨hqp, hq⟩
  have hother : ∀ {q s id}, q ≠ p → m.heap[q]? = some s → id ∈ s.ids → id ∉ r'.ids := by
    intro q s id hqp hq hs hr'
    rcases hids id hr' with hold | hno
    · exact hqp (h.apart q p s r id hq hp hs hold)
    · exact hno ⟨s, List.mem_of_getElem? hq, hs⟩
  refine ⟨?_, fun s hs => ?_, fun q s hq => ?_, fun q q' s s' id hq hq' hs hs' => ?_, ?_, fun k q => ?_, ?_⟩
  · show m.rooms = List.range (m.heap.set p r').length
    rw [hlen, h.rooms]
  · rcases List.mem_or_eq_of_mem_set hs with hs | rfl
    · exact h.room s hs
    · exact hr
  · rcases hget hq with ⟨rfl, rfl⟩ | ⟨-, hq⟩
    · rw [hid]
      exact h.roomId q r hp
    · exact h.roomId q s hq
  · rcases hget hq with ⟨rfl, rfl⟩ | ⟨hne, hold⟩ <;> rcases hget hq' with ⟨rfl, rfl⟩ | ⟨hne', hold'⟩
    · rfl
    · exact absurd hs (hother hne' hold' hs')
    · exact absurd hs' (hother hne hold hs)
    · exact h.apart q q' s s' id hold hold' hs hs'
  · show m.roomIdAllocator = ⟨BitVec.ofNat 32 ((m.heap.set p r').length + 1), []⟩
    rw [hlen, h.counter]
  · show m.roomMap k = some q ↔ q < (m.heap.set p r').length ∧ k = q + 1
    rw [hlen, h.roomMap]
  · show (m.heap.set p r').length ≤ 2 ^ 22
    rw [hlen]
    exact h.bound

theorem has_setRoom (hp : m.heap[p]? = some r) :
    (m.setRoom p r').Has id ↔ id ∈ r'.ids ∨ (m.Has id ∧ id ∉ r.ids) := by
  have hlt : p < m.heap.length := (List.getElem?_eq_some_iff.mp hp).1
  constructor
  · rintro ⟨s, hs, hid⟩
    obtain ⟨q, hq⟩ := List.getElem?_of_mem hs
    by_cases hqp : q = p
    · subst hqp
      rw [RoomManager.setRoom, List.getElem?_set_self hlt, Option.some.injEq] at hq
      exact .inl (hq ▸ hid)
    · rw [RoomManager.setRoom, List.getElem?_set_ne (Ne.symm hqp)] at hq
      exact .inr ⟨⟨s, List.mem_of_getElem? hq, hid⟩, fun hr => hqp (h.apart q p s r id hq hp hid hr)⟩
  · rintro (hid | ⟨⟨s, hs, hid⟩, hnot⟩)
    · exact ⟨r', List.mem_set hlt r', hid⟩
    · obtain ⟨q, hq⟩ := List.getElem?_of_mem hs
      have hqp : q ≠ p := by
        rintro rfl
        rw [hp, Option.some.injEq] at hq
        exact hnot (hq ▸ hid)
      refine ⟨s, List.mem_of_getElem? (i := q) ?_, hid⟩
      rw [RoomManager.setRoom, List.getElem?_set_ne (Ne.symm hqp)]
      exact hq

/-- Full rooms hold different connections, so there are not many of them. -/
theorem few_full (hfull : ∀ r ∈ m.heap, r.players.length = 1024) (hnew : ¬ m.Has id) : m.heap.length < 2 ^ 22 := by
  have hdisj : m.heap.Pairwise (Function.onFun List.Disjoint Room.ids) := by
    rw [List.pairwise_iff_getElem]
    intro p q hp hq hlt k hk hk'
    exact absurd (h.apart p q _ _ k (List.getElem?_eq_getElem hp) (List.getElem?_eq_getElem hq) hk hk') (by omega)
  have hnodup : (m.heap.flatMap Room.ids).Nodup := List.nodup_flatMap.mpr ⟨fun r hr => (h.room r hr).nodup, hdisj⟩
  have hcons : (id :: m.heap.flatMap Room.ids).Nodup :=
    List.nodup_cons.mpr ⟨fun hmem => hnew (List.mem_flatMap.mp hmem), hnodup⟩
  have hcard := hcons.length_le_card
  rw [List.length_cons, FinEnum.card_eq_fintypeCard.symm, FinEnum.card_bitVec, List.length_flatMap,
    List.map_congr_left (g := fun _ => 1024) (fun r hr => by rw [Room.ids, List.length_map, hfull r hr]),
    List.map_const', List.sum_replicate_nat] at hcard
  omega

theorem allocate (hlt : m.heap.length < 2 ^ 22) : m.addNewRoom = (m.heap.length, {
    heap := m.heap ++ [Room.new (m.heap.length + 1)]
    rooms := List.range (m.heap.length + 1)
    roomMap := m.roomMap.set (m.heap.length + 1) m.heap.length
    roomIdAllocator := ⟨BitVec.ofNat 32 (m.heap.length + 2), []⟩ }) := by
  have hid : (BitVec.ofNat 32 (m.heap.length + 1)).toInt = m.heap.length + 1 := by
    rw [BitVec.toInt_ofNat', Int.bmod_eq_of_le_mul_two (by push_cast; omega) (by push_cast; omega)]
    push_cast; rfl
  have hfree : m.roomMap (m.heap.length + 1) = none := by
    rw [Option.eq_none_iff_forall_not_mem]
    intro q hq
    have := (h.roomMap _ q).mp hq
    omega
  have hnext : BitVec.ofNat 32 (m.heap.length + 1) + 1 = BitVec.ofNat 32 (m.heap.length + 2) :=
    (BitVec.ofNat_add (m.heap.length + 1) 1).symm
  unfold addNewRoom IDAllocator.allocate
  rw [h.counter]
  simp only [hid, hnext, UnorderedMap.insert_of_none hfree, h.rooms, List.range_succ]

theorem addNewRoom (hlt : m.heap.length < 2 ^ 22) : m.addNewRoom.2.WellKept := by
  rw [h.allocate hlt]
  have hnew : (Room.new (m.heap.length + 1)).ids = [] := rfl
  have hlen : (m.heap ++ [Room.new (m.heap.length + 1)]).length = m.heap.length + 1 := by
    rw [List.length_append, List.length_singleton]
  refine ⟨?_, fun s hs => ?_, fun q s hq => ?_, fun q q' s s' id hq hq' hs hs' => ?_, ?_, fun k q => ?_, ?_⟩
  · show List.range (m.heap.length + 1) = List.range (m.heap ++ [_]).length
    rw [hlen]
  · rcases List.mem_append.mp hs with hs | hs
    · exact h.room s hs
    · exact List.mem_singleton.mp hs ▸ Room.wellKept_new _
  · rcases getElem?_concat_eq_some.mp hq with hq | ⟨rfl, rfl⟩
    · exact h.roomId q s hq
    · rfl
  · rcases getElem?_concat_eq_some.mp hq with hold | ⟨-, rfl⟩
    · rcases getElem?_concat_eq_some.mp hq' with hold' | ⟨-, rfl⟩
      · exact h.apart q q' s s' id hold hold' hs hs'
      · exact absurd hs' (hnew ▸ List.not_mem_nil)
    · exact absurd hs (hnew ▸ List.not_mem_nil)
  · show _ = IDAllocator.mk (BitVec.ofNat 32 ((m.heap ++ [_]).length + 1)) []
    rw [hlen]
  · show m.roomMap.set _ _ k = some q ↔ q < (m.heap ++ [_]).length ∧ _
    rw [hlen, UnorderedMap.set_eq_some, h.roomMap]
    omega
  · show (m.heap ++ [_]).length ≤ _
    rw [hlen]
    omega

theorem getElem?_addNewRoom (hlt : m.heap.length < 2 ^ 22) :
    m.addNewRoom.2.heap[m.heap.length]? = some (Room.new (m.heap.length + 1)) := by
  rw [h.allocate hlt]
  exact List.getElem?_concat_length

theorem has_addNewRoom (hlt : m.heap.length < 2 ^ 22) : m.addNewRoom.2.Has id ↔ m.Has id := by
  rw [h.allocate hlt]
  constructor
  · rintro ⟨r, hr, hid⟩
    rcases List.mem_append.mp hr with hr | hr
    · exact ⟨r, hr, hid⟩
    · rw [List.mem_singleton.mp hr] at hid
      exact absurd hid List.not_mem_nil
  · rintro ⟨r, hr, hid⟩
    exact ⟨r, List.mem_append_left _ hr, hid⟩

/-! ## Finding a player -/

theorem findRoomWithConnection_eq_some :
    m.findRoomWithConnection id = some p ↔ ∃ r, m.heap[p]? = some r ∧ id ∈ r.ids := by
  have hholds : ∀ {q r}, m.heap[q]? = some r → (((m.room q).getPlayer id).isSome ↔ id ∈ r.ids) := by
    intro q r hq
    rw [room_eq hq, (h.room r (List.mem_of_getElem? hq)).getPlayer_isSome]
  constructor
  · intro hfind
    obtain ⟨r, hr⟩ := h.mem_rooms.mp (List.mem_of_find?_eq_some hfind)
    exact ⟨r, hr, (hholds hr).mp (List.find?_some (p := fun p => ((m.room p).getPlayer id).isSome) hfind)⟩
  · rintro ⟨r, hr, hid⟩
    have hsome : (m.findRoomWithConnection id).isSome :=
      List.find?_isSome.mpr ⟨p, h.mem_rooms.mpr ⟨r, hr⟩, (hholds hr).mpr hid⟩
    obtain ⟨q, hq⟩ := Option.isSome_iff_exists.mp hsome
    obtain ⟨r', hr'⟩ := h.mem_rooms.mp (List.mem_of_find?_eq_some hq)
    have hid' := (hholds hr').mp (List.find?_some (p := fun p => ((m.room p).getPlayer id).isSome) hq)
    rw [hq, h.apart q p r' r id hr' hr hid' hid]

theorem findRoomWithConnection_eq_none : m.findRoomWithConnection id = none ↔ ¬ m.Has id := by
  rw [Option.eq_none_iff_forall_not_mem]
  constructor
  · rintro hnone ⟨r, hr, hid⟩
    obtain ⟨p, hp⟩ := List.getElem?_of_mem hr
    exact hnone p (h.findRoomWithConnection_eq_some.mpr ⟨r, hp, hid⟩)
  · intro hno p hp
    obtain ⟨r, hr, hid⟩ := h.findRoomWithConnection_eq_some.mp hp
    exact hno ⟨r, List.mem_of_getElem? hr, hid⟩

/-! ## Adding and removing -/

theorem addToFirst_cases {newPlayer : Player} (hnew : ¬ m.Has newPlayer.connectionId) : ∀ l : List ℕ,
    (∀ p ∈ l, p ∈ m.rooms) →
    (addToFirst newPlayer l m = (false, m) ∧
      ∀ p ∈ l, ∀ r, m.heap[p]? = some r → r.players.length = r.maxPlayer) ∨
    ∃ p r, m.heap[p]? = some r ∧ r.players.length < r.maxPlayer ∧
      addToFirst newPlayer l m = (true, m.setRoom p (r.addPlayer newPlayer).2)
  | [], _ => .inl ⟨rfl, fun p hp => absurd hp List.not_mem_nil⟩
  | it :: rest, hl => by
    obtain ⟨r, hr⟩ := h.mem_rooms.mp (hl it List.mem_cons_self)
    have hkept := h.room r (List.mem_of_getElem? hr)
    rw [addToFirst, room_eq hr]
    by_cases hfree : r.isAddPlayer = true
    · have hlt := hkept.isAddPlayer_iff.mp hfree
      have hadd := hkept.addPlayer_eq hlt fun hid => hnew ⟨r, List.mem_of_getElem? hr, hid⟩
      refine .inr ⟨it, r, hr, hlt, ?_⟩
      rw [if_pos hfree, hadd]
      rfl
    · rw [if_neg hfree]
      refine (addToFirst_cases hnew rest fun p hp => hl p (List.mem_cons_of_mem _ hp)).imp_left ?_
      rintro ⟨heq, hfull⟩
      refine ⟨heq, fun p hp s hs => ?_⟩
      rcases List.mem_cons.mp hp with rfl | hp
      · obtain rfl : r = s := Option.some.inj (hr.symm.trans hs)
        have hge := mt hkept.isAddPlayer_iff.mpr hfree
        have hmax := hkept.maxPlayer
        have hbound := hkept.bound
        omega
      · exact hfull p hp s hs

/-- A player with a new id comes into a room with a free place, or into a new room where there is none. -/
theorem addPlayer_cases {newPlayer : Player} (hnew : ¬ m.Has newPlayer.connectionId) :
    (∃ p r, m.heap[p]? = some r ∧ r.players.length < r.maxPlayer ∧
      m.addPlayer newPlayer = m.setRoom p (r.addPlayer newPlayer).2) ∨
    (∀ r ∈ m.heap, r.players.length = r.maxPlayer) ∧ m.addPlayer newPlayer =
      m.addNewRoom.2.setRoom m.heap.length ((Room.new (m.heap.length + 1)).addPlayer newPlayer).2 := by
  rcases h.addToFirst_cases hnew m.rooms fun _ hp => hp with ⟨heq, hfull⟩ | ⟨p, r, hr, hlt, heq⟩
  · have hall : ∀ r ∈ m.heap, r.players.length = r.maxPlayer := by
      intro r hr
      obtain ⟨p, hp⟩ := List.getElem?_of_mem hr
      exact hfull p (h.mem_rooms.mpr ⟨r, hp⟩) r hp
    have hfew : m.heap.length < 2 ^ 22 := h.few_full (fun r hr => by rw [hall r hr, (h.room r hr).maxPlayer]) hnew
    refine .inr ⟨hall, ?_⟩
    have hfst : m.addNewRoom.1 = m.heap.length := by rw [h.allocate hfew]
    unfold RoomManager.addPlayer
    rw [heq]
    show m.addNewRoom.2.setRoom m.addNewRoom.1 ((m.addNewRoom.2.room m.addNewRoom.1).addPlayer newPlayer).2 = _
    rw [hfst, room_eq (h.getElem?_addNewRoom hfew)]
  · refine .inl ⟨p, r, hr, hlt, ?_⟩
    unfold RoomManager.addPlayer
    rw [heq]
    rfl

theorem addPlayer {newPlayer : Player} (hnew : ¬ m.Has newPlayer.connectionId) :
    (m.addPlayer newPlayer).WellKept ∧
      ∀ id, (m.addPlayer newPlayer).Has id ↔ id = newPlayer.connectionId ∨ m.Has id := by
  -- into one room, of this manager or of the one with a new room
  have hinto : ∀ {m' : RoomManager} {p : ℕ} {r : Room}, m'.WellKept → (∀ id, m'.Has id ↔ m.Has id) →
      m'.heap[p]? = some r → r.players.length < r.maxPlayer →
      (m'.setRoom p (r.addPlayer newPlayer).2).WellKept ∧
        ∀ id, (m'.setRoom p (r.addPlayer newPlayer).2).Has id ↔ id = newPlayer.connectionId ∨ m.Has id := by
    intro m' p r h' hsame hr hlt
    have hmem := List.mem_of_getElem? hr
    have hkept := h'.room r hmem
    have hnew' : newPlayer.connectionId ∉ r.ids := fun hid => hnew ((hsame _).mp ⟨r, hmem, hid⟩)
    have hids : ∀ id, id ∈ (r.addPlayer newPlayer).2.ids ↔ id = newPlayer.connectionId ∨ id ∈ r.ids :=
      fun id => hkept.mem_ids_addPlayer hlt hnew'
    refine ⟨h'.setRoom hr (hkept.addPlayer hlt hnew') (by rw [hkept.addPlayer_eq hlt hnew']) fun id hid => ?_,
      fun id => ?_⟩
    · rcases (hids id).mp hid with rfl | hid
      · exact .inr fun hhas => hnew ((hsame _).mp hhas)
      · exact .inl hid
    · have hin : id ∈ r.ids → m.Has id := fun hid => (hsame id).mp ⟨r, hmem, hid⟩
      rw [h'.has_setRoom hr, hids, hsame]
      tauto
  rcases h.addPlayer_cases hnew with ⟨p, r, hr, hlt, heq⟩ | ⟨hfull, heq⟩
  · rw [heq]
    exact hinto h (fun _ => Iff.rfl) hr hlt
  · have hfew : m.heap.length < 2 ^ 22 := h.few_full (fun r hr => by rw [hfull r hr, (h.room r hr).maxPlayer]) hnew
    rw [heq]
    exact hinto (h.addNewRoom hfew) (fun _ => h.has_addNewRoom hfew) (h.getElem?_addNewRoom hfew)
      (show 0 < 1024 by decide)

theorem removePlayer (k : BitVec 32) :
    (m.removePlayer k).WellKept ∧ ∀ id, (m.removePlayer k).Has id ↔ id ≠ k ∧ m.Has id := by
  unfold RoomManager.removePlayer
  cases hfind : m.findRoomWithConnection k with
  | none =>
    refine ⟨h, fun id => (and_iff_right_of_imp ?_).symm⟩
    rintro hhas rfl
    exact h.findRoomWithConnection_eq_none.mp hfind hhas
  | some p =>
    obtain ⟨r, hr, hk⟩ := h.findRoomWithConnection_eq_some.mp hfind
    have hkept := h.room r (List.mem_of_getElem? hr)
    simp only [room_eq hr]
    have hids : ∀ id, id ∈ (r.removePlayer k).2.ids ↔ id ≠ k ∧ id ∈ r.ids := fun id => hkept.mem_ids_removePlayer hk
    refine ⟨h.setRoom hr (hkept.removePlayer hk) (by rw [hkept.removePlayer_eq hk]) fun id hid => ?_, fun id => ?_⟩
    · exact .inl ((hids id).mp hid).2
    · have hin : id ∈ r.ids → m.Has id := fun hid => ⟨r, List.mem_of_getElem? hr, hid⟩
      have hkin : id = k → id ∈ r.ids := fun he => he ▸ hk
      rw [h.has_setRoom hr, hids]
      tauto

end RoomManager.WellKept

/-! ## Every run -/

/-- Who is in which room, and what the containers of the rooms and of the manager hold. -/
structure RoomRun.Membership (s : RoomRun) : Prop where
  playerMap : ∀ p ∈ s.manager.rooms, ∀ id player, (s.manager.room p).playerMap.lookup id = some player ↔
    player ∈ (s.manager.room p).players ∧ player.connectionId = id
  nodup : ∀ p ∈ s.manager.rooms, (s.manager.room p).players.Nodup
  bounded : ∀ p ∈ s.manager.rooms, (s.manager.room p).players.length ≤ (s.manager.room p).maxPlayer ∧
    (s.manager.room p).playerMap.keys.length ≤ (s.manager.room p).maxPlayer
  inOneRoom : ∀ id ∈ s.present, ∃ p ∈ s.manager.rooms, id ∈ (s.manager.room p).ids ∧
    (∀ q ∈ s.manager.rooms, id ∈ (s.manager.room q).ids → q = p) ∧ s.manager.findRoomWithConnection id = some p
  inNoRoom : ∀ id, id ∉ s.present →
    (∀ p ∈ s.manager.rooms, id ∉ (s.manager.room p).ids) ∧ s.manager.findRoomWithConnection id = none
  sameRooms : s.manager.rooms.Nodup ∧ ∀ p, p ∈ s.manager.rooms ↔ ∃ k, s.manager.roomMap k = some p
  byRoomId : ∀ k p, s.manager.roomMap k = some p → (s.manager.room p).getRoomId = k

theorem Room.WellKept.lookup_eq_some {r : Room} (h : r.WellKept) {id : BitVec 32} {player : Player} :
    r.playerMap.lookup id = some player ↔ player ∈ r.players ∧ player.connectionId = id := by
  constructor
  · intro hlookup
    have hid := h.keyed id player hlookup
    exact ⟨(h.same player).mpr (hid ▸ hlookup), hid⟩
  · rintro ⟨hplayer, rfl⟩
    exact (h.same player).mp hplayer

theorem RoomManager.wellKept_new : RoomManager.new.WellKept := by
  have hempty : RoomManager.WellKept ⟨[], [], .empty, .new⟩ := by
    refine ⟨rfl, fun r hr => absurd hr List.not_mem_nil, fun p r hp => ?_, fun p q r r' id hp => ?_, rfl, fun k p => ?_,
      Nat.zero_le _⟩
    · cases hp
    · cases hp
    · constructor
      · intro hk
        cases hk
      · rintro ⟨hp, -⟩
        exact absurd hp (Nat.not_lt_zero p)
  exact hempty.addNewRoom (show 0 < 2 ^ 22 by decide)

def RoomRun.Inv (s : RoomRun) : Prop := s.manager.WellKept ∧ ∀ id, id ∈ s.present ↔ s.manager.Has id

namespace RoomRun

variable {s : RoomRun}

theorem inv_new : new.Inv := by
  refine ⟨RoomManager.wellKept_new, fun id => ⟨fun hid => absurd hid List.not_mem_nil, ?_⟩⟩
  rintro ⟨r, hr, hid⟩
  obtain rfl : r = Room.new 1 := List.mem_singleton.mp hr
  exact absurd hid List.not_mem_nil

theorem Inv.next (h : s.Inv) {a : RoomAction} (hok : s.AddsNew a) : (s.next a).Inv := by
  obtain ⟨hkept, hpresent⟩ := h
  cases a with
  | addPlayer p =>
    obtain ⟨hkept', hhas⟩ := hkept.addPlayer (mt (hpresent _).mpr hok)
    refine ⟨hkept', fun id => ?_⟩
    show id ∈ p.connectionId :: s.present ↔ (s.manager.addPlayer p).Has id
    rw [hhas, List.mem_cons, hpresent]
  | removePlayer k =>
    obtain ⟨hkept', hhas⟩ := hkept.removePlayer k
    refine ⟨hkept', fun id => ?_⟩
    show id ∈ s.present.filter (· ≠ k) ↔ (s.manager.removePlayer k).Has id
    rw [hhas, List.mem_filter, hpresent, and_comm, decide_eq_true_iff]

theorem Inv.membership (h : s.Inv) : s.Membership := by
  obtain ⟨hkept, hpresent⟩ := h
  have hroom : ∀ p ∈ s.manager.rooms, s.manager.heap[p]? = some (s.manager.room p) := by
    intro p hp
    obtain ⟨r, hr⟩ := hkept.mem_rooms.mp hp
    rw [RoomManager.room_eq hr, hr]
  have hwell : ∀ p ∈ s.manager.rooms, (s.manager.room p).WellKept :=
    fun p hp => hkept.room _ (List.mem_of_getElem? (hroom p hp))
  refine ⟨fun p hp id player => (hwell p hp).lookup_eq_some, fun p hp => (hwell p hp).nodup.of_map, fun p hp => ?_,
    fun id hid => ?_, fun id hid => ?_, ⟨?_, fun p => ?_⟩, fun k p hk => ?_⟩
  · have hbound := (hwell p hp).bound
    rw [(hwell p hp).keys_length, (hwell p hp).maxPlayer]
    exact ⟨hbound, hbound⟩
  · obtain ⟨r, hr, hin⟩ := (hpresent id).mp hid
    obtain ⟨p, hp⟩ := List.getElem?_of_mem hr
    have hmem : p ∈ s.manager.rooms := hkept.mem_rooms.mpr ⟨r, hp⟩
    refine ⟨p, hmem, RoomManager.room_eq hp ▸ hin, fun q hq hin' => ?_, hkept.findRoomWithConnection_eq_some.mpr ⟨r, hp, hin⟩⟩
    exact hkept.apart q p _ r id (hroom q hq) hp hin' hin
  · have hno : ¬ s.manager.Has id := mt (hpresent id).mpr hid
    exact ⟨fun p hp hin => hno ⟨_, List.mem_of_getElem? (hroom p hp), hin⟩, hkept.findRoomWithConnection_eq_none.mpr hno⟩
  · rw [hkept.rooms]
    exact List.nodup_range
  · rw [hkept.rooms, List.mem_range]
    constructor
    · intro hp
      exact ⟨_, (hkept.roomMap _ p).mpr ⟨hp, rfl⟩⟩
    · rintro ⟨k, hk⟩
      exact ((hkept.roomMap k p).mp hk).1
  · obtain ⟨hp, rfl⟩ := (hkept.roomMap k p).mp hk
    exact hkept.roomId p _ (hroom p (hkept.rooms ▸ List.mem_range.mpr hp))

end RoomRun

/-- **Every connection that is present is in one room**, in both of its
containers, and is found there; the two containers of the manager hold the same
rooms, and a room is only made when all rooms are full. -/
theorem room_membership {s : RoomRun} (h : roomSystem.Reach RoomRun.AddsNew s) :
    s.Membership ∧ ∀ a, s.AddsNew a → (s.next a).manager.rooms ≠ s.manager.rooms →
      ∀ p ∈ s.manager.rooms, (s.manager.room p).players.length = (s.manager.room p).maxPlayer := by
  have hinv : s.Inv := h.invariant (fun s (hs : s = .new) => hs ▸ RoomRun.inv_new) fun s a hs hok => hs.next hok
  refine ⟨hinv.membership, fun a hok hne p hp => ?_⟩
  obtain ⟨hkept, hpresent⟩ := hinv
  cases a with
  | addPlayer player =>
    rcases hkept.addPlayer_cases (mt (hpresent _).mpr hok) with ⟨q, r, -, -, heq⟩ | ⟨hfull, -⟩
    · exact absurd (congrArg RoomManager.rooms heq) hne
    · obtain ⟨r, hr⟩ := hkept.mem_rooms.mp hp
      rw [RoomManager.room_eq hr]
      exact hfull r (List.mem_of_getElem? hr)
  | removePlayer id =>
    refine absurd ?_ hne
    show (s.manager.removePlayer id).rooms = s.manager.rooms
    unfold RoomManager.removePlayer
    cases s.manager.findRoomWithConnection id <;> rfl

/-- Connection 7 comes and goes, connection 9 stays. -/
theorem room_membership_twoPlayers :
    let s := roomSystem.runFrom .new [.addPlayer ⟨0, 7⟩, .addPlayer ⟨1, 9⟩, .removePlayer 7]
    s.manager.findRoomWithConnection 7 = none ∧ s.manager.findRoomWithConnection 9 = some 0 ∧ s.Membership := by
  have hfirst : roomSystem.Reach RoomRun.AddsNew (roomSystem.runFrom .new [.addPlayer ⟨0, 7⟩]) :=
    .next (.init rfl) (List.not_mem_nil (a := 7))
  have hsecond : roomSystem.Reach RoomRun.AddsNew (roomSystem.runFrom .new [.addPlayer ⟨0, 7⟩, .addPlayer ⟨1, 9⟩]) :=
    .next hfirst (show 9 ∉ [7] by decide)
  have hreach : roomSystem.Reach RoomRun.AddsNew
      (roomSystem.runFrom .new [.addPlayer ⟨0, 7⟩, .addPlayer ⟨1, 9⟩, .removePlayer 7]) := .next hsecond trivial
  have hmember := (room_membership hreach).1
  exact ⟨(hmember.inNoRoom 7 (by decide)).2, by decide +kernel, hmember⟩

end RudpEngine
