import Mathlib.Data.List.AList
import Mathlib.Data.List.Perm.Basic
import Mathlib.Tactic.Linarith

/-!
# A room

`Room` of the game server keeps its players twice, in the order in which they
came and under their connection ids. Both change together, so the size of the
map is the number of players.
-/

namespace RudpEngine

/-- A shared `Player`: its place stands for the pointer, its connection id never changes. -/
structure Player where
  place : ℕ
  connectionId : BitVec 32
  deriving DecidableEq

def Player.getConnectionId (p : Player) : ℤ := p.connectionId.toInt

def toUint32 (x : ℤ) : BitVec 32 := BitVec.ofInt 32 x

@[simp] theorem toUint32_getConnectionId (p : Player) : toUint32 p.getConnectionId = p.connectionId :=
  BitVec.ofInt_toInt

abbrev PlayerMap : Type := AList fun _ : BitVec 32 => Player

def PlayerMap.size (m : PlayerMap) : ℕ := m.keys.length % 2 ^ 32

structure Room where
  maxPlayer : ℕ
  players : List Player
  playerMap : PlayerMap
  roomId : ℤ

namespace Room

def new (roomId : ℤ) : Room := ⟨1024, [], ∅, roomId⟩

variable (r : Room)

def isAddPlayer : Bool := r.playerMap.size < r.maxPlayer

def addPlayer (newPlayer : Player) : Bool × Room :=
  if r.maxPlayer ≤ r.playerMap.size then (false, r)
  else
    let connectionId := newPlayer.getConnectionId
    if toUint32 connectionId ∉ r.playerMap then
      (true, { r with
        playerMap := r.playerMap.insert (toUint32 connectionId) newPlayer
        players := r.players ++ [newPlayer] })
    else (false, r)

def removePlayer (playerId : BitVec 32) : Bool × Room :=
  if playerId ∈ r.playerMap then
    (true, { r with
      playerMap := r.playerMap.erase playerId
      players := r.players.filter fun p => !(toUint32 p.getConnectionId == playerId) })
  else (false, r)

def getPlayer (playerId : BitVec 32) : Option Player := r.playerMap.lookup playerId

def getRoomId : ℤ := r.roomId

def ids : List (BitVec 32) := r.players.map Player.connectionId

/-- The two containers hold the same players, each one once, and not too many. -/
structure WellKept : Prop where
  maxPlayer : r.maxPlayer = 1024
  keyed : ∀ k p, r.playerMap.lookup k = some p → p.connectionId = k
  same : ∀ p, p ∈ r.players ↔ r.playerMap.lookup p.connectionId = some p
  nodup : r.ids.Nodup
  bound : r.players.length ≤ 1024

variable {r}

theorem wellKept_new (roomId : ℤ) : (new roomId).WellKept where
  maxPlayer := rfl
  keyed k p h := by simp [new] at h
  same p := by simp [new]
  nodup := List.nodup_nil
  bound := Nat.zero_le _

namespace WellKept

variable {id : BitVec 32} (h : r.WellKept)
include h

theorem mem_ids : id ∈ r.ids ↔ id ∈ r.playerMap := by
  rw [← AList.lookup_isSome, Option.isSome_iff_exists, ids, List.mem_map]
  constructor
  · rintro ⟨p, hp, rfl⟩
    exact ⟨p, (h.same p).mp hp⟩
  · rintro ⟨p, hp⟩
    have hid := h.keyed id p hp
    exact ⟨p, (h.same p).mpr (hid ▸ hp), hid⟩

theorem getPlayer_isSome : (r.getPlayer id).isSome ↔ id ∈ r.ids := by
  rw [h.mem_ids, getPlayer, AList.lookup_isSome]

theorem keys_length : r.playerMap.keys.length = r.players.length := by
  have hperm : r.playerMap.keys.Perm r.ids :=
    (List.perm_ext_iff_of_nodup r.playerMap.keys_nodup h.nodup).mpr fun id => by rw [h.mem_ids, AList.mem_keys]
  rw [hperm.length_eq, ids, List.length_map]

theorem size_eq : r.playerMap.size = r.players.length := by
  have := h.bound
  rw [PlayerMap.size, h.keys_length, Nat.mod_eq_of_lt (by omega)]

theorem isAddPlayer_iff : r.isAddPlayer = true ↔ r.players.length < r.maxPlayer := by
  rw [isAddPlayer, h.size_eq, decide_eq_true_iff]

theorem addPlayer_eq {p : Player} (hlt : r.players.length < r.maxPlayer) (hnew : p.connectionId ∉ r.ids) :
    r.addPlayer p = (true, { r with
      playerMap := r.playerMap.insert p.connectionId p
      players := r.players ++ [p] }) := by
  rw [addPlayer, h.size_eq, if_neg (Nat.not_le.mpr hlt)]
  simp only [toUint32_getConnectionId]
  rw [if_pos (mt h.mem_ids.mpr hnew)]

theorem addPlayer {p : Player} (hlt : r.players.length < r.maxPlayer) (hnew : p.connectionId ∉ r.ids) :
    (r.addPlayer p).2.WellKept := by
  rw [h.addPlayer_eq hlt hnew]
  have hkey : p.connectionId ∉ r.playerMap := mt h.mem_ids.mpr hnew
  refine ⟨h.maxPlayer, fun k q hq => ?_, fun q => ?_, ?_, ?_⟩
  · by_cases hk : k = p.connectionId
    · subst hk
      rw [AList.lookup_insert, Option.some.injEq] at hq
      rw [hq]
    · rw [AList.lookup_insert_ne hk] at hq
      exact h.keyed k q hq
  · simp only [List.mem_append, List.mem_singleton]
    by_cases hk : q.connectionId = p.connectionId
    · rw [hk, AList.lookup_insert, Option.some.injEq, eq_comm]
      refine or_iff_right fun hq => hnew ?_
      exact hk ▸ List.mem_map_of_mem hq
    · rw [AList.lookup_insert_ne hk, h.same]
      exact or_iff_left fun hq => hk (congrArg _ hq)
  · show (List.map _ (r.players ++ [p])).Nodup
    rw [List.map_append, List.map_singleton, ← List.concat_eq_append]
    exact h.nodup.concat hnew
  · show (r.players ++ [p]).length ≤ 1024
    rw [List.length_append, List.length_singleton]
    have := h.maxPlayer
    omega

theorem removePlayer_eq (hid : id ∈ r.ids) : r.removePlayer id = (true, { r with
    playerMap := r.playerMap.erase id
    players := r.players.filter fun p => p.connectionId ≠ id }) := by
  rw [removePlayer, if_pos (h.mem_ids.mp hid)]
  simp only [toUint32_getConnectionId]
  congr 3
  funext p
  rw [beq_eq_decide, decide_not]

theorem removePlayer (hid : id ∈ r.ids) : (r.removePlayer id).2.WellKept := by
  rw [h.removePlayer_eq hid]
  refine ⟨h.maxPlayer, fun k q hq => ?_, fun q => ?_, ?_, ?_⟩
  · by_cases hk : k = id
    · subst hk
      rw [AList.lookup_erase] at hq
      cases hq
    · rw [AList.lookup_erase_ne hk] at hq
      exact h.keyed k q hq
  · simp only [List.mem_filter, decide_eq_true_eq]
    by_cases hk : q.connectionId = id
    · rw [hk, AList.lookup_erase]
      simp
    · rw [AList.lookup_erase_ne hk, h.same]
      exact and_iff_left hk
  · exact h.nodup.sublist (List.filter_sublist.map _)
  · exact (List.length_filter_le _ _).trans h.bound

theorem mem_ids_addPlayer {p : Player} (hlt : r.players.length < r.maxPlayer) (hnew : p.connectionId ∉ r.ids) :
    id ∈ (r.addPlayer p).2.ids ↔ id = p.connectionId ∨ id ∈ r.ids := by
  rw [h.addPlayer_eq hlt hnew, ids, ids]
  simp only [List.map_append, List.map_singleton, List.mem_append, List.mem_singleton]
  exact or_comm

theorem mem_ids_removePlayer {k : BitVec 32} (hk : k ∈ r.ids) :
    id ∈ (r.removePlayer k).2.ids ↔ id ≠ k ∧ id ∈ r.ids := by
  rw [h.removePlayer_eq hk, ids, ids]
  simp only [List.mem_map, List.mem_filter, decide_eq_true_eq]
  constructor
  · rintro ⟨p, ⟨hp, hne⟩, rfl⟩
    exact ⟨hne, p, hp, rfl⟩
  · rintro ⟨hne, p, hp, rfl⟩
    exact ⟨p, ⟨hp, hne⟩, rfl⟩

end WellKept

end Room

end RudpEngine
