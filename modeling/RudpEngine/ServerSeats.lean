import RudpEngine.ServerStatuses

/-!
# Who is in which room

Only the search for a room puts a player into one, and it puts in the player of
its own client; only the removal of a client takes a player out, and then the
client is gone.
-/

namespace RudpEngine

namespace RoomManager

def Seats (m : RoomManager) (player : Player) (p : ℕ) : Prop := ∃ r, m.heap[p]? = some r ∧ player ∈ r.players

structure Moves (m m' : RoomManager) (came left : Player → Prop) : Prop where
  came : ∀ player p, m'.Seats player p → m.Seats player p ∨ came player
  left : ∀ player p, m.Seats player p → m'.Seats player p ∨ left player

variable {m m' m'' : RoomManager} {came left : Player → Prop} {p : ℕ} {r' : Room}

theorem Moves.refl (m : RoomManager) (came left : Player → Prop) : m.Moves m came left :=
  ⟨fun _ _ h => .inl h, fun _ _ h => .inl h⟩

theorem Moves.trans (h : m.Moves m' came left) (h' : m'.Moves m'' came left) : m.Moves m'' came left := by
  constructor
  · intro player p hseats
    rcases h'.came player p hseats with hseats | hcame
    · exact h.came player p hseats
    · exact .inr hcame
  · intro player p hseats
    rcases h.left player p hseats with hseats | hleft
    · exact h'.left player p hseats
    · exact .inr hleft

theorem moves_setRoom (h : ∀ r, m.heap[p]? = some r → (∀ player ∈ r'.players, player ∈ r.players ∨ came player) ∧
    ∀ player ∈ r.players, player ∈ r'.players ∨ left player) : m.Moves (m.setRoom p r') came left := by
  constructor
  · intro player q hseats
    obtain ⟨r, hr, hin⟩ := hseats
    rcases GameServer.getElem?_set_cases hr with ⟨rfl, rfl⟩ | ⟨-, hr⟩
    · have hlt : q < m.heap.length := by
        simpa [setRoom] using (List.getElem?_eq_some_iff.mp hr).1
      obtain ⟨s, hs⟩ : ∃ s, m.heap[q]? = some s := ⟨_, List.getElem?_eq_getElem hlt⟩
      exact ((h s hs).1 player hin).imp_left fun hin => ⟨s, hs, hin⟩
    · exact .inl ⟨r, hr, hin⟩
  · intro player q hseats
    obtain ⟨r, hr, hin⟩ := hseats
    by_cases hpq : p = q
    · subst hpq
      have hlt := (List.getElem?_eq_some_iff.mp hr).1
      exact ((h r hr).2 player hin).imp_left fun hin => ⟨r', List.getElem?_set_self hlt, hin⟩
    · exact .inl ⟨r, (List.getElem?_set_ne hpq).trans hr, hin⟩

theorem players_addPlayer (r : Room) (player : Player) :
    (r.addPlayer player).2.players = r.players ∨ (r.addPlayer player).2.players = r.players ++ [player] := by
  unfold Room.addPlayer
  split
  · exact .inl rfl
  · simp only
    split
    · exact .inr rfl
    · exact .inl rfl

theorem moves_addPlayer (m : RoomManager) (p : ℕ) {player : Player} (hcame : came player) :
    m.Moves (m.setRoom p ((m.room p).addPlayer player).2) came left := by
  apply moves_setRoom
  intro r hr
  rw [room_eq hr]
  rcases players_addPlayer r player with hsame | hnew
  · rw [hsame]
    exact ⟨fun _ h => .inl h, fun _ h => .inl h⟩
  · rw [hnew]
    refine ⟨?_, fun _ h => .inl (List.mem_append_left _ h)⟩
    intro q hq
    rcases List.mem_append.mp hq with hq | hq
    · exact .inl hq
    · rw [List.mem_singleton.mp hq]
      exact .inr hcame

theorem moves_removePlayer (m : RoomManager) (p : ℕ) {id : BitVec 32} (hleft : ∀ player, player.connectionId = id → left player) :
    m.Moves (m.setRoom p ((m.room p).removePlayer id).2) came left := by
  apply moves_setRoom
  intro r hr
  rw [room_eq hr]
  unfold Room.removePlayer
  split
  case isFalse => exact ⟨fun _ h => .inl h, fun _ h => .inl h⟩
  case isTrue =>
    simp only [toUint32_getConnectionId, List.mem_filter]
    refine ⟨fun _ h => .inl h.1, ?_⟩
    intro player hin
    by_cases hid : player.connectionId = id
    · exact .inr (hleft player hid)
    · exact .inl ⟨hin, by simpa using hid⟩

theorem moves_addNewRoom (m : RoomManager) : m.Moves m.addNewRoom.2 came left := by
  constructor
  · intro player q hseats
    obtain ⟨r, hr, hin⟩ := hseats
    rcases getElem?_concat_eq_some.mp hr with hr | ⟨-, rfl⟩
    · exact .inl ⟨r, hr, hin⟩
    · cases hin
  · intro player q hseats
    obtain ⟨r, hr, hin⟩ := hseats
    exact .inl ⟨r, (List.getElem?_append_left (List.getElem?_eq_some_iff.mp hr).1).trans hr, hin⟩

end RoomManager

namespace GameServer

variable {Double Addr : Type} {s : GameServer Addr} {i : ℕ} {c : Client Addr}

def Owns (s : GameServer Addr) (player : Player) : Prop := ∃ i c, s.clients[i]? = some c ∧ player = ⟨i, c.id⟩

def Gone (s : GameServer Addr) (id : BitVec 32) : Prop := ∃ c ∈ s.clients, c.id = id ∧ c.stage = .gone

theorem moves_seek (hi : s.clients[i]? = some c) (rooms : List ℕ) (left : Player → Prop) :
    s.roomManager.Moves (s.seek i c rooms).roomManager s.Owns left := by
  have hown : s.Owns ⟨i, c.id⟩ := ⟨i, c, hi, rfl⟩
  cases rooms with
  | nil => exact s.roomManager.moves_addNewRoom.trans (RoomManager.moves_addPlayer _ _ hown)
  | cons it rooms =>
    unfold GameServer.seek
    simp only
    split
    · exact RoomManager.moves_addPlayer _ _ hown
    · exact .refl _ _ _

theorem moves_advance (hi : s.clients[i]? = some c) :
    s.roomManager.Moves (s.advance i).roomManager s.Owns fun player => (s.advance i).Gone player.connectionId := by
  have hlt := (List.getElem?_eq_some_iff.mp hi).1
  cases hstage : c.stage with
  | allocated =>
    obtain ⟨statuses, map, heq, -⟩ := s.statusOf_spec c.id
    unfold GameServer.advance
    rw [hi]
    simp only [hstage]
    rw [heq]
    exact .refl _ _ _
  | seeking rooms =>
    have heq : s.advance i = s.seek i c rooms := by
      unfold GameServer.advance
      rw [hi]
      simp only [hstage]
    rw [heq]
    exact moves_seek hi rooms _
  | leaving room =>
    cases room with
    | none =>
      unfold GameServer.advance
      rw [hi]
      simp only [hstage]
      exact .refl _ _ _
    | some p =>
      have heq : s.advance i = { s with
          roomManager := s.roomManager.setRoom p ((s.roomManager.room p).removePlayer c.id).2 }.setClient i
          { c with stage := .gone } := by
        unfold GameServer.advance
        rw [hi]
        simp only [hstage]
      rw [heq]
      apply RoomManager.moves_removePlayer
      intro player hid
      exact ⟨{ c with stage := .gone }, List.mem_set hlt _, hid.symm, rfl⟩
  | _ =>
    unfold GameServer.advance
    rw [hi]
    simp only [hstage]
    first | exact .refl _ _ _ | (split <;> exact .refl _ _ _)

theorem moves_next (s : GameServer Addr) (a : ServerAction Double Addr) :
    s.roomManager.Moves (s.next a).roomManager s.Owns fun player => (s.next a).Gone player.connectionId := by
  have hsame : ∀ {t : GameServer Addr} {left : Player → Prop}, t.roomManager = s.roomManager →
      s.roomManager.Moves t.roomManager s.Owns left := by
    intro t left ht
    rw [ht]
    exact .refl _ _ _
  cases a with
  | advance i =>
    cases hi : s.clients[i]? with
    | none =>
      apply hsame
      show (s.advance i).roomManager = _
      unfold GameServer.advance
      rw [hi]
    | some c => exact moves_advance hi
  | addClient key p => exact hsame rfl
  | close i =>
    apply hsame
    show (s.close i).roomManager = _
    unfold GameServer.close
    split <;> rfl
  | lookUpStatus i m =>
    apply hsame
    show (s.lookUpStatus i m).roomManager = _
    unfold GameServer.lookUpStatus
    cases hi : s.clients[i]? with
    | none => rfl
    | some c =>
      obtain ⟨statuses, map, heq, -⟩ := s.statusOf_spec c.id
      simp only
      rw [heq]
      split <;> rfl
  | countMessage handler =>
    apply hsame
    show (s.countMessage handler).roomManager = _
    unfold GameServer.countMessage
    split <;> rfl
  | beginStatusCheck =>
    apply hsame
    show s.beginStatusCheck.roomManager = _
    unfold GameServer.beginStatusCheck
    split <;> rfl
  | checkEntry i =>
    apply hsame
    show (s.checkEntry i).roomManager = _
    unfold GameServer.checkEntry
    repeat' split
    all_goals rfl
  | endStatusCheck =>
    apply hsame
    show s.endStatusCheck.roomManager = _
    unfold GameServer.endStatusCheck
    repeat' split
    all_goals rfl

def Seated (s : GameServer Addr) : Prop := ∀ player p, s.roomManager.Seats player p → s.Owns player

theorem seated_start (maxChannelsSize : ℕ) (override : Option ℤ) : (start maxChannelsSize override : GameServer Addr).Seated := by
  intro player p hseats
  obtain ⟨r, hr, hin⟩ := hseats
  have hmem := List.mem_of_getElem? hr
  simp [start, RoomManager.new, RoomManager.addNewRoom] at hmem
  rw [hmem] at hin
  cases hin

theorem Seated.next (h : s.Seated) (a : ServerAction Double Addr) : (s.next a).Seated := by
  intro player p hseats
  have hown : s.Owns player := ((moves_next s a).came player p hseats).elim (h player p) id
  obtain ⟨i, c, hi, rfl⟩ := hown
  obtain ⟨d, hd, hlater⟩ := client_next hi a
  exact ⟨i, d, hd, by rw [hlater.id]⟩

end GameServer

end RudpEngine
