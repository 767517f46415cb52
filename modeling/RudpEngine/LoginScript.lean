import RudpEngine.Login
import RudpEngine.ServerSeats

/-!
# Each login follows the script

What the two sides say is always the beginning of one script. `VerifiedUser`
finds no player only where the connection is withdrawn, and then
`FindConnection` finds no connection: `NMT_Failure` is never sent.
-/

namespace RudpEngine

def loginScript : List ControlMessage := [Login.hello, Login.challenge, Login.login, Login.welcome, Login.join]

theorem loginScript_nodup : loginScript.Nodup := by
  simp [loginScript, Login.hello, Login.challenge, Login.login, Login.welcome, Login.join]

theorem answers_hello : Answers loginScript Login.hello Login.challenge := ⟨[], _, rfl⟩

theorem answers_challenge : Answers loginScript Login.challenge Login.login := ⟨[Login.hello], _, rfl⟩

theorem answers_login : Answers loginScript Login.login Login.welcome := ⟨[Login.hello, Login.challenge], _, rfl⟩

theorem answers_welcome : Answers loginScript Login.welcome Login.join :=
  ⟨[Login.hello, Login.challenge, Login.login], [], rfl⟩

/-! ## The handlers -/

@[simp] theorem serverHandler_hello :
    ControlProtocolServerHandler.controlProtocol Login.hello = some (.answering Login.challenge) := rfl

@[simp] theorem serverHandler_login : ControlProtocolServerHandler.controlProtocol Login.login = some .verifying := by
  simp [ControlProtocolServerHandler.controlProtocol, Login.login, ControlMessage.id, EControlProtocol.toId,
    ControlProtocolHandler.registered, credentialStore, UnorderedMap.insert, UnorderedMap.empty, UnorderedMap.set]

@[simp] theorem serverHandler_join : ControlProtocolServerHandler.controlProtocol Login.join = none := rfl

@[simp] theorem clientHandler_challenge : ControlProtocolClientHandler.controlProtocol Login.challenge = some Login.login := rfl

@[simp] theorem clientHandler_welcome : ControlProtocolClientHandler.controlProtocol Login.welcome = some Login.join := rfl

/-! ## Stages of a client -/

namespace ClientStage

variable {stage stage' : ClientStage}

theorem isKnown_iff : stage.isKnown = true ↔ 5 ≤ stage.rank := by
  cases stage <;> simp [isKnown, rank]

theorem rank_eq_gone : 11 ≤ stage.rank ↔ stage = .gone := by
  cases stage <;> simp [rank]

theorem connection?_eq_none (h : stage.isKnown) : stage.connection? = none ↔ 7 ≤ stage.rank := by
  cases stage <;> simp_all [isKnown, connection?, rank]

theorem hasRoom_iff (h : stage.isKnown) : stage.hasRoom = true ↔ stage ≠ .gone := by
  cases stage <;> simp_all [isKnown, hasRoom]

end ClientStage

namespace GameServer

variable {Addr : Type} {s : GameServer Addr} {i : ℕ} {c d : Client Addr}

theorem Kept.same (h : s.Kept) (hc : s.clients[i]? = some c) (hd : d ∈ s.clients) (hid : d.id = c.id) : d = c := by
  obtain ⟨j, hj⟩ := List.getElem?_of_mem hd
  by_cases hji : j = i
  · subst hji
    exact Option.some.inj (hj.symm.trans hc)
  · exact absurd hid (h.numbered.id_ne hc hj hji)

theorem Kept.connectionMap_eq_none (h : s.Kept) (hc : s.clients[i]? = some c) :
    s.driver.connectionMap c.id = none ↔ c.stage.connection? = none := by
  simp only [Option.eq_none_iff_forall_ne_some]
  exact forall_congr' fun r =>
    not_congr (h.listed.connections.holds_iff h.numbered.nodup (List.mem_of_getElem? hc) r)

end GameServer

/-! ## What is kept -/

namespace LoginRun

variable {Double Addr : Type}

def StageOk (s : GameServer Addr) (i : ℕ) (c : Client Addr) (message : ControlMessage) : HandlerStage → Prop
  | .verifying => message = Login.login
  | .inRoom targetRoom => message = Login.login ∧ (c.stage ≠ .gone → s.roomManager.Sits c.id targetRoom)
  | .withPlayer targetPlayer => message = Login.login ∧ targetPlayer = ⟨i, c.id⟩
  | .withId targetPlayer _ => message = Login.login ∧ targetPlayer = ⟨i, c.id⟩
  | .answering newMessage => message = Login.hello ∧ newMessage = Login.challenge ∨
      message = Login.login ∧ (newMessage = Login.welcome ∨ c.stage = .gone)

structure Follows (s : GameServer Addr) (i : ℕ) (c : Client Addr) (p : LoginPeer) : Prop where
  script : FollowsScript loginScript p.said p.underway
  unsaid : p.handshakeCompleteDel = true → p.said = []
  toServer : ∀ m ∈ p.toServer, m = Login.hello ∨ m = Login.login ∨ m = Login.join
  toClient : ∀ m ∈ p.toClient, m = Login.challenge ∨ m = Login.welcome
  handling : ∀ message stage, p.handling = some (message, stage) → c.stage.isKnown ∧ StageOk s i c message stage
  ended : p.handshakeCompleteDel = false → p.underway = [] → p.said = loginScript ∨ p.registered = false ∨ 7 ≤ c.stage.rank

structure InTurn (s : LoginRun Addr) : Prop where
  kept : s.server.Kept
  seated : s.server.Seated
  length : s.peers.length = s.server.clients.length
  follows : ∀ i p c, s.peers[i]? = some p → s.server.clients[i]? = some c → Follows s.server i c p

variable {s t : LoginRun Addr} {i : ℕ} {c c' : Client Addr} {p p' : LoginPeer}

/-! ### Steps of the other threads -/

theorem StageOk.next {g : GameServer Addr} {a : ServerAction Double Addr} (hk' : (g.next a).Kept)
    (hc : (g.next a).clients[i]? = some c') (hlater : c.Later c') {message : ControlMessage} {stage : HandlerStage}
    (h : StageOk g i c message stage) : StageOk (g.next a) i c' message stage := by
  have hgone : c.stage = .gone → c'.stage = .gone := by
    intro hstage
    have hrank := hlater.rank
    rw [hstage] at hrank
    exact ClientStage.rank_eq_gone.mp hrank
  cases stage with
  | verifying => exact h
  | inRoom targetRoom =>
    refine ⟨h.1, ?_⟩
    intro hnot
    obtain ⟨r, hr, hid⟩ := h.2 fun hstage => hnot (hgone hstage)
    obtain ⟨player, hplayer, hplayerId⟩ := List.mem_map.mp hid
    rcases (g.moves_next a).left player targetRoom ⟨r, hr, hplayer⟩ with ⟨r', hr', hin⟩ | ⟨d, hd, hdid, hdgone⟩
    · exact ⟨r', hr', List.mem_map.mpr ⟨player, hin, hplayerId.trans hlater.id.symm⟩⟩
    · have hsame := hk'.same hc hd (hdid.trans (hplayerId.trans hlater.id.symm))
      exact absurd (hsame ▸ hdgone) hnot
  | withPlayer targetPlayer => exact ⟨h.1, by rw [hlater.id]; exact h.2⟩
  | withId targetPlayer newPlayerId => exact ⟨h.1, by rw [hlater.id]; exact h.2⟩
  | answering newMessage => exact h.imp_right fun hlogin => ⟨hlogin.1, hlogin.2.imp_right hgone⟩

theorem Follows.next {g : GameServer Addr} (h : Follows g i c p) {a : ServerAction Double Addr}
    (hk' : (g.next a).Kept) (hc : (g.next a).clients[i]? = some c') (hlater : c.Later c') : Follows (g.next a) i c' p := by
  refine ⟨h.script, h.unsaid, h.toServer, h.toClient, ?_, ?_⟩
  · intro message stage hhandling
    obtain ⟨hknown, hok⟩ := h.handling message stage hhandling
    have hrank := ClientStage.isKnown_iff.mp hknown
    exact ⟨ClientStage.isKnown_iff.mpr (Nat.le_trans hrank hlater.rank), hok.next hk' hc hlater⟩
  · intro hdel hunderway
    exact (h.ended hdel hunderway).imp_right fun hend => hend.imp_right fun hrank => Nat.le_trans hrank hlater.rank

theorem follows_new (g : GameServer Addr) (i : ℕ) (c : Client Addr) : Follows g i c .new := by
  constructor <;> simp [LoginPeer.new, LoginPeer.underway, FollowsScript.start]

theorem InTurn.serverNext (h : s.InTurn) {a : ServerAction Double Addr} (ha : s.server.IdsLast a)
    (hserver : t.server = s.server.next a) (hlength : t.peers.length = t.server.clients.length)
    (hpeers : ∀ i p, t.peers[i]? = some p → s.peers[i]? = some p ∨ s.peers.length ≤ i ∧ p = .new) : t.InTurn := by
  have hk' := h.kept.next a ha
  refine ⟨hserver ▸ hk', hserver ▸ h.seated.next a, hlength, ?_⟩
  intro i p c' hp hc'
  rw [hserver] at hc' ⊢
  rcases hpeers i p hp with hp | ⟨-, rfl⟩
  · have hlt : i < s.server.clients.length := h.length ▸ (List.getElem?_eq_some_iff.mp hp).1
    have hc := List.getElem?_eq_getElem hlt
    obtain ⟨d, hd, hlater⟩ := GameServer.client_next hc a
    obtain rfl : d = c' := Option.some.inj (hd.symm.trans hc')
    exact (h.follows i p _ hp hc).next hk' hc' hlater
  · exact follows_new _ i c'

theorem length_next (g : GameServer Addr) {a : ServerAction Double Addr} (ha : ∀ key q, a ≠ .addClient key q) :
    (g.next a).clients.length = g.clients.length := by
  rcases g.clients_next a with hsame | ⟨i, c, c', -, hset, -⟩ | ⟨key, q, c, heq, -⟩
  · rw [hsame]
  · rw [hset, List.length_set]
  · exact absurd heq (ha key q)

/-! ### Steps of a login -/

section
variable {g : GameServer Addr} {message newMessage : ControlMessage} {stage : HandlerStage} (h : Follows g i c p)
include h

theorem Follows.inToServer {rest : List ControlMessage} (hm : p.toServer = message :: rest) :
    rest = [] ∧ p.handling = none ∧ p.toClient = [] ∧ p.said.getLast? = some message := by
  obtain ⟨hone, hlast⟩ := h.script.underway_eq (m := message) (by simp [LoginPeer.underway, hm])
  rw [LoginPeer.underway, hm] at hone
  simp at hone
  exact ⟨hone.1, hone.2.1, hone.2.2, hlast⟩

theorem Follows.inHand (hm : p.handling = some (message, stage)) :
    p.toServer = [] ∧ p.toClient = [] ∧ p.said.getLast? = some message := by
  obtain ⟨hone, hlast⟩ := h.script.underway_eq (m := message) (by simp [LoginPeer.underway, hm])
  rw [LoginPeer.underway, hm, Option.map_some, Option.toList_some, List.append_eq_singleton_iff] at hone
  simp at hone
  exact ⟨hone.1, hone.2, hlast⟩

theorem Follows.inToClient {rest : List ControlMessage} (hm : p.toClient = message :: rest) :
    rest = [] ∧ p.toServer = [] ∧ p.handling = none ∧ p.said.getLast? = some message := by
  obtain ⟨hone, hlast⟩ := h.script.underway_eq (m := message) (by simp [LoginPeer.underway, hm])
  rw [LoginPeer.underway, hm, List.append_eq_singleton_iff] at hone
  simp at hone
  exact ⟨hone.2, hone.1.1, hone.1.2, hlast⟩

theorem Follows.beginNMTHello (hdel : p.handshakeCompleteDel = true) : Follows g i c { p with
    handshakeCompleteDel := false, toServer := p.toServer ++ [Login.hello], said := p.said ++ [Login.hello] } := by
  have hsaid := h.unsaid hdel
  have hnone : p.underway = [] := by
    rcases h.script.lastOnly with hnone | ⟨m, -, hlast⟩
    · exact hnone
    · rw [hsaid] at hlast
      cases hlast
  simp only [LoginPeer.underway, List.append_eq_nil_iff, Option.toList_eq_nil_iff, Option.map_eq_none_iff] at hnone
  obtain ⟨⟨hserver, hhandling⟩, hclient⟩ := hnone
  constructor
  · simp only [LoginPeer.underway, hserver, hhandling, hclient, hsaid]
    exact .opening rfl
  · simp
  · simp [hserver]
  · exact h.toClient
  · exact h.handling
  · simp [LoginPeer.underway]

theorem Follows.receive {rest : List ControlMessage} (hm : p.toServer = message :: rest) (hknown : c.stage.isKnown) :
    Follows g i c { p with
      toServer := rest
      handling := (ControlProtocolServerHandler.controlProtocol message).map fun stage => (message, stage) } := by
  obtain ⟨rfl, hhandling, hclient, hlast⟩ := h.inToServer hm
  have hsaid : p.said ≠ [] := by
    intro hnil
    rw [hnil] at hlast
    cases hlast
  have hscript := h.script
  rw [LoginPeer.underway, hm, hhandling, hclient] at hscript
  rcases h.toServer message (by simp [hm]) with rfl | rfl | rfl
  · constructor
    · simpa [LoginPeer.underway, hclient] using hscript
    · exact h.unsaid
    · simp
    · exact h.toClient
    · simp [hknown, StageOk]
    · simp [LoginPeer.underway]
  · constructor
    · simpa [LoginPeer.underway, hclient] using hscript
    · exact h.unsaid
    · simp
    · exact h.toClient
    · simp [hknown, StageOk]
    · simp [LoginPeer.underway]
  · constructor
    · simpa [LoginPeer.underway, hclient] using hscript.lost
    · exact h.unsaid
    · simp
    · exact h.toClient
    · simp
    · intro _ _
      exact .inl (hscript.rest_eq loginScript_nodup (loginScript.take 4) [] hlast rfl)

theorem Follows.goOn {stage' : HandlerStage} (hm : p.handling = some (message, stage)) (hok : StageOk g i c message stage') :
    Follows g i c { p with handling := some (message, stage') } := by
  obtain ⟨hserver, hclient, hlast⟩ := h.inHand hm
  have hscript := h.script
  rw [LoginPeer.underway, hm, hserver, hclient] at hscript
  constructor
  · simpa [LoginPeer.underway, hserver, hclient] using hscript
  · exact h.unsaid
  · exact h.toServer
  · exact h.toClient
  · intro m st heq
    obtain ⟨rfl, rfl⟩ := Prod.mk.inj (Option.some.inj heq)
    exact ⟨(h.handling message stage hm).1, hok⟩
  · simp [LoginPeer.underway]

theorem Follows.begun (hm : message ∈ p.underway) : p.handshakeCompleteDel = false := by
  rw [← Bool.not_eq_true]
  intro hdel
  have hlast := (h.script.underway_eq hm).2
  rw [h.unsaid hdel] at hlast
  cases hlast

theorem Follows.send (hm : p.handling = some (message, .answering newMessage)) (hthere : c.stage ≠ .gone) :
    Follows g i c { p with
      handling := none, toClient := p.toClient ++ [newMessage], said := p.said ++ [newMessage] } := by
  obtain ⟨hserver, hclient, hlast⟩ := h.inHand hm
  have hmem : message ∈ p.underway := by simp [LoginPeer.underway, hm]
  have hdel := h.begun hmem
  have hnext : Answers loginScript message newMessage ∧ (newMessage = Login.challenge ∨ newMessage = Login.welcome) := by
    rcases (h.handling message _ hm).2 with ⟨rfl, rfl⟩ | ⟨rfl, rfl | hgone⟩
    · exact ⟨answers_hello, .inl rfl⟩
    · exact ⟨answers_login, .inr rfl⟩
    · exact absurd hgone hthere
  constructor
  · simpa [LoginPeer.underway, hserver, hclient] using h.script.answer loginScript_nodup hmem hnext.1
  · simp [hdel]
  · exact h.toServer
  · simpa [hclient] using hnext.2
  · simp
  · simp [LoginPeer.underway]

theorem Follows.dropAnswer (hm : p.handling = some (message, stage)) (hrank : 7 ≤ c.stage.rank) :
    Follows g i c { p with handling := none } := by
  obtain ⟨hserver, hclient, hlast⟩ := h.inHand hm
  constructor
  · simpa [LoginPeer.underway, hserver, hclient] using h.script.lost
  · exact h.unsaid
  · exact h.toServer
  · exact h.toClient
  · simp
  · exact fun _ _ => .inr (.inr hrank)

theorem Follows.answer {rest : List ControlMessage} (hm : p.toClient = message :: rest)
    (hreply : ControlProtocolClientHandler.controlProtocol message = some newMessage) : Follows g i c { p with
      toClient := rest, toServer := p.toServer ++ [newMessage], said := p.said ++ [newMessage] } := by
  obtain ⟨rfl, hserver, hhandling, hlast⟩ := h.inToClient hm
  have hmem : message ∈ p.underway := by simp [LoginPeer.underway, hm]
  have hdel := h.begun hmem
  have hnext : Answers loginScript message newMessage ∧ (newMessage = Login.login ∨ newMessage = Login.join) := by
    rcases h.toClient message (by simp [hm]) with rfl | rfl
    · rw [clientHandler_challenge, Option.some.injEq] at hreply
      subst hreply
      exact ⟨answers_challenge, .inl rfl⟩
    · rw [clientHandler_welcome, Option.some.injEq] at hreply
      subst hreply
      exact ⟨answers_welcome, .inr rfl⟩
  constructor
  · simpa [LoginPeer.underway, hserver, hhandling] using h.script.answer loginScript_nodup hmem hnext.1
  · simp [hdel]
  · simpa [hserver] using Or.inr hnext.2
  · simp
  · exact h.handling
  · simp [LoginPeer.underway]

theorem Follows.ignore {rest : List ControlMessage} (hm : p.toClient = message :: rest) (hgone : p.registered = false) :
    Follows g i c { p with toClient := rest } := by
  obtain ⟨rfl, hserver, hhandling, hlast⟩ := h.inToClient hm
  constructor
  · simpa [LoginPeer.underway, hserver, hhandling] using h.script.lost
  · exact h.unsaid
  · exact h.toServer
  · simp
  · exact h.handling
  · exact fun _ _ => .inr (.inl hgone)

theorem Follows.unregister : Follows g i c { p with registered := false } :=
  ⟨h.script, h.unsaid, h.toServer, h.toClient, h.handling, fun _ _ => .inr (.inl rfl)⟩

end

/-! ### Runs -/

theorem InTurn.setPeer (h : s.InTurn) (hserver : t.server = s.server) (hpeers : t.peers = s.peers.set i p')
    (hnew : ∀ c, s.server.clients[i]? = some c → Follows s.server i c p') : t.InTurn := by
  refine ⟨hserver ▸ h.kept, hserver ▸ h.seated, ?_, ?_⟩
  · rw [hpeers, List.length_set, hserver]
    exact h.length
  · intro j q d hq hd
    rw [hserver] at hd ⊢
    rw [hpeers] at hq
    rcases GameServer.getElem?_set_cases hq with ⟨rfl, rfl⟩ | ⟨-, hq⟩
    · exact hnew d hd
    · exact h.follows j q d hq hd

theorem InTurn.setLogin (h : s.InTurn) (hc : s.server.clients[i]? = some c) (hserver : t.server = s.server)
    (hpeers : t.peers = s.peers.set i p') (hnew : Follows s.server i c p') : t.InTurn := by
  apply h.setPeer hserver hpeers
  intro d hd
  obtain rfl : c = d := Option.some.inj (hc.symm.trans hd)
  exact hnew

theorem InTurn.beginNMTHello (h : s.InTurn) (i : ℕ) : (s.beginNMTHello i).InTurn := by
  unfold LoginRun.beginNMTHello
  split
  · exact h
  case h_2 p hp =>
    split
    case isTrue hdel => exact h.setPeer rfl rfl fun c hc => (h.follows i p c hp hc).beginNMTHello hdel
    case isFalse => exact h

theorem InTurn.receive (h : s.InTurn) (i : ℕ) : (s.receive i).InTurn := by
  unfold LoginRun.receive
  split
  case h_2 => exact h
  case h_1 p c hp hc =>
    split
    case h_2 => exact h
    case h_1 message rest _ hm =>
      split
      case isFalse => exact h
      case isTrue hknown => exact h.setLogin hc rfl rfl ((h.follows i p c hp hc).receive hm hknown)

section
variable (h : s.InTurn) (hc : s.server.clients[i]? = some c)
include h hc

/-- A known client whose player is in no room is gone. -/
theorem InTurn.gone_of_not_has (hknown : c.stage.isKnown) (hno : ¬ s.server.roomManager.Has c.id) : c.stage = .gone := by
  by_contra hstage
  have hroom := (ClientStage.hasRoom_iff hknown).mpr hstage
  exact hno ((h.kept.listed.rooms.holds_iff h.kept.numbered.nodup (List.mem_of_getElem? hc) ()).mpr hroom)

theorem InTurn.find {message : ControlMessage} (hknown : c.stage.isKnown) (hlogin : message = Login.login) :
    StageOk s.server i c message (match s.server.roomManager.findRoomWithConnection c.id with
      | some targetRoom => .inRoom targetRoom
      | none => .answering Login.failure) := by
  cases hfind : s.server.roomManager.findRoomWithConnection c.id with
  | none =>
    have hno := h.kept.roomy.wellKept.findRoomWithConnection_eq_none.mp hfind
    exact .inr ⟨hlogin, .inr (h.gone_of_not_has hc hknown hno)⟩
  | some p => exact ⟨hlogin, fun _ => h.kept.roomy.wellKept.findRoomWithConnection_eq_some.mp hfind⟩

theorem InTurn.getPlayer {message : ControlMessage} {targetRoom : ℕ}
    (hok : StageOk s.server i c message (.inRoom targetRoom)) : StageOk s.server i c message
      (match (s.server.roomManager.room targetRoom).getPlayer c.id with
      | some targetPlayer => .withPlayer targetPlayer
      | none => .answering Login.failure) := by
  have hwell := h.kept.roomy.wellKept
  cases hget : (s.server.roomManager.room targetRoom).getPlayer c.id with
  | none =>
    refine .inr ⟨hok.1, .inr ?_⟩
    by_contra hstage
    obtain ⟨r, hr, hid⟩ := hok.2 hstage
    have hsome := (hwell.room r (List.mem_of_getElem? hr)).getPlayer_isSome.mpr hid
    rw [RoomManager.room_eq hr] at hget
    rw [hget] at hsome
    cases hsome
  | some player =>
    refine ⟨hok.1, ?_⟩
    cases hr : s.server.roomManager.heap[targetRoom]? with
    | none =>
      rw [RoomManager.room, List.getD_eq_getElem?_getD, hr] at hget
      cases hget
    | some r =>
      rw [RoomManager.room_eq hr] at hget
      obtain ⟨hin, hid⟩ := (hwell.room r (List.mem_of_getElem? hr)).lookup_eq_some.mp hget
      obtain ⟨j, d, hj, rfl⟩ := h.seated player targetRoom ⟨r, hr, hin⟩
      have hji : j = i := by
        by_contra hne
        exact h.kept.numbered.id_ne hc hj hne hid
      subst hji
      rw [Option.some.inj (hj.symm.trans hc)]

end

theorem InTurn.handle (h : s.InTurn) (i : ℕ) : (s.handle i).InTurn := by
  unfold LoginRun.handle
  split
  case h_2 => exact h
  case h_1 p c hp hc =>
    have hfollows := h.follows i p c hp hc
    split
    case h_1 => exact h
    case h_2 message stage hm =>
      obtain ⟨hknown, hok⟩ := hfollows.handling message stage hm
      cases stage with
      | verifying =>
        simp only
        split
        · exact h
        · exact h.setLogin hc rfl rfl (hfollows.goOn hm (h.find hc hknown hok))
      | inRoom targetRoom => exact h.setLogin hc rfl rfl (hfollows.goOn hm (h.getPlayer hc hok))
      | withPlayer targetPlayer => exact h.setLogin hc rfl rfl (hfollows.goOn hm hok)
      | withId targetPlayer newPlayerId => exact h.setLogin hc rfl rfl (hfollows.goOn hm (.inr ⟨hok.1, .inl rfl⟩))
      | answering newMessage =>
        simp only
        split
        case isTrue hsome =>
          refine h.setLogin hc rfl rfl (hfollows.send hm ?_)
          intro hgone
          have hnone := (h.kept.connectionMap_eq_none hc).mpr (by rw [hgone]; rfl)
          rw [hnone] at hsome
          cases hsome
        case isFalse hnone =>
          rw [Option.not_isSome_iff_eq_none, h.kept.connectionMap_eq_none hc, ClientStage.connection?_eq_none hknown] at hnone
          exact h.setLogin hc rfl rfl (hfollows.dropAnswer hm hnone)

theorem InTurn.answer (h : s.InTurn) (i : ℕ) : (s.answer i).InTurn := by
  unfold LoginRun.answer
  split
  case h_1 => exact h
  case h_2 p hp =>
    split
    case h_1 => exact h
    case h_2 message rest hm =>
      split
      case h_1 newMessage hreply =>
        split
        case isTrue => exact h.setPeer rfl rfl fun c hc => (h.follows i p c hp hc).answer hm hreply
        case isFalse hgone =>
          exact h.setPeer rfl rfl fun c hc => (h.follows i p c hp hc).ignore hm (Bool.not_eq_true _ ▸ hgone)
      case h_2 hnone =>
        refine h.setPeer rfl rfl ?_
        intro c hc
        rcases (h.follows i p c hp hc).toClient message (by simp [hm]) with rfl | rfl
        · rw [clientHandler_challenge] at hnone
          cases hnone
        · rw [clientHandler_welcome] at hnone
          cases hnone

theorem next_server {a : ServerAction Double Addr} (hadd : ∀ key q, a ≠ .addClient key q) :
    s.next (.server a) = { s with server := s.server.next a } := by
  unfold LoginRun.next
  split <;> simp_all

theorem InTurn.next (h : s.InTurn) (a : LoginAction Double Addr) (ha : s.IdsLast a) : (s.next a).InTurn := by
  cases a with
  | server a =>
    by_cases hadd : ∃ key q, a = .addClient key q
    · obtain ⟨key, q, rfl⟩ := hadd
      refine h.serverNext (a := .addClient key q) ha rfl ?_ ?_
      · simp [LoginRun.next, GameServer.addClient, h.length]
      · intro j p hp
        rcases getElem?_concat_eq_some.mp hp with hp | ⟨rfl, rfl⟩
        · exact .inl hp
        · exact .inr ⟨Nat.le_refl _, rfl⟩
    · push Not at hadd
      rw [next_server hadd]
      refine h.serverNext ha rfl ?_ fun _ _ hp => .inl hp
      rw [length_next s.server hadd]
      exact h.length
  | beginNMTHello i => exact h.beginNMTHello i
  | receive i => exact h.receive i
  | handle i => exact h.handle i
  | answer i => exact h.answer i
  | unregister i =>
    show (s.unregister i).InTurn
    unfold LoginRun.unregister
    split
    · exact h
    case h_2 p hp => exact h.setPeer rfl rfl fun c hc => (h.follows i p c hp hc).unregister

theorem inTurn_start (maxChannelsSize : ℕ) (override : Option ℤ) : (start maxChannelsSize override : LoginRun Addr).InTurn :=
  ⟨GameServer.kept_start _ _, GameServer.seated_start _ _, rfl, fun _ _ _ hp => by simp [start] at hp⟩

theorem InTurn.of_reach (h : (loginSystem Double Addr).Reach IdsLast s) : s.InTurn := by
  apply h.invariant
  · intro s hs
    obtain ⟨maxChannelsSize, override, rfl⟩ := hs
    exact inTurn_start maxChannelsSize override
  · intro s a hI ha
    exact hI.next a ha

/-- In every run the messages of each login follow the script, and at most the last of them is underway. Where none is
underway and the login is not at its end, the client has shut down or the server has withdrawn the connection. -/
theorem login_in_turn (h : (loginSystem Double Addr).Reach IdsLast s) (hp : s.peers[i]? = some p)
    (hc : s.server.clients[i]? = some c) : FollowsScript loginScript p.said p.underway ∧
      (p.said ≠ [] → p.underway = [] →
        p.said = loginScript ∨ p.registered = false ∨ s.server.driver.connectionMap c.id = none) := by
  have hinv := InTurn.of_reach h
  have hfollows := hinv.follows i p c hp hc
  refine ⟨hfollows.script, ?_⟩
  intro hsaid hunderway
  have hdel : p.handshakeCompleteDel = false := by
    rw [← Bool.not_eq_true]
    exact fun hdel => hsaid (hfollows.unsaid hdel)
  refine (hfollows.ended hdel hunderway).imp_right fun hend => hend.imp_right fun hrank => ?_
  rw [hinv.kept.connectionMap_eq_none hc]
  have hknown : c.stage.isKnown = true := ClientStage.isKnown_iff.mpr (by omega)
  exact (ClientStage.connection?_eq_none hknown).mpr hrank

def bothPublished : LoginRun (BitVec 64) :=
  (loginSystem ℤ (BitVec 64)).runFrom (start 2 none) (List.map LoginAction.server
    ([.addClient 5 pendingClient, .addClient 6 pendingClient] ++ GameServer.entering 0 ++
      GameServer.entering 1))

/-- One client has joined; the other was removed while the server looked for its room. -/
def oneJoined : LoginRun (BitVec 64) :=
  (loginSystem ℤ (BitVec 64)).runFrom bothPublished
    [.beginNMTHello 0, .beginNMTHello 1, .receive 0, .receive 1, .handle 0, .handle 1, .answer 0, .answer 1, .receive 0,
      .receive 1, .handle 1, .server (.close 1), .server (.advance 1), .server (.advance 1), .server (.advance 1),
      .server (.advance 1), .server (.advance 1), .handle 1, .handle 1, .handle 0, .handle 0, .handle 0, .handle 0,
      .handle 0, .answer 0, .receive 0]

theorem oneJoined_reach : (loginSystem ℤ (BitVec 64)).Reach IdsLast oneJoined := by
  have hstart : (loginSystem ℤ (BitVec 64)).Reach IdsLast (start 2 none) := .init ⟨2, none, rfl⟩
  have hboth : (loginSystem ℤ (BitVec 64)).Reach IdsLast bothPublished := hstart.of_checked _ (by decide +kernel)
  exact hboth.of_checked _ (by decide +kernel)

theorem login_in_turn_oneJoined : ∃ p, oneJoined.peers[1]? = some p ∧ p.said = loginScript.take 3 ∧
    FollowsScript loginScript p.said p.underway := by
  have hclient : 1 < oneJoined.server.clients.length := by decide +kernel
  obtain ⟨p, hp, hsaid⟩ : ∃ p, oneJoined.peers[1]? = some p ∧ p.said = loginScript.take 3 :=
    ⟨⟨false, true, [], none, [], loginScript.take 3⟩, by decide +kernel, rfl⟩
  exact ⟨p, hp, hsaid, (login_in_turn oneJoined_reach hp (List.getElem?_eq_getElem hclient)).1⟩

end LoginRun

end RudpEngine
