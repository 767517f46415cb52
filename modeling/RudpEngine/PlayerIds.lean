import RudpEngine.LoginScript

/-!
# The ids of the players

A client logs in once, so each verified player has got its id by itself, and
what it has got it keeps. Whoever was welcomed is verified.
-/

namespace RudpEngine

def HandlerStage.beforeId : HandlerStage → Bool
  | .verifying | .inRoom _ | .withPlayer _ => true
  | _ => false

namespace LoginPeer

def Ahead (p : LoginPeer) : Prop :=
  p.said.length < 3 ∨ Login.login ∈ p.toServer ∨ ∃ message stage, p.handling = some (message, stage) ∧ stage.beforeId

def Welcomed (p : LoginPeer) : Prop :=
  Login.welcome ∈ p.said ∨ ∃ message, p.handling = some (message, .answering Login.welcome)

end LoginPeer

namespace LoginRun

variable {Double Addr : Type} {s t : LoginRun Addr} {i : ℕ} {c : Client Addr} {p p' : LoginPeer}

structure IdsGranted (s : LoginRun Addr) : Prop where
  inTurn : s.InTurn
  players : s.players.length = s.peers.length
  allocator : s.playerIdAllocator = ⟨BitVec.ofNat 32 (s.granted.length + 1), []⟩
  nodup : s.granted.Nodup
  behind : ∀ i ∈ s.granted, ∃ p, s.peers[i]? = some p ∧ ¬ p.Ahead
  inHand : ∀ (i : ℕ) p message targetPlayer newPlayerId, s.peers[i]? = some p →
    p.handling = some (message, .withId targetPlayer newPlayerId) →
      ∃ k : ℕ, s.granted[k]? = some i ∧ newPlayerId = BitVec.ofNat 32 (k + 1)
  verified : ∀ (i : ℕ) q, s.players[i]? = some q → q.authState = .Verified →
    ∃ k : ℕ, s.granted[k]? = some i ∧ q.playerId = (BitVec.ofNat 32 (k + 1)).toInt
  welcomed : ∀ (i : ℕ) p q, s.peers[i]? = some p → s.players[i]? = some q → p.Welcomed → q.authState = .Verified

/-! ## Positions in the script -/

section
variable {g : GameServer Addr} {message newMessage : ControlMessage} {stage : HandlerStage} (h : Follows g i c p)
include h

theorem Follows.length_of_login (hlast : p.said.getLast? = some Login.login) : p.said.length = 3 := by
  rw [h.script.rest_eq loginScript_nodup (loginScript.take 2) (loginScript.drop 3) hlast rfl]
  rfl

theorem Follows.length_of_challenge (hlast : p.said.getLast? = some Login.challenge) : p.said.length = 2 := by
  rw [h.script.rest_eq loginScript_nodup (loginScript.take 1) (loginScript.drop 2) hlast rfl]
  rfl

end

theorem login_ne : Login.login ≠ Login.hello ∧ Login.login ≠ Login.join := by
  simp [Login.login, Login.hello, Login.join]

theorem welcome_ne : Login.welcome ≠ Login.hello ∧ Login.welcome ≠ Login.login ∧ Login.welcome ≠ Login.join ∧
    Login.welcome ≠ Login.challenge ∧ Login.welcome ≠ Login.failure := by
  simp [Login.welcome, Login.login, Login.hello, Login.join, Login.challenge, Login.failure]

/-! ## Steps -/

theorem IdsGranted.setPeer (h : s.IdsGranted) (hp : s.peers[i]? = some p) (ht : t.InTurn)
    (hpeers : t.peers = s.peers.set i p') (hplayers : t.players = s.players)
    (hallocator : t.playerIdAllocator = s.playerIdAllocator) (hgranted : t.granted = s.granted)
    (hahead : p'.Ahead → p.Ahead)
    (hhand : ∀ message targetPlayer newPlayerId, p'.handling = some (message, .withId targetPlayer newPlayerId) →
      p.handling = some (message, .withId targetPlayer newPlayerId))
    (hwelcomed : p'.Welcomed → p.Welcomed) : t.IdsGranted := by
  have hlt := (List.getElem?_eq_some_iff.mp hp).1
  constructor
  · exact ht
  · rw [hplayers, hpeers, List.length_set]
    exact h.players
  · rw [hallocator, hgranted]
    exact h.allocator
  · exact hgranted ▸ h.nodup
  · rw [hgranted, hpeers]
    intro j hj
    obtain ⟨q, hq, hnot⟩ := h.behind j hj
    by_cases hij : i = j
    · subst hij
      obtain rfl : p = q := Option.some.inj (hp.symm.trans hq)
      exact ⟨p', List.getElem?_set_self hlt, fun hahead' => hnot (hahead hahead')⟩
    · exact ⟨q, (List.getElem?_set_ne hij).trans hq, hnot⟩
  · rw [hgranted, hpeers]
    intro j q message targetPlayer newPlayerId hq hm
    rcases GameServer.getElem?_set_cases hq with ⟨rfl, rfl⟩ | ⟨-, hq⟩
    · exact h.inHand j p message targetPlayer newPlayerId hp (hhand _ _ _ hm)
    · exact h.inHand j q message targetPlayer newPlayerId hq hm
  · rw [hgranted, hplayers]
    exact h.verified
  · rw [hpeers, hplayers]
    intro j q r hq hr hw
    rcases GameServer.getElem?_set_cases hq with ⟨rfl, rfl⟩ | ⟨-, hq⟩
    · exact h.welcomed j p r hp hr (hwelcomed hw)
    · exact h.welcomed j q r hq hr hw

theorem IdsGranted.beginNMTHello (h : s.IdsGranted) (i : ℕ) : (s.beginNMTHello i).IdsGranted := by
  have ht := h.inTurn.beginNMTHello i
  revert ht
  unfold LoginRun.beginNMTHello
  split
  · exact fun _ => h
  case h_2 p hp =>
    split
    case isFalse => exact fun _ => h
    case isTrue hdel =>
      intro ht
      have hlt : i < s.server.clients.length := h.inTurn.length ▸ (List.getElem?_eq_some_iff.mp hp).1
      have hsaid := (h.inTurn.follows i p _ hp (List.getElem?_eq_getElem hlt)).unsaid hdel
      refine h.setPeer hp ht rfl rfl rfl rfl ?_ (fun _ _ _ hm => hm) ?_
      · exact fun _ => .inl (by simp [hsaid])
      · intro hw
        simpa [LoginPeer.Welcomed, hsaid, welcome_ne.1] using hw

theorem IdsGranted.receive (h : s.IdsGranted) (i : ℕ) : (s.receive i).IdsGranted := by
  have ht := h.inTurn.receive i
  revert ht
  unfold LoginRun.receive
  split
  case h_2 => exact fun _ => h
  case h_1 p c hp hc =>
    split
    case h_2 => exact fun _ => h
    case h_1 message rest hnone hm =>
      split
      case isFalse => exact fun _ => h
      case isTrue =>
        intro ht
        have hfollows := h.inTurn.follows i p c hp hc
        obtain ⟨rfl, -⟩ := hfollows.inToServer hm
        rcases hfollows.toServer message (by simp [hm]) with rfl | rfl | rfl
        all_goals
          refine h.setPeer hp ht rfl rfl rfl rfl ?_ (by simp) ?_
          · simp +contextual [LoginPeer.Ahead, hm, HandlerStage.beforeId]
          · simp only [LoginPeer.Welcomed]
            intro hw
            refine .inl (hw.resolve_right ?_)
            simp [Login.welcome, Login.challenge]

theorem IdsGranted.answer (h : s.IdsGranted) (i : ℕ) : (s.answer i).IdsGranted := by
  have ht := h.inTurn.answer i
  revert ht
  unfold LoginRun.answer
  split
  case h_1 => exact fun _ => h
  case h_2 p hp =>
    have hlt : i < s.server.clients.length := h.inTurn.length ▸ (List.getElem?_eq_some_iff.mp hp).1
    have hfollows := h.inTurn.follows i p _ hp (List.getElem?_eq_getElem hlt)
    split
    case h_1 => exact fun _ => h
    case h_2 message rest hm =>
      split
      case h_2 => exact fun ht => h.setPeer hp ht rfl rfl rfl rfl (fun ha => ha) (fun _ _ _ hm => hm) fun hw => hw
      case h_1 newMessage hreply =>
        split
        case isFalse => exact fun ht => h.setPeer hp ht rfl rfl rfl rfl (fun ha => ha) (fun _ _ _ hm => hm) fun hw => hw
        case isTrue =>
          intro ht
          obtain ⟨rfl, hserver, hhandling, hlast⟩ := hfollows.inToClient hm
          rcases hfollows.toClient message (by simp [hm]) with rfl | rfl
          · -- the login is behind the challenge
            rw [clientHandler_challenge, Option.some.injEq] at hreply
            subst hreply
            refine h.setPeer hp ht rfl rfl rfl rfl ?_ (fun _ _ _ hm => hm) ?_
            · exact fun _ => .inl (by rw [hfollows.length_of_challenge hlast]; decide)
            · intro hw
              simpa [LoginPeer.Welcomed, welcome_ne.2.1] using hw
          · rw [clientHandler_welcome, Option.some.injEq] at hreply
            subst hreply
            refine h.setPeer hp ht rfl rfl rfl rfl ?_ (fun _ _ _ hm => hm) ?_
            · intro ha
              rcases ha with hshort | hin | hhand
              · simp only [List.length_append, List.length_singleton] at hshort
                exact .inl (by omega)
              · simp [hserver, login_ne.2] at hin
              · exact .inr (.inr hhand)
            · intro hw
              simpa [LoginPeer.Welcomed, welcome_ne.2.2.1] using hw

theorem IdsGranted.allocate (h : s.IdsGranted) (hp : s.peers[i]? = some p) {message : ControlMessage} {targetPlayer : Player}
    (hm : p.handling = some (message, .withPlayer targetPlayer)) (hfollows : Follows s.server i c p)
    {newPlayerId : BitVec 32} {playerIdAllocator : IDAllocator}
    (hallocate : s.playerIdAllocator.allocate = (newPlayerId, playerIdAllocator))
    (hplayers : t.players = s.players) (hallocator : t.playerIdAllocator = playerIdAllocator)
    (hpeers : t.peers = s.peers.set i { p with handling := some (message, .withId targetPlayer newPlayerId) })
    (hgranted : t.granted = s.granted ++ [i]) (ht : t.InTurn) : t.IdsGranted := by
  have hlt := (List.getElem?_eq_some_iff.mp hp).1
  obtain ⟨-, hlogin, -⟩ := hfollows.handling message _ hm
  have hthree : p.said.length = 3 := hfollows.length_of_login (hlogin ▸ (hfollows.inHand hm).2.2)
  have hahead : p.Ahead := .inr (.inr ⟨message, _, hm, rfl⟩)
  have hnot : ¬ LoginPeer.Ahead { p with handling := some (message, .withId targetPlayer newPlayerId) } := by
    simp [LoginPeer.Ahead, hthree, (hfollows.inHand hm).1, HandlerStage.beforeId]
  have hfresh : i ∉ s.granted := by
    intro hin
    obtain ⟨q, hq, hbehind⟩ := h.behind i hin
    obtain rfl : p = q := Option.some.inj (hp.symm.trans hq)
    exact hbehind hahead
  rw [h.allocator] at hallocate
  obtain ⟨hid, hnew⟩ := Prod.mk.inj hallocate
  constructor
  · exact ht
  · rw [hplayers, hpeers, List.length_set]
    exact h.players
  · rw [hallocator, ← hnew, hgranted, List.length_append, List.length_singleton]
    exact congrArg (fun n => IDAllocator.mk n []) (BitVec.ofNat_add (s.granted.length + 1) 1).symm
  · rw [hgranted, List.nodup_append]
    refine ⟨h.nodup, List.nodup_singleton i, ?_⟩
    intro j hj k hk heq
    exact hfresh (List.mem_singleton.mp hk ▸ heq ▸ hj)
  · rw [hgranted, hpeers]
    intro j hj
    by_cases hij : i = j
    · subst hij
      exact ⟨_, List.getElem?_set_self hlt, hnot⟩
    · rcases List.mem_append.mp hj with hj | hj
      · obtain ⟨q, hq, hbehind⟩ := h.behind j hj
        exact ⟨q, (List.getElem?_set_ne hij).trans hq, hbehind⟩
      · exact absurd (List.mem_singleton.mp hj).symm hij
  · rw [hgranted, hpeers]
    intro j q m player id hq hhand
    rcases GameServer.getElem?_set_cases hq with ⟨rfl, rfl⟩ | ⟨-, hq⟩
    · simp only [Option.some.injEq, Prod.mk.injEq, HandlerStage.withId.injEq] at hhand
      exact ⟨s.granted.length, List.getElem?_concat_length, by rw [← hhand.2.2, ← hid]⟩
    · obtain ⟨k, hk, heq⟩ := h.inHand j q m player id hq hhand
      exact ⟨k, (List.getElem?_append_left (List.getElem?_eq_some_iff.mp hk).1).trans hk, heq⟩
  · rw [hgranted, hplayers]
    intro j q hq hv
    obtain ⟨k, hk, heq⟩ := h.verified j q hq hv
    exact ⟨k, (List.getElem?_append_left (List.getElem?_eq_some_iff.mp hk).1).trans hk, heq⟩
  · rw [hpeers, hplayers]
    intro j q r hq hr hw
    rcases GameServer.getElem?_set_cases hq with ⟨rfl, rfl⟩ | ⟨-, hq⟩
    · refine h.welcomed j p r hp hr (.inl ?_)
      simpa [LoginPeer.Welcomed] using hw
    · exact h.welcomed j q r hq hr hw

theorem IdsGranted.verify (h : s.IdsGranted) (hp : s.peers[i]? = some p) {message : ControlMessage} {targetPlayer : Player}
    {newPlayerId : BitVec 32} (hm : p.handling = some (message, .withId targetPlayer newPlayerId))
    (hfollows : Follows s.server i c p)
    (hplayers : t.players = s.players.set targetPlayer.place ⟨.Verified, newPlayerId.toInt⟩)
    (hallocator : t.playerIdAllocator = s.playerIdAllocator)
    (hpeers : t.peers = s.peers.set i { p with handling := some (message, .answering Login.welcome) })
    (hgranted : t.granted = s.granted) (ht : t.InTurn) : t.IdsGranted := by
  have hlt := (List.getElem?_eq_some_iff.mp hp).1
  obtain ⟨-, hlogin, hplayer⟩ := hfollows.handling message _ hm
  have hthree : p.said.length = 3 := hfollows.length_of_login (hlogin ▸ (hfollows.inHand hm).2.2)
  have hplace : targetPlayer.place = i := by rw [hplayer]
  rw [hplace] at hplayers
  have hnot : ¬ LoginPeer.Ahead { p with handling := some (message, .answering Login.welcome) } := by
    simp [LoginPeer.Ahead, hthree, (hfollows.inHand hm).1, HandlerStage.beforeId]
  constructor
  · exact ht
  · rw [hplayers, hpeers, List.length_set, List.length_set]
    exact h.players
  · rw [hallocator, hgranted]
    exact h.allocator
  · exact hgranted ▸ h.nodup
  · rw [hgranted, hpeers]
    intro j hj
    by_cases hij : i = j
    · subst hij
      exact ⟨_, List.getElem?_set_self hlt, hnot⟩
    · obtain ⟨q, hq, hbehind⟩ := h.behind j hj
      exact ⟨q, (List.getElem?_set_ne hij).trans hq, hbehind⟩
  · rw [hgranted, hpeers]
    intro j q m player id hq hhand
    rcases GameServer.getElem?_set_cases hq with ⟨rfl, rfl⟩ | ⟨-, hq⟩
    · simp at hhand
    · exact h.inHand j q m player id hq hhand
  · rw [hgranted, hplayers]
    intro j q hq hv
    rcases GameServer.getElem?_set_cases hq with ⟨rfl, rfl⟩ | ⟨-, hq⟩
    · obtain ⟨k, hk, heq⟩ := h.inHand j p message targetPlayer newPlayerId hp hm
      exact ⟨k, hk, by rw [heq]⟩
    · exact h.verified j q hq hv
  · rw [hpeers, hplayers]
    intro j q r hq hr hw
    rcases GameServer.getElem?_set_cases hr with ⟨rfl, rfl⟩ | ⟨hji, hr⟩
    · rfl
    · rcases GameServer.getElem?_set_cases hq with ⟨rfl, -⟩ | ⟨-, hq⟩
      · exact absurd rfl hji
      · exact h.welcomed j q r hq hr hw

theorem IdsGranted.handle (h : s.IdsGranted) (i : ℕ) : (s.handle i).IdsGranted := by
  have ht := h.inTurn.handle i
  revert ht
  unfold LoginRun.handle
  split
  case h_2 => exact fun _ => h
  case h_1 p c hp hc =>
    have hfollows := h.inTurn.follows i p c hp hc
    split
    case h_1 => exact fun _ => h
    case h_2 message stage hm =>
      -- while the handler is before the id, so is the peer
      have hbefore : stage.beforeId → p.Ahead := fun hstage => .inr (.inr ⟨message, stage, hm, hstage⟩)
      cases stage with
      | verifying =>
        simp only
        split
        · exact fun _ => h
        · intro ht
          refine h.setPeer hp ht rfl rfl rfl rfl (fun _ => hbefore rfl) ?_ ?_
          · cases s.server.roomManager.findRoomWithConnection c.id <;> simp
          · intro hw
            refine .inl (hw.resolve_right ?_)
            cases s.server.roomManager.findRoomWithConnection c.id <;> simp [welcome_ne.2.2.2.2.symm]
      | inRoom targetRoom =>
        intro ht
        refine h.setPeer hp ht rfl rfl rfl rfl (fun _ => hbefore rfl) ?_ ?_
        · cases (s.server.roomManager.room targetRoom).getPlayer c.id <;> simp
        · intro hw
          refine .inl (hw.resolve_right ?_)
          cases (s.server.roomManager.room targetRoom).getPlayer c.id <;> simp [welcome_ne.2.2.2.2.symm]
      | withPlayer targetPlayer => exact fun ht => h.allocate hp hm hfollows rfl rfl rfl rfl rfl ht
      | withId targetPlayer newPlayerId => exact fun ht => h.verify hp hm hfollows rfl rfl rfl rfl ht
      | answering newMessage =>
        simp only
        split
        · intro ht
          refine h.setPeer hp ht rfl rfl rfl rfl ?_ (by simp) ?_
          · intro ha
            rcases ha with hshort | hin | ⟨m, st, hhand, -⟩
            · simp only [List.length_append, List.length_singleton] at hshort
              exact .inl (by omega)
            · exact .inr (.inl hin)
            · cases hhand
          · intro hw
            rcases hw with hsaid | ⟨m, hhand⟩
            · rcases List.mem_append.mp hsaid with hsaid | hnew
              · exact .inl hsaid
              · exact .inr ⟨message, by rw [hm, List.mem_singleton.mp hnew]⟩
            · cases hhand
        · intro ht
          refine h.setPeer hp ht rfl rfl rfl rfl ?_ (by simp) ?_
          · intro ha
            exact ha.imp_right fun ha => .inl (ha.resolve_right (by simp))
          · exact fun hw => .inl (hw.resolve_right (by simp))

theorem IdsGranted.addClient (h : s.IdsGranted) (hpeers : t.peers = s.peers ++ [.new])
    (hplayers : t.players = s.players ++ [⟨.NotAuthenticated, 0⟩]) (hallocator : t.playerIdAllocator = s.playerIdAllocator)
    (hgranted : t.granted = s.granted) (ht : t.InTurn) : t.IdsGranted := by
  constructor
  · exact ht
  · rw [hpeers, hplayers, List.length_append, List.length_append, h.players]
    rfl
  · rw [hallocator, hgranted]
    exact h.allocator
  · exact hgranted ▸ h.nodup
  · rw [hgranted, hpeers]
    intro j hj
    obtain ⟨q, hq, hbehind⟩ := h.behind j hj
    exact ⟨q, (List.getElem?_append_left (List.getElem?_eq_some_iff.mp hq).1).trans hq, hbehind⟩
  · rw [hgranted, hpeers]
    intro j q m player id hq hhand
    rcases getElem?_concat_eq_some.mp hq with hq | ⟨-, rfl⟩
    · exact h.inHand j q m player id hq hhand
    · simp [LoginPeer.new] at hhand
  · rw [hgranted, hplayers]
    intro j q hq hv
    rcases getElem?_concat_eq_some.mp hq with hq | ⟨-, rfl⟩
    · exact h.verified j q hq hv
    · cases hv
  · rw [hpeers, hplayers]
    intro j q r hq hr hw
    rcases getElem?_concat_eq_some.mp hq with hq | ⟨-, rfl⟩
    · rcases getElem?_concat_eq_some.mp hr with hr | ⟨rfl, -⟩
      · exact h.welcomed j q r hq hr hw
      · rw [h.players, List.getElem?_eq_none (Nat.le_refl _)] at hq
        cases hq
    · simp [LoginPeer.Welcomed, LoginPeer.new] at hw

theorem IdsGranted.next (h : s.IdsGranted) (a : LoginAction Double Addr) (ha : s.IdsLast a) : (s.next a).IdsGranted := by
  have ht := h.inTurn.next a ha
  cases a with
  | server a =>
    by_cases hadd : ∃ key q, a = .addClient key q
    · obtain ⟨key, q, rfl⟩ := hadd
      exact h.addClient rfl rfl rfl rfl ht
    · push Not at hadd
      rw [next_server hadd] at ht ⊢
      exact ⟨ht, h.players, h.allocator, h.nodup, h.behind, h.inHand, h.verified, h.welcomed⟩
  | beginNMTHello i => exact h.beginNMTHello i
  | receive i => exact h.receive i
  | handle i => exact h.handle i
  | answer i => exact h.answer i
  | unregister i =>
    revert ht
    show (s.unregister i).InTurn → (s.unregister i).IdsGranted
    unfold LoginRun.unregister
    split
    · exact fun _ => h
    case h_2 p hp => exact fun ht => h.setPeer hp ht rfl rfl rfl rfl (fun ha => ha) (fun _ _ _ hm => hm) fun hw => hw

theorem idsGranted_start (maxChannelsSize : ℕ) (override : Option ℤ) :
    (start maxChannelsSize override : LoginRun Addr).IdsGranted := by
  refine ⟨inTurn_start _ _, rfl, rfl, List.nodup_nil, ?_, ?_, ?_, ?_⟩
  all_goals simp [start]

theorem IdsGranted.of_reach (h : (loginSystem Double Addr).Reach IdsLast s) : s.IdsGranted := by
  apply h.invariant
  · intro s hs
    obtain ⟨maxChannelsSize, override, rfl⟩ := hs
    exact idsGranted_start maxChannelsSize override
  · intro s a hI ha
    exact hI.next a ha

/-! ## What the ids say -/

theorem IdsGranted.few (h : s.IdsGranted) {k : ℕ} (hk : s.granted[k]? = some i) : k + 1 < 2 ^ 32 := by
  have hsub : s.granted ⊆ List.range s.peers.length := by
    intro j hj
    obtain ⟨p, hp, -⟩ := h.behind j hj
    exact List.mem_range.mpr (List.getElem?_eq_some_iff.mp hp).1
  have hle := (h.nodup.subperm hsub).length_le
  rw [List.length_range, h.inTurn.length] at hle
  have hlt := (List.getElem?_eq_some_iff.mp hk).1
  have hfew := h.inTurn.kept.numbered.few
  omega

theorem toInt_ofNat_inj {k l : ℕ} (hk : k < 2 ^ 32) (hl : l < 2 ^ 32)
    (heq : (BitVec.ofNat 32 k).toInt = (BitVec.ofNat 32 l).toInt) : k = l := by
  have hnat := congrArg BitVec.toNat (BitVec.toInt_inj.mp heq)
  rwa [BitVec.toNat_ofNat, BitVec.toNat_ofNat, Nat.mod_eq_of_lt hk, Nat.mod_eq_of_lt hl] at hnat

theorem IdsGranted.player_next (h : s.IdsGranted) {q : PlayerLogin} (hq : s.players[i]? = some q)
    (hv : q.authState = .Verified) (a : LoginAction Double Addr) : (s.next a).players[i]? = some q := by
  cases a with
  | server a =>
    unfold LoginRun.next
    split
    · exact (List.getElem?_append_left (List.getElem?_eq_some_iff.mp hq).1).trans hq
    · exact hq
    all_goals simp_all
  | beginNMTHello j =>
    show (s.beginNMTHello j).players[i]? = _
    unfold LoginRun.beginNMTHello
    repeat' split
    all_goals exact hq
  | receive j =>
    show (s.receive j).players[i]? = _
    unfold LoginRun.receive
    repeat' split
    all_goals exact hq
  | answer j =>
    show (s.answer j).players[i]? = _
    unfold LoginRun.answer
    repeat' split
    all_goals exact hq
  | unregister j =>
    show (s.unregister j).players[i]? = _
    unfold LoginRun.unregister
    split
    all_goals exact hq
  | handle j =>
    show (s.handle j).players[i]? = _
    unfold LoginRun.handle
    split
    case h_2 => exact hq
    case h_1 p c hp hc =>
      split
      case h_1 => exact hq
      case h_2 message stage hm =>
        cases stage with
        | withId targetPlayer newPlayerId =>
          have hplace : targetPlayer.place = j := by
            rw [((h.inTurn.follows j p c hp hc).handling message _ hm).2.2]
          show (s.players.set targetPlayer.place ⟨.Verified, newPlayerId.toInt⟩)[i]? = _
          rw [hplace]
          by_cases hji : j = i
          · subst hji
            obtain ⟨k, hk, hid⟩ := h.inHand j p message targetPlayer newPlayerId hp hm
            obtain ⟨l, hl, hplayerId⟩ := h.verified j q hq hv
            obtain rfl : k = l := (List.getElem?_inj (List.getElem?_eq_some_iff.mp hk).1 h.nodup).mp (hk.trans hl.symm)
            rw [List.getElem?_set_self (List.getElem?_eq_some_iff.mp hq).1, hid, ← hplayerId, ← hv]
          · rw [List.getElem?_set_ne hji]
            exact hq
        | verifying =>
          simp only
          split <;> exact hq
        | answering newMessage =>
          simp only
          split <;> exact hq
        | _ => exact hq

/-- In every run the ids of the verified players differ, whoever has been sent the welcome is verified, and a player that
is verified stays so and keeps its id. -/
theorem player_ids_apart (h : (loginSystem Double Addr).Reach IdsLast s) :
    (∀ (i j : ℕ) q r, s.players[i]? = some q → s.players[j]? = some r → q.authState = .Verified → r.authState = .Verified →
      q.playerId = r.playerId → i = j) ∧
    (∀ (i : ℕ) p q, s.peers[i]? = some p → s.players[i]? = some q → Login.welcome ∈ p.said → q.authState = .Verified) ∧
    ∀ (i : ℕ) q, s.players[i]? = some q → q.authState = .Verified →
      ∀ t, (loginSystem Double Addr).ReachFrom IdsLast s t → t.players[i]? = some q := by
  have hids := IdsGranted.of_reach h
  refine ⟨?_, ?_, ?_⟩
  · intro i j q r hq hr hqv hrv heq
    obtain ⟨k, hk, hkid⟩ := hids.verified i q hq hqv
    obtain ⟨l, hl, hlid⟩ := hids.verified j r hr hrv
    rw [hkid, hlid] at heq
    have hkl := toInt_ofNat_inj (hids.few hk) (hids.few hl) heq
    obtain rfl : k = l := Nat.succ.inj hkl
    exact Option.some.inj (hk.symm.trans hl)
  · exact fun i p q hp hq hw => hids.welcomed i p q hp hq (.inl hw)
  · intro i q hq hv t ht
    have hstays : t.IdsGranted ∧ t.players[i]? = some q := by
      apply ht.invariant (I := fun t => t.IdsGranted ∧ t.players[i]? = some q)
      · intro u hu
        obtain rfl : u = s := hu
        exact ⟨hids, hq⟩
      · intro u a hI ha
        exact ⟨hI.1.next a ha, hI.1.player_next hI.2 hv a⟩
    exact hstays.2

theorem player_ids_apart_oneJoined :
    ((loginSystem ℤ (BitVec 64)).runFrom oneJoined [.unregister 0, .handle 1]).players[0]? = some ⟨.Verified, 1⟩ := by
  have hhere : (loginSystem ℤ (BitVec 64)).ReachFrom IdsLast oneJoined oneJoined := .init rfl
  have hlater := hhere.of_checked [.unregister 0, .handle 1] (by decide +kernel)
  exact (player_ids_apart oneJoined_reach).2.2 0 ⟨.Verified, 1⟩ (by decide +kernel) rfl _ hlater

end LoginRun

end RudpEngine
