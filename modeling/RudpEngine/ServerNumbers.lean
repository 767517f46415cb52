import RudpEngine.ServerStatuses

/-!
# The numbers of the self-test

The numbers that `NetworkStatusCheck` hands to a connection follow on each
other, though those it has used up before the connection was in the tables are
missing.
-/

namespace RudpEngine

namespace GameServer

variable {Double Addr : Type} {s t : GameServer Addr} {i : ℕ} {c : Client Addr}

def countedFrom (first : ℤ) (n : ℕ) : List ℤ := (List.range n).map fun k => first + k

theorem countedFrom_succ (first : ℤ) (n : ℕ) : countedFrom first (n + 1) = countedFrom first n ++ [first + n] := by
  simp [countedFrom, List.range_succ]

def sentTo (s : GameServer Addr) (r : ℕ) : List ℤ := (s.sent.filter fun e => e.1 = r).map Prod.snd

/-- The numbers of each connection follow on each other, and the next one is that of its entry. -/
structure InSequence (s : GameServer Addr) : Prop where
  made : ∀ r n, (r, n) ∈ s.sent → r < s.driver.connections.length
  follow : ∀ r, ∃ first n, s.sentTo r = countedFrom first n
  awaited : ∀ id r, s.driver.connectionMap id = some r → ∃ first n, s.sentTo r = countedFrom first n ∧
    s.connectionReliableMap id = some (first + n)

theorem InSequence.of_same (h : s.InSequence) (hsent : t.sent = s.sent)
    (hlength : s.driver.connections.length ≤ t.driver.connections.length)
    (hnext : ∀ id r, t.driver.connectionMap id = some r → s.driver.connectionMap id = some r ∧
      t.connectionReliableMap id = s.connectionReliableMap id) : t.InSequence := by
  have hto : ∀ r, t.sentTo r = s.sentTo r := by
    intro r
    unfold sentTo
    rw [hsent]
  constructor
  · intro r n hn
    rw [hsent] at hn
    exact Nat.lt_of_lt_of_le (h.made r n hn) hlength
  · intro r
    rw [hto]
    exact h.follow r
  · intro id r hr
    obtain ⟨hold, hnumber⟩ := hnext id r hr
    rw [hto, hnumber]
    exact h.awaited id r hold

theorem InSequence.checkEntry (h : s.InSequence) (hk : s.Kept) (i : ℕ) : (s.checkEntry i).InSequence := by
  unfold GameServer.checkEntry
  split
  case h_2 => exact h
  case h_1 ids c _ _ =>
    cases hnumber : s.connectionReliableMap c.id with
    | none => exact h
    | some number =>
      simp only
      split
      case isTrue => exact h
      case isFalse =>
        cases hmap : s.driver.connectionMap c.id with
        | none =>
          refine h.of_same (by simp) le_rfl ?_
          intro id r hr
          refine ⟨hr, UnorderedMap.set_of_ne ?_⟩
          rintro rfl
          exact absurd (hmap.symm.trans hr) (by simp)
        | some r =>
          have hlt := IpNetDriver.lt_of_id? (hk.tables.identified c.id r hmap)
          obtain ⟨first, n, hfirst, hn⟩ := h.awaited c.id r hmap
          obtain rfl : number = first + n := Option.some.inj (hnumber.symm.trans hn)
          generalize ht : ({ s with
            connectionReliableMap := s.connectionReliableMap.set c.id (first + n + 1)
            checked := some (c.id :: ids)
            sent := s.sent ++ ((some r).map fun connection => (connection, first + (n : ℤ))).toList } : GameServer Addr) = t
          have hself : t.sentTo r = countedFrom first (n + 1) := by
            rw [← ht, countedFrom_succ, ← hfirst]
            simp [sentTo]
          have hother : ∀ r', r' ≠ r → t.sentTo r' = s.sentTo r' := by
            intro r' hr'
            rw [← ht]
            simp [sentTo, hr'.symm]
          constructor
          · intro r' m hm
            rw [← ht] at hm ⊢
            rcases List.mem_append.mp hm with hm | hm
            · exact h.made r' m hm
            · obtain ⟨rfl, -⟩ : r' = r ∧ m = first + n := by simpa using hm
              exact hlt
          · intro r'
            by_cases hr' : r' = r
            · exact ⟨first, n + 1, hr' ▸ hself⟩
            · rw [hother r' hr']
              exact h.follow r'
          · intro id r' hr'
            have hold : s.driver.connectionMap id = some r' := by rw [← ht] at hr'; exact hr'
            have hreliable : t.connectionReliableMap = s.connectionReliableMap.set c.id (first + n + 1) := by rw [← ht]
            by_cases hid : id = c.id
            · subst hid
              obtain rfl : r' = r := Option.some.inj (hold.symm.trans hmap)
              refine ⟨first, n + 1, hself, ?_⟩
              rw [hreliable, UnorderedMap.set_self]
              push_cast
              rw [Int.add_assoc]
            · -- another id has another connection
              have hne : r' ≠ r := by
                rintro rfl
                have hsame := (hk.tables.identified id r' hold).symm.trans (hk.tables.identified c.id r' hmap)
                exact hid (Option.some.inj hsame)
              rw [hother r' hne, hreliable, UnorderedMap.set_of_ne hid]
              exact h.awaited id r' hold

theorem InSequence.publish (h : s.InSequence) (hk : s.Kept) (hi : s.clients[i]? = some c) (hstage : c.stage = .joined) :
    ({ s with driver := s.driver.publish c.key c.connection }.setClient i
      { c with stage := .published s.driver.connections.length }).InSequence := by
  have hmem := List.mem_of_getElem? hi
  have hnone : s.driver.connectionMap c.connection.uniqueConnectionId = none := by
    rw [Option.eq_none_iff_forall_ne_some]
    intro r hr
    have hin := (hk.listed.connections.holds_iff hk.numbered.nodup hmem r).mp hr
    rw [hstage] at hin
    cases hin
  have hnumber : (s.connectionReliableMap c.id).isSome :=
    (hk.listed.numbers.holds_iff hk.numbered.nodup hmem ()).mpr (by rw [hstage]; rfl)
  obtain ⟨number, hnumber⟩ := Option.isSome_iff_exists.mp hnumber
  have hlength : (s.driver.publish c.key c.connection).connections.length = s.driver.connections.length + 1 :=
    List.length_append
  constructor
  · intro r n hn
    show r < (s.driver.publish c.key c.connection).connections.length
    rw [hlength]
    exact Nat.lt_succ_of_lt (h.made r n hn)
  · exact h.follow
  · intro id r hr
    have hr : (s.driver.publish c.key c.connection).connectionMap id = some r := hr
    rw [IpNetDriver.connectionMap_publish _ hnone] at hr
    rcases UnorderedMap.set_eq_some.mp hr with ⟨rfl, rfl⟩ | ⟨-, hr⟩
    · -- a connection that was not there has got no number
      have hnil : s.sentTo s.driver.connections.length = [] := by
        unfold sentTo
        rw [List.map_eq_nil_iff, List.filter_eq_nil_iff]
        intro e he heq
        exact Nat.ne_of_lt (h.made e.1 e.2 he) (of_decide_eq_true heq)
      refine ⟨number, 0, hnil, ?_⟩
      rw [Int.natCast_zero, Int.add_zero]
      exact hnumber
    · exact h.awaited id r hr

theorem InSequence.other (h : s.InSequence) (hk : s.Kept) (hi : s.clients[i]? = some c) (hout : c.stage.connection? = none)
    (hsent : t.sent = s.sent) (hdriver : t.driver = s.driver)
    (hnumber : ∀ id, id ≠ c.id → t.connectionReliableMap id = s.connectionReliableMap id) : t.InSequence := by
  apply h.of_same hsent (by rw [hdriver])
  intro id r hr
  rw [hdriver] at hr
  refine ⟨hr, hnumber id ?_⟩
  rintro rfl
  have hin := (hk.listed.connections.holds_iff hk.numbered.nodup (List.mem_of_getElem? hi) r).mp hr
  rw [hout] at hin
  cases hin

theorem InSequence.advance (h : s.InSequence) (hk : s.Kept) (i : ℕ) : (s.advance i).InSequence := by
  unfold GameServer.advance
  cases hi : s.clients[i]? with
  | none => exact h
  | some c =>
    have hsame : ∀ (u : GameServer Addr), u.sent = s.sent → u.driver = s.driver →
        u.connectionReliableMap = s.connectionReliableMap → u.InSequence := by
      intro u hsent hdriver hnumber
      refine h.of_same hsent (by rw [hdriver]) fun id r hr => ?_
      exact ⟨hdriver ▸ hr, by rw [hnumber]⟩
    cases hstage : c.stage with
    | allocated =>
      obtain ⟨statuses, map, heq, -⟩ := s.statusOf_spec c.id
      simp only [hstage]
      rw [heq]
      exact hsame _ rfl rfl rfl
    | statusEntered =>
      simp only [hstage]
      split
      · exact h
      · exact h.other hk hi (by rw [hstage]; rfl) rfl rfl fun id hid => UnorderedMap.insert_of_ne hid
    | numberEntered =>
      simp only [hstage]
      split
      · exact h
      · exact hsame _ rfl rfl rfl
    | seeking rooms =>
      obtain ⟨manager, stage, heq, -⟩ := s.seek_cases i c rooms
      simp only [hstage]
      rw [heq]
      exact hsame _ rfl rfl rfl
    | joined => simpa only [hstage] using h.publish hk hi hstage
    | published r => simpa only [hstage] using h
    | closed r =>
      simp only [hstage]
      have hin : s.driver.connectionMap c.id = some r :=
        (hk.listed.connections.holds_iff hk.numbered.nodup (List.mem_of_getElem? hi) r).mpr (by rw [hstage]; rfl)
      have heq := IpNetDriver.removeConnection_eq (hk.tables.identified c.id r hin)
      refine h.of_same rfl ?_ ?_
      · rw [heq]
        exact le_rfl
      · intro id r' hr'
        have hr' : (s.driver.removeConnection r).connectionMap id = some r' := hr'
        rw [heq] at hr'
        exact ⟨(UnorderedMap.erase_eq_some.mp hr').2, rfl⟩
    | withdrawn =>
      simp only [hstage]
      exact hsame _ rfl rfl rfl
    | statusErased =>
      simp only [hstage]
      split
      · exact h
      · exact h.other hk hi (by rw [hstage]; rfl) rfl rfl fun id hid => UnorderedMap.erase_of_ne hid
    | numberErased =>
      simp only [hstage]
      split
      · exact h
      · exact hsame _ rfl rfl rfl
    | leaving room =>
      cases room with
      | some p =>
        simp only [hstage]
        exact hsame _ rfl rfl rfl
      | none =>
        simp only [hstage]
        exact hsame _ rfl rfl rfl
    | gone => simpa only [hstage] using h

theorem InSequence.next (h : s.InSequence) (hk : s.Kept) (a : ServerAction Double Addr) : (s.next a).InSequence := by
  cases a with
  | addClient key p => exact h.of_same rfl le_rfl fun id r hr => ⟨hr, rfl⟩
  | advance i => exact h.advance hk i
  | close i =>
    show (s.close i).InSequence
    unfold GameServer.close
    split
    · refine h.of_same rfl ?_ fun id r hr => ⟨hr, rfl⟩
      show _ ≤ (s.driver.connections.modify _ _).length
      rw [List.length_modify]
    · exact h
  | lookUpStatus i m =>
    show (s.lookUpStatus i m).InSequence
    unfold GameServer.lookUpStatus
    split
    · exact h
    · rename_i c _
      obtain ⟨statuses, map, heq, -⟩ := s.statusOf_spec c.id
      split
      · simp only
        rw [heq]
        exact h.of_same rfl le_rfl fun id r hr => ⟨hr, rfl⟩
      · exact h
  | countMessage handler =>
    show (s.countMessage handler).InSequence
    unfold GameServer.countMessage
    split
    · exact h
    · exact h.of_same rfl le_rfl fun id r hr => ⟨hr, rfl⟩
  | beginStatusCheck =>
    show s.beginStatusCheck.InSequence
    unfold GameServer.beginStatusCheck
    split
    · exact h
    · exact h.of_same rfl le_rfl fun id r hr => ⟨hr, rfl⟩
  | checkEntry i => exact h.checkEntry hk i
  | endStatusCheck =>
    show s.endStatusCheck.InSequence
    unfold GameServer.endStatusCheck
    repeat' split
    all_goals first | exact h | exact h.of_same rfl le_rfl fun id r hr => ⟨hr, rfl⟩

/-- In every run the numbers that a connection gets follow on each other, and while it is in the tables the next check
hands it the number behind the last. -/
theorem self_test_numbers_follow (h : (gameServer Double Addr).Reach IdsLast s) :
    (∀ r, ∃ first n, s.sentTo r = countedFrom first n) ∧
    ∀ id r, s.driver.connectionMap id = some r → ∃ first n, s.sentTo r = countedFrom first n ∧
      s.connectionReliableMap id = some (first + n) := by
  have hseq : s.Kept ∧ s.InSequence := by
    apply h.invariant (I := fun s => s.Kept ∧ s.InSequence)
    · intro s hs
      obtain ⟨maxChannelsSize, override, rfl⟩ := hs
      refine ⟨kept_start maxChannelsSize override, ?_, fun r => ⟨0, 0, rfl⟩, ?_⟩
      · intro r n hn
        cases hn
      · intro id r hr
        cases hr
    · intro s a hI ha
      exact ⟨hI.1.next a ha, hI.2.next hI.1 a⟩
  exact ⟨hseq.2.follow, hseq.2.awaited⟩

def checkedEarly : GameServer (BitVec 64) :=
  (gameServer ℤ (BitVec 64)).runFrom (start 2 none)
    [.addClient 5 pendingClient, .advance 0, .advance 0, .beginStatusCheck, .checkEntry 0, .endStatusCheck, .advance 0,
      .advance 0, .advance 0, .beginStatusCheck, .checkEntry 0, .endStatusCheck]

theorem self_test_numbers_follow_checkedEarly : checkedEarly.sentTo 0 = [1] ∧ ∃ first n,
    checkedEarly.sentTo 0 = countedFrom first n ∧ checkedEarly.connectionReliableMap 1 = some (first + n) := by
  have hstart : (gameServer ℤ (BitVec 64)).Reach IdsLast (start 2 none) := .init ⟨2, none, rfl⟩
  have hreach : (gameServer ℤ (BitVec 64)).Reach IdsLast checkedEarly := hstart.of_checked _ (by decide +kernel)
  exact ⟨by decide +kernel, (self_test_numbers_follow hreach).2 1 0 (by decide +kernel)⟩

end GameServer

end RudpEngine
