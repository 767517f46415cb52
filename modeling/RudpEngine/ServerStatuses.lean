import RudpEngine.ServerRegisters

/-!
# The statuses of the self-test

The handlers count each message in the entry of its client as long as the
client is not removed; the pointer of a handler that is overtaken by the
removal dangles. An entry that a handler makes behind the removal stays.
-/

namespace RudpEngine

namespace GameServer

variable {Double Addr : Type} {s t : GameServer Addr} {i : ℕ} {c c' : Client Addr}

/-! ## Entries and handlers -/

/-- Entries and the pointers to them; the entry of a client that is not erased has counted what was heard of it. -/
structure Pointed (s : GameServer Addr) : Prop where
  entry : ∀ id p, s.connectionRUDPMap id = some p → p < s.statuses.length ∧ ∀ k, s.connectionRUDPMap k = some p → k = id
  handler : ∀ id p m, (id, p, m) ∈ s.handling → p < s.statuses.length ∧ ∀ k, s.connectionRUDPMap k = some p → k = id
  known : ∀ id p m, (id, p, m) ∈ s.handling → ∃ c ∈ s.clients, c.id = id ∧ c.stage.isKnown ∧
    (c.stage.isErased = false → s.connectionRUDPMap id = some p)
  heard : ∀ id m, (id, m) ∈ s.heard → ∃ c ∈ s.clients, c.id = id ∧ c.stage.isKnown
  counts : ∀ c ∈ s.clients, c.stage.isErased = false → ∀ p, s.connectionRUDPMap c.id = some p →
    s.statuses[p]? = some (.counted (numbersOf c.id s.heard))

theorem Pointed.keep (h : s.Pointed) (hn : Numbered s.clients) (hi : s.clients[i]? = some c)
    (hclients : t.clients = s.clients.set i c') (hid : c'.id = c.id) (hknown : c.stage.isKnown → c'.stage.isKnown)
    (herased : c.stage.isErased → c'.stage.isErased) (hmap : t.connectionRUDPMap = s.connectionRUDPMap)
    (hstatuses : t.statuses = s.statuses) (hhandling : t.handling = s.handling) (hheard : t.heard = s.heard) : t.Pointed := by
  have hlt := (List.getElem?_eq_some_iff.mp hi).1
  -- what a client says holds of it behind the step
  have hfind : ∀ id, ∀ P : Client Addr → Prop, (P c → P c') → (∃ d ∈ s.clients, d.id = id ∧ P d) →
      ∃ d ∈ t.clients, d.id = id ∧ P d := by
    intro id P hP hex
    obtain ⟨d, hd, hdid, hPd⟩ := hex
    rw [hclients]
    by_cases hdc : d.id = c.id
    · have hsame : d = c := Registers.eq_of_key hn.nodup hd (List.mem_of_getElem? hi) hdc
      subst hsame
      exact ⟨c', List.mem_set hlt c', hid.trans hdid, hP hPd⟩
    · obtain ⟨j, hj⟩ := List.getElem?_of_mem hd
      have hij : i ≠ j := by
        rintro rfl
        exact hdc (congrArg Client.id (Option.some.inj (hj.symm.trans hi)))
      exact ⟨d, List.mem_of_getElem? ((List.getElem?_set_ne hij).trans hj), hdid, hPd⟩
  constructor
  · rw [hmap, hstatuses]
    exact h.entry
  · rw [hmap, hstatuses, hhandling]
    exact h.handler
  · intro id p m hm
    rw [hhandling] at hm
    rw [hmap]
    apply hfind id (fun d => d.stage.isKnown ∧ (d.stage.isErased = false → s.connectionRUDPMap id = some p)) _
      (h.known id p m hm)
    intro hc
    refine ⟨hknown hc.1, ?_⟩
    intro hnot
    apply hc.2
    rw [← Bool.not_eq_true]
    intro he
    rw [herased he] at hnot
    cases hnot
  · intro id m hm
    rw [hheard] at hm
    exact hfind id (fun d => d.stage.isKnown) hknown (h.heard id m hm)
  · intro d hd hnot p hp
    rw [hmap] at hp
    rw [hstatuses, hheard]
    rw [hclients] at hd
    rcases List.mem_or_eq_of_mem_set hd with hd | rfl
    · exact h.counts d hd hnot p hp
    · rw [hid] at hp ⊢
      apply h.counts c (List.mem_of_getElem? hi) _ p hp
      rw [← Bool.not_eq_true]
      intro he
      rw [herased he] at hnot
      cases hnot

theorem numbersOf_eq_nil {id : BitVec 32} {messages : List (BitVec 32 × BitVec 64)} (h : ∀ m, (id, m) ∉ messages) :
    numbersOf id messages = [] := by
  unfold numbersOf
  rw [List.map_eq_nil_iff, List.filter_eq_nil_iff]
  intro e he heq
  exact h e.2 (by rwa [← of_decide_eq_true heq])

theorem statusOf_of_none {id : BitVec 32} (h : s.connectionRUDPMap id = none) : s.statusOf id =
    (s.statuses.length, { s with
      statuses := s.statuses ++ [.new]
      connectionRUDPMap := s.connectionRUDPMap.set id s.statuses.length }) := by
  unfold statusOf
  rw [h]

theorem statusOf_of_some {id : BitVec 32} {p : ℕ} (h : s.connectionRUDPMap id = some p) : s.statusOf id = (p, s) := by
  unfold statusOf
  rw [h]

theorem Pointed.makeEntry (h : s.Pointed) {id : BitVec 32} (hnone : s.connectionRUDPMap id = none)
    (hfresh : ∀ c ∈ s.clients, c.id = id → c.stage.isErased = false → ∀ m, (id, m) ∉ s.heard) :
    (s.statusOf id).2.Pointed := by
  rw [statusOf_of_none hnone]
  have hold : ∀ {k p}, s.connectionRUDPMap k = some p → p ≠ s.statuses.length :=
    fun hk => Nat.ne_of_lt (h.entry _ _ hk).1
  constructor
  · intro k p hk
    simp only [List.length_append, List.length_singleton]
    rcases UnorderedMap.set_eq_some.mp hk with ⟨rfl, rfl⟩ | ⟨-, hk⟩
    · refine ⟨Nat.lt_succ_self _, ?_⟩
      intro k' hk'
      rcases UnorderedMap.set_eq_some.mp hk' with ⟨rfl, -⟩ | ⟨-, hk'⟩
      · rfl
      · exact absurd rfl (hold hk')
    · refine ⟨Nat.lt_succ_of_lt (h.entry k p hk).1, ?_⟩
      intro k' hk'
      rcases UnorderedMap.set_eq_some.mp hk' with ⟨-, rfl⟩ | ⟨-, hk'⟩
      · exact absurd rfl (hold hk)
      · exact (h.entry k p hk).2 k' hk'
  · intro k p m hm
    simp only [List.length_append, List.length_singleton]
    obtain ⟨hlt, hown⟩ := h.handler k p m hm
    refine ⟨Nat.lt_succ_of_lt hlt, ?_⟩
    intro k' hk'
    rcases UnorderedMap.set_eq_some.mp hk' with ⟨-, rfl⟩ | ⟨-, hk'⟩
    · exact absurd hlt (Nat.lt_irrefl _)
    · exact hown k' hk'
  · intro k p m hm
    obtain ⟨c, hc, hid, hknown, hlive⟩ := h.known k p m hm
    refine ⟨c, hc, hid, hknown, ?_⟩
    intro hnot
    have hk := hlive hnot
    refine UnorderedMap.set_eq_some.mpr (.inr ⟨?_, hk⟩)
    rintro rfl
    rw [hnone] at hk
    cases hk
  · exact h.heard
  · intro c hc hnot p hp
    rcases UnorderedMap.set_eq_some.mp hp with ⟨hid, rfl⟩ | ⟨-, hp⟩
    · rw [List.getElem?_concat_length, numbersOf_eq_nil (hid ▸ hfresh c hc hid hnot)]
      rfl
    · rw [List.getElem?_append_left (h.entry _ _ hp).1]
      exact h.counts c hc hnot p hp

theorem Pointed.addClient (h : s.Pointed) (hk : s.Kept) (hfew : s.clients.length + 1 < 2 ^ 32) (key : BitVec 64)
    (p : PendingRemoteConnection Double Addr) : (s.addClient key p).Pointed := by
  have hkept := hk.addClient hfew key p
  constructor
  · exact h.entry
  · exact h.handler
  · intro id q m hm
    obtain ⟨c, hc, hrest⟩ := h.known id q m hm
    exact ⟨c, List.mem_append_left _ hc, hrest⟩
  · intro id m hm
    obtain ⟨c, hc, hrest⟩ := h.heard id m hm
    exact ⟨c, List.mem_append_left _ hc, hrest⟩
  · intro c hc hnot q hq
    rcases List.mem_append.mp hc with hold | hnew
    · exact h.counts c hold hnot q hq
    · -- the new client is in no register yet
      have hin := (hkept.listed.statuses.holds_iff hkept.numbered.nodup hc ()).mp (Option.isSome_of_eq_some hq)
      rw [List.mem_singleton.mp hnew] at hin
      simp [ClientStage.hasStatus] at hin

theorem Pointed.lookUpStatus (h : s.Pointed) (hk : s.Kept) (i : ℕ) (m : BitVec 64) : (s.lookUpStatus i m).Pointed := by
  unfold GameServer.lookUpStatus
  cases hi : s.clients[i]? with
  | none => exact h
  | some c =>
    simp only
    split
    case isFalse => exact h
    case isTrue hknown =>
      have hmem := List.mem_of_getElem? hi
      -- the entry the handler finds or makes
      obtain ⟨hu, hclients, hhandling, hentry⟩ : (s.statusOf c.id).2.Pointed ∧ (s.statusOf c.id).2.clients = s.clients ∧
          (s.statusOf c.id).2.handling = s.handling ∧
          (s.statusOf c.id).2.connectionRUDPMap c.id = some (s.statusOf c.id).1 := by
        cases hid : s.connectionRUDPMap c.id with
        | some p =>
          rw [statusOf_of_some hid]
          exact ⟨h, rfl, rfl, hid⟩
        | none =>
          refine ⟨h.makeEntry hid ?_, ?_, ?_, ?_⟩
          · intro d hd hdid hnot
            have hsame : d = c := Registers.eq_of_key hk.numbered.nodup hd hmem hdid
            subst hsame
            have hin : ¬ (d.stage.hasStatus ∨ d.heardLate) := by
              rw [← hk.listed.statuses.holds_iff hk.numbered.nodup hmem (), hid]
              simp
            exfalso
            apply hin
            cases hstage : d.stage <;> rw [hstage] at hknown hnot <;>
              simp_all [ClientStage.isKnown, ClientStage.isErased, ClientStage.hasStatus]
          · rw [statusOf_of_none hid]
          · rw [statusOf_of_none hid]
          · rw [statusOf_of_none hid]
            exact UnorderedMap.set_self
      generalize s.statusOf c.id = found at hu hclients hhandling hentry ⊢
      obtain ⟨p, u⟩ := found
      simp only at hu hclients hhandling hentry ⊢
      have hlisted : Pointed { u with handling := u.handling ++ [(c.id, p, m)] } := by
        refine ⟨hu.entry, ?_, ?_, hu.heard, hu.counts⟩
        · intro id q m' hm'
          rcases List.mem_append.mp hm' with hm' | hm'
          · exact hu.handler id q m' hm'
          · obtain ⟨rfl, rfl, rfl⟩ : id = c.id ∧ q = p ∧ m' = m := by simpa using hm'
            exact hu.entry _ _ hentry
        · intro id q m' hm'
          rcases List.mem_append.mp hm' with hm' | hm'
          · exact hu.known id q m' hm'
          · obtain ⟨rfl, rfl, rfl⟩ : id = c.id ∧ q = p ∧ m' = m := by simpa using hm'
            exact ⟨c, hclients ▸ hmem, rfl, hknown, fun _ => hentry⟩
      exact hlisted.keep (c := c) (hclients ▸ hk.numbered) (hclients ▸ hi) rfl rfl (fun hc => hc) (fun hc => hc) rfl rfl rfl rfl

theorem Pointed.countMessage (h : s.Pointed) (hk : s.Kept) (j : ℕ) : (s.countMessage j).Pointed := by
  unfold GameServer.countMessage
  cases hj : s.handling[j]? with
  | none => exact h
  | some handler =>
    obtain ⟨id, p, m⟩ := handler
    have hmem := List.mem_of_getElem? hj
    obtain ⟨hlt, hown⟩ := h.handler id p m hmem
    obtain ⟨c, hc, hid, hknown, hlive⟩ := h.known id p m hmem
    constructor
    · simp only [List.length_modify]
      exact h.entry
    · intro k q m' hm'
      simp only [List.length_modify]
      exact h.handler k q m' (List.mem_of_mem_eraseIdx hm')
    · intro k q m' hm'
      exact h.known k q m' (List.mem_of_mem_eraseIdx hm')
    · intro k m' hm'
      rcases List.mem_append.mp hm' with hm' | hm'
      · exact h.heard k m' hm'
      · obtain ⟨rfl, rfl⟩ : k = id ∧ m' = m := by simpa using hm'
        exact ⟨c, hc, hid, hknown⟩
    · intro d hd hnot q hq
      have hcounts := h.counts d hd hnot q hq
      show (s.statuses.modify p _)[q]? = _
      rw [List.getElem?_modify, hcounts, numbersOf_concat]
      by_cases hpq : p = q
      · subst hpq
        have hdid : d.id = id := hown d.id hq
        rw [if_pos hdid.symm, RUdpStatus.counted_concat]
        simp
      · -- another entry is another id's
        have hne : id ≠ d.id := by
          rintro rfl
          have hsame : c = d := Registers.eq_of_key hk.numbered.nodup hc hd hid
          exact hpq (Option.some.inj ((hlive (hsame ▸ hnot)).symm.trans hq))
        rw [if_neg hne]
        simp [hpq]

theorem seek_cases (s : GameServer Addr) (i : ℕ) (c : Client Addr) (rooms : List ℕ) : ∃ manager stage,
    s.seek i c rooms = { s with roomManager := manager }.setClient i { c with stage := stage } ∧
      (stage = .joined ∨ ∃ rooms, stage = .seeking rooms) := by
  cases rooms with
  | nil => exact ⟨_, _, rfl, .inl rfl⟩
  | cons it rooms =>
    unfold GameServer.seek
    simp only
    split
    · refine ⟨_, _, rfl, ?_⟩
      split
      · exact .inl rfl
      · exact .inr ⟨rooms, rfl⟩
    · exact ⟨s.roomManager, _, rfl, .inr ⟨rooms, rfl⟩⟩

theorem Pointed.eraseStatus (h : s.Pointed) (hi : s.clients[i]? = some c) :
    ({ s with connectionRUDPMap := s.connectionRUDPMap.erase c.id }.setClient i
      { c with stage := .statusErased }).Pointed := by
  have hlt := (List.getElem?_eq_some_iff.mp hi).1
  have hold : ∀ {k p}, s.connectionRUDPMap.erase c.id k = some p → k ≠ c.id ∧ s.connectionRUDPMap k = some p :=
    fun hk => UnorderedMap.erase_eq_some.mp hk
  -- the clients other than this one stay as they are
  have hother : ∀ d ∈ s.clients, d.id ≠ c.id → d ∈ s.clients.set i { c with stage := .statusErased } := by
    intro d hd hdid
    obtain ⟨j, hj⟩ := List.getElem?_of_mem hd
    have hij : i ≠ j := by
      rintro rfl
      exact hdid (congrArg Client.id (Option.some.inj (hj.symm.trans hi)))
    exact List.mem_of_getElem? ((List.getElem?_set_ne hij).trans hj)
  constructor
  · intro k p hp
    obtain ⟨-, hp⟩ := hold hp
    exact ⟨(h.entry k p hp).1, fun k' hk' => (h.entry k p hp).2 k' (hold hk').2⟩
  · intro k p m hm
    exact ⟨(h.handler k p m hm).1, fun k' hk' => (h.handler k p m hm).2 k' (hold hk').2⟩
  · intro k p m hm
    obtain ⟨d, hd, hdid, hknown, hlive⟩ := h.known k p m hm
    by_cases hdc : d.id = c.id
    · exact ⟨_, List.mem_set hlt _, hdc.symm.trans hdid, rfl, by simp [ClientStage.isErased]⟩
    · refine ⟨d, hother d hd hdc, hdid, hknown, ?_⟩
      intro hnot
      exact UnorderedMap.erase_eq_some.mpr ⟨hdid ▸ hdc, hlive hnot⟩
  · intro k m hm
    obtain ⟨d, hd, hdid, hknown⟩ := h.heard k m hm
    by_cases hdc : d.id = c.id
    · exact ⟨_, List.mem_set hlt _, hdc.symm.trans hdid, rfl⟩
    · exact ⟨d, hother d hd hdc, hdid, hknown⟩
  · intro d hd hnot p hp
    rcases List.mem_or_eq_of_mem_set hd with hd | rfl
    · exact h.counts d hd hnot p (hold hp).2
    · cases hnot

theorem Pointed.advance (h : s.Pointed) (hk : s.Kept) (i : ℕ) : (s.advance i).Pointed := by
  unfold GameServer.advance
  cases hi : s.clients[i]? with
  | none => exact h
  | some c =>
    have hn := hk.numbered
    cases hstage : c.stage with
    | allocated =>
      have hmem := List.mem_of_getElem? hi
      have hnone : s.connectionRUDPMap c.id = none := by
        have hin := hk.listed.statuses.holds_iff hn.nodup hmem ()
        rw [hstage, hk.notLate hi (by rw [hstage]; rfl)] at hin
        simpa [ClientStage.hasStatus] using hin
      have hmade := h.makeEntry hnone (by
        intro d hd hid _ m hm
        obtain ⟨e, he, heid, hknown⟩ := h.heard c.id m hm
        rw [Registers.eq_of_key hn.nodup he hmem heid, hstage] at hknown
        cases hknown)
      simp only [hstage]
      rw [statusOf_of_none hnone] at hmade ⊢
      exact hmade.keep (c := c) hn hi rfl rfl (by simp [hstage, ClientStage.isKnown])
        (by simp [hstage, ClientStage.isErased]) rfl rfl rfl rfl
    | statusEntered =>
      simp only [hstage]
      split
      · exact h
      · exact h.keep (c := c) hn hi rfl rfl (by simp [hstage, ClientStage.isKnown])
          (by simp [hstage, ClientStage.isErased]) rfl rfl rfl rfl
    | numberEntered =>
      simp only [hstage]
      split
      · exact h
      · exact h.keep (c := c) hn hi rfl rfl (by simp [hstage, ClientStage.isKnown])
          (by simp [hstage, ClientStage.isErased]) rfl rfl rfl rfl
    | seeking rooms =>
      obtain ⟨manager, stage, heq, -⟩ := s.seek_cases i c rooms
      simp only [hstage]
      rw [heq]
      exact h.keep (c := c) hn hi rfl rfl (by simp [hstage, ClientStage.isKnown])
        (by simp [hstage, ClientStage.isErased]) rfl rfl rfl rfl
    | joined =>
      simp only [hstage]
      exact h.keep (c := c) hn hi rfl rfl (fun _ => rfl) (by simp [hstage, ClientStage.isErased]) rfl rfl rfl rfl
    | published r => simpa only [hstage] using h
    | closed r =>
      simp only [hstage]
      exact h.keep (c := c) hn hi rfl rfl (fun _ => rfl) (by simp [hstage, ClientStage.isErased]) rfl rfl rfl rfl
    | withdrawn => simpa only [hstage] using h.eraseStatus hi
    | statusErased =>
      simp only [hstage]
      split
      · exact h
      · exact h.keep (c := c) hn hi rfl rfl (fun _ => rfl) (fun _ => rfl) rfl rfl rfl rfl
    | numberErased =>
      simp only [hstage]
      split
      · exact h
      · exact h.keep (c := c) hn hi rfl rfl (fun _ => rfl) (fun _ => rfl) rfl rfl rfl rfl
    | leaving room =>
      cases room with
      | some p =>
        simp only [hstage]
        exact h.keep (c := c) hn hi rfl rfl (fun _ => rfl) (fun _ => rfl) rfl rfl rfl rfl
      | none =>
        simp only [hstage]
        exact h.keep (c := c) hn hi rfl rfl (fun _ => rfl) (fun _ => rfl) rfl rfl rfl rfl
    | gone => simpa only [hstage] using h

theorem Pointed.close (h : s.Pointed) (hk : s.Kept) (i : ℕ) : (s.close i).Pointed := by
  unfold GameServer.close
  split
  case h_2 => exact h
  case h_1 key connection r heardLate hi =>
    exact h.keep (c := ⟨key, connection, .published r, heardLate⟩) hk.numbered hi rfl rfl (fun _ => rfl) (fun he => he)
      rfl rfl rfl rfl

theorem Pointed.of_same (h : s.Pointed) (hclients : t.clients = s.clients) (hmap : t.connectionRUDPMap = s.connectionRUDPMap)
    (hstatuses : t.statuses = s.statuses) (hhandling : t.handling = s.handling) (hheard : t.heard = s.heard) : t.Pointed := by
  obtain ⟨hentry, hhandler, hknown, hheardBy, hcounts⟩ := h
  constructor
  · rwa [hmap, hstatuses]
  · rwa [hmap, hstatuses, hhandling]
  · rwa [hmap, hclients, hhandling]
  · rwa [hclients, hheard]
  · rwa [hmap, hclients, hstatuses, hheard]

theorem Pointed.next (h : s.Pointed) (hk : s.Kept) (a : ServerAction Double Addr) (ha : s.IdsLast a) : (s.next a).Pointed := by
  cases a with
  | addClient key p => exact h.addClient hk ha key p
  | advance i => exact h.advance hk i
  | close i => exact h.close hk i
  | lookUpStatus i m => exact h.lookUpStatus hk i m
  | countMessage handler => exact h.countMessage hk handler
  | beginStatusCheck =>
    show s.beginStatusCheck.Pointed
    unfold GameServer.beginStatusCheck
    split
    · exact h
    · exact h.of_same rfl rfl rfl rfl rfl
  | checkEntry i =>
    show (s.checkEntry i).Pointed
    unfold GameServer.checkEntry
    repeat' split
    all_goals first | exact h | exact h.of_same rfl rfl rfl rfl rfl
  | endStatusCheck =>
    show s.endStatusCheck.Pointed
    unfold GameServer.endStatusCheck
    repeat' split
    all_goals first | exact h | exact h.of_same rfl rfl rfl rfl rfl

/-- In every run the entry of a client that is not removed has counted just the messages of that client whose handlers are
done, and a handler holds the pointer to that entry. So a pointer dangles only where the removal has overtaken its handler. -/
theorem status_counts_handled (h : (gameServer Double Addr).Reach IdsLast s) :
    (∀ c ∈ s.clients, c.stage.isErased = false → ∀ p, s.connectionRUDPMap c.id = some p →
      s.statuses[p]? = some (.counted (numbersOf c.id s.heard))) ∧
    ∀ id p m, (id, p, m) ∈ s.handling → ∃ c ∈ s.clients, c.id = id ∧
      (c.stage.isErased = false → s.connectionRUDPMap id = some p) ∧
      ((∀ k, s.connectionRUDPMap k ≠ some p) → c.stage.isErased) := by
  have hpointed : s.Kept ∧ s.Pointed := by
    apply h.invariant (I := fun s => s.Kept ∧ s.Pointed)
    · intro s hs
      obtain ⟨maxChannelsSize, override, rfl⟩ := hs
      refine ⟨kept_start maxChannelsSize override, ?_⟩
      constructor <;> simp [start, UnorderedMap.empty]
    · intro s a hI ha
      exact ⟨hI.1.next a ha, hI.2.next hI.1 a ha⟩
  refine ⟨hpointed.2.counts, ?_⟩
  intro id p m hm
  obtain ⟨c, hc, hid, -, hlive⟩ := hpointed.2.known id p m hm
  refine ⟨c, hc, hid, hlive, ?_⟩
  intro hdangles
  by_contra hnot
  exact hdangles id (hlive (Bool.not_eq_true _ ▸ hnot))

def overtaken : GameServer (BitVec 64) :=
  (gameServer ℤ (BitVec 64)).runFrom (start 2 none)
    ([.addClient 5 pendingClient] ++ entering 0 ++ [.lookUpStatus 0 7, .close 0, .advance 0, .advance 0])

theorem overtaken_reach : (gameServer ℤ (BitVec 64)).Reach IdsLast overtaken := by
  have hstart : (gameServer ℤ (BitVec 64)).Reach IdsLast (start 2 none) := .init ⟨2, none, rfl⟩
  exact hstart.of_checked _ (by decide +kernel)

theorem status_counts_handled_overtaken : overtaken.connectionRUDPMap 1 = none ∧
    ∃ c ∈ overtaken.clients, c.id = 1 ∧ (c.stage.isErased = false → overtaken.connectionRUDPMap 1 = some 0) ∧
      ((∀ k, overtaken.connectionRUDPMap k ≠ some 0) → c.stage.isErased) :=
  ⟨by decide +kernel, (status_counts_handled overtaken_reach).2 1 0 7 (by decide +kernel)⟩

/-! ## Clients only go on -/

end GameServer

def ClientStage.rank : ClientStage → ℕ
  | .allocated => 0
  | .statusEntered => 1
  | .numberEntered => 2
  | .seeking _ => 3
  | .joined => 4
  | .published _ => 5
  | .closed _ => 6
  | .withdrawn => 7
  | .statusErased => 8
  | .numberErased => 9
  | .leaving _ => 10
  | .gone => 11

structure Client.Later {Addr : Type} (c d : Client Addr) : Prop where
  id : d.id = c.id
  rank : c.stage.rank ≤ d.stage.rank
  heardLate : c.heardLate → d.heardLate

theorem Client.Later.refl {Addr : Type} (c : Client Addr) : c.Later c := ⟨rfl, Nat.le_refl _, fun h => h⟩

theorem Client.Later.trans {Addr : Type} {c d e : Client Addr} (h : c.Later d) (h' : d.Later e) : c.Later e :=
  ⟨h'.id.trans h.id, Nat.le_trans h.rank h'.rank, fun hl => h'.heardLate (h.heardLate hl)⟩

namespace GameServer

variable {Double Addr : Type} {s t : GameServer Addr} {i : ℕ} {c : Client Addr}

theorem advance_client (hi : s.clients[i]? = some c) : ∃ c', (s.advance i).clients = s.clients.set i c' ∧ c.Later c' := by
  have hsame : s.clients = s.clients.set i c := by
    obtain ⟨hlt, rfl⟩ := List.getElem?_eq_some_iff.mp hi
    exact (List.set_getElem_self hlt).symm
  -- the thread puts its client into the next stage, or into none
  have hto : ∀ {l : List (Client Addr)} {stage : ClientStage}, l = s.clients.set i { c with stage := stage } →
      c.stage.rank ≤ stage.rank → ∃ c', l = s.clients.set i c' ∧ c.Later c' :=
    fun hl hrank => ⟨_, hl, rfl, hrank, fun h => h⟩
  have hkeep : ∃ c', s.clients = s.clients.set i c' ∧ c.Later c' := ⟨c, hsame, .refl c⟩
  unfold GameServer.advance
  rw [hi]
  cases hstage : c.stage with
  | allocated =>
    obtain ⟨statuses, map, heq, -⟩ := s.statusOf_spec c.id
    simp only [hstage]
    rw [heq]
    exact hto rfl (by simp [hstage, ClientStage.rank])
  | seeking rooms =>
    obtain ⟨manager, stage, heq, hnew⟩ := s.seek_cases i c rooms
    simp only [hstage]
    rw [heq]
    refine hto rfl ?_
    rcases hnew with rfl | ⟨rooms', rfl⟩ <;> simp [hstage, ClientStage.rank]
  | leaving room =>
    cases room with
    | some p =>
      simp only [hstage]
      exact hto rfl (by simp [hstage, ClientStage.rank])
    | none =>
      simp only [hstage]
      exact hto rfl (by simp [hstage, ClientStage.rank])
  | published r =>
    simp only [hstage]
    exact hkeep
  | gone =>
    simp only [hstage]
    exact hkeep
  | statusEntered | numberEntered | statusErased | numberErased =>
    simp only [hstage]
    split
    · exact hkeep
    · exact hto rfl (by simp [hstage, ClientStage.rank])
  | joined | closed _ | withdrawn =>
    simp only [hstage]
    exact hto rfl (by simp [hstage, ClientStage.rank])

theorem clients_next (s : GameServer Addr) (a : ServerAction Double Addr) : (s.next a).clients = s.clients ∨
    (∃ i c c', s.clients[i]? = some c ∧ (s.next a).clients = s.clients.set i c' ∧ c.Later c') ∨
    ∃ key q c, a = .addClient key q ∧ (s.next a).clients = s.clients ++ [c] := by
  cases a with
  | addClient key q => exact .inr (.inr ⟨key, q, _, rfl, rfl⟩)
  | advance i =>
    cases hi : s.clients[i]? with
    | none =>
      left
      show (s.advance i).clients = _
      unfold GameServer.advance
      rw [hi]
    | some c =>
      obtain ⟨c', hl, hlater⟩ := advance_client hi
      exact .inr (.inl ⟨i, c, c', hi, hl, hlater⟩)
  | close i =>
    show (s.close i).clients = _ ∨ (∃ j c c', _ ∧ (s.close i).clients = _ ∧ _) ∨ _
    unfold GameServer.close
    split
    case h_1 hi => exact .inr (.inl ⟨i, _, _, hi, rfl, rfl, by simp [ClientStage.rank], fun h => h⟩)
    case h_2 => exact .inl rfl
  | lookUpStatus i m =>
    show (s.lookUpStatus i m).clients = _ ∨ (∃ j c c', _ ∧ (s.lookUpStatus i m).clients = _ ∧ _) ∨ _
    unfold GameServer.lookUpStatus
    cases hi : s.clients[i]? with
    | none => exact .inl rfl
    | some c =>
      obtain ⟨statuses, map, heq, -⟩ := s.statusOf_spec c.id
      simp only
      split
      · rw [heq]
        exact .inr (.inl ⟨i, c, _, hi, rfl, rfl, Nat.le_refl _, fun h => by simp [h]⟩)
      · exact .inl rfl
  | countMessage handler =>
    left
    show (s.countMessage handler).clients = _
    unfold GameServer.countMessage
    split <;> rfl
  | beginStatusCheck =>
    left
    show s.beginStatusCheck.clients = _
    unfold GameServer.beginStatusCheck
    split <;> rfl
  | checkEntry i =>
    left
    show (s.checkEntry i).clients = _
    unfold GameServer.checkEntry
    repeat' split
    all_goals rfl
  | endStatusCheck =>
    left
    show s.endStatusCheck.clients = _
    unfold GameServer.endStatusCheck
    repeat' split
    all_goals rfl

theorem client_next {j : ℕ} {d : Client Addr} (hj : s.clients[j]? = some d) (a : ServerAction Double Addr) :
    ∃ d', (s.next a).clients[j]? = some d' ∧ d.Later d' := by
  rcases s.clients_next a with hsame | ⟨i, c, c', hi, hset, hlater⟩ | ⟨-, -, c, -, happend⟩
  · exact ⟨d, hsame ▸ hj, .refl d⟩
  · rw [hset]
    by_cases hij : i = j
    · subst hij
      obtain rfl : c = d := Option.some.inj (hi.symm.trans hj)
      exact ⟨c', List.getElem?_set_self (List.getElem?_eq_some_iff.mp hi).1, hlater⟩
    · exact ⟨d, (List.getElem?_set_ne hij).trans hj, .refl d⟩
  · rw [happend]
    exact ⟨d, (List.getElem?_append_left (List.getElem?_eq_some_iff.mp hj).1).trans hj, .refl d⟩

/-! ## Entries that stay -/

/-- The entry of a client that was heard when its status was erased is there in every later state. -/
theorem late_status_stays (h : (gameServer Double Addr).Reach IdsLast s) (hi : s.clients[i]? = some c) (hlate : c.heardLate)
    (ht : (gameServer Double Addr).ReachFrom IdsLast s t) : (t.connectionRUDPMap c.id).isSome := by
  have hstays : t.Kept ∧ ∃ c', t.clients[i]? = some c' ∧ c.Later c' := by
    apply ht.invariant (I := fun t => t.Kept ∧ ∃ c', t.clients[i]? = some c' ∧ c.Later c')
    · intro u hu
      obtain rfl : u = s := hu
      exact ⟨Kept.of_reach h, c, hi, .refl c⟩
    · intro u a hI ha
      obtain ⟨hk, c', hc', hlater⟩ := hI
      obtain ⟨d', hd', hnext⟩ := client_next hc' a
      exact ⟨hk.next a ha, d', hd', hlater.trans hnext⟩
  obtain ⟨hk, c', hc', hlater⟩ := hstays
  rw [← hlater.id]
  exact (hk.listed.statuses.holds_iff hk.numbered.nodup (List.mem_of_getElem? hc') ()).mpr (.inr (hlater.heardLate hlate))

theorem late_status_stays_leftBehind : (leftBehind.connectionRUDPMap 1).isSome := by
  have hclient : ∃ c, leftBehind.clients[0]? = some c ∧ c.id = 1 ∧ c.heardLate :=
    ⟨_, rfl, by decide +kernel, by decide +kernel⟩
  obtain ⟨c, hc, hid, hlate⟩ := hclient
  rw [← hid]
  exact late_status_stays leftBehind_reach hc hlate (.init rfl)

end GameServer

end RudpEngine
