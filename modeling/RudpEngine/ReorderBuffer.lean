import RudpEngine.Dispatch
import RudpEngine.Run
import Mathlib.Tactic.IntervalCases

/-!
# The reorder buffer

A bunch that comes too early waits in `InUnreadBunchMap` under its sequence
number, and the bunch before it lets it out. The drain looks at the smallest key
alone, so it depends on every key being ahead of `InReliable + 1`; a bunch that
comes too late, and is kept all the same, breaks this for good.
-/

namespace RudpEngine

namespace InBunchReader

def readable (b : InBunchReader) : Bool := (NetChannel.readMessages b.messageCount ⟨b.buffer, false⟩).1

def messages (b : InBunchReader) : List RecvMessageReader := (NetChannel.readMessages b.messageCount ⟨b.buffer, false⟩).2

end InBunchReader

namespace NetChannel

variable {ch : NetChannel}

def KeysAbove (ch : NetChannel) (r : ℕ) : Prop := ∀ k b, ch.inUnreadBunchMap.find? k = some b → r < k ∧ k < 2 ^ 32

theorem takeBunch_eq (ch : NetChannel) (b : InBunchReader) : ch.takeBunch b.buffer b.messageCount =
    (b.readable, { ch with
      receivedMessages := ch.receivedMessages ++ b.messages
      inReliable := if b.readable then (ch.inReliable + 1) % 2 ^ 32 else ch.inReliable }) := rfl

theorem KeysAbove.erase {r key : ℕ} (h : ch.KeysAbove r) (hkey : key = r + 1) (k : ℕ) (b : InBunchReader)
    (hb : (ch.inUnreadBunchMap.erase key).find? k = some b) : r + 1 < k ∧ k < 2 ^ 32 := by
  rw [SortedMap.find?_erase] at hb
  split_ifs at hb with hk
  have := h k b hb
  omega

theorem drain_zero (ch : NetChannel) : drain 0 ch = ch := rfl

theorem drain_stop (hkeys : ch.KeysAbove ch.inReliable) (hnone : ch.inUnreadBunchMap.find? (ch.inReliable + 1) = none)
    (fuel : ℕ) : drain fuel ch = ch := by
  cases fuel with
  | zero => rfl
  | succ fuel =>
    rw [drain]
    cases hbegin : ch.inUnreadBunchMap.begin? with
    | none => rfl
    | some e =>
      obtain ⟨key, b⟩ := e
      have hfind := SortedMap.find?_of_begin? _ hbegin
      have hkey := hkeys key b hfind
      have hne : key ≠ (ch.inReliable + 1) % 2 ^ 32 := by
        rintro hk
        rw [Nat.mod_eq_of_lt (by omega)] at hk
        rw [hk, hnone] at hfind
        cases hfind
      have hfalse : (ch.bReliable && key == (ch.inReliable + 1) % 2 ^ 32) = false := by
        rw [beq_eq_false_iff_ne.mpr hne, Bool.and_false]
      simp only [hfalse, Bool.false_eq_true, if_false]

theorem begin?_next (hkeys : ch.KeysAbove ch.inReliable) {b : InBunchReader}
    (hb : ch.inUnreadBunchMap.find? (ch.inReliable + 1) = some b) :
    ch.inUnreadBunchMap.begin? = some (ch.inReliable + 1, b) := by
  cases hbegin : ch.inUnreadBunchMap.begin? with
  | none =>
    rw [SortedMap.find?_of_entries_nil _ ((SortedMap.begin?_eq_none _).mp hbegin)] at hb
    cases hb
  | some e =>
    obtain ⟨key, b'⟩ := e
    have hle : key ≤ ch.inReliable + 1 := SortedMap.begin?_le _ hbegin hb
    have hfind := SortedMap.find?_of_begin? _ hbegin
    have hge := (hkeys key b' hfind).1
    obtain rfl : key = ch.inReliable + 1 := by omega
    obtain rfl : b' = b := Option.some.inj (hfind.symm.trans hb)
    rfl

theorem drain_next (hrel : ch.bReliable = true) (hkeys : ch.KeysAbove ch.inReliable) {b : InBunchReader}
    (hb : ch.inUnreadBunchMap.find? (ch.inReliable + 1) = some b) (fuel : ℕ) : drain (fuel + 1) ch =
      (let next := { ch with
        inReliable := if b.readable then ch.inReliable + 1 else ch.inReliable
        receivedMessages := ch.receivedMessages ++ b.messages
        inUnreadBunchMap := ch.inUnreadBunchMap.erase (ch.inReliable + 1) }
      if b.readable then drain fuel next else next) := by
  have hlt := (hkeys _ b hb).2
  have hmod : (ch.inReliable + 1) % 2 ^ 32 = ch.inReliable + 1 := Nat.mod_eq_of_lt hlt
  rw [drain, begin?_next hkeys hb]
  simp only [hrel, hmod, beq_self_eq_true, Bool.and_self, if_true, takeBunch_eq]

theorem erase_size_lt (hkeys : ch.KeysAbove ch.inReliable) {b : InBunchReader}
    (hb : ch.inUnreadBunchMap.find? (ch.inReliable + 1) = some b) :
    (ch.inUnreadBunchMap.erase (ch.inReliable + 1)).size < ch.inUnreadBunchMap.size :=
  SortedMap.size_erase_lt _ (begin?_next hkeys hb)

/-- With keys above `InReliable`, the drain ends with all of them above `InReliable + 1`. -/
theorem drain_keysAbove : ∀ (fuel : ℕ) (ch : NetChannel), ch.bReliable = true →
    ch.KeysAbove ch.inReliable → ch.inUnreadBunchMap.size ≤ fuel →
      (drain fuel ch).KeysAbove ((drain fuel ch).inReliable + 1) ∧ (drain fuel ch).bReliable = true
  | 0, ch, hrel, _, hsize => by
    refine ⟨?_, hrel⟩
    intro k b hb
    rw [drain_zero, SortedMap.find?_of_size_zero _ (Nat.le_zero.mp hsize)] at hb
    cases hb
  | fuel + 1, ch, hrel, hkeys, hsize => by
    cases hb : ch.inUnreadBunchMap.find? (ch.inReliable + 1) with
    | none =>
      rw [drain_stop hkeys hb]
      refine ⟨?_, hrel⟩
      intro k b hk
      have hgt := hkeys k b hk
      have hne : k ≠ ch.inReliable + 1 := by
        rintro rfl
        rw [hb] at hk; cases hk
      omega
    | some b =>
      have herase := fun k b => hkeys.erase (Eq.refl (ch.inReliable + 1)) k b
      have hlt := erase_size_lt hkeys hb
      rw [drain_next hrel hkeys hb]
      cases hread : b.readable with
      | true =>
        simp only [if_true]
        exact drain_keysAbove fuel _ hrel herase (by simp only; omega)
      | false =>
        simp only [Bool.false_eq_true, if_false]
        exact ⟨herase, hrel⟩

def bufferedMessages (ch : NetChannel) (k : ℕ) : List RecvMessageReader :=
  ((ch.inUnreadBunchMap.find? k).map InBunchReader.messages).getD []

/-- From `ch` to `ch'` the bunches with the `m` numbers from `r` on were handed on, and the next is not there. -/
structure HandedOn (ch : NetChannel) (r m : ℕ) (ch' : NetChannel) : Prop where
  present : ∀ j < m, ∃ b, ch.inUnreadBunchMap.find? (r + j) = some b
  next : ch.inUnreadBunchMap.find? (r + m) = none
  inReliable : ch'.inReliable + 1 = r + m
  receivedMessages : ch'.receivedMessages =
    ch.receivedMessages ++ (List.range m).flatMap fun j => ch.bufferedMessages (r + j)

/-- The drain hands on the whole block of bunches behind `InReliable`. -/
theorem drain_handedOn : ∀ (fuel : ℕ) (ch : NetChannel), ch.bReliable = true → ch.KeysAbove ch.inReliable →
    (∀ k b, ch.inUnreadBunchMap.find? k = some b → b.readable = true) → ch.inUnreadBunchMap.size ≤ fuel →
      ∃ m, HandedOn ch (ch.inReliable + 1) m (drain fuel ch)
  | fuel, ch, hrel, hkeys, hread, hsize => by
    cases hb : ch.inUnreadBunchMap.find? (ch.inReliable + 1) with
    | none =>
      rw [drain_stop hkeys hb]
      exact ⟨0, fun j hj => absurd hj (Nat.not_lt_zero j), hb, rfl, by simp⟩
    | some b =>
      cases fuel with
      | zero =>
        rw [SortedMap.find?_of_size_zero _ (Nat.le_zero.mp hsize)] at hb
        cases hb
      | succ fuel =>
        have herase := fun k b => hkeys.erase (Eq.refl (ch.inReliable + 1)) k b
        have hlt := erase_size_lt hkeys hb
        rw [drain_next hrel hkeys hb, hread _ b hb]
        simp only [if_true]
        generalize hnext : ({ ch with
          inReliable := ch.inReliable + 1
          receivedMessages := ch.receivedMessages ++ b.messages
          inUnreadBunchMap := ch.inUnreadBunchMap.erase (ch.inReliable + 1) } : NetChannel) = next
        have hmap : ∀ k, next.inUnreadBunchMap.find? k =
            if k = ch.inReliable + 1 then none else ch.inUnreadBunchMap.find? k := by
          intro k
          rw [← hnext]
          exact SortedMap.find?_erase _ _ k
        have hr : next.inReliable = ch.inReliable + 1 := by rw [← hnext]
        have hlater : ∀ j, next.inUnreadBunchMap.find? (ch.inReliable + 1 + 1 + j) =
            ch.inUnreadBunchMap.find? (ch.inReliable + 1 + (j + 1)) := by
          intro j
          rw [hmap, if_neg (by omega)]
          congr 1; omega
        obtain ⟨m, hpresent, hnone, hin, hreceived⟩ := drain_handedOn fuel next (by rw [← hnext]; exact hrel)
          (by rw [← hnext]; exact herase)
          (by
            intro k b' hk
            rw [hmap] at hk
            split_ifs at hk
            exact hread k b' hk)
          (by rw [← hnext]; simp only; omega)
        rw [hr] at hpresent hnone hin hreceived
        refine ⟨m + 1, ?_, ?_, ?_, ?_⟩
        · intro j hj
          cases j with
          | zero => exact ⟨b, hb⟩
          | succ j =>
            obtain ⟨b', hb'⟩ := hpresent j (by omega)
            exact ⟨b', (hlater j).symm.trans hb'⟩
        · exact (hlater m).symm.trans hnone
        · omega
        · have hfirst : ch.bufferedMessages (ch.inReliable + 1 + 0) = b.messages := by
            rw [bufferedMessages, Nat.add_zero, hb]; rfl
          have hrest : ∀ j, next.bufferedMessages (ch.inReliable + 1 + 1 + j) =
              ch.bufferedMessages (ch.inReliable + 1 + (j + 1)) := by
            intro j
            rw [bufferedMessages, bufferedMessages, hlater]
          have hsame : next.receivedMessages = ch.receivedMessages ++ b.messages := by rw [← hnext]
          rw [hreceived, hsame, List.range_succ_eq_map, List.flatMap_cons, List.flatMap_map, hfirst, List.append_assoc]
          simp only [hrest, Nat.succ_eq_add_one]

theorem dispatchRawBunch_eq (ch : NetChannel) (b : InBunchReader) : ch.dispatchRawBunch b.buffer b.messageCount =
    drain ch.inUnreadBunchMap.size { ch with
      receivedMessages := ch.receivedMessages ++ b.messages
      inReliable := if b.readable then (ch.inReliable + 1) % 2 ^ 32 else ch.inReliable } := rfl

theorem dispatchRawBunch_keysAbove (hrel : ch.bReliable = true) (hkeys : ch.KeysAbove (ch.inReliable + 1)) (b : InBunchReader) :
    (ch.dispatchRawBunch b.buffer b.messageCount).KeysAbove ((ch.dispatchRawBunch b.buffer b.messageCount).inReliable + 1) ∧
      (ch.dispatchRawBunch b.buffer b.messageCount).bReliable = true := by
  rw [dispatchRawBunch_eq]
  refine drain_keysAbove _ _ hrel ?_ (Nat.le_refl _)
  intro k b' hk
  obtain ⟨hgt, hlt⟩ := hkeys k b' hk
  refine ⟨?_, hlt⟩
  show (if b.readable then (ch.inReliable + 1) % 2 ^ 32 else ch.inReliable) < k
  split_ifs <;> omega

/-- The missing bunch hands on itself and the whole block behind it. -/
theorem dispatchRawBunch_handedOn (hrel : ch.bReliable = true) (hkeys : ch.KeysAbove (ch.inReliable + 1))
    (hlt : ch.inReliable + 1 < 2 ^ 32) (b : InBunchReader) (hb : b.readable = true)
    (hread : ∀ k b, ch.inUnreadBunchMap.find? k = some b → b.readable = true) :
    ∃ m, HandedOn { ch with receivedMessages := ch.receivedMessages ++ b.messages } (ch.inReliable + 2) m
      (ch.dispatchRawBunch b.buffer b.messageCount) := by
  rw [dispatchRawBunch_eq, hb, if_pos rfl, Nat.mod_eq_of_lt hlt]
  obtain ⟨m, hm⟩ := drain_handedOn ch.inUnreadBunchMap.size { ch with
      receivedMessages := ch.receivedMessages ++ b.messages, inReliable := ch.inReliable + 1 } hrel hkeys hread (Nat.le_refl _)
  exact ⟨m, hm.present, hm.next, hm.inReliable, hm.receivedMessages⟩

end NetChannel

namespace NetConnection

variable {c : NetConnection}

def BuffersAhead (c : NetConnection) : Prop :=
  ∀ i ch, c.channel? i = some ch → ch.bReliable = true ∧ ch.KeysAbove (ch.inReliable + 1)

def BunchNewer (c : NetConnection) (header : InBunchHeader) (_ : List Byte) : Prop :=
  header.bReliable = true → ∀ ch, (c.findOrCreateChannel header).channel? header.chIndex = some ch →
    ch.inReliable < bunchSequence header ch

theorem keysAbove_new (i inReliable outReliable r : ℕ) : (NetChannel.init i inReliable outReliable).KeysAbove r := by
  intro k b hb
  rw [show (NetChannel.init i inReliable outReliable).inUnreadBunchMap = SortedMap.empty from rfl,
    SortedMap.find?_empty] at hb
  cases hb

theorem channel?_findOrCreate (c : NetConnection) (header : InBunchHeader) {i : ℕ} {ch : NetChannel}
    (h : (c.findOrCreateChannel header).channel? i = some ch) :
    c.channel? i = some ch ∨ c.channel? i = none ∧ i ≤ 1 ∧ ch = NetChannel.init i c.initInReliable c.initOutReliable := by
  unfold findOrCreateChannel at h
  cases hch : c.channel? header.chIndex with
  | some ch₀ =>
    rw [hch] at h
    exact .inl h
  | none =>
    rw [hch] at h
    simp only at h
    split_ifs at h with hname
    · simp only [Bool.and_eq_true, decide_eq_true_eq] at hname
      by_cases hlt : header.chIndex < c.channels.length
      · rw [createChannelByName, channel?_setChannel hlt] at h
        split_ifs at h with hi
        · subst hi
          exact .inr ⟨hch, hname.2, (Option.some.inj h).symm⟩
        · exact .inl h
      · rw [createChannelByName, setChannel, List.set_eq_of_length_le (Nat.le_of_not_lt hlt)] at h
        exact .inl h
    · exact .inl h

theorem BuffersAhead.findOrCreate (h : c.BuffersAhead) (header : InBunchHeader) :
    (c.findOrCreateChannel header).BuffersAhead := by
  intro i ch hch
  rcases c.channel?_findOrCreate header hch with hold | ⟨-, -, rfl⟩
  · exact h i ch hold
  · exact ⟨rfl, keysAbove_new i _ _ _⟩

theorem bunchSequence_lt {header : InBunchHeader} (hrel : header.bReliable = true) (ch : NetChannel) :
    bunchSequence header ch < 2 ^ 32 := by
  rw [bunchSequence, if_pos hrel]
  have h0 := Int.emod_nonneg (makeRelative header.chSequence ch.inReliable maxChSequence) (b := 2 ^ 32) (by decide)
  have h1 := Int.emod_lt_of_pos (makeRelative header.chSequence ch.inReliable maxChSequence) (b := 2 ^ 32) (by decide)
  omega

theorem takeBunch_ahead {header : InBunchHeader} {view : List Byte} {ch ch' : NetChannel} (hrel : ch.bReliable = true)
    (hkeys : ch.KeysAbove (ch.inReliable + 1)) (hnew : header.bReliable = true → ch.inReliable < bunchSequence header ch)
    (h : takeBunch header view ch = some ch') : ch'.bReliable = true ∧ ch'.KeysAbove (ch'.inReliable + 1) := by
  unfold takeBunch at h
  simp only at h
  split_ifs at h with hwait
  · obtain rfl := Option.some.inj h
    simp only [Bool.and_eq_true, decide_eq_true_eq] at hwait
    obtain ⟨hreliable, hne⟩ := hwait
    have hlt := bunchSequence_lt hreliable ch
    have hgt := hnew hreliable
    unfold NetChannel.addUnreadInCopyBunch
    cases hfind : ch.inUnreadBunchMap.find? (bunchSequence header ch) with
    | some b => exact ⟨hrel, hkeys⟩
    | none =>
      refine ⟨hrel, ?_⟩
      intro k b hb
      rw [SortedMap.find?_insert] at hb
      split_ifs at hb with hk
      · subst hk
        have : bunchSequence header ch ≠ ch.inReliable + 1 := by
          intro he
          rw [Nat.mod_eq_of_lt (by omega)] at hne
          exact hne he
        show ch.inReliable + 1 < _ ∧ _
        omega
      · exact hkeys k b hb
  · obtain rfl := Option.some.inj h
    exact (NetChannel.dispatchRawBunch_keysAbove hrel hkeys ⟨view, 0, header.messageCount⟩).symm

theorem BuffersAhead.dispatchBunch (h : c.BuffersAhead) {header : InBunchHeader} {view : List Byte}
    (hnew : c.BunchNewer header view) : (c.dispatchBunch header view).1.BuffersAhead := by
  have hfound := h.findOrCreate header
  have hnew' : header.bReliable = true → ∀ ch, (c.findOrCreateChannel header).channel? header.chIndex = some ch →
    ch.inReliable < bunchSequence header ch := hnew
  intro i ch hi
  rcases channel?_dispatchBunch hi with hold | ⟨rfl, ch₀, hch, htake⟩
  · exact hfound i ch hold
  · obtain ⟨hrel, hkeys⟩ := hfound _ ch₀ hch
    exact takeBunch_ahead hrel hkeys (fun hr => hnew' hr ch₀ hch) htake

/-! ## The runs -/

/-- An open connection and the payloads given to `DispatchPacket`. -/
def dispatchSystem : System NetConnection RecvPacketReader where
  init c := c.state ≠ .closed ∧
    ∀ i ch, c.channel? i = some ch → ch.bReliable = true ∧ ch.inUnreadBunchMap = SortedMap.empty
  next c reader := (c.dispatchPacket reader).1

/-- At its turn every reliable bunch of the payload is newer than all that its channel has taken. -/
def AllNewer (c : NetConnection) (reader : RecvPacketReader) : Prop :=
  BunchesMeet BunchNewer (c.payloadBunches reader.payload) c

theorem dispatchPacket_eq (hstate : c.state ≠ .closed) (reader : RecvPacketReader) :
    (c.dispatchPacket reader).1 = dispatchBunches (c.payloadBunches reader.payload) c :=
  dispatchLoop_eq _ _ _ hstate

theorem reach_buffersAhead (h : dispatchSystem.Reach AllNewer c) : c.state ≠ .closed ∧ c.BuffersAhead := by
  refine System.Reach.invariant (I := fun c => c.state ≠ .closed ∧ c.BuffersAhead) ?_ ?_ h
  · intro c hc
    refine ⟨hc.1, ?_⟩
    intro i ch hch
    obtain ⟨hrel, hmap⟩ := hc.2 i ch hch
    refine ⟨hrel, ?_⟩
    intro k b hb
    rw [hmap, SortedMap.find?_empty] at hb
    cases hb
  · intro c reader hI hnew
    show (c.dispatchPacket reader).1.state ≠ .closed ∧ (c.dispatchPacket reader).1.BuffersAhead
    rw [dispatchPacket_eq hI.1]
    refine ⟨?_, dispatchBunches_rule (fun _ _ _ hb hn => hb.dispatchBunch hn) _ c hI.2 hnew⟩
    rw [(dispatchBunches_conn _ c).1]
    exact hI.1

/-- As long as every reliable bunch is newer than `InReliable` at its turn, the buffers are ahead after every packet,
and the missing bunch hands on all the bunches behind it. -/
theorem reorder_buffer_drains (h : dispatchSystem.Reach AllNewer c) {i : ℕ} {ch : NetChannel} (hch : c.channel? i = some ch) :
    (∀ k b, ch.inUnreadBunchMap.find? k = some b → ch.inReliable + 1 < k) ∧
    ∀ header view, header.bReliable = true → bunchSequence header ch = (ch.inReliable + 1) % 2 ^ 32 →
      ch.inReliable < bunchSequence header ch →
      InBunchReader.readable ⟨view, 0, header.messageCount⟩ = true →
      (∀ k b, ch.inUnreadBunchMap.find? k = some b → b.readable = true) →
        ∃ m, NetChannel.HandedOn
          { ch with receivedMessages := ch.receivedMessages ++ InBunchReader.messages ⟨view, 0, header.messageCount⟩ }
          (ch.inReliable + 2) m (ch.dispatchRawBunch view header.messageCount) := by
  obtain ⟨hrel, hkeys⟩ := (reach_buffersAhead h).2 i ch hch
  refine ⟨fun k b hb => (hkeys k b hb).1, ?_⟩
  intro header view hreliable hnext hnew hview hread
  have hlt := bunchSequence_lt hreliable ch
  exact NetChannel.dispatchRawBunch_handedOn hrel hkeys (by omega) ⟨view, 0, header.messageCount⟩ hview hread

def bunchPayload (chSequence : ℕ) : RecvPacketReader where
  header := BitReader.ofBytes [] 0
  payload := BunchHeader.bytes ⟨true, true, false, true, 0, chSequence, 1, 4⟩ ++ [4, 0, 1, 0]
  bConnectionlessPacket := false

def openServer : NetConnection := (NetConnection.new true 2 .open).createInitialChannels

theorem openServer_init : dispatchSystem.init openServer := by
  refine ⟨by decide, ?_⟩
  intro i ch hch
  have hi : i < 2 := lt_of_channel? hch
  interval_cases i
  · obtain rfl := Option.some.inj hch
    exact ⟨rfl, rfl⟩
  · obtain rfl := Option.some.inj hch
    exact ⟨rfl, rfl⟩

theorem payloadBunches_bunchPayload : openServer.payloadBunches (bunchPayload 2).payload =
    [(⟨true, true, false, true, 0, 2, 1, 4⟩, [4, 0, 1, 0])] := by decide +kernel

theorem reorder_buffer_drains_second : ∃ ch, (dispatchSystem.next openServer (bunchPayload 2)).channel? 0 = some ch ∧
    ∀ k b, ch.inUnreadBunchMap.find? k = some b → ch.inReliable + 1 < k := by
  have hnew : AllNewer openServer (bunchPayload 2) := by
    rw [AllNewer, payloadBunches_bunchPayload]
    refine ⟨?_, fun _ => trivial⟩
    intro _ ch hch
    obtain rfl := Option.some.inj hch
    decide
  obtain ⟨ch, hch⟩ : ∃ ch, (dispatchSystem.next openServer (bunchPayload 2)).channel? 0 = some ch :=
    Option.isSome_iff_exists.mp (by decide +kernel)
  exact ⟨ch, hch, (reorder_buffer_drains (.next (.init openServer_init) hnew) hch).1⟩

/-- The first bunch comes twice; its copy stays in the buffer. -/
theorem reorder_buffer_blocked : ¬ ∀ c, dispatchSystem.Reachable c → ∀ i ch, c.channel? i = some ch →
    ∀ k b, ch.inUnreadBunchMap.find? k = some b → ch.inReliable + 1 < k := by
  intro h
  have hreach : dispatchSystem.Reachable (dispatchSystem.runFrom openServer [bunchPayload 1, bunchPayload 1]) :=
    System.reachable_runFrom (.init openServer_init) _
  obtain ⟨ch, hch⟩ : ∃ ch, (dispatchSystem.runFrom openServer [bunchPayload 1, bunchPayload 1]).channel? 0 = some ch :=
    Option.isSome_iff_exists.mp (by decide +kernel)
  have hkey : ((dispatchSystem.runFrom openServer [bunchPayload 1, bunchPayload 1]).channel? 0).map
      (fun ch => (ch.inReliable, (ch.inUnreadBunchMap.find? 1).isSome)) = some (1, true) := by decide +kernel
  rw [hch] at hkey
  obtain ⟨hin, hsome⟩ := Prod.mk.inj (Option.some.inj hkey)
  obtain ⟨b, hb⟩ := Option.isSome_iff_exists.mp hsome
  have := h _ hreach 0 ch hch 1 b hb
  omega

end NetConnection

end RudpEngine
