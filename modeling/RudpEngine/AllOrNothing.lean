import RudpEngine.AckedContent

/-!
# All messages of a bunch, or some

`DispatchRawBunch_Interanl` hands a message on as soon as it has read it, so a
bunch that is cut behind its first message is handed on in part, and once more
each time it comes again. Where no bunch is cut like that, `InReliable` counts
the bunches whose messages were handed on.
-/

namespace RudpEngine

namespace NetChannel

/-- All messages of the bunch are there, or not even the first. -/
def WholeOrCutAtFirst (view : List Byte) (count : ℕ) : Prop :=
  MessagesWhole (2 ^ 16) count view ∨ ¬ MessagesWhole (2 ^ 16) 1 view

/-- A bunch that fails hands on nothing, now and when it comes again, and `InReliable` goes with the messages. -/
structure AllOrNothing (ch : NetChannel) (view : List Byte) (count : ℕ) : Prop where
  nothing : (ch.takeBunch view count).1 = false → (ch.takeBunch view count).2.receivedMessages = ch.receivedMessages
  advances : (ch.takeBunch view count).2.receivedMessages ≠ ch.receivedMessages →
    (ch.takeBunch view count).2.inReliable = (ch.inReliable + 1) % 2 ^ 32
  whole : (ch.takeBunch view count).2.inReliable ≠ ch.inReliable →
    (ch.takeBunch view count).2.receivedMessages.length = ch.receivedMessages.length + count
  again : (ch.takeBunch view count).1 = false →
    ((ch.takeBunch view count).2.takeBunch view count).2.receivedMessages = ch.receivedMessages

section
variable (capacity : ℕ) (next : BufferReader → Bool × List RecvMessageReader)

theorem messageRound_length {n : ℕ} {view : List Byte} (h : (messageRound capacity next ⟨view, false⟩).1 = true)
    (hnext : ∀ view, (next ⟨view, false⟩).1 = true → (next ⟨view, false⟩).2.length = n) :
    (messageRound capacity next ⟨view, false⟩).2.length = n + 1 := by
  obtain ⟨hfour, hsize, hrest⟩ := (messageRound_ok capacity next).mp h
  rw [messageRound_whole capacity next hfour hsize, List.length_cons, hnext _ hrest]

/-- A message is handed on exactly if the first one is there. -/
theorem messageRound_eq_nil_iff (view : List Byte) : (messageRound capacity next ⟨view, false⟩).2 = [] ↔
    ¬ (4 ≤ view.length ∧ (leNat (view.take 4) % capacity + capacity - 4) % capacity ≤ (view.drop 4).length) := by
  by_cases h : 4 ≤ view.length ∧ (leNat (view.take 4) % capacity + capacity - 4) % capacity ≤ (view.drop 4).length
  · rw [messageRound_whole capacity next h.1 h.2]
    exact iff_of_false (List.cons_ne_nil _ _) fun hnot => hnot h
  · rw [messageRound_cut capacity next h]
    exact iff_of_true rfl h

end

theorem readMessages_length : ∀ (n : ℕ) (view : List Byte), (readMessages n ⟨view, false⟩).1 = true →
    (readMessages n ⟨view, false⟩).2.length = n
  | 0, _, _ => rfl
  | n + 1, view, h => by
    rw [readMessages_succ] at h ⊢
    exact messageRound_length (2 ^ 16) _ h (readMessages_length n)

theorem readMessages_eq_nil_iff (n : ℕ) (view : List Byte) :
    (readMessages (n + 1) ⟨view, false⟩).2 = [] ↔ ¬ MessagesWhole (2 ^ 16) 1 view := by
  rw [readMessages_succ, messageRound_eq_nil_iff, MessagesWhole, MessagesWhole, and_true]

variable {ch : NetChannel} {view : List Byte} {count : ℕ}

theorem readMessages_of_cutAtFirst (h : ¬ MessagesWhole (2 ^ 16) 1 view) : (readMessages count ⟨view, false⟩).2 = [] := by
  cases count with
  | zero => rfl
  | succ n => exact (readMessages_eq_nil_iff n view).mpr h

theorem takeBunch_fst : (ch.takeBunch view count).1 = (readMessages count ⟨view, false⟩).1 := rfl

theorem takeBunch_receivedMessages : (ch.takeBunch view count).2.receivedMessages =
    ch.receivedMessages ++ (readMessages count ⟨view, false⟩).2 := rfl

theorem takeBunch_inReliable : (ch.takeBunch view count).2.inReliable =
    if (readMessages count ⟨view, false⟩).1 then (ch.inReliable + 1) % 2 ^ 32 else ch.inReliable := rfl

theorem allOrNothing_of_whole (h : MessagesWhole (2 ^ 16) count view) : AllOrNothing ch view count := by
  have hok := (readMessages_ok_iff count view).mpr h
  have hlen := readMessages_length count _ hok
  refine ⟨?_, ?_, ?_, ?_⟩
  · rw [takeBunch_fst, hok]
    exact fun hf => by cases hf
  · rw [takeBunch_inReliable, hok]
    exact fun _ => rfl
  · rw [takeBunch_receivedMessages, List.length_append, hlen]
    exact fun _ => rfl
  · rw [takeBunch_fst, hok]
    exact fun hf => by cases hf

theorem allOrNothing_of_cutAtFirst (h : ¬ MessagesWhole (2 ^ 16) 1 view) (hnot : ¬ MessagesWhole (2 ^ 16) count view) :
    AllOrNothing ch view count := by
  have hnil : (readMessages count ⟨view, false⟩).2 = [] := readMessages_of_cutAtFirst h
  have hfail : (readMessages count ⟨view, false⟩).1 = false := by
    rw [← Bool.not_eq_true, readMessages_ok_iff]
    exact hnot
  have hsame : (ch.takeBunch view count).2.receivedMessages = ch.receivedMessages := by
    rw [takeBunch_receivedMessages, hnil, List.append_nil]
  refine ⟨fun _ => hsame, fun hne => absurd hsame hne, ?_, ?_⟩
  · rw [takeBunch_inReliable, hfail]
    exact fun hne => absurd rfl hne
  · intro _
    rw [takeBunch_receivedMessages, hsame, hnil, List.append_nil]

/-- The dispatch of a bunch is all or nothing exactly if it is not cut behind its first message. -/
theorem allOrNothing_iff (ch : NetChannel) (view : List Byte) (count : ℕ) :
    AllOrNothing ch view count ↔ WholeOrCutAtFirst view count := by
  constructor
  · intro h
    by_contra hnot
    unfold WholeOrCutAtFirst at hnot
    push Not at hnot
    obtain ⟨hcut, hfirst⟩ := hnot
    have hfail : (ch.takeBunch view count).1 = false := by
      rw [takeBunch_fst, ← Bool.not_eq_true, readMessages_ok_iff]
      exact hcut
    have hnil := h.nothing hfail
    rw [takeBunch_receivedMessages, List.append_right_eq_self] at hnil
    cases count with
    | zero => exact hcut trivial
    | succ n => exact (readMessages_eq_nil_iff n view).mp hnil hfirst
  · intro h
    by_cases hwhole : MessagesWhole (2 ^ 16) count view
    · exact allOrNothing_of_whole hwhole
    · exact allOrNothing_of_cutAtFirst (h.resolve_left hwhole) hwhole

/-- A message of one byte, and the front of another: the first is handed on, the bunch fails and is not counted, and when it
comes again the message is handed on for the second time. -/
theorem partly_dispatched : ¬ ∀ (ch : NetChannel) (view : List Byte) (count : ℕ), AllOrNothing ch view count := by
  intro h
  have hnothing := (h (NetChannel.init 0 0 0) [5, 0, 1, 0, 7, 9, 0] 2).nothing (by decide +kernel)
  rw [takeBunch_receivedMessages] at hnothing
  exact absurd hnothing (by decide +kernel)

/-! ## The bunches that wait -/

/-- What the bunches counted in `InReliable` have handed on: all their messages. -/
structure Delivered (ch ch' : NetChannel) (taken : List (List RecvMessageReader)) : Prop where
  receivedMessages : ch'.receivedMessages = ch.receivedMessages ++ taken.flatten
  inReliable : ch'.inReliable % 2 ^ 32 = (ch.inReliable + taken.length) % 2 ^ 32

theorem delivered_takeBunch (ch : NetChannel) (h : WholeOrCutAtFirst view count) : ∃ taken, Delivered ch (ch.takeBunch view count).2 taken ∧
    ∀ messages ∈ taken, (readMessages count ⟨view, false⟩) = (true, messages) := by
  by_cases hok : (readMessages count ⟨view, false⟩).1 = true
  · refine ⟨[(readMessages count ⟨view, false⟩).2], ⟨?_, ?_⟩, ?_⟩
    · rw [takeBunch_receivedMessages, List.flatten_singleton]
    · rw [takeBunch_inReliable, if_pos hok, Nat.mod_mod]
      rfl
    · intro messages hm
      obtain rfl := List.mem_singleton.mp hm
      exact Prod.ext hok rfl
  · have hcut := h.resolve_left fun hwhole => hok ((readMessages_ok_iff count view).mpr hwhole)
    refine ⟨[], ⟨?_, ?_⟩, fun messages hm => absurd hm List.not_mem_nil⟩
    · rw [takeBunch_receivedMessages, readMessages_of_cutAtFirst hcut]
      rfl
    · rw [takeBunch_inReliable, if_neg hok]
      rfl

theorem Delivered.trans {ch' ch'' : NetChannel} {taken taken' : List (List RecvMessageReader)} (h : Delivered ch ch' taken)
    (h' : Delivered ch' ch'' taken') : Delivered ch ch'' (taken ++ taken') := by
  obtain ⟨hr, hi⟩ := h
  obtain ⟨hr', hi'⟩ := h'
  refine ⟨?_, ?_⟩
  · rw [hr', hr, List.flatten_append, List.append_assoc]
  · rw [hi', List.length_append]
    omega

theorem delivered_drain : ∀ (fuel : ℕ) (ch : NetChannel),
    (∀ k b, ch.inUnreadBunchMap.find? k = some b → WholeOrCutAtFirst b.buffer b.messageCount) →
      ∃ taken, Delivered ch (drain fuel ch) taken
  | 0, ch, _ => ⟨[], (List.append_nil _).symm, rfl⟩
  | fuel + 1, ch, hall => by
    cases hready : ch.drainReady with
    | false =>
      rw [drain_of_not_ready hready]
      exact ⟨[], (List.append_nil _).symm, rfl⟩
    | true =>
      obtain ⟨key, b, -, hfind, he⟩ := drain_of_ready hready fuel
      obtain ⟨taken, htaken, -⟩ := delivered_takeBunch ch (hall key b hfind)
      have hnext : Delivered ch { (ch.takeBunch b.buffer b.messageCount).2 with
          inUnreadBunchMap := ch.inUnreadBunchMap.erase key } taken := ⟨htaken.receivedMessages, htaken.inReliable⟩
      rw [he]
      cases b.readable with
      | false => exact ⟨taken, hnext⟩
      | true =>
        obtain ⟨taken', hrest⟩ := delivered_drain fuel { (ch.takeBunch b.buffer b.messageCount).2 with
            inUnreadBunchMap := ch.inUnreadBunchMap.erase key } (by
          intro k b' hb'
          simp only [SortedMap.find?_erase] at hb'
          split_ifs at hb'
          exact hall k b' hb')
        exact ⟨taken ++ taken', hnext.trans hrest⟩

/-- Where no bunch is cut behind its first message, `InReliable` moves on by one for each bunch whose messages
`DispatchRawBunch` hands on, the bunch that came and those that waited for it. -/
theorem dispatchRawBunch_delivered (h : WholeOrCutAtFirst view count)
    (hall : ∀ k b, ch.inUnreadBunchMap.find? k = some b → WholeOrCutAtFirst b.buffer b.messageCount) :
    ∃ taken, Delivered ch (ch.dispatchRawBunch view count) taken := by
  obtain ⟨taken, htaken, -⟩ := delivered_takeBunch ch h
  obtain ⟨taken', hrest⟩ := delivered_drain (ch.takeBunch view count).2.inUnreadBunchMap.size (ch.takeBunch view count).2 hall
  exact ⟨taken ++ taken', htaken.trans hrest⟩

end NetChannel

end RudpEngine
