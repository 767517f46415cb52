import RudpEngine.AckedContent

/-!
# The bounds of a payload

`DispatchPacket` trusts the sizes in a payload as far as its reader lets it: a
view that is too long is empty, and the error it leaves ends the loop. So the
rounds of the loop take the payload apart from the front, each by a byte at
least, whatever is in it.
-/

namespace RudpEngine

namespace BufferReader

variable {r : BufferReader}

theorem read_of_canRead {k : ℕ} (h : r.canRead k = true) :
    r.read k = (some (leNat (r.view.take k)), { r with view := r.view.drop k }) := by
  unfold canRead at h
  rw [Bool.and_eq_true, decide_eq_true_eq] at h
  rw [read, if_neg (Nat.not_lt.mpr h.2)]

theorem readView_append (r : BufferReader) (k : ℕ) : (r.readView k).1 ++ (r.readView k).2.view = r.view := by
  unfold readView
  split_ifs
  · rfl
  · exact List.take_append_drop k r.view

theorem readView_length (r : BufferReader) (k : ℕ) : (r.readView k).1.length = k ∨ (r.readView k).1 = [] := by
  unfold readView
  split_ifs with h
  · exact .inr rfl
  · left
    rw [List.length_take]
    omega

end BufferReader

namespace NetChannel

/-- The messages lie in the bytes one behind the other, each behind its header and of the size that its header names. -/
inductive MessagesIn (capacity : ℕ) : List Byte → List RecvMessageReader → Prop
  | nil (view : List Byte) : MessagesIn capacity view []
  | cons {head rest : List Byte} {message : RecvMessageReader} {messages : List RecvMessageReader}
      (four : head.length = 4) (size : message.view.length = (leNat head % capacity + capacity - 4) % capacity)
      (id : message.messageId = leNat head / capacity) (others : MessagesIn capacity rest messages) :
      MessagesIn capacity (head ++ message.view ++ rest) (message :: messages)

theorem messagesIn_messageRound {capacity : ℕ} {next : BufferReader → Bool × List RecvMessageReader}
    (hnext : ∀ view, MessagesIn capacity view (next ⟨view, false⟩).2) (view : List Byte) :
    MessagesIn capacity view (messageRound capacity next ⟨view, false⟩).2 := by
  by_cases h : 4 ≤ view.length ∧ (leNat (view.take 4) % capacity + capacity - 4) % capacity ≤ (view.drop 4).length
  · rw [messageRound_whole capacity next h.1 h.2]
    generalize hsize : (leNat (view.take 4) % capacity + capacity - 4) % capacity = size at h
    have hparts : view = view.take 4 ++ (view.drop 4).take size ++ (view.drop 4).drop size := by
      rw [List.append_assoc, List.take_append_drop, List.take_append_drop]
    have hfour : (view.take 4).length = 4 := by
      rw [List.length_take]
      exact Nat.min_eq_left h.1
    have hlen : ((view.drop 4).take size).length = size := by
      rw [List.length_take]
      exact Nat.min_eq_left h.2
    have hcons := @MessagesIn.cons capacity (view.take 4) ((view.drop 4).drop size)
      ⟨(view.drop 4).take size, leNat (view.take 4) / capacity⟩ _ hfour (hlen.trans hsize.symm) rfl (hnext _)
    rw [← hparts] at hcons
    exact hcons
  · rw [messageRound_cut capacity next h]
    exact .nil view

theorem messagesIn_readMessages (n : ℕ) : ∀ view, MessagesIn (2 ^ 16) view (readMessages n ⟨view, false⟩).2 := by
  induction n with
  | zero => exact fun view => .nil view
  | succ n ih =>
    intro view
    rw [readMessages_succ]
    exact messagesIn_messageRound ih view

theorem messagesIn_messages (b : InBunchReader) : MessagesIn (2 ^ 16) b.buffer b.messages :=
  messagesIn_readMessages b.messageCount b.buffer

/-- What a channel that gets a bunch hands on: messages that lie in the bunch, and those of bunches that waited, each
message in its own bunch. -/
def HandsOn (ch : NetChannel) (view : List Byte) (messages : List RecvMessageReader) : Prop :=
  ∃ (own : List RecvMessageReader) (waited : List InBunchReader), messages = own ++ waited.flatMap InBunchReader.messages ∧
    MessagesIn (2 ^ 16) view own ∧ waited.length ≤ ch.inUnreadBunchMap.size ∧
      ∀ b ∈ waited, (∃ key, ch.inUnreadBunchMap.find? key = some b) ∧ MessagesIn (2 ^ 16) b.buffer b.messages

theorem drain_waited : ∀ (fuel : ℕ) (ch : NetChannel), ∃ waited : List InBunchReader,
    (drain fuel ch).receivedMessages = ch.receivedMessages ++ waited.flatMap InBunchReader.messages ∧
      waited.length ≤ ch.inUnreadBunchMap.size ∧ ∀ b ∈ waited, ∃ key, ch.inUnreadBunchMap.find? key = some b
  | 0, ch => ⟨[], (List.append_nil _).symm, Nat.zero_le _, fun b hb => absurd hb List.not_mem_nil⟩
  | fuel + 1, ch => by
    cases hready : ch.drainReady with
    | false =>
      rw [drain_of_not_ready hready]
      exact ⟨[], (List.append_nil _).symm, Nat.zero_le _, fun b hb => absurd hb List.not_mem_nil⟩
    | true =>
      obtain ⟨key, b, -, hfind, he⟩ := drain_of_ready hready fuel
      have hsize : (ch.inUnreadBunchMap.erase key).size + 1 = ch.inUnreadBunchMap.size := SortedMap.size_erase _ hfind
      rw [he]
      cases b.readable with
      | false =>
        refine ⟨[b], by simp [takeBunch_eq], by simp only [List.length_singleton]; omega, ?_⟩
        intro b' hb'
        obtain rfl := List.mem_singleton.mp hb'
        exact ⟨key, hfind⟩
      | true =>
        obtain ⟨waited, hreceived, hlen, hall⟩ := drain_waited fuel
          { (ch.takeBunch b.buffer b.messageCount).2 with inUnreadBunchMap := ch.inUnreadBunchMap.erase key }
        refine ⟨b :: waited, ?_, ?_, ?_⟩
        · have hown : (ch.takeBunch b.buffer b.messageCount).2.receivedMessages = ch.receivedMessages ++ b.messages := rfl
          rw [List.flatMap_cons, ← List.append_assoc, ← hown]
          exact hreceived
        · simp only at hlen
          rw [List.length_cons]
          omega
        · intro b' hb'
          rcases List.mem_cons.mp hb' with rfl | hb'
          · exact ⟨key, hfind⟩
          · obtain ⟨key', hfind'⟩ := hall b' hb'
            simp only [SortedMap.find?_erase] at hfind'
            split_ifs at hfind'
            exact ⟨key', hfind'⟩

theorem handsOn_dispatchRawBunch (ch : NetChannel) (view : List Byte) (messageCount : ℕ) :
    ∃ messages, ch.HandsOn view messages ∧
      (ch.dispatchRawBunch view messageCount).receivedMessages = ch.receivedMessages ++ messages := by
  obtain ⟨waited, hreceived, hlen, hall⟩ := drain_waited (ch.takeBunch view messageCount).2.inUnreadBunchMap.size
    (ch.takeBunch view messageCount).2
  refine ⟨(readMessages messageCount ⟨view, false⟩).2 ++ waited.flatMap InBunchReader.messages,
    ⟨_, waited, rfl, messagesIn_readMessages messageCount view, hlen, ?_⟩, ?_⟩
  · exact fun b hb => ⟨hall b hb, messagesIn_messages b⟩
  · rw [← List.append_assoc]
    exact hreceived

end NetChannel

namespace NetConnection

/-! ## One round of the loop -/

inductive BunchFate where
  | kept
  | dispatched
  | refused
  deriving DecidableEq

/-- The branches behind `ReadView`: the sequence number, then `ChIndex` of the channel. -/
def bunchFate (header : InBunchHeader) (ch : NetChannel) : BunchFate :=
  if header.bReliable && bunchSequence header ch ≠ (ch.inReliable + 1) % 2 ^ 32 then .kept
  else if ch.chIndex ≤ 1 then .dispatched
  else .refused

structure GivenBunch where
  header : InBunchHeader
  channel : NetChannel
  fate : BunchFate

/-- One round of the loop of `DispatchPacket`: the bytes it takes from the payload, the bunch it gives to a channel, the
reader and the connection behind it, whether it sets `bOutHasBunchErrors` and whether the loop goes on. -/
structure Round where
  start : NetConnection
  sizeByte : List Byte
  headerView : List Byte
  view : List Byte
  given : Option GivenBunch
  rest : BufferReader
  conn : NetConnection
  hasBunchErrors : Bool
  goesOn : Bool

def Round.consumed (round : Round) : List Byte := round.sizeByte ++ round.headerView ++ round.view

def round (packetReader : BufferReader) (c : NetConnection) : Round :=
  let sizeByte := packetReader.view.take 1
  let (bunchHeaderByteSize, packetReader) := packetReader.read 1
  if bunchHeaderByteSize.getD 0 < 10 then ⟨c, sizeByte, [], [], none, packetReader, c, true, false⟩
  else
    let (bunchHeaderView, packetReader) := packetReader.readView (bunchHeaderByteSize.getD 0 - 1)
    if bunchHeaderView.isEmpty then ⟨c, sizeByte, [], [], none, packetReader, c, true, false⟩
    else
      let header := readBunchHeader bunchHeaderView
      if 128 ≤ header.chIndex ∨ c.channels.length ≤ header.chIndex then
        ⟨c, sizeByte, bunchHeaderView, [], none, packetReader, c, true, false⟩
      else
        let c' := c.findOrCreateChannel header
        match c'.channel? header.chIndex with
        | none => ⟨c, sizeByte, bunchHeaderView, [], none, packetReader, c', true, false⟩
        | some ch =>
          let (view, packetReader) := packetReader.readView header.bunchPayload
          let given := some ⟨header, ch, bunchFate header ch⟩
          match takeBunch header view ch with
          | some ch =>
            ⟨c, sizeByte, bunchHeaderView, view, given, packetReader, c'.setChannel header.chIndex ch, false, true⟩
          | none => ⟨c, sizeByte, bunchHeaderView, view, given, packetReader, c', true, !c.isServer⟩

/-- The loop of `DispatchPacket`, round by round, and what it leaves: its reader, the connection and `bOutHasBunchErrors`. -/
inductive Rounds : BufferReader → NetConnection → List Round → BufferReader → NetConnection → Bool → Prop
  | done {r : BufferReader} {c : NetConnection} (stop : r.canRead 1 = false ∨ c.state = .closed) : Rounds r c [] r c false
  | last {r : BufferReader} {c : NetConnection} (can : r.canRead 1 = true) (state : c.state ≠ .closed)
      (out : (round r c).goesOn = false) :
      Rounds r c [round r c] (round r c).rest (round r c).conn (round r c).hasBunchErrors
  | next {r r' : BufferReader} {c c' : NetConnection} {rounds : List Round} {errors : Bool} (can : r.canRead 1 = true)
      (state : c.state ≠ .closed) (on : (round r c).goesOn = true)
      (others : Rounds (round r c).rest (round r c).conn rounds r' c' errors) :
      Rounds r c (round r c :: rounds) r' c' ((round r c).hasBunchErrors || errors)

def handedOn (c : NetConnection) (i : ℕ) : List RecvMessageReader :=
  ((c.channel? i).map NetChannel.receivedMessages).getD []

/-- A given bunch has a number of a channel that is there, or that has a definition; its view has the size its header
claims, or is empty. -/
structure GivenBunch.Bounded (g : GivenBunch) (round : Round) : Prop where
  header : g.header = readBunchHeader round.headerView
  index : g.header.chIndex < 128 ∧ g.header.chIndex < round.start.channels.length
  channel : round.start.channel? g.header.chIndex = some g.channel ∨
    round.start.channel? g.header.chIndex = none ∧ g.header.chIndex ≤ 1 ∧ g.channel.chIndex = g.header.chIndex
  view : round.view.length = g.header.bunchPayload ∨ round.view = []
  dispatched : g.fate = .dispatched → g.channel.chIndex ≤ 1 ∧ ∃ messages, g.channel.HandsOn round.view messages ∧
    ∀ i, round.conn.handedOn i =
      if i = g.header.chIndex then round.start.handedOn i ++ messages else round.start.handedOn i

def InOwnSlots (c : NetConnection) : Prop := ∀ i ch, c.channel? i = some ch → ch.chIndex = i

/-- The header is read inside its view, a bunch that is given is bounded, and nothing else is handed on. -/
structure Round.Bounded (round : Round) : Prop where
  header : round.headerView ≠ [] → (BitReader.ofBytes round.headerView (round.headerView.length * 8)).Holds 72
  given : ∀ g ∈ round.given, g.Bounded round
  quiet : (∀ g ∈ round.given, g.fate ≠ .dispatched) → ∀ i, round.conn.handedOn i = round.start.handedOn i
  slots : round.start.InOwnSlots → round.conn.InOwnSlots

variable {c : NetConnection} {r : BufferReader}

theorem takeBunch_fate (header : InBunchHeader) (view : List Byte) (ch : NetChannel) : takeBunch header view ch =
    match bunchFate header ch with
    | .kept => some (ch.addUnreadInCopyBunch (bunchSequence header ch) ⟨view, bunchSequence header ch, header.messageCount⟩)
    | .dispatched => some (ch.dispatchRawBunch view header.messageCount)
    | .refused => none := by
  unfold takeBunch bunchFate
  simp only
  split_ifs <;> rfl

theorem dispatchRound_round (next : BufferReader → NetConnection → NetConnection × Bool) (hcan : r.canRead 1 = true)
    (hstate : c.state ≠ .closed) : dispatchRound next r c =
      if (round r c).goesOn then
        ((next (round r c).rest (round r c).conn).1,
          (round r c).hasBunchErrors || (next (round r c).rest (round r c).conn).2)
      else ((round r c).conn, (round r c).hasBunchErrors) := by
  rw [dispatchRound, round]
  simp only [hcan, Bool.not_true, hstate, decide_false, Bool.or_self, Bool.false_eq_true, if_false]
  generalize r.read 1 = sr
  obtain ⟨size, r₁⟩ := sr
  simp only
  by_cases hsize : size.getD 0 < 10
  · simp only [hsize, if_true, Bool.false_eq_true, if_false]
  simp only [hsize, if_false]
  generalize r₁.readView (size.getD 0 - 1) = vr
  obtain ⟨headerView, r₂⟩ := vr
  cases hempty : headerView.isEmpty with
  | true => simp only [if_true, Bool.false_eq_true, if_false]
  | false =>
    simp only [Bool.false_eq_true, if_false]
    generalize readBunchHeader headerView = header
    by_cases hindex : 128 ≤ header.chIndex ∨ c.channels.length ≤ header.chIndex
    · simp only [hindex, if_true, Bool.false_eq_true, if_false]
    simp only [hindex, if_false]
    have hserver : (c.findOrCreateChannel header).isServer = c.isServer := by rw [findOrCreateChannel_conn]
    cases hch : (c.findOrCreateChannel header).channel? header.chIndex with
    | none => simp only [Bool.false_eq_true, if_false]
    | some ch =>
      simp only
      generalize r₂.readView header.bunchPayload = wr
      obtain ⟨view, r₃⟩ := wr
      cases htake : takeBunch header view ch with
      | some ch' => simp only [if_true, Bool.false_or]
      | none => cases hs : c.isServer <;> simp [hserver, hs]

/-- A round takes its bytes from the front of what is left. -/
theorem round_append (hcan : r.canRead 1 = true) (c : NetConnection) :
    (round r c).sizeByte.length = 1 ∧ (round r c).consumed ++ (round r c).rest.view = r.view := by
  have hone : (r.view.take 1).length = 1 := by
    unfold BufferReader.canRead at hcan
    rw [Bool.and_eq_true, decide_eq_true_eq] at hcan
    rw [List.length_take, Nat.min_eq_left hcan.2]
  have hfront : r.view.take 1 ++ r.view.drop 1 = r.view := List.take_append_drop 1 r.view
  unfold Round.consumed round
  simp only [BufferReader.read_of_canRead hcan, Option.getD_some]
  by_cases hsize : leNat (r.view.take 1) < 10
  · simp only [hsize, if_true, List.append_nil]
    exact ⟨hone, hfront⟩
  simp only [hsize, if_false]
  have hheader := BufferReader.readView_append { r with view := r.view.drop 1 } (leNat (r.view.take 1) - 1)
  generalize BufferReader.readView { r with view := r.view.drop 1 } (leNat (r.view.take 1) - 1) = vr at hheader ⊢
  obtain ⟨headerView, r₂⟩ := vr
  have hrest : r.view.take 1 ++ headerView ++ r₂.view = r.view := by
    rw [List.append_assoc, hheader]
    exact hfront
  cases hempty : headerView.isEmpty with
  | true =>
    obtain rfl := List.isEmpty_iff.mp hempty
    simp only [if_true, List.append_nil]
    rw [List.append_nil] at hrest
    exact ⟨hone, hrest⟩
  | false =>
    simp only [Bool.false_eq_true, if_false]
    generalize readBunchHeader headerView = header
    by_cases hindex : 128 ≤ header.chIndex ∨ c.channels.length ≤ header.chIndex
    · simp only [hindex, if_true, List.append_nil]
      exact ⟨hone, hrest⟩
    simp only [hindex, if_false]
    cases (c.findOrCreateChannel header).channel? header.chIndex with
    | none =>
      simp only [List.append_nil]
      exact ⟨hone, hrest⟩
    | some ch =>
      have hview := r₂.readView_append header.bunchPayload
      simp only
      generalize r₂.readView header.bunchPayload = wr at hview
      obtain ⟨view, r₃⟩ := wr
      have hall : r.view.take 1 ++ headerView ++ view ++ r₃.view = r.view := by
        rw [List.append_assoc, hview]
        exact hrest
      cases takeBunch header view ch with
      | some ch' => exact ⟨hone, hall⟩
      | none => exact ⟨hone, hall⟩

theorem round_shorter (hcan : r.canRead 1 = true) (c : NetConnection) : (round r c).rest.view.length < r.view.length := by
  obtain ⟨hone, happend⟩ := round_append hcan c
  have hlen := congrArg List.length happend
  unfold Round.consumed at hlen
  rw [List.length_append, List.length_append, List.length_append, hone] at hlen
  omega

section
variable {header : InBunchHeader} {ch ch' : NetChannel}

/-- The channel of a bunch is made if it is not there, for one of the two numbers that have a name. -/
theorem findOrCreateChannel_cases (c : NetConnection) (header : InBunchHeader) : c.findOrCreateChannel header = c ∨
    c.channel? header.chIndex = none ∧ header.chIndex ≤ 1 ∧
      c.findOrCreateChannel header = c.createChannelByName header.chIndex := by
  unfold findOrCreateChannel
  cases c.channel? header.chIndex with
  | some ch => exact .inl rfl
  | none =>
    simp only [Bool.and_eq_true, decide_eq_true_eq, true_and]
    split_ifs with hname
    · exact .inr ⟨hname.2, rfl⟩
    · exact .inl rfl

theorem channel?_createChannelByName {i : ℕ} (hi : i < c.channels.length) (j : ℕ) : (c.createChannelByName i).channel? j =
    if j = i then some (NetChannel.init i c.initInReliable c.initOutReliable) else c.channel? j :=
  channel?_setChannel hi _ j

theorem findOrCreateChannel_found (hi : header.chIndex < c.channels.length)
    (h : (c.findOrCreateChannel header).channel? header.chIndex = some ch) : c.channel? header.chIndex = some ch ∨
      c.channel? header.chIndex = none ∧ header.chIndex ≤ 1 ∧
        ch = NetChannel.init header.chIndex c.initInReliable c.initOutReliable := by
  rcases c.findOrCreateChannel_cases header with hsame | ⟨hnone, hone, hmade⟩
  · rw [hsame] at h
    exact .inl h
  · rw [hmade, channel?_createChannelByName hi, if_pos rfl] at h
    exact .inr ⟨hnone, hone, (Option.some.inj h).symm⟩

theorem handedOn_findOrCreateChannel (hi : header.chIndex < c.channels.length) (i : ℕ) :
    (c.findOrCreateChannel header).handedOn i = c.handedOn i := by
  rcases c.findOrCreateChannel_cases header with hsame | ⟨hnone, -, hmade⟩
  · rw [hsame]
  · unfold handedOn
    rw [hmade, channel?_createChannelByName hi]
    split_ifs with heq
    · rw [heq, hnone]
      rfl
    · rfl

theorem InOwnSlots.findOrCreateChannel (h : c.InOwnSlots) (hi : header.chIndex < c.channels.length) :
    (c.findOrCreateChannel header).InOwnSlots := by
  rcases c.findOrCreateChannel_cases header with hsame | ⟨-, -, hmade⟩
  · rw [hsame]
    exact h
  · intro i ch hch
    rw [hmade, channel?_createChannelByName hi] at hch
    split_ifs at hch with heq
    · rw [← Option.some.inj hch, heq]
      rfl
    · exact h i ch hch

theorem takeBunch_chIndex {view : List Byte} (h : takeBunch header view ch = some ch') : ch'.chIndex = ch.chIndex := by
  rw [takeBunch_fate] at h
  cases hfate : bunchFate header ch with
  | kept =>
    simp only [hfate, Option.some.injEq] at h
    rw [← h]
    unfold NetChannel.addUnreadInCopyBunch
    cases ch.inUnreadBunchMap.find? (bunchSequence header ch) with
    | some b => rfl
    | none => rfl
  | dispatched =>
    simp only [hfate, Option.some.injEq] at h
    obtain ⟨_, _, hstepped⟩ := ch.stepped_dispatchRawBunch ⟨view, 0, header.messageCount⟩
    rw [← h, hstepped.rest]
  | refused =>
    simp only [hfate] at h
    cases h

theorem handedOn_setChannel {c' : NetConnection} {k : ℕ} (hch : c'.channel? k = some ch)
    {messages : List RecvMessageReader} (h : ch'.receivedMessages = ch.receivedMessages ++ messages) (i : ℕ) :
    (c'.setChannel k ch').handedOn i = if i = k then c'.handedOn i ++ messages else c'.handedOn i := by
  unfold handedOn
  rw [channel?_setChannel (lt_of_channel? hch)]
  split_ifs with heq
  · rw [heq, hch]
    exact h
  · rfl

end

theorem holds_header {headerView : List Byte} (h : 9 ≤ headerView.length) :
    (BitReader.ofBytes headerView (headerView.length * 8)).Holds 72 := by
  rw [BitReader.ofBytes_whole]
  exact ⟨rfl, by simp only; omega⟩

theorem Round.bounded_of_not_given {round : Round}
    (header : round.headerView ≠ [] → (BitReader.ofBytes round.headerView (round.headerView.length * 8)).Holds 72)
    (hgiven : round.given = none) (hsame : ∀ i, round.conn.handedOn i = round.start.handedOn i)
    (hslots : round.start.InOwnSlots → round.conn.InOwnSlots) : round.Bounded := by
  refine ⟨header, ?_, fun _ => hsame, hslots⟩
  intro g hg
  rw [hgiven] at hg
  cases hg

theorem addUnreadInCopyBunch_receivedMessages (ch : NetChannel) (k : ℕ) (b : InBunchReader) :
    (ch.addUnreadInCopyBunch k b).receivedMessages = ch.receivedMessages := by
  unfold NetChannel.addUnreadInCopyBunch
  cases ch.inUnreadBunchMap.find? k with
  | some b' => rfl
  | none => rfl

theorem handedOn_of_not_dispatched {c' : NetConnection} {header : InBunchHeader} {ch : NetChannel} {view : List Byte}
    (hch : c'.channel? header.chIndex = some ch) (hfate : bunchFate header ch ≠ .dispatched) (i : ℕ) :
    (((takeBunch header view ch).map (c'.setChannel header.chIndex)).getD c').handedOn i = c'.handedOn i := by
  rw [takeBunch_fate]
  cases hf : bunchFate header ch with
  | kept =>
    have hnone : (ch.addUnreadInCopyBunch (bunchSequence header ch)
        ⟨view, bunchSequence header ch, header.messageCount⟩).receivedMessages = ch.receivedMessages ++ [] := by
      rw [addUnreadInCopyBunch_receivedMessages, List.append_nil]
    simp only [Option.map_some, Option.getD_some]
    rw [handedOn_setChannel hch hnone, List.append_nil, ite_self]
  | dispatched => exact absurd hf hfate
  | refused => rfl

theorem handedOn_of_dispatched {c' : NetConnection} {header : InBunchHeader} {ch : NetChannel} (view : List Byte)
    (hch : c'.channel? header.chIndex = some ch) (hfate : bunchFate header ch = .dispatched) :
    ch.chIndex ≤ 1 ∧ ∃ messages, ch.HandsOn view messages ∧
      ∀ i, (((takeBunch header view ch).map (c'.setChannel header.chIndex)).getD c').handedOn i =
        if i = header.chIndex then c'.handedOn i ++ messages else c'.handedOn i := by
  obtain ⟨messages, hhands, hreceived⟩ := ch.handsOn_dispatchRawBunch view header.messageCount
  refine ⟨?_, messages, hhands, ?_⟩
  · unfold bunchFate at hfate
    split_ifs at hfate with h1 h2
    exact h2
  · rw [takeBunch_fate, hfate]
    exact handedOn_setChannel hch hreceived

/-- A round that gives a bunch to its channel; the connection is the one behind the bunch, taken or not. -/
theorem Round.bounded_of_given {round : Round} {header : InBunchHeader} {ch : NetChannel} {c' : NetConnection}
    (hread : header = readBunchHeader round.headerView)
    (hholds : (BitReader.ofBytes round.headerView (round.headerView.length * 8)).Holds 72) (hlt : header.chIndex < 128)
    (hi : header.chIndex < round.start.channels.length) (hfound : c' = round.start.findOrCreateChannel header)
    (hch : c'.channel? header.chIndex = some ch) (hview : round.view.length = header.bunchPayload ∨ round.view = [])
    (hgiven : round.given = some ⟨header, ch, bunchFate header ch⟩)
    (hconn : round.conn = ((takeBunch header round.view ch).map (c'.setChannel header.chIndex)).getD c') : round.Bounded := by
  have hsame := handedOn_findOrCreateChannel (c := round.start) hi
  rw [← hfound] at hsame
  refine ⟨fun _ => hholds, ?_, ?_, ?_⟩
  · intro g hg
    rw [hgiven] at hg
    obtain rfl := Option.some.inj hg
    refine ⟨hread, ⟨hlt, hi⟩, ?_, hview, ?_⟩
    · rw [hfound] at hch
      rcases findOrCreateChannel_found hi hch with hfind | ⟨hnone, hone, hinit⟩
      · exact .inl hfind
      · exact .inr ⟨hnone, hone, by rw [hinit]; rfl⟩
    · intro hfate
      obtain ⟨hone, messages, hhands, hall⟩ := handedOn_of_dispatched round.view hch hfate
      refine ⟨hone, messages, hhands, fun i => ?_⟩
      rw [hconn, hall i, hsame i]
  · intro hnot i
    rw [hconn, handedOn_of_not_dispatched hch (hnot _ hgiven) i, hsame i]
  · intro hslots
    have hslots' := hslots.findOrCreateChannel hi
    rw [← hfound] at hslots'
    rw [hconn]
    cases htake : takeBunch header round.view ch with
    | none => exact hslots'
    | some ch' =>
      intro i x hx
      simp only [Option.map_some, Option.getD_some, channel?_setChannel (lt_of_channel? hch)] at hx
      split_ifs at hx with heq
      · rw [← Option.some.inj hx, takeBunch_chIndex htake, heq]
        exact hslots' _ ch hch
      · exact hslots' i x hx

theorem round_bounded (hcan : r.canRead 1 = true) (c : NetConnection) : (round r c).Bounded := by
  unfold round
  simp only [BufferReader.read_of_canRead hcan, Option.getD_some]
  by_cases hsize : leNat (r.view.take 1) < 10
  · simp only [hsize, if_true]
    exact Round.bounded_of_not_given (fun hne => absurd rfl hne) rfl (fun _ => rfl) id
  simp only [hsize, if_false]
  have hlen := BufferReader.readView_length { r with view := r.view.drop 1 } (leNat (r.view.take 1) - 1)
  generalize BufferReader.readView { r with view := r.view.drop 1 } (leNat (r.view.take 1) - 1) = vr at hlen ⊢
  obtain ⟨headerView, r₂⟩ := vr
  cases hempty : headerView.isEmpty with
  | true =>
    simp only [if_true]
    exact Round.bounded_of_not_given (fun hne => absurd rfl hne) rfl (fun _ => rfl) id
  | false =>
    have hheader : (BitReader.ofBytes headerView (headerView.length * 8)).Holds 72 := by
      apply holds_header
      rcases hlen with hlen | rfl
      · simp only at hlen
        omega
      · cases hempty
    simp only [Bool.false_eq_true, if_false]
    generalize hread : readBunchHeader headerView = header
    by_cases hindex : 128 ≤ header.chIndex ∨ c.channels.length ≤ header.chIndex
    · simp only [hindex, if_true]
      exact Round.bounded_of_not_given (fun _ => hheader) rfl (fun _ => rfl) id
    simp only [hindex, if_false]
    have hlt : header.chIndex < 128 := by omega
    have hi : header.chIndex < c.channels.length := by omega
    generalize hfound : c.findOrCreateChannel header = c'
    cases hch : c'.channel? header.chIndex with
    | none =>
      have hsame := handedOn_findOrCreateChannel (c := c) hi
      have hslots : c.InOwnSlots → (c.findOrCreateChannel header).InOwnSlots := fun h => h.findOrCreateChannel hi
      rw [hfound] at hsame hslots
      exact Round.bounded_of_not_given (fun _ => hheader) rfl hsame hslots
    | some ch =>
      have hview := r₂.readView_length header.bunchPayload
      simp only
      generalize r₂.readView header.bunchPayload = wr at hview
      obtain ⟨view, r₃⟩ := wr
      cases htake : takeBunch header view ch with
      | some ch' =>
        exact Round.bounded_of_given hread.symm hheader hlt hi hfound.symm hch hview rfl (by rw [htake]; rfl)
      | none => exact Round.bounded_of_given hread.symm hheader hlt hi hfound.symm hch hview rfl (by rw [htake]; rfl)

/-! ## The whole loop -/

variable {r' : BufferReader} {c' : NetConnection} {rounds : List Round} {errors : Bool}

theorem exists_rounds (n : ℕ) : ∀ (r : BufferReader) (c : NetConnection), r.view.length ≤ n →
    ∃ rounds r' c' errors, Rounds r c rounds r' c' errors := by
  induction n with
  | zero =>
    intro r c hlen
    refine ⟨[], r, c, false, .done (.inl ?_)⟩
    unfold BufferReader.canRead
    rw [decide_eq_false (by omega), Bool.and_false]
  | succ n ih =>
    intro r c hlen
    by_cases hstop : r.canRead 1 = false ∨ c.state = .closed
    · exact ⟨[], r, c, false, .done hstop⟩
    · push Not at hstop
      obtain ⟨hcan, hstate⟩ := hstop
      rw [ne_eq, Bool.not_eq_false] at hcan
      have hshort := round_shorter hcan c
      cases hon : (round r c).goesOn with
      | false => exact ⟨_, _, _, _, .last hcan hstate hon⟩
      | true =>
        obtain ⟨rounds, r', c', errors, hrest⟩ := ih (round r c).rest (round r c).conn (by omega)
        exact ⟨_, r', c', _, .next hcan hstate hon hrest⟩

/-- The bound of the loop in the model is never what ends it. -/
theorem Rounds.dispatchLoop (h : Rounds r c rounds r' c' errors) :
    ∀ fuel, r.view.length ≤ fuel → NetConnection.dispatchLoop fuel r c = (c', errors) := by
  induction h with
  | @done r c stop =>
    intro fuel _
    cases fuel with
    | zero => rfl
    | succ fuel =>
      rw [NetConnection.dispatchLoop, dispatchRound, if_pos]
      rcases stop with hcan | hstate
      · rw [hcan]
        rfl
      · rw [hstate, decide_eq_true rfl, Bool.or_true]
  | @last r c can state out =>
    intro fuel hfuel
    have hshort := round_shorter can c
    obtain ⟨fuel, rfl⟩ : ∃ n, fuel = n + 1 := ⟨fuel - 1, by omega⟩
    rw [NetConnection.dispatchLoop, dispatchRound_round _ can state, if_neg (by rw [out]; exact Bool.false_ne_true)]
  | @next r r' c c' rounds errors can state on others ih =>
    intro fuel hfuel
    have hshort := round_shorter can c
    obtain ⟨fuel, rfl⟩ : ∃ n, fuel = n + 1 := ⟨fuel - 1, by omega⟩
    rw [NetConnection.dispatchLoop, dispatchRound_round _ can state, if_pos on, ih fuel (by omega)]

theorem Rounds.append (h : Rounds r c rounds r' c' errors) : rounds.flatMap Round.consumed ++ r'.view = r.view := by
  induction h with
  | done stop => rfl
  | @last r c can state out =>
    rw [List.flatMap_singleton]
    exact (round_append can c).2
  | @next r r' c c' rounds errors can state on others ih =>
    rw [List.flatMap_cons, List.append_assoc, ih]
    exact (round_append can c).2

theorem Rounds.length_le (h : Rounds r c rounds r' c' errors) : rounds.length ≤ r.view.length := by
  induction h with
  | done stop => exact Nat.zero_le _
  | @last r c can state out =>
    have hshort := round_shorter can c
    rw [List.length_singleton]
    omega
  | @next r r' c c' rounds errors can state on others ih =>
    have hshort := round_shorter can c
    rw [List.length_cons]
    omega

theorem Rounds.bounded (h : Rounds r c rounds r' c' errors) : ∀ x ∈ rounds, x.Bounded := by
  induction h with
  | done stop => exact fun x hx => absurd hx List.not_mem_nil
  | @last r c can state out =>
    intro x hx
    rw [List.mem_singleton.mp hx]
    exact round_bounded can c
  | @next r r' c c' rounds errors can state on others ih =>
    intro x hx
    rcases List.mem_cons.mp hx with rfl | hx
    · exact round_bounded can c
    · exact ih x hx

theorem round_start (r : BufferReader) (c : NetConnection) : (round r c).start = c := by
  unfold round
  simp only
  split_ifs
  · rfl
  · rfl
  · rfl
  · split
    · rfl
    · split
      · rfl
      · rfl

theorem Rounds.inOwnSlots (h : Rounds r c rounds r' c' errors) (hslots : c.InOwnSlots) :
    ∀ x ∈ rounds, x.start.InOwnSlots := by
  induction h with
  | done stop => exact fun x hx => absurd hx List.not_mem_nil
  | @last r c can state out =>
    intro x hx
    rw [List.mem_singleton.mp hx, round_start]
    exact hslots
  | @next r r' c c' rounds errors can state on others ih =>
    have hnext := (round_bounded can c).slots (by rw [round_start]; exact hslots)
    intro x hx
    rcases List.mem_cons.mp hx with rfl | hx
    · rw [round_start]
      exact hslots
    · exact ih hnext x hx

theorem GivenBunch.Bounded.chIndex_le {g : GivenBunch} {x : Round} (h : g.Bounded x) (hslots : x.start.InOwnSlots)
    (hfate : g.fate = .dispatched) : g.header.chIndex ≤ 1 := by
  rcases h.channel with hfind | ⟨-, hone, -⟩
  · rw [← hslots _ _ hfind]
    exact (h.dispatched hfate).1
  · exact hone

/-- Whatever the payload and the channels are, the loop of `DispatchPacket` ends, its rounds take the payload apart from the
front, and each of them stays inside what it took. -/
theorem payload_bounded (c : NetConnection) (reader : RecvPacketReader) :
    (∃ rounds r' c' errors, Rounds ⟨reader.payload, false⟩ c rounds r' c' errors) ∧
      ∀ rounds r' c' errors, Rounds ⟨reader.payload, false⟩ c rounds r' c' errors →
        c.dispatchPacket reader = (c', false, errors) ∧ rounds.length ≤ reader.payload.length ∧
          rounds.flatMap Round.consumed ++ r'.view = reader.payload ∧ (∀ x ∈ rounds, x.Bounded) ∧
            (c.InOwnSlots → ∀ x ∈ rounds, ∀ g ∈ x.given, g.fate = .dispatched → g.header.chIndex ≤ 1) := by
  refine ⟨exists_rounds _ _ c (Nat.le_refl _), ?_⟩
  intro rounds r' c' errors h
  refine ⟨?_, h.length_le, h.append, h.bounded, ?_⟩
  · unfold dispatchPacket
    rw [h.dispatchLoop _ (Nat.le_refl _)]
  · intro hslots x hx g hg hfate
    exact ((h.bounded x hx).given g hg).chIndex_le (h.inOwnSlots hslots x hx) hfate

end NetConnection

end RudpEngine
