import RudpEngine.DatagramFraming
import RudpEngine.PayloadBounds

/-!
# Where the messages of a datagram lie

A message that a channel queues is a view into the buffer of the datagram it
came in, not a copy of its bytes. The bunches of a payload lie one behind the
other, and so do the messages of a bunch.
-/

namespace RudpEngine

def BufferView.bytes (v : BufferView) (buffer : List Byte) : List Byte := (buffer.drop v.offset).take v.size

theorem bytes_of_prefix {buffer view : List Byte} {offset : ℕ} (h : view <+: buffer.drop offset) :
    BufferView.bytes ⟨offset, view.length⟩ buffer = view := (List.prefix_iff_eq_take.mp h).symm

theorem prefix_drop_of_append {buffer front view back : List Byte} {offset : ℕ}
    (h : front ++ view ++ back <+: buffer.drop offset) : view <+: buffer.drop (offset + front.length) := by
  obtain ⟨rest, hrest⟩ := h
  refine ⟨back ++ rest, ?_⟩
  rw [← List.drop_drop, ← hrest, List.append_assoc, List.append_assoc, List.drop_left]

theorem prefix_drop_of_append' {buffer front back : List Byte} {offset : ℕ} (h : front ++ back <+: buffer.drop offset) :
    back <+: buffer.drop (offset + front.length) := by
  rw [← List.append_nil (front ++ back)] at h
  exact prefix_drop_of_append h

/-- `RecvMessageReader` as it is queued: the event that owns its bytes and where they lie in its buffer, or the bytes of
a bunch that was copied. `message` is what it showed when it was queued. -/
structure PendingMessage where
  ownerEvent : Option ℕ
  view : BufferView
  message : RecvMessageReader
  deriving DecidableEq

/-- Where messages lie that begin at an offset, each behind its header. -/
def viewsFrom : ℕ → List RecvMessageReader → List BufferView
  | _, [] => []
  | offset, m :: ms => ⟨offset + 4, m.view.length⟩ :: viewsFrom (offset + 4 + m.view.length) ms

def ownMessages (event offset : ℕ) (messages : List RecvMessageReader) : List PendingMessage :=
  List.zipWith (fun v m => ⟨some event, v, m⟩) (viewsFrom offset messages) messages

def PendingMessage.ShownBy (p : PendingMessage) (buffer : List Byte) : Prop := p.view.bytes buffer = p.message.view

theorem ownMessages_shown {buffer : List Byte} {event : ℕ} {view : List Byte} {messages : List RecvMessageReader}
    (h : NetChannel.MessagesIn (2 ^ 16) view messages) : ∀ {offset : ℕ}, view <+: buffer.drop offset →
      ∀ p ∈ ownMessages event offset messages, p.ownerEvent = some event ∧ p.ShownBy buffer := by
  induction h with
  | nil view => exact fun _ p hp => absurd hp List.not_mem_nil
  | @cons head rest m ms four size id others ih =>
    intro offset hview p hp
    have hhere := prefix_drop_of_append hview
    rw [four] at hhere
    have hrest := prefix_drop_of_append' hview
    rw [List.length_append, four, ← Nat.add_assoc] at hrest
    rcases List.mem_cons.mp hp with rfl | hp
    · exact ⟨rfl, bytes_of_prefix hhere⟩
    · exact ih hrest p hp

namespace NetConnection

/-- The bunches of what is left of a payload that ends at `stop`, each with the offset of its view. -/
def bunchesAt (n stop : ℕ) : ℕ → BufferReader → List (ℕ × InBunchHeader × List Byte)
  | 0, _ => []
  | fuel + 1, r =>
    match readBunch n r with
    | none => []
    | some (header, view, r) => (stop - r.view.length - view.length, header, view) :: bunchesAt n stop fuel r

/-- What the dispatch of a bunch queues: its own messages and those of the copied bunches that it lets follow. -/
def queuedBy (c : NetConnection) (event offset : ℕ) (header : InBunchHeader) (view : List Byte) : List PendingMessage :=
  match (c.findOrCreateChannel header).channel? header.chIndex with
  | none => []
  | some ch =>
    match bunchFate header ch with
    | .dispatched =>
      let own := (NetChannel.readMessages header.messageCount ⟨view, false⟩).2
      let received := (ch.dispatchRawBunch view header.messageCount).receivedMessages
      ownMessages event offset own ++
        (received.drop (ch.receivedMessages.length + own.length)).map fun m => ⟨none, ⟨0, 0⟩, m⟩
    | _ => []

def queuedByAll (event : ℕ) : List (ℕ × InBunchHeader × List Byte) → NetConnection → List (ℕ × PendingMessage)
  | [], _ => []
  | (offset, header, view) :: bs, c =>
    (c.queuedBy event offset header view).map (header.chIndex, ·) ++
      if (c.dispatchBunch header view).2 then queuedByAll event bs (c.dispatchBunch header view).1 else []

/-- What `DispatchPacket` queues for a payload that lies in the buffer of an event. -/
def queuedMessages (c : NetConnection) (event offset : ℕ) (payload : List Byte) : List (ℕ × PendingMessage) :=
  if c.state = .closed then []
  else queuedByAll event (bunchesAt c.channels.length (offset + payload.length) payload.length ⟨payload, false⟩) c

section
variable {n : ℕ} {r r' : BufferReader} {header : InBunchHeader} {view : List Byte}

theorem readBunch_append (h : readBunch n r = some (header, view, r')) : ∃ front, front ++ view ++ r'.view = r.view := by
  unfold readBunch at h
  cases hcan : r.canRead 1 with
  | false => simp [hcan] at h
  | true =>
    simp only [hcan, Bool.not_true, Bool.false_eq_true, if_false, BufferReader.read_of_canRead hcan] at h
    split_ifs at h with hsize hempty hindex
    clear hsize hempty hindex
    generalize hr₁ : ({ r with view := r.view.drop 1 } : BufferReader) = r₁ at h
    have hhead := r₁.readView_append ((some (leNat (r.view.take 1))).getD 0 - 1)
    generalize r₁.readView ((some (leNat (r.view.take 1))).getD 0 - 1) = vr at h hhead
    obtain ⟨headerView, r₂⟩ := vr
    simp only at h hhead
    have hbody := r₂.readView_append (readBunchHeader headerView).bunchPayload
    simp only [Option.some.injEq, Prod.mk.injEq] at h
    rw [h.2.1, h.2.2] at hbody
    refine ⟨r.view.take 1 ++ headerView, ?_⟩
    rw [List.append_assoc, hbody, List.append_assoc, hhead, ← hr₁]
    exact List.take_append_drop 1 r.view

/-- Every bunch of a payload in a buffer lies in that buffer where it is said to. -/
theorem bunchesAt_within {buffer payload : List Byte} {start : ℕ} (hpayload : payload <+: buffer.drop start) :
    ∀ (fuel : ℕ) (r : BufferReader), r.view <:+ payload → ∀ e ∈ bunchesAt n (start + payload.length) fuel r,
      e.2.2 <+: buffer.drop e.1
  | 0, _, _, e, he => absurd he List.not_mem_nil
  | fuel + 1, r, hr, e, he => by
    rw [bunchesAt] at he
    cases hread : readBunch n r with
    | none =>
      rw [hread] at he
      exact absurd he List.not_mem_nil
    | some found =>
      obtain ⟨header, view, r'⟩ := found
      rw [hread] at he
      obtain ⟨front, hfront⟩ := readBunch_append hread
      obtain ⟨before, rfl⟩ := hr
      rw [← hfront] at hpayload he
      rcases List.mem_cons.mp he with rfl | he
      · have hsplit : before ++ front ++ view ++ r'.view <+: buffer.drop start := by simpa using hpayload
        have hat := prefix_drop_of_append hsplit
        have hoffset : start + (before ++ (front ++ view ++ r'.view)).length - r'.view.length - view.length =
            start + (before ++ front).length := by
          simp only [List.length_append]
          omega
        simp only
        rw [hoffset]
        exact hat
      · refine bunchesAt_within hpayload fuel r' ⟨before ++ (front ++ view), by simp⟩ e he

/-- A message that is queued is owned by the event whose buffer shows it, or it is of a copied bunch. -/
theorem queuedBy_shown {buffer : List Byte} {event offset : ℕ} (c : NetConnection) (hview : view <+: buffer.drop offset) :
    ∀ p ∈ c.queuedBy event offset header view,
      p.ownerEvent = none ∨ (p.ownerEvent = some event ∧ p.ShownBy buffer) := by
  intro p hp
  unfold queuedBy at hp
  cases hch : (c.findOrCreateChannel header).channel? header.chIndex with
  | none =>
    rw [hch] at hp
    exact absurd hp List.not_mem_nil
  | some ch =>
    rw [hch] at hp
    cases hfate : bunchFate header ch with
    | kept =>
      simp only [hfate] at hp
      exact absurd hp List.not_mem_nil
    | refused =>
      simp only [hfate] at hp
      exact absurd hp List.not_mem_nil
    | dispatched =>
      simp only [hfate] at hp
      rcases List.mem_append.mp hp with hp | hp
      · exact .inr (ownMessages_shown (NetChannel.messagesIn_readMessages _ _) hview p hp)
      · obtain ⟨m, -, rfl⟩ := List.mem_map.mp hp
        exact .inl rfl

theorem queuedByAll_shown {buffer : List Byte} {event : ℕ} : ∀ (bs : List (ℕ × InBunchHeader × List Byte)) (c : NetConnection),
    (∀ e ∈ bs, e.2.2 <+: buffer.drop e.1) → ∀ e ∈ queuedByAll event bs c,
      e.2.ownerEvent = none ∨ (e.2.ownerEvent = some event ∧ e.2.ShownBy buffer)
  | [], _, _, e, he => absurd he List.not_mem_nil
  | (offset, header, view) :: bs, c, hbs, e, he => by
    rcases List.mem_append.mp he with he | he
    · obtain ⟨p, hp, rfl⟩ := List.mem_map.mp he
      exact queuedBy_shown c (hbs _ List.mem_cons_self) p hp
    · split_ifs at he
      · exact queuedByAll_shown bs _ (fun e he => hbs e (List.mem_cons_of_mem _ he)) e he
      · exact absurd he List.not_mem_nil

theorem queuedMessages_shown (c : NetConnection) (event offset : ℕ) {payload buffer : List Byte}
    (hpayload : payload <+: buffer.drop offset) : ∀ e ∈ c.queuedMessages event offset payload,
      e.2.ownerEvent = none ∨ (e.2.ownerEvent = some event ∧ e.2.ShownBy buffer) := by
  intro e he
  unfold queuedMessages at he
  split_ifs at he
  · exact absurd he List.not_mem_nil
  · exact queuedByAll_shown _ c (bunchesAt_within hpayload _ _ List.suffix_rfl) e he

end

end NetConnection

end RudpEngine
