import RudpEngine.Connection
import RudpEngine.Notifications

/-!
# Dispatching a payload, bunch by bunch

What a payload is split into does not depend on the channels, so `DispatchPacket`
is a fold over the bunches of its payload. Dispatching changes channels and
nothing else; the ack behind it changes the receive history.
-/

namespace RudpEngine

namespace NetConnection

/-- The next bunch of a payload, for a connection with `n` channels, and the rest of the payload. -/
def readBunch (n : ℕ) (r : BufferReader) : Option (InBunchHeader × List Byte × BufferReader) :=
  if !r.canRead 1 then none
  else
    let (size, r) := r.read 1
    if size.getD 0 < 10 then none
    else
      let (headerView, r) := r.readView (size.getD 0 - 1)
      if headerView.isEmpty then none
      else
        let header := readBunchHeader headerView
        if 128 ≤ header.chIndex ∨ n ≤ header.chIndex then none
        else
          let (view, r) := r.readView header.bunchPayload
          some (header, view, r)

def bunchesOf (n : ℕ) : ℕ → BufferReader → List (InBunchHeader × List Byte)
  | 0, _ => []
  | fuel + 1, r =>
    match readBunch n r with
    | none => []
    | some (header, view, r) => (header, view) :: bunchesOf n fuel r

variable (c : NetConnection)

def dispatchBunch (header : InBunchHeader) (view : List Byte) : NetConnection × Bool :=
  let c := c.findOrCreateChannel header
  match c.channel? header.chIndex with
  | none => (c, false)
  | some ch =>
    match takeBunch header view ch with
    | some ch => (c.setChannel header.chIndex ch, true)
    | none => (c, !c.isServer)

def dispatchBunches : List (InBunchHeader × List Byte) → NetConnection → NetConnection
  | [], c => c
  | (header, view) :: bs, c =>
    if (c.dispatchBunch header view).2 then dispatchBunches bs (c.dispatchBunch header view).1
    else (c.dispatchBunch header view).1

section
variable {c}

theorem findOrCreateChannel_conn (c : NetConnection) (header : InBunchHeader) :
    c.findOrCreateChannel header = { c with channels := (c.findOrCreateChannel header).channels } := by
  unfold findOrCreateChannel createChannelByName setChannel
  cases c.channel? header.chIndex with
  | some ch => rfl
  | none => simp only; split <;> rfl

@[simp] theorem findOrCreateChannel_length (c : NetConnection) (header : InBunchHeader) :
    (c.findOrCreateChannel header).channels.length = c.channels.length := by
  unfold findOrCreateChannel createChannelByName
  cases c.channel? header.chIndex with
  | some ch => rfl
  | none => simp only; split <;> simp

theorem dispatchBunch_conn (header : InBunchHeader) (view : List Byte) :
    (c.dispatchBunch header view).1 = { c with channels := (c.dispatchBunch header view).1.channels } ∧
      (c.dispatchBunch header view).1.channels.length = c.channels.length := by
  have hlen := c.findOrCreateChannel_length header
  unfold dispatchBunch
  rw [findOrCreateChannel_conn]
  rw [findOrCreateChannel_conn] at hlen
  generalize (c.findOrCreateChannel header).channels = cs at hlen
  simp only at hlen ⊢
  cases NetConnection.channel? { c with channels := cs } header.chIndex with
  | none => exact ⟨rfl, hlen⟩
  | some ch =>
    simp only
    cases takeBunch header view ch with
    | none => exact ⟨rfl, hlen⟩
    | some ch' => exact ⟨rfl, (length_setChannel _ _).trans hlen⟩

theorem channel?_dispatchBunch {header : InBunchHeader} {view : List Byte} {i : ℕ} {ch : NetChannel}
    (h : (c.dispatchBunch header view).1.channel? i = some ch) :
    (c.findOrCreateChannel header).channel? i = some ch ∨ i = header.chIndex ∧
      ∃ ch₀, (c.findOrCreateChannel header).channel? i = some ch₀ ∧ takeBunch header view ch₀ = some ch := by
  unfold dispatchBunch at h
  generalize c.findOrCreateChannel header = c' at h ⊢
  cases hch : c'.channel? header.chIndex with
  | none =>
    simp only [hch] at h
    exact .inl h
  | some ch₀ =>
    cases htake : takeBunch header view ch₀ with
    | none =>
      simp only [hch, htake] at h
      exact .inl h
    | some ch' =>
      simp only [hch, htake] at h
      rw [channel?_setChannel (lt_of_channel? hch)] at h
      split_ifs at h with hidx
      · obtain rfl := Option.some.inj h
        exact .inr ⟨hidx, ch₀, hidx ▸ hch, htake⟩
      · exact .inl h

theorem dispatchBunches_conn : ∀ (bs : List (InBunchHeader × List Byte)) (c : NetConnection),
    dispatchBunches bs c = { c with channels := (dispatchBunches bs c).channels } ∧
      (dispatchBunches bs c).channels.length = c.channels.length
  | [], _ => ⟨rfl, rfl⟩
  | (header, view) :: bs, c => by
    obtain ⟨h1, h2⟩ := c.dispatchBunch_conn header view
    obtain ⟨h3, h4⟩ := dispatchBunches_conn bs (c.dispatchBunch header view).1
    unfold dispatchBunches
    cases (c.dispatchBunch header view).2 with
    | true =>
      refine ⟨?_, h4.trans h2⟩
      simp only [if_true]
      rw [h3, h1]
    | false => exact ⟨h1, h2⟩

def BunchesMeet (P : NetConnection → InBunchHeader → List Byte → Prop) :
    List (InBunchHeader × List Byte) → NetConnection → Prop
  | [], _ => True
  | (header, view) :: bs, c =>
    P c header view ∧ ((c.dispatchBunch header view).2 = true → BunchesMeet P bs (c.dispatchBunch header view).1)

theorem dispatchBunches_rule {I : NetConnection → Prop} {P : NetConnection → InBunchHeader → List Byte → Prop}
    (hs : ∀ c header view, I c → P c header view → I (c.dispatchBunch header view).1) :
    ∀ (bs : List (InBunchHeader × List Byte)) (c : NetConnection), I c → BunchesMeet P bs c → I (dispatchBunches bs c)
  | [], _, h, _ => h
  | (header, view) :: bs, c, h, hP => by
    have hone := hs c header view h hP.1
    unfold dispatchBunches
    cases hgo : (c.dispatchBunch header view).2 with
    | true =>
      simp only [if_true]
      exact dispatchBunches_rule hs bs _ hone (hP.2 hgo)
    | false => exact hone

theorem dispatchLoop_of_closed (h : c.state = .closed) (r : BufferReader) : ∀ fuel, (dispatchLoop fuel r c).1 = c
  | 0 => rfl
  | fuel + 1 => by rw [dispatchLoop, dispatchRound, if_pos (by simp [h])]

def bunchRefused (c : NetConnection) (header : InBunchHeader) (view : List Byte) : Bool :=
  match (c.findOrCreateChannel header).channel? header.chIndex with
  | none => true
  | some ch => (takeBunch header view ch).isNone

theorem dispatchBunch_of_not_refused {header : InBunchHeader} {view : List Byte}
    (h : c.bunchRefused header view = false) : (c.dispatchBunch header view).2 = true := by
  unfold bunchRefused at h
  unfold dispatchBunch
  cases hch : (c.findOrCreateChannel header).channel? header.chIndex with
  | none => simp [hch] at h
  | some ch =>
    simp only [hch] at h
    cases htake : takeBunch header view ch with
    | none => simp [htake] at h
    | some ch' => simp [hch, htake]

theorem dispatchRound_eq (next : BufferReader → NetConnection → NetConnection × Bool) (r : BufferReader)
    (hstate : c.state ≠ .closed) : dispatchRound next r c =
      match readBunch c.channels.length r with
      | none => (c, r.canRead 1)
      | some (header, view, r') =>
        if c.bunchRefused header view then
          (if (c.dispatchBunch header view).2 then (next r' (c.dispatchBunch header view).1).1
            else (c.dispatchBunch header view).1, true)
        else next r' (c.dispatchBunch header view).1 := by
  rw [dispatchRound, readBunch]
  cases hcan : r.canRead 1 with
  | false => simp
  | true =>
    simp only [Bool.not_true, hstate, decide_false, Bool.or_self, Bool.false_eq_true, if_false]
    clear hcan
    generalize r.read 1 = sr
    obtain ⟨size, r₁⟩ := sr
    simp only
    by_cases hsize : size.getD 0 < 10
    · simp only [hsize, if_true]
    simp only [hsize, if_false]
    generalize r₁.readView (size.getD 0 - 1) = vr
    obtain ⟨headerView, r₂⟩ := vr
    cases hempty : headerView.isEmpty with
    | true => simp only [if_true]
    | false =>
      simp only [Bool.false_eq_true, if_false]
      generalize readBunchHeader headerView = header
      by_cases hindex : 128 ≤ header.chIndex ∨ c.channels.length ≤ header.chIndex
      · simp only [hindex, if_true]
      simp only [hindex, if_false]
      generalize r₂.readView header.bunchPayload = wr
      obtain ⟨view, r₃⟩ := wr
      have hserver : (c.findOrCreateChannel header).isServer = c.isServer := by rw [findOrCreateChannel_conn]
      unfold bunchRefused dispatchBunch
      cases hch : (c.findOrCreateChannel header).channel? header.chIndex with
      | none => simp [hch]
      | some ch =>
        cases htake : takeBunch header view ch with
        | some ch' => simp [hch, htake]
        | none => cases hs : c.isServer <;> simp [hch, htake, hserver, hs]

/-- The loop of `DispatchPacket` goes through the bunches of the payload. -/
theorem dispatchLoop_eq : ∀ (fuel : ℕ) (r : BufferReader) (c : NetConnection), c.state ≠ .closed →
    (dispatchLoop fuel r c).1 = dispatchBunches (bunchesOf c.channels.length fuel r) c
  | 0, _, _, _ => rfl
  | fuel + 1, r, c, hstate => by
    rw [dispatchLoop, dispatchRound_eq _ _ hstate, bunchesOf]
    cases readBunch c.channels.length r with
    | none => rfl
    | some e =>
      obtain ⟨header, view, r'⟩ := e
      obtain ⟨hconn, hlen⟩ := c.dispatchBunch_conn header view
      have hstate' : (c.dispatchBunch header view).1.state ≠ .closed := by rw [hconn]; exact hstate
      have ih := dispatchLoop_eq fuel r' (c.dispatchBunch header view).1 hstate'
      rw [hlen] at ih
      simp only [dispatchBunches, ← ih]
      cases href : c.bunchRefused header view with
      | true => simp only [if_true]
      | false => simp only [Bool.false_eq_true, if_false, dispatchBunch_of_not_refused href, if_true]

def payloadBunches (c : NetConnection) (payload : List Byte) : List (InBunchHeader × List Byte) :=
  bunchesOf c.channels.length payload.length ⟨payload, false⟩

/-- One round of `DispatchPendingPacket`: the bunches of the payload, then the ack. -/
theorem dispatchReader_eq (hstate : c.state ≠ .closed) (r : RecvPacketReader) : c.dispatchReader r =
    { dispatchBunches (c.payloadBunches r.payload) c with packetNotify := c.packetNotify.ackSeq (Seq.ofInt c.inPacketId) } := by
  unfold dispatchReader dispatchPacket
  simp only [Bool.false_eq_true, if_false]
  rw [dispatchLoop_eq _ _ _ hstate, payloadBunches, (dispatchBunches_conn _ c).1]

theorem dispatchReader_of_closed (hstate : c.state = .closed) (r : RecvPacketReader) : c.dispatchReader r =
    { c with packetNotify := c.packetNotify.ackSeq (Seq.ofInt c.inPacketId) } := by
  unfold dispatchReader dispatchPacket
  simp only [Bool.false_eq_true, if_false]
  rw [dispatchLoop_of_closed hstate]

def Dispatched (c c' : NetConnection) : Prop :=
  c' = { c with
    channels := c'.channels
    packetNotify := { c.packetNotify with
      inAckSeq := c'.packetNotify.inAckSeq
      inSeqHistory := c'.packetNotify.inSeqHistory } } ∧ c'.channels.length = c.channels.length

theorem dispatchReader_dispatched (c : NetConnection) (r : RecvPacketReader) : c.Dispatched (c.dispatchReader r) := by
  obtain ⟨hconn, hlen⟩ := dispatchBunches_conn (c.payloadBunches r.payload) c
  by_cases hstate : c.state = .closed
  · rw [dispatchReader_of_closed hstate]
    exact ⟨rfl, rfl⟩
  · rw [dispatchReader_eq hstate, hconn]
    exact ⟨rfl, hlen⟩

theorem Dispatched.trans {c c' c'' : NetConnection} (h : c.Dispatched c') (h' : c'.Dispatched c'') : c.Dispatched c'' := by
  refine ⟨?_, h'.2.trans h.2⟩
  rw [h'.1, h.1]

theorem foldl_dispatchReader_dispatched (rs : List RecvPacketReader) : ∀ c : NetConnection,
    c.Dispatched (rs.foldl dispatchReader c) := by
  induction rs with
  | nil => exact fun c => ⟨rfl, rfl⟩
  | cons r rs ih => exact fun c => (c.dispatchReader_dispatched r).trans (ih _)

theorem dispatchPendingPacket_dispatched (c : NetConnection) :
    Dispatched { c with pendingDispatchPacketReaders := [] } c.dispatchPendingPacket :=
  foldl_dispatchReader_dispatched _ _

end

end NetConnection

end RudpEngine
