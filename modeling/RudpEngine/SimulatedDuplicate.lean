import RudpEngine.HeaderBits
import RudpEngine.PacketSimulator
import RudpEngine.Link
import RudpEngine.Run

/-!
# The reader of a doubled datagram

The simulator doubles a datagram by keeping its `shared_ptr` twice, so the two
jobs that follow share one reader: the second one goes on where the first left
the cursor of the header, and finds the flag the first one set.
-/

namespace RudpEngine

inductive Dispatched
  | handshake (data : ParsedHandshakeData)
  | connectionless
  | packet (header : NotificationHeader) (payload : List Byte)
  | unreadable
deriving DecidableEq

namespace UdpConnectionProcessor

variable (u : UdpConnectionProcessor)

/-- `Incoming` with the handshake it reads. If `RemoteManager` has no pending connection for it, `Incoming` returns
before it sets the reader to its end. -/
def incomingHandshake (found : Bool) (r : RecvPacketReader) : Option ParsedHandshakeData × RecvPacketReader :=
  match u.readFields r.header with
  | none =>
    let (_, header) := r.header.serializeBitsWithOffset (leBytes 4 0) u.magicHeaderOffset u.magicHeaderSizeBits
    (none, { r with header := header.setError })
  | some (fields, header) =>
    if fields.bHandshakePacket && !header.arIsError then
      let (data, parsed, header) := parseHandshakeData header
      if parsed then
        (some data, { r with header := if found then header.setAtEnd else header, bConnectionlessPacket := true })
      else (none, { r with header := header })
    else (none, { r with header := header })

theorem incomingHandshake_snd (r : RecvPacketReader) : (u.incomingHandshake true r).2 = u.incoming r := by
  unfold incomingHandshake
  cases h : u.readFields r.header with
  | none =>
    have hmagic := magic_of_readFields_none h
    unfold incoming
    simp only [if_pos hmagic]
  | some result =>
    obtain ⟨fields, header⟩ := result
    rw [incoming_of_some h, ← parseHandshakeData_snd]
    simp only [if_true]
    split_ifs <;> rfl

end UdpConnectionProcessor

theorem UdpConnectionProcessor.parseHandshakeData_ok (header : BitReader) :
    (parseHandshakeData header).2.1 = !(parseHandshakeData header).2.2.arIsError := by
  unfold parseHandshakeData
  simp only
  split <;> rfl

namespace RecvPacketReader

/-- The job of `ReceivedRawPacket`, and the reader it leaves. A reader that was marked goes to
`IncomingConnectionless`. -/
def dispatch (r : RecvPacketReader) (found : Bool) : Dispatched × RecvPacketReader :=
  if r.bConnectionlessPacket then (.connectionless, defaultProcessor.incomingConnectionless r)
  else
    match defaultProcessor.incomingHandshake found r with
    | (some data, r) => (.handshake data, r)
    | (none, r) =>
      let (ok, header, buffer) := NetPacketNotify.readHeader r.header
      (if ok then .packet header r.payload else .unreadable, { r with header := buffer })

end RecvPacketReader

namespace NetConnection

def received (c : NetConnection) (r : RecvPacketReader) (found : Bool) : NetConnection :=
  match r.dispatch found with
  | (.packet header _, r) => c.receivedHeader header r
  | _ => c

/-- The reader of a packet that waits is only asked for its payload. -/
def waitingPayloads (c : NetConnection) : List (List Byte) := c.pendingDispatchPacketReaders.map RecvPacketReader.payload

/-- Two connections that differ in the cursors of waiting readers alone. -/
def SameButCursors (c c' : NetConnection) : Prop :=
  { c with pendingDispatchPacketReaders := [] } = { c' with pendingDispatchPacketReaders := [] } ∧
    c.waitingPayloads = c'.waitingPayloads

end NetConnection

/-! ## One job -/

namespace RecvPacketReader

variable {r : RecvPacketReader} {found : Bool}

theorem incomingHandshake_of_packet (hok : r.header.arIsError = false) (h : CarriesPacket r.header.bits r.header.left) :
    defaultProcessor.incomingHandshake found r = (none, { r with header := behindFields r.header }) := by
  have hlen : headerLength r.header.bits = 39 + 32 * wordsOf r.header.bits := rfl
  have hleft := h.length
  unfold BitReader.left at hleft
  obtain ⟨fields, hbit, hfields⟩ := readFields_of_left (r := r.header) ⟨hok, by omega⟩ h.magic
  rw [h.handshake] at hbit
  simp [UdpConnectionProcessor.incomingHandshake, hfields, hbit]

theorem dispatch_of_packet (hflag : r.bConnectionlessPacket = false) (hok : r.header.arIsError = false)
    (h : CarriesPacket r.header.bits r.header.left) : r.dispatch found =
      (.packet (headerOf r.header.bits) r.payload,
        { r with header := { r.header with pos := r.header.pos + headerLength r.header.bits } }) := by
  have hlen : headerLength r.header.bits = 39 + 32 * wordsOf r.header.bits := rfl
  have hleft := h.length
  unfold BitReader.left at hleft
  have hread := readHeader_of_length hok (by omega)
  simp only [dispatch, hflag, incomingHandshake_of_packet hok h, hread, Bool.false_eq_true, if_false, if_true]

theorem dispatch_of_handshake (hflag : r.bConnectionlessPacket = false) (hok : r.header.arIsError = false)
    (h : CarriesHandshake r.header.bits r.header.left) (found : Bool) :
    ∃ data, (r.dispatch found).1 = .handshake data ∧ (r.dispatch found).2.bConnectionlessPacket = true := by
  have hlength := h.length
  have hfields := h.fields
  unfold BitReader.left at hlength hfields
  have hleft : BitReader.Holds r.header 7 := ⟨hok, by omega⟩
  obtain ⟨fields, hbit, hread⟩ := readFields_of_left hleft h.magic
  have hparsed := (parseHandshakePacket_iff hleft).mpr ⟨by omega, hfields.imp_right fun h249 => by omega⟩
  rw [← UdpConnectionProcessor.parseHandshakeData_snd] at hparsed
  have hbits : (fields.bHandshakePacket && !(behindFields r.header).arIsError) = true := by
    rw [hbit, h.handshake]
    simp [behindFields, hok]
  refine ⟨(UdpConnectionProcessor.parseHandshakeData (behindFields r.header)).1, ?_, ?_⟩ <;>
    simp [dispatch, hflag, UdpConnectionProcessor.incomingHandshake, hread, hbits, hparsed]

theorem dispatch_cases (hflag : r.bConnectionlessPacket = false) (found : Bool) :
    (∃ data, (r.dispatch found).1 = .handshake data ∧ r.header.arIsError = false ∧
        CarriesHandshake r.header.bits r.header.left) ∨
      (∃ header payload, (r.dispatch found).1 = .packet header payload ∧ r.header.arIsError = false ∧
        CarriesPacket r.header.bits r.header.left) ∨
      (r.dispatch found).1 = .unreadable ∧ (r.dispatch found).2.header.arIsError = true ∧
        (r.dispatch found).2.bConnectionlessPacket = false := by
  have hbehind : ∀ header : BitReader, defaultProcessor.incomingHandshake found r = (none, { r with header := header }) →
      (NetPacketNotify.readHeader header).1 = false →
      (r.dispatch found).1 = .unreadable ∧ (r.dispatch found).2.header.arIsError = true ∧
        (r.dispatch found).2.bConnectionlessPacket = false := by
    intro header hincoming hread
    have herr : (NetPacketNotify.readHeader header).2.2.arIsError = true := by simpa [NetPacketNotify.readHeader] using hread
    simp [dispatch, hflag, hincoming, hread, herr]
  have hunread : ∀ header : BitReader, header.arIsError = true → (NetPacketNotify.readHeader header).1 = false := by
    intro header herr
    by_contra hread
    have := (readHeader_holds (Bool.not_eq_false _ ▸ hread)).noError
    rw [herr] at this
    cases this
  cases hfields : defaultProcessor.readFields r.header with
  | none =>
    have hincoming : defaultProcessor.incomingHandshake found r =
        (none, { r with header := (r.header.serializeBitsWithOffset (leBytes 4 0) 0 1).2.setError }) := by
      simp only [UdpConnectionProcessor.incomingHandshake, hfields]
      rfl
    exact .inr (.inr (hbehind _ hincoming (hunread _ rfl)))
  | some result =>
    obtain ⟨fields, header⟩ := result
    by_cases hbits : (fields.bHandshakePacket && !header.arIsError) = true
    · obtain ⟨hbit, hok⟩ := Bool.and_eq_true_iff.mp hbits
      rw [Bool.not_eq_true'] at hok
      by_cases hparsed : (UdpConnectionProcessor.parseHandshakeData header).2.1 = true
      · left
        rw [UdpConnectionProcessor.parseHandshakeData_snd] at hparsed
        obtain ⟨hleft, hmagic, hsix, rfl⟩ := readFields_cases hfields hok (left_of_parse hparsed)
        obtain ⟨h24, h249⟩ := (parseHandshakePacket_iff hleft).mp hparsed
        rw [← UdpConnectionProcessor.parseHandshakeData_snd] at hparsed
        refine ⟨(UdpConnectionProcessor.parseHandshakeData (behindFields r.header)).1, ?_, hleft.noError, hmagic,
          hsix ▸ hbit, ?_, h249.imp_right fun h => ?_⟩
        · simp [dispatch, hflag, UdpConnectionProcessor.incomingHandshake, hfields, hbits, hparsed]
        · unfold BitReader.left
          omega
        · unfold BitReader.left
          omega
      · refine .inr (.inr (hbehind (UdpConnectionProcessor.parseHandshakeData header).2.2 ?_ (hunread _ ?_)))
        · simp [UdpConnectionProcessor.incomingHandshake, hfields, hbits, hparsed]
        · rw [UdpConnectionProcessor.parseHandshakeData_ok] at hparsed
          simpa using hparsed
    · have hincoming : defaultProcessor.incomingHandshake found r = (none, { r with header := header }) := by
        simp only [UdpConnectionProcessor.incomingHandshake, hfields, if_neg hbits]
      by_cases hread : (NetPacketNotify.readHeader header).1 = true
      · right; left
        have hholds := readHeader_holds hread
        have hle := hholds.le
        obtain ⟨hleft, hmagic, hsix, rfl⟩ := readFields_cases hfields hholds.noError (by omega)
        obtain ⟨hok, hlength⟩ := readHeader_noError hread
        refine ⟨(NetPacketNotify.readHeader (behindFields r.header)).2.1, r.payload,
          by simp [dispatch, hflag, hincoming, hread], hok, hmagic, ?_, ?_⟩
        · rw [← hsix]
          simpa [behindFields, hok] using hbits
        · unfold BitReader.left
          omega
      · exact .inr (.inr (hbehind header hincoming (Bool.eq_false_iff.mpr hread)))

def RepeatsHeader (b : ℕ → Bool) (n : ℕ) : Prop :=
  CarriesPacket (fun i => b (headerLength b + i)) (n - headerLength b) ∧
    ∀ i, 7 ≤ i → i < headerLength b → b (headerLength b + i) = b i

/-- A datagram whose reader can be dispatched twice: nothing can be read of its header, or the header of a packet is
there twice. -/
def Repeatable (r : RecvPacketReader) : Prop :=
  ¬ CarriesHandshake r.header.bits r.header.left ∧
    (CarriesPacket r.header.bits r.header.left → RepeatsHeader r.header.bits r.header.left)

/-- The second job gets what the first one got. -/
theorem dispatch_again_iff (hflag : r.bConnectionlessPacket = false) (hok : r.header.arIsError = false) (found' : Bool) :
    ((r.dispatch found).2.dispatch found').1 = (r.dispatch found).1 ↔ Repeatable r := by
  rcases dispatch_cases hflag found with ⟨data, hfirst, -, hcarries⟩ | ⟨header, payload, hfirst, -, hcarries⟩ |
    ⟨hfirst, herr, hflag'⟩
  · -- the reader is marked now
    obtain ⟨data', hdata, hmarked⟩ := dispatch_of_handshake hflag hok hcarries found
    refine iff_of_false (fun heq => ?_) fun h => h.1 hcarries
    rw [hdata, dispatch, if_pos hmarked] at heq
    cases heq
  · have hno : ¬ CarriesHandshake r.header.bits r.header.left := fun h => by
      have hsix := h.handshake
      rw [hcarries.handshake] at hsix
      cases hsix
    rw [Repeatable, and_iff_right hno, forall_prop_of_true hcarries, dispatch_of_packet hflag hok hcarries]
    set second : RecvPacketReader :=
      { r with header := { r.header with pos := r.header.pos + headerLength r.header.bits } } with hsecond
    have hbits : second.header.bits = fun i => r.header.bits (headerLength r.header.bits + i) :=
      funext fun i => congrArg (bitOf r.header.buffer) (Nat.add_assoc _ _ _)
    have hleft : second.header.left = r.header.left - headerLength r.header.bits := by
      simp only [BitReader.left, hsecond]
      omega
    rw [RepeatsHeader, ← hbits, ← hleft]
    constructor
    · intro heq
      rcases dispatch_cases (r := second) hflag found' with ⟨_, h, _⟩ | ⟨_, _, h, _, hagain⟩ | ⟨h, _⟩
      · rw [h] at heq
        cases heq
      · refine ⟨hagain, fun i h7 hlt => ?_⟩
        rw [dispatch_of_packet (r := second) hflag hok hagain] at heq
        simp only [Dispatched.packet.injEq] at heq
        have := headerOf_eq_iff.mp heq.1 i h7 hlt
        rwa [hbits] at this
      · rw [h] at heq
        cases heq
    · rintro ⟨hagain, hsame⟩
      rw [dispatch_of_packet (r := second) hflag hok hagain]
      have hheader : headerOf second.header.bits = headerOf r.header.bits :=
        headerOf_eq_iff.mpr fun i h7 hlt => by rw [hbits]; exact hsame i h7 hlt
      rw [hheader]
  · have hpacket : ¬ CarriesPacket r.header.bits r.header.left := fun h => by
      rw [dispatch_of_packet hflag hok h] at hfirst
      cases hfirst
    have hshake : ¬ CarriesHandshake r.header.bits r.header.left := fun h => by
      obtain ⟨data, hdata, -⟩ := dispatch_of_handshake hflag hok h found
      rw [hdata] at hfirst
      cases hfirst
    refine iff_of_true ?_ ⟨hshake, fun h => absurd h hpacket⟩
    -- the error stays
    rcases dispatch_cases (r := (r.dispatch found).2) hflag' found' with ⟨_, _, hok', _⟩ | ⟨_, _, _, hok', _⟩ |
      ⟨hsecond, _⟩
    · rw [herr] at hok'
      cases hok'
    · rw [herr] at hok'
      cases hok'
    · rw [hsecond, hfirst]

end RecvPacketReader

/-! ## The effect on the connection -/

namespace NetConnection

theorem receivedHeader_sameButCursors (c : NetConnection) (header : NotificationHeader) {r r' : RecvPacketReader}
    (h : r.payload = r'.payload) : SameButCursors (c.receivedHeader header r) (c.receivedHeader header r') := by
  by_cases hdelta : 0 < c.packetNotify.getSequenceDelta header
  · simp only [receivedHeader, if_pos hdelta]
    generalize c.packetNotify.update handlePacketNotification header c = updated
    by_cases hflush : updated.1.isWaitingForSequenceHistoryFlush = true
    · simp only [if_pos hflush]
      exact ⟨rfl, rfl⟩
    · simp only [if_neg hflush]
      exact ⟨rfl, by simp [waitingPayloads, h]⟩
  · simp only [receivedHeader, if_neg hdelta]
    exact ⟨rfl, by simp [waitingPayloads, h]⟩

theorem dispatch_payload {r r' : RecvPacketReader} {found : Bool} {header : NotificationHeader} {payload : List Byte}
    (h : r.dispatch found = (.packet header payload, r')) : r'.payload = payload := by
  unfold RecvPacketReader.dispatch at h
  split at h
  · cases h
  · split at h
    · cases h
    · simp only [Prod.mk.injEq] at h
      obtain ⟨hpacket, rfl⟩ := h
      split at hpacket
      · cases hpacket
        rfl
      · cases hpacket

theorem received_sameButCursors {r r' : RecvPacketReader} {found : Bool}
    (h : (r.dispatch found).1 = (r'.dispatch found).1) (c : NetConnection) :
    SameButCursors (c.received r found) (c.received r' found) := by
  unfold received
  cases hr : r.dispatch found with
  | mk d s =>
    cases hr' : r'.dispatch found with
    | mk d' s' =>
      rw [hr, hr'] at h
      obtain rfl : d = d' := h
      cases d with
      | packet header payload =>
        exact receivedHeader_sameButCursors c header ((dispatch_payload hr).trans (dispatch_payload hr').symm)
      | handshake | connectionless | unreadable => exact ⟨rfl, rfl⟩

theorem incomingHandshake_marks {r : RecvPacketReader} (hflag : r.bConnectionlessPacket = false) (found : Bool) :
    (defaultProcessor.incomingHandshake found r).2.bConnectionlessPacket =
      (defaultProcessor.incomingHandshake found r).1.isSome := by
  unfold UdpConnectionProcessor.incomingHandshake
  split
  · exact hflag
  · split
    · simp only
      split
      · rfl
      · exact hflag
    · exact hflag

theorem received_ofEvent {c : NetConnection} (hc : c.handler = defaultProcessor) (data : List Byte) :
    c.received (.ofEvent data data.length) true = c.receivedRawPacket data := by
  have hstep : ∀ reader : RecvPacketReader, reader.bConnectionlessPacket = false →
      c.received reader true = if (defaultProcessor.incoming reader).bConnectionlessPacket then c
        else c.receivedPacket (defaultProcessor.incoming reader) := by
    intro reader hflag
    have hincoming := defaultProcessor.incomingHandshake_snd reader
    have hmark := incomingHandshake_marks hflag true
    unfold received RecvPacketReader.dispatch receivedPacket
    rw [if_neg (by simp [hflag])]
    cases hread : defaultProcessor.incomingHandshake true reader with
    | mk data? reader' =>
      rw [hread] at hincoming hmark
      simp only at hincoming hmark
      subst hincoming
      cases data? with
      | some data => simp [hmark]
      | none =>
        simp only [hmark, Option.isSome_none, Bool.false_eq_true, if_false]
        cases (NetPacketNotify.readHeader (defaultProcessor.incoming reader).header).1 <;> rfl
  rw [hstep _ rfl, receivedRawPacket, hc]

end NetConnection

/-! ## Runs -/

/-- The driver with its simulator: `readers` are the objects behind the pointers, `jobs` what was submitted and has not
run, `dispatched` the jobs that have run, each with its reader as it found it. -/
structure SimulatedReceive where
  simulator : PacketSimulator ℕ
  datagrams : List (List Byte)
  readers : ℕ → RecvPacketReader
  jobs : List ℕ
  dispatched : List (ℕ × RecvPacketReader)
  connection : NetConnection

inductive SimulatedAction
  | recvCompletionEvent (data : List Byte) (now : ℤ) (rolls : SimulatorRolls)
  | flushStale (now : ℤ)
  | reconfigure (settings : PacketSimulationSettings)
  | job (found : Bool)
  | other (connection : NetConnection)

namespace SimulatedReceive

variable (s : SimulatedReceive)

/-- Behind a datagram shorter than its header the reader finds zeros; the source's finds there what an older datagram left
in the buffer of the event, the same for both jobs, as the reader holds the event. -/
def recvCompletionEvent (data : List Byte) (now : ℤ) (rolls : SimulatorRolls) : SimulatedReceive :=
  let reader := s.datagrams.length
  let (toDispatch, simulator) := s.simulator.process reader now rolls
  { s with
    simulator := simulator
    datagrams := s.datagrams ++ [data]
    readers := Function.update s.readers reader (.ofEvent data data.length)
    jobs := s.jobs ++ toDispatch }

def job (found : Bool) : SimulatedReceive :=
  match s.jobs with
  | [] => s
  | reader :: jobs =>
    { s with
      readers := Function.update s.readers reader ((s.readers reader).dispatch found).2
      jobs := jobs
      dispatched := s.dispatched ++ [(reader, s.readers reader)]
      connection := s.connection.received (s.readers reader) found }

def next : SimulatedAction → SimulatedReceive
  | .recvCompletionEvent data now rolls => s.recvCompletionEvent data now rolls
  | .flushStale now =>
    let (toDispatch, simulator) := s.simulator.flushStale now
    { s with simulator := simulator, jobs := s.jobs ++ toDispatch }
  | .reconfigure settings => { s with simulator := s.simulator.reconfigure settings }
  | .job found => s.job found
  | .other connection => { s with connection := connection }

def dispatchesOf (reader : ℕ) : List RecvPacketReader :=
  (s.dispatched.filter fun d => d.1 = reader).map Prod.snd

end SimulatedReceive

def simulatedSystem : System SimulatedReceive SimulatedAction where
  init s := (∃ settings, s.simulator = .new settings) ∧ s.datagrams = [] ∧ s.jobs = [] ∧ s.dispatched = []
  next := SimulatedReceive.next

/-- A job with this reader is as good as one with a reader of its own. -/
def RecvPacketReader.LikeItsOwn (r : RecvPacketReader) (data : List Byte) : Prop :=
  ∀ found, (r.dispatch found).1 = ((RecvPacketReader.ofEvent data data.length).dispatch found).1 ∧
    ∀ c : NetConnection, NetConnection.SameButCursors (c.received r found)
      (c.received (RecvPacketReader.ofEvent data data.length) found)

namespace SimulatedReceive

open RecvPacketReader

/-- `rs` are the states of a reader before its dispatches, `r` is the one behind them. -/
inductive Chained (first : RecvPacketReader) : List RecvPacketReader → RecvPacketReader → Prop
  | nil : Chained first [] first
  | concat {rs : List RecvPacketReader} {r : RecvPacketReader} (found : Bool) :
      Chained first rs r → Chained first (rs ++ [r]) (r.dispatch found).2

def occurrences (s : SimulatedReceive) (reader : ℕ) : ℕ :=
  s.simulator.reorderWindow.count reader + s.jobs.count reader + (s.dispatchesOf reader).length

structure Shares (s : SimulatedReceive) : Prop where
  twice : ∀ reader, s.occurrences reader ≤ 2
  unused : ∀ reader, s.datagrams.length ≤ reader → s.occurrences reader = 0
  chained : ∀ reader data, s.datagrams[reader]? = some data →
    Chained (.ofEvent data data.length) (s.dispatchesOf reader) (s.readers reader)

variable {s : SimulatedReceive}

theorem Shares.recvCompletionEvent (h : s.Shares) (data : List Byte) (now : ℤ) (rolls : SimulatorRolls) :
    (s.recvCompletionEvent data now rolls).Shares := by
  obtain ⟨-, hperm, -⟩ := s.simulator.process_cases s.datagrams.length now rolls
  have hadded : ∀ reader, (s.recvCompletionEvent data now rolls).occurrences reader =
      s.occurrences reader + (PacketSimulator.entering s.simulator.settings s.datagrams.length rolls).count reader := by
    intro reader
    have hcount := hperm.count_eq reader
    rw [List.count_append, List.count_append] at hcount
    simp only [occurrences, SimulatedReceive.recvCompletionEvent, List.count_append, dispatchesOf]
    omega
  have hentering : ∀ reader, (PacketSimulator.entering s.simulator.settings s.datagrams.length rolls).count reader ≤
      if reader = s.datagrams.length then 2 else 0 := by
    intro reader
    unfold PacketSimulator.entering
    by_cases hreader : reader = s.datagrams.length
    · subst hreader
      rw [if_pos rfl]
      split
      · exact Nat.zero_le _
      · split <;> simp
    · have hne : s.datagrams.length ≠ reader := Ne.symm hreader
      rw [if_neg hreader]
      split
      · exact Nat.le_refl _
      · split <;> simp [hne]
  refine ⟨fun reader => ?_, fun reader hlen => ?_, fun reader d hd => ?_⟩
  · have := hentering reader
    rw [hadded]
    by_cases hreader : reader = s.datagrams.length
    · rw [if_pos hreader] at this
      rw [h.unused reader (by omega)]
      omega
    · rw [if_neg hreader] at this
      have := h.twice reader
      omega
  · simp only [SimulatedReceive.recvCompletionEvent, List.length_append, List.length_singleton] at hlen
    have := hentering reader
    rw [if_neg (by omega)] at this
    rw [hadded, h.unused reader (by omega)]
    omega
  · simp only [SimulatedReceive.recvCompletionEvent] at hd ⊢
    rcases Nat.lt_trichotomy reader s.datagrams.length with hlt | rfl | hgt
    · rw [List.getElem?_append_left hlt] at hd
      rw [Function.update_of_ne (by omega)]
      exact h.chained reader d hd
    · rw [List.getElem?_append_right (Nat.le_refl _), Nat.sub_self] at hd
      obtain rfl : data = d := by simpa using hd
      have hnone : s.dispatchesOf s.datagrams.length = [] := by
        have := h.unused s.datagrams.length (Nat.le_refl _)
        unfold occurrences at this
        exact List.length_eq_zero_iff.mp (by omega)
      rw [Function.update_self]
      exact hnone ▸ .nil
    · rw [List.getElem?_eq_none (by simp; omega)] at hd
      cases hd

theorem Shares.flushStale (h : s.Shares) (now : ℤ) : (s.next (.flushStale now)).Shares := by
  have hsame : ∀ reader, (s.next (.flushStale now)).occurrences reader = s.occurrences reader := by
    intro reader
    simp only [next, occurrences, dispatchesOf, List.count_append]
    rcases s.simulator.flushStale_cases now with hflush | hflush <;> rw [hflush] <;> simp
    omega
  exact ⟨fun reader => hsame reader ▸ h.twice reader, fun reader hlen => hsame reader ▸ h.unused reader hlen, h.chained⟩

theorem Shares.job (h : s.Shares) (found : Bool) : (s.job found).Shares := by
  unfold SimulatedReceive.job
  cases hjobs : s.jobs with
  | nil => exact h
  | cons reader jobs =>
    simp only
    have hof : ∀ reader', ((s.dispatched ++ [(reader, s.readers reader)]).filter fun d => d.1 = reader').map Prod.snd =
        s.dispatchesOf reader' ++ if reader = reader' then [s.readers reader] else [] := by
      intro reader'
      by_cases heq : reader = reader' <;> simp [dispatchesOf, heq]
    have hsame : ∀ reader', SimulatedReceive.occurrences
        { s with
          readers := Function.update s.readers reader ((s.readers reader).dispatch found).2
          jobs := jobs
          dispatched := s.dispatched ++ [(reader, s.readers reader)]
          connection := s.connection.received (s.readers reader) found } reader' = s.occurrences reader' := by
      intro reader'
      simp only [occurrences, dispatchesOf] at hof ⊢
      rw [hof, hjobs, List.count_cons, List.length_append]
      by_cases heq : reader = reader'
      · simp [heq]
        omega
      · simp [heq]
    refine ⟨fun reader' => hsame reader' ▸ h.twice reader', fun reader' hlen => hsame reader' ▸ h.unused reader' hlen, ?_⟩
    intro reader' data hdata
    have hchained := h.chained reader' data hdata
    simp only [dispatchesOf] at hof ⊢
    rw [hof]
    by_cases heq : reader = reader'
    · subst heq
      rw [if_pos rfl, Function.update_self]
      exact hchained.concat found
    · rw [if_neg heq, List.append_nil, Function.update_of_ne (Ne.symm heq)]
      exact hchained

theorem shares_of_reachable (h : simulatedSystem.Reachable s) : s.Shares := by
  refine System.Reach.invariant ?_ ?_ h
  · rintro s ⟨⟨settings, hsim⟩, hdata, hjobs, hdispatched⟩
    have hzero : ∀ reader, s.occurrences reader = 0 := by
      intro reader
      simp [occurrences, dispatchesOf, hsim, hjobs, hdispatched, PacketSimulator.new]
    exact ⟨fun reader => by rw [hzero]; omega, fun reader _ => hzero reader, by simp [hdata]⟩
  · rintro s a hs -
    cases a with
    | recvCompletionEvent data now rolls => exact hs.recvCompletionEvent data now rolls
    | flushStale now => exact hs.flushStale now
    | reconfigure settings => exact ⟨hs.twice, hs.unused, hs.chained⟩
    | job found => exact hs.job found
    | other connection => exact ⟨hs.twice, hs.unused, hs.chained⟩

theorem Chained.cases_of_le {first r : RecvPacketReader} {rs : List RecvPacketReader} (h : Chained first rs r)
    (hle : rs.length ≤ 2) : rs = [] ∨ rs = [first] ∨ ∃ found, rs = [first, (first.dispatch found).2] := by
  cases h with
  | nil => exact .inl rfl
  | concat _ h =>
    cases h with
    | nil => exact .inr (.inl rfl)
    | concat found h =>
      cases h with
      | nil => exact .inr (.inr ⟨found, rfl⟩)
      | concat _ _ =>
        simp only [List.length_append, List.length_singleton] at hle
        omega

theorem incomingHandshake_found (r : RecvPacketReader) (found found' : Bool) :
    defaultProcessor.incomingHandshake found r = defaultProcessor.incomingHandshake found' r ∨
      ∃ data, (defaultProcessor.incomingHandshake found r).1 = some data ∧
        (defaultProcessor.incomingHandshake found' r).1 = some data := by
  unfold UdpConnectionProcessor.incomingHandshake
  cases defaultProcessor.readFields r.header with
  | none => exact .inl rfl
  | some result =>
    by_cases hbits : (result.1.bHandshakePacket && !result.2.arIsError) = true
    · by_cases hparsed : (UdpConnectionProcessor.parseHandshakeData result.2).2.1 = true
      · simp only [if_pos hbits, if_pos hparsed]
        exact .inr ⟨_, rfl, rfl⟩
      · simp only [if_pos hbits, if_neg hparsed, true_or]
    · simp only [if_neg hbits, true_or]

/-- What is read does not depend on whether a pending connection is there. -/
theorem dispatch_found (r : RecvPacketReader) (found found' : Bool) : (r.dispatch found).1 = (r.dispatch found').1 := by
  unfold RecvPacketReader.dispatch
  by_cases hflag : r.bConnectionlessPacket = true
  · simp only [if_pos hflag]
  simp only [if_neg hflag]
  rcases incomingHandshake_found r found found' with heq | ⟨data, h, h'⟩
  · rw [heq]
  · rcases hread : defaultProcessor.incomingHandshake found r with ⟨data?, reader⟩
    rcases hread' : defaultProcessor.incomingHandshake found' r with ⟨data?', reader'⟩
    rw [hread] at h
    rw [hread'] at h'
    simp only at h h'
    subst h h'
    rfl

end SimulatedReceive

open RecvPacketReader SimulatedReceive in
/-- A doubled datagram is dispatched as if each job had a reader of its own exactly if its reader can be dispatched
twice. -/
theorem doubled_like_its_own_iff {s : SimulatedReceive} (h : simulatedSystem.Reachable s) {reader : ℕ} {data : List Byte}
    (hdata : s.datagrams[reader]? = some data) : (∀ r ∈ s.dispatchesOf reader, r.LikeItsOwn data) ↔
      (s.dispatchesOf reader).length ≤ 1 ∨ Repeatable (.ofEvent data data.length) := by
  have hshares := shares_of_reachable h
  have hlength : (s.dispatchesOf reader).length ≤ 2 := by
    have := hshares.twice reader
    unfold occurrences at this
    omega
  have hfirst : (RecvPacketReader.ofEvent data data.length).LikeItsOwn data := fun _ => ⟨rfl, fun _ => ⟨rfl, rfl⟩⟩
  rcases (hshares.chained reader data hdata).cases_of_le hlength with hnone | hone | ⟨found, htwo⟩
  · simp [hnone]
  · simp [hone, hfirst]
  · have hagain (found' : Bool) : (((RecvPacketReader.ofEvent data data.length).dispatch found).2.dispatch found').1 =
        ((RecvPacketReader.ofEvent data data.length).dispatch found).1 ↔ Repeatable (.ofEvent data data.length) :=
      dispatch_again_iff rfl rfl found'
    have hsecond : ((RecvPacketReader.ofEvent data data.length).dispatch found).2.LikeItsOwn data ↔
        Repeatable (.ofEvent data data.length) := by
      constructor
      · intro hlike
        have := (hlike found).1
        exact (hagain found).mp this
      · intro hrepeat found'
        have hsame := ((hagain found').mpr hrepeat).trans (dispatch_found _ found found')
        exact ⟨hsame, NetConnection.received_sameButCursors hsame⟩
    simp [htwo, hfirst, hsecond]

def bareHeader : List Byte := 10 :: List.replicate 9 0

def doubledRun : List SimulatedAction := [.recvCompletionEvent bareHeader 0 .zero, .job true, .job true]

def doubling : SimulatedReceive :=
  ⟨.new ⟨0, 1, 0, 50⟩, [], fun _ => .ofEvent [] 0, [], [], .new true 2 .open⟩

theorem reachable_doubledRun : simulatedSystem.Reachable (simulatedSystem.runFrom doubling doubledRun) :=
  System.reachable_runFrom (.init (show simulatedSystem.init doubling from ⟨⟨_, rfl⟩, rfl, rfl, rfl⟩)) _

theorem doubled_like_its_own_bareHeader :
    (∀ r ∈ (simulatedSystem.runFrom doubling doubledRun).dispatchesOf 0, r.LikeItsOwn bareHeader) ↔
      ((simulatedSystem.runFrom doubling doubledRun).dispatchesOf 0).length ≤ 1 ∨
        RecvPacketReader.Repeatable (.ofEvent bareHeader bareHeader.length) :=
  doubled_like_its_own_iff reachable_doubledRun rfl

/-- There are 72 bits of header, and the second job finds one of them left. -/
theorem second_reader_exhausted : ¬ ∀ s : SimulatedReceive, simulatedSystem.Reachable s → ∀ reader data,
    s.datagrams[reader]? = some data → ∀ r ∈ s.dispatchesOf reader, r.LikeItsOwn data := by
  intro h
  have hsecond := (h _ reachable_doubledRun 0 bareHeader rfl
    ((RecvPacketReader.ofEvent bareHeader bareHeader.length).dispatch true).2 (List.mem_cons_of_mem _ List.mem_cons_self)
    true).1
  have hrepeat := (RecvPacketReader.dispatch_again_iff (r := .ofEvent bareHeader bareHeader.length) rfl rfl true).mp hsecond
  have hlength : headerLength (RecvPacketReader.ofEvent bareHeader bareHeader.length).header.bits = 71 := by decide
  have hcarries : CarriesPacket (RecvPacketReader.ofEvent bareHeader bareHeader.length).header.bits
      (RecvPacketReader.ofEvent bareHeader bareHeader.length).header.left :=
    ⟨by decide, by decide, by rw [hlength]; decide⟩
  have hagain := (hrepeat.2 hcarries).1.length
  have hleft : (RecvPacketReader.ofEvent bareHeader bareHeader.length).header.left = 72 := by decide
  rw [hlength, hleft] at hagain
  unfold headerLength at hagain
  omega

end RudpEngine
