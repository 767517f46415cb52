import RudpEngine.Driver

/-!
# The handshake

`UdpConnectionProcessor` at both ends, on handshake packets as their fields are
written and read. The server answers a first packet with a cookie over the
client's address and the time, and makes the connection when the cookie comes
back; the two packet sequences are the first two bytes of the cookie.
-/

namespace RudpEngine

/-- The operations on `double` that the handshake uses; nothing is assumed of them. -/
class DoubleOps (Double : Type) extends Zero Double, One Double, Neg Double, Sub Double, BEq Double, LT Double, LE Double where
  decidableLT : DecidableLT Double
  decidableLE : DecidableLE Double

attribute [reducible, instance] DoubleOps.decidableLT DoubleOps.decidableLE

instance : DoubleOps ℤ where
  decidableLT := inferInstance
  decidableLE := inferInstance

/-- The secrets and the settings of a handshake; `generateCookie` is the HMAC of the time and the address. -/
structure HandshakeSetting (Double Addr : Type) where
  generateCookie : Addr → BitVec 8 → Double → Cookie
  activeSecret : BitVec 8
  sessionID : ℕ
  maxCookieLifetime : Double
  inactivityTimeoutSec : Double

def sessionIDMask : ℕ := 2 ^ 2

def expectedSessionId : ℕ := 0

variable {Double Addr : Type}

/-! ## `PendingRemoteConnection` -/

def createPendingClient (time : Double) (sessionId : ℕ) (address : Addr) : PendingRemoteConnection Double Addr where
  cookieTime := time
  sessionId := sessionId
  serverSequence := 0
  clientSequence := 0
  address := address
  handshakePacketType := .initialPacket
  bHandshakeComplete := false
  lastReadyPacket := none
  lastActivityTime := time

namespace PendingRemoteConnection

variable (p : PendingRemoteConnection Double Addr)

def touch (now : Double) : PendingRemoteConnection Double Addr := { p with lastActivityTime := now }

def updateHanshakePacketType (type : EHandshakePacketType) : PendingRemoteConnection Double Addr :=
  { p with handshakePacketType := type }

/-- `UpdateHanshakePacketType`, `UpdateServerSeq`, `UpdateClientSeq` and `UpdateHandshakeComplete` of a server. -/
def complete (serverSequence clientSequence : ℤ) : PendingRemoteConnection Double Addr :=
  { p with
    handshakePacketType := .ack
    serverSequence := serverSequence
    clientSequence := clientSequence
    bHandshakeComplete := true }

def prepLastSendPacket (packet : HandshakeData Double) : PendingRemoteConnection Double Addr :=
  { p with lastReadyPacket := some packet }

end PendingRemoteConnection

/-! ## `PendingConnectionManager` -/

structure PendingConnectionManager (Double Addr : Type) where
  clientCache : ℕ → UnorderedMap (BitVec 64) (PendingRemoteConnection Double Addr)

namespace PendingConnectionManager

variable (m : PendingConnectionManager Double Addr)

def new : PendingConnectionManager Double Addr := ⟨fun _ => .empty⟩

def setCache (timeId : ℕ) (cache : UnorderedMap (BitVec 64) (PendingRemoteConnection Double Addr)) :
    PendingConnectionManager Double Addr :=
  ⟨fun t => if t = timeId then cache else m.clientCache t⟩

/-- The connection with its place, which stands for the pointer to it. -/
def findConnection (key : BitVec 64) : Option (ℕ × PendingRemoteConnection Double Addr) :=
  (List.range 60).findSome? fun timeId => (m.clientCache timeId key).map fun p => (timeId, p)

def addConnection (timeId : ℕ) (key : BitVec 64) (p : PendingRemoteConnection Double Addr) :
    PendingConnectionManager Double Addr :=
  m.setCache timeId ((m.clientCache timeId).insert key p)

def store (timeId : ℕ) (key : BitVec 64) (p : PendingRemoteConnection Double Addr) : PendingConnectionManager Double Addr :=
  m.setCache timeId ((m.clientCache timeId).set key p)

def timeKillEvent [DoubleOps Double] (timeId : ℕ) (now inactivityTimeoutSec : Double) : PendingConnectionManager Double Addr :=
  m.setCache timeId ((m.clientCache timeId).eraseIf fun p => inactivityTimeoutSec ≤ now - p.lastActivityTime)

section
variable {m} {timeId t : ℕ} {key k : BitVec 64} {p q : PendingRemoteConnection Double Addr}

theorem findConnection_eq_some (h : m.findConnection key = some (timeId, p)) : m.clientCache timeId key = some p := by
  obtain ⟨t, -, ht⟩ := List.exists_of_findSome?_eq_some h
  obtain ⟨q, hq, heq⟩ := Option.map_eq_some_iff.mp ht
  cases heq
  exact hq

theorem clientCache_setCache {cache : UnorderedMap (BitVec 64) (PendingRemoteConnection Double Addr)}
    (h : (m.setCache timeId cache).clientCache t k = some p) : cache k = some p ∨ m.clientCache t k = some p := by
  unfold setCache at h
  by_cases ht : t = timeId
  · left
    simpa only [ht, if_true] using h
  · right
    simpa only [ht, if_false] using h

/-- A pending connection is the one stored, or was there before. -/
theorem clientCache_store (h : (m.store timeId key q).clientCache t k = some p) :
    (k = key ∧ q = p) ∨ (∃ t, m.clientCache t k = some p) := by
  rcases clientCache_setCache h with hset | hold
  · rcases UnorderedMap.set_eq_some.mp hset with hnew | ⟨-, hold⟩
    · exact .inl hnew
    · exact .inr ⟨timeId, hold⟩
  · exact .inr ⟨t, hold⟩

theorem clientCache_addConnection (h : (m.addConnection timeId key q).clientCache t k = some p) :
    (k = key ∧ q = p) ∨ (∃ t, m.clientCache t k = some p) := by
  rcases clientCache_setCache h with hset | hold
  · unfold UnorderedMap.insert at hset
    cases hcache : m.clientCache timeId key with
    | some old =>
      rw [hcache] at hset
      exact .inr ⟨timeId, hset⟩
    | none =>
      rw [hcache] at hset
      rcases UnorderedMap.set_eq_some.mp hset with hnew | ⟨-, hold⟩
      · exact .inl hnew
      · exact .inr ⟨timeId, hold⟩
  · exact .inr ⟨t, hold⟩

theorem clientCache_timeKillEvent [DoubleOps Double] {now inactivityTimeoutSec : Double}
    (h : (m.timeKillEvent timeId now inactivityTimeoutSec).clientCache t k = some p) :
    ∃ t, m.clientCache t k = some p := by
  rcases clientCache_setCache h with hset | hold
  · exact ⟨timeId, (UnorderedMap.eraseIf_eq_some.mp hset).1⟩
  · exact ⟨t, hold⟩

end

end PendingConnectionManager

/-! ## Sending -/

variable [DoubleOps Double] (setting : HandshakeSetting Double Addr)

def handshakePacket (p : PendingRemoteConnection Double Addr) (type : EHandshakePacketType) (secretId : Bool)
    (timeStamp : Double) (cookie : Cookie) : HandshakeData Double :=
  ⟨p.sessionId % sessionIDMask, type, secretId, timeStamp, cookie⟩

/-- The filler of the first packet is read as a time and a cookie. -/
def sendInitialPacket (p : PendingRemoteConnection Double Addr) :
    PendingRemoteConnection Double Addr × HandshakeData Double :=
  let packet := handshakePacket p .initialPacket false 0 (Vector.replicate cookieByteSize 0)
  (p.prepLastSendPacket packet, packet)

def sendConnectChallenge (now : Double) (p : PendingRemoteConnection Double Addr) :
    PendingRemoteConnection Double Addr × HandshakeData Double :=
  let p := { p with cookieTime := now }
  let cookie := setting.generateCookie p.address setting.activeSecret p.cookieTime
  let packet := handshakePacket p p.handshakePacketType (setting.activeSecret ≠ 0) p.cookieTime cookie
  (p.prepLastSendPacket packet, packet)

def sendChallengeResponse (data : HandshakeData Double) (p : PendingRemoteConnection Double Addr) :
    PendingRemoteConnection Double Addr × HandshakeData Double :=
  let packet := handshakePacket p .response data.secretId data.timeStamp data.cookie
  (p.prepLastSendPacket packet, packet)

def sendChallengeAck (p : PendingRemoteConnection Double Addr) (cookie : Cookie) :
    PendingRemoteConnection Double Addr × HandshakeData Double :=
  let packet := handshakePacket p p.handshakePacketType true (-1) cookie
  (p.prepLastSendPacket packet, packet)

instance : NeZero cookieByteSize := ⟨by decide⟩

def cookieSequence (cookie : Cookie) (i : Fin cookieByteSize) : ℤ := (cookie[i].toNat % 2 ^ 14 : ℕ)

/-! ## The server -/

structure ServerProcessor (Double Addr : Type) where
  remoteManager : PendingConnectionManager Double Addr
  clientTimeId : BitVec 8
  driver : IpNetDriver Addr

namespace ServerProcessor

variable (s : ServerProcessor Double Addr)

def new (driver : IpNetDriver Addr) : ServerProcessor Double Addr := ⟨.new, 59, driver⟩

def store (timeId : ℕ) (key : BitVec 64) (p : PendingRemoteConnection Double Addr) : ServerProcessor Double Addr :=
  { s with remoteManager := s.remoteManager.store timeId key p }

def addClient (key : BitVec 64) (p : PendingRemoteConnection Double Addr) : ServerProcessor Double Addr :=
  { s with driver := s.driver.addClient key p }

/-- The client of an earlier attempt, or a new one; `now` is what the first look at the clock shows. -/
def findOrAddConnection (now : Double) (key : BitVec 64) (address : Addr) :
    (ℕ × PendingRemoteConnection Double Addr) × ServerProcessor Double Addr :=
  match s.remoteManager.findConnection key with
  | some found => (found, s)
  | none =>
    let p := createPendingClient now setting.sessionID address
    ((s.clientTimeId.toNat, p),
      { s with remoteManager := s.remoteManager.addConnection s.clientTimeId.toNat key p })

def regenCookie (p : PendingRemoteConnection Double Addr) : Cookie :=
  setting.generateCookie p.address setting.activeSecret p.cookieTime

/-- The checks of a response: the age of the cookie and the cookie itself. -/
def challengeSuccess (now : Double) (data : HandshakeData Double) (p : PendingRemoteConnection Double Addr) : Bool :=
  let cookieDelta := now - p.cookieTime
  let bValidCookieLifetime := decide (0 ≤ cookieDelta) && decide (0 < setting.maxCookieLifetime - cookieDelta)
  bValidCookieLifetime && data.cookie == regenCookie setting p

/-- A response that passes: the client is added before its ack is sent. -/
def acknowledge (timeId : ℕ) (key : BitVec 64) (data : HandshakeData Double) (p : PendingRemoteConnection Double Addr) :
    ServerProcessor Double Addr × HandshakeData Double :=
  let cookie := regenCookie setting p
  let p := p.complete (cookieSequence data.cookie 0) (cookieSequence data.cookie 1)
  let s := s.addClient key p
  let (p, packet) := sendChallengeAck p cookie
  (s.store timeId key p, packet)

/-- `IncomingConnectionless` on a handshake packet that was parsed; `now i` is what the `i`-th look at the clock shows. -/
def incomingConnectionless (now : ℕ → Double) (key : BitVec 64) (address : Addr) (data : HandshakeData Double) :
    ServerProcessor Double Addr × Option (HandshakeData Double) :=
  if data.sessionID ≠ expectedSessionId then (s, none)
  else
    let bInitialConnect := data.handshakePacketType = .initialPacket ∧ data.timeStamp == 0
    let ((timeId, p), s) := s.findOrAddConnection setting (now 0) key address
    let p := p.touch (now 1)
    if bInitialConnect then
      let (p, packet) := sendConnectChallenge setting (now 2) (p.updateHanshakePacketType .challenge)
      (s.store timeId key p, some packet)
    else if data.handshakePacketType = .response then
      if challengeSuccess setting (now 2) data p then
        let (s, packet) := s.acknowledge setting timeId key data p
        (s, some packet)
      else (s.store timeId key p, none)
    else (s.store timeId key p, none)

/-- `Incoming` of a connection that is there, in the server's mode. -/
def incoming (now : Double) (key : BitVec 64) (data : HandshakeData Double) :
    ServerProcessor Double Addr × Option (HandshakeData Double) :=
  match s.remoteManager.findConnection key with
  | none => (s, none)
  | some (timeId, p) =>
    let p := p.touch now
    if data.handshakePacketType = .response ∧ p.handshakePacketType = .ack then
      if data.cookie == regenCookie setting p then
        let (p, packet) := sendChallengeAck p (regenCookie setting p)
        (s.store timeId key p, some packet)
      else (s.store timeId key p, none)
    else (s.store timeId key p, none)

def AddsClient (now : ℕ → Double) (key : BitVec 64) (address : Addr) (data : HandshakeData Double) : Prop :=
  data.sessionID = expectedSessionId ∧ data.handshakePacketType = .response ∧
    challengeSuccess setting (now 2) data
      ((s.findOrAddConnection setting (now 0) key address).1.2.touch (now 1)) = true

/-- What one packet does where there is no connection: nothing, a challenge, or a new client and its ack. -/
theorem incomingConnectionless_cases (s : ServerProcessor Double Addr) (now : ℕ → Double) (key : BitVec 64)
    (address : Addr) (data : HandshakeData Double) :
    s.incomingConnectionless setting now key address data = (s, none) ∨
      ∃ timeId p s', s.findOrAddConnection setting (now 0) key address = ((timeId, p), s') ∧
        (s.incomingConnectionless setting now key address data = (s'.store timeId key (p.touch (now 1)), none) ∨
          s.incomingConnectionless setting now key address data =
            (s'.store timeId key
              (sendConnectChallenge setting (now 2) ((p.touch (now 1)).updateHanshakePacketType .challenge)).1,
              some (sendConnectChallenge setting (now 2) ((p.touch (now 1)).updateHanshakePacketType .challenge)).2) ∨
          (s.AddsClient setting now key address data ∧
            s.incomingConnectionless setting now key address data =
              ((s'.acknowledge setting timeId key data (p.touch (now 1))).1,
                some (s'.acknowledge setting timeId key data (p.touch (now 1))).2))) := by
  unfold incomingConnectionless
  by_cases hsession : data.sessionID = expectedSessionId
  · right
    rw [if_neg (not_not.mpr hsession)]
    rcases hfound : s.findOrAddConnection setting (now 0) key address with ⟨⟨timeId, p⟩, s'⟩
    refine ⟨timeId, p, s', rfl, ?_⟩
    simp only
    by_cases hinitial : data.handshakePacketType = .initialPacket ∧ data.timeStamp == 0
    · rw [if_pos hinitial]
      exact .inr (.inl rfl)
    · rw [if_neg hinitial]
      by_cases hresponse : data.handshakePacketType = .response
      · rw [if_pos hresponse]
        by_cases hsuccess : challengeSuccess setting (now 2) data (p.touch (now 1)) = true
        · rw [if_pos hsuccess]
          refine .inr (.inr ⟨⟨hsession, hresponse, ?_⟩, rfl⟩)
          rw [hfound]
          exact hsuccess
        · rw [if_neg hsuccess]
          exact .inl rfl
      · rw [if_neg hresponse]
        exact .inl rfl
  · left
    rw [if_pos hsession]

/-- What `DispatchReceivedDatagram` finds in `HashToConnectionMap`. -/
def lookup (key : BitVec 64) : Option ℕ := s.driver.hashToConnectionMap key

def connectionsUpdate (timeId : ℕ) (now : Double) : ServerProcessor Double Addr :=
  { s with
    remoteManager := s.remoteManager.timeKillEvent timeId now setting.inactivityTimeoutSec
    clientTimeId := s.clientTimeId + BitVec.ofNat 8 ((s.clientTimeId.toNat + 1) % 60) }

end ServerProcessor

/-! ## The client -/

inductive EProcessorState
  | unInitialized
  | initializedOnLocal
  | initializeOnRemote
  | initialized
  deriving DecidableEq

/-- The client, with the log of the `InitSequence` calls that succeeded. -/
structure ClientProcessor (Double Addr : Type) where
  state : EProcessorState
  remoteManager : PendingConnectionManager Double Addr
  serverAddress : Addr
  serverConnection : NetConnection
  initSequences : List (ℤ × ℤ)

namespace ClientProcessor

variable (c : ClientProcessor Double Addr)

def initConnect (maxChannelsSize : ℕ) (serverAddress : Addr) : ClientProcessor Double Addr where
  state := .unInitialized
  remoteManager := .new
  serverAddress := serverAddress
  serverConnection := (NetConnection.new false maxChannelsSize .pending).createInitialChannels
  initSequences := []

/-- `SendInitialPacket`; the client keeps its one pending connection under the key `0`. -/
def sendInitial (now : Double) : ClientProcessor Double Addr × HandshakeData Double :=
  let (p, packet) := sendInitialPacket (createPendingClient now 0 c.serverAddress)
  ({ c with remoteManager := c.remoteManager.addConnection 0 0 p }, packet)

def resendHandshake : Option (HandshakeData Double) := (c.remoteManager.clientCache 0 0).bind fun p => p.lastReadyPacket

def incoming (now : Double) (data : HandshakeData Double) : ClientProcessor Double Addr × Option (HandshakeData Double) :=
  match c.remoteManager.findConnection 0 with
  | none => (c, none)
  | some (timeId, p) =>
    let bIsChallengePacket := data.handshakePacketType = .challenge ∧ 0 < data.timeStamp
    let p := p.touch now
    if c.state = .unInitialized ∨ c.state = .initializedOnLocal then
      if bIsChallengePacket then
        let (p, packet) := sendChallengeResponse data (p.updateHanshakePacketType .response)
        ({ c with remoteManager := c.remoteManager.store timeId 0 p, state := .initializedOnLocal }, some packet)
      else if data.handshakePacketType = .ack ∧ data.timeStamp < 0 then
        let serverSequence := cookieSequence data.cookie 0
        let clientSequence := cookieSequence data.cookie 1
        let (succeeded, serverConnection) := c.serverConnection.initSequence serverSequence clientSequence
        if succeeded then
          let p := { p.updateHanshakePacketType .ack with bHandshakeComplete := true }
          ({ c with
            remoteManager := c.remoteManager.store timeId 0 p
            serverConnection := serverConnection
            state := .initialized
            initSequences := c.initSequences ++ [(serverSequence, clientSequence)] }, none)
        else ({ c with remoteManager := c.remoteManager.store timeId 0 p, serverConnection := serverConnection }, none)
      else ({ c with remoteManager := c.remoteManager.store timeId 0 p }, none)
    else ({ c with remoteManager := c.remoteManager.store timeId 0 p }, none)

end ClientProcessor

end RudpEngine
