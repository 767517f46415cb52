import RudpEngine.Connection

/-!
# The driver's tables

`IpNetDriver` on the server: the connections it has made, the three containers
that hold those in use, and the worker each connection is pinned to. A pointer
to a connection is its place among all connections ever made; the player and
the telemetry of a connection are left out.
-/

namespace RudpEngine

/-! ## `std::unordered_map` -/

def UnorderedMap (κ ν : Type) : Type := κ → Option ν

namespace UnorderedMap

variable {κ ν : Type} [DecidableEq κ] (m : UnorderedMap κ ν)

def empty : UnorderedMap κ ν := fun _ => none

def set (k : κ) (v : ν) : UnorderedMap κ ν := fun k' => if k' = k then some v else m k'

/-- `insert` leaves a key that is there as it is. -/
def insert (k : κ) (v : ν) : UnorderedMap κ ν :=
  match m k with
  | some _ => m
  | none => m.set k v

def erase (k : κ) : UnorderedMap κ ν := fun k' => if k' = k then none else m k'

def eraseIf (p : ν → Bool) : UnorderedMap κ ν := fun k => (m k).filter fun v => !p v

section
variable {m} {k k' : κ} {v w : ν}

theorem insert_of_none (h : m k = none) (v : ν) : m.insert k v = m.set k v := by
  unfold insert
  rw [h]

theorem set_eq_some : m.set k v k' = some w ↔ (k' = k ∧ v = w) ∨ (k' ≠ k ∧ m k' = some w) := by
  unfold set
  by_cases hk : k' = k <;> simp [hk]

theorem erase_eq_some : m.erase k k' = some w ↔ k' ≠ k ∧ m k' = some w := by
  unfold erase
  by_cases hk : k' = k <;> simp [hk]

omit [DecidableEq κ] in
theorem eraseIf_eq_some {p : ν → Bool} : m.eraseIf p k = some w ↔ m k = some w ∧ p w = false := by
  unfold eraseIf
  simp [Option.filter_eq_some_iff]

end

end UnorderedMap

/-! ## `IDAllocator` -/

structure IDAllocator where
  counter : BitVec 32
  freeIDs : List (BitVec 32)

namespace IDAllocator

def new : IDAllocator := ⟨1, []⟩

def allocate (a : IDAllocator) : BitVec 32 × IDAllocator :=
  match a.freeIDs with
  | id :: freeIDs => (id, { a with freeIDs := freeIDs })
  | [] => (a.counter, { a with counter := a.counter + 1 })

end IDAllocator

/-! ## Connections in the handshake -/

inductive EHandshakePacketType
  | initialPacket
  | challenge
  | response
  | ack
  deriving DecidableEq

abbrev Cookie : Type := Vector Byte cookieByteSize

/-- What is read of a handshake packet, as it was written: the session's bits and `ParsedHandshakeData`. -/
structure HandshakeData (Double : Type) where
  sessionID : ℕ
  handshakePacketType : EHandshakePacketType
  secretId : Bool
  timeStamp : Double
  cookie : Cookie

/-- `PendingRemoteConnection`, without the counters that are only written to the wire and the log. -/
structure PendingRemoteConnection (Double Addr : Type) where
  cookieTime : Double
  sessionId : ℕ
  serverSequence : ℤ
  clientSequence : ℤ
  address : Addr
  handshakePacketType : EHandshakePacketType
  bHandshakeComplete : Bool
  lastReadyPacket : Option (HandshakeData Double)
  lastActivityTime : Double

/-- A client that has answered its challenge. -/
def pendingClient : PendingRemoteConnection ℤ (BitVec 64) := ⟨0, 0, 7, 9, 5, .ack, true, none, 0⟩

/-! ## `IpNetDriver` -/

structure GameNetConnection (Addr : Type) where
  conn : NetConnection
  uniqueConnectionId : BitVec 32
  remoteAddr : Addr
  ownerThreadId : BitVec 32

/-- The driver, with the thread count of its job system and the counter of `AssignConnectionThreadIndex`. -/
structure IpNetDriver (Addr : Type) where
  maxChannelsSize : ℕ
  threadCount : BitVec 32
  nextThreadIndex : BitVec 32
  playerUniqueIdAllocator : IDAllocator
  connections : List (GameNetConnection Addr)
  hashToConnectionMap : UnorderedMap (BitVec 64) ℕ
  connectionMap : UnorderedMap (BitVec 32) ℕ
  remoteConnections : List ℕ

namespace IpNetDriver

variable {Double Addr : Type}

/-- `ResolveWorkerCount`; the number is what `atoi` makes of the environment variable. -/
def resolveWorkerCount (override : Option ℤ) (defaultCount : ℕ) : ℕ :=
  match override with
  | none => defaultCount
  | some parsed => if parsed < 1 || parsed > 64 then defaultCount else parsed.toNat

def initListen (maxChannelsSize : ℕ) (override : Option ℤ) : IpNetDriver Addr where
  maxChannelsSize := maxChannelsSize
  threadCount := BitVec.ofNat 32 (resolveWorkerCount override 8)
  nextThreadIndex := 0
  playerUniqueIdAllocator := .new
  connections := []
  hashToConnectionMap := .empty
  connectionMap := .empty
  remoteConnections := []

variable (d : IpNetDriver Addr)

/-- `AddClient` up to `AddClient_Internal`: the id is taken and the connection is made, with its index unset. -/
def makeConnection (pendingConnection : PendingRemoteConnection Double Addr) :
    GameNetConnection Addr × IpNetDriver Addr :=
  let (newConnectionId, allocator) := d.playerUniqueIdAllocator.allocate
  let conn := NetConnection.new true d.maxChannelsSize .open
  let conn := (conn.initSequence pendingConnection.clientSequence pendingConnection.serverSequence).2
  let conn := conn.createInitialChannels
  (⟨conn, newConnectionId, pendingConnection.address, -1⟩, { d with playerUniqueIdAllocator := allocator })

/-- The critical section of `AddClient_Internal`. -/
def publish (key : BitVec 64) (c : GameNetConnection Addr) : IpNetDriver Addr :=
  let connection := d.connections.length
  { d with
    connections := d.connections ++ [c]
    hashToConnectionMap := d.hashToConnectionMap.insert key connection
    connectionMap := d.connectionMap.insert c.uniqueConnectionId connection
    remoteConnections := d.remoteConnections ++ [connection] }

def assignConnectionThreadIndex (connection : ℕ) : IpNetDriver Addr :=
  if d.threadCount = 0 then
    { d with connections := d.connections.modify connection fun c => { c with ownerThreadId := 0 } }
  else
    { d with
      nextThreadIndex := d.nextThreadIndex + 1
      connections := d.connections.modify connection fun c =>
        { c with ownerThreadId := d.nextThreadIndex % d.threadCount } }

theorem assignConnectionThreadIndex_cases (r : ℕ) : ∃ nextThreadIndex ownerThreadId,
    d.assignConnectionThreadIndex r = { d with
      nextThreadIndex := nextThreadIndex
      connections := d.connections.modify r fun c => { c with ownerThreadId := ownerThreadId } } := by
  unfold assignConnectionThreadIndex
  split
  · exact ⟨d.nextThreadIndex, 0, rfl⟩
  · exact ⟨_, _, rfl⟩

def addClient_Internal (key : BitVec 64) (c : GameNetConnection Addr) : IpNetDriver Addr :=
  (d.publish key c).assignConnectionThreadIndex d.connections.length

def addClient (key : BitVec 64) (pendingConnection : PendingRemoteConnection Double Addr) : IpNetDriver Addr :=
  let (c, d) := d.makeConnection pendingConnection
  d.addClient_Internal key c

def removeConnection (connection : ℕ) : IpNetDriver Addr :=
  match d.connections[connection]? with
  | none => d
  | some c =>
    { d with
      hashToConnectionMap := d.hashToConnectionMap.eraseIf fun v => v = connection
      connectionMap := d.connectionMap.erase c.uniqueConnectionId
      remoteConnections := d.remoteConnections.filter fun v => v ≠ connection }

def close (connection : ℕ) : IpNetDriver Addr :=
  match d.connections[connection]? with
  | none => d
  | some c =>
    if c.conn.state = .closed then d
    else
      { d with connections := d.connections.modify connection fun c => { c with conn := c.conn.close } }.removeConnection
        connection

end IpNetDriver

/-! ## What a list of connections says of one -/

section
variable {α β : Type} (g : α → β) (l : List α) (r : ℕ)

theorem map_getElem?_modify {f : α → α} (hf : ∀ a, g (f a) = g a) (i : ℕ) :
    (l.modify i f)[r]?.map g = l[r]?.map g := by
  rw [List.getElem?_modify]
  cases l[r]? with
  | none => rfl
  | some a =>
    show some (g (if i = r then f a else a)) = some (g a)
    split
    · rw [hf]
    · rfl

theorem getElem?_concat (l : List α) (a : α) (r : ℕ) : (l ++ [a])[r]? = if r = l.length then some a else l[r]? := by
  by_cases hr : r = l.length
  · rw [if_pos hr, hr, List.getElem?_concat_length]
  · rw [if_neg hr]
    rcases Nat.lt_or_gt_of_ne hr with hlt | hgt
    · rw [List.getElem?_append_left hlt]
    · rw [List.getElem?_eq_none (by simp only [List.length_append, List.length_singleton]; omega),
        List.getElem?_eq_none (Nat.le_of_lt hgt)]

theorem map_getElem?_concat (a : α) :
    (l ++ [a])[r]?.map g = if r = l.length then some (g a) else l[r]?.map g := by
  rw [getElem?_concat, apply_ite (Option.map g), Option.map_some]

theorem getElem?_concat_eq_some {l : List α} {r : ℕ} {a b : α} :
    (l ++ [a])[r]? = some b ↔ l[r]? = some b ∨ (r = l.length ∧ b = a) := by
  rw [getElem?_concat]
  split_ifs with hr
  · subst hr
    rw [List.getElem?_eq_none le_rfl]
    simp [eq_comm]
  · exact (or_iff_left fun h => hr h.1).symm

theorem modify_eq_some {l : List α} {f : α → α} {i r : ℕ} {a : α} (h : (l.modify i f)[r]? = some a) :
    ∃ old, l[r]? = some old ∧ a = if i = r then f old else old := by
  rw [List.getElem?_modify] at h
  obtain ⟨old, hold, ha⟩ := Option.map_eq_some_iff.mp h
  exact ⟨old, hold, ha.symm⟩

end

end RudpEngine
