import RudpEngine.NetSpeed
import RudpEngine.Registers
import RudpEngine.RoomManager

/-!
# The registers of the game server

`AddClient` takes an id and enters it, one lock after the other, into the
status map, the map of the numbers, the rooms and the tables of the driver.
`Close` withdraws it from the tables first and then from the others. Any number
of IO threads, the thread that closes, the workers that handle messages and the
thread of the self-test run at once; each step here is what happens under one
lock.
-/

namespace RudpEngine

/-- How far `AddClient` and then `Close` are with a client: what it has got to last. -/
inductive ClientStage
  | allocated
  | statusEntered
  | numberEntered
  /-- In `RoomManager::AddPlayer`, which holds `RoomsMutex`; `rooms` are still to be tried. -/
  | seeking (rooms : List ℕ)
  | joined
  | published (connection : ℕ)
  | closed (connection : ℕ)
  | withdrawn
  | statusErased
  | numberErased
  /-- In `RoomManager::RemovePlayer`, with the room it has found. -/
  | leaving (room : Option ℕ)
  | gone
  deriving DecidableEq

/-- `heardLate` is set once its handler looks up its status when that was erased. -/
structure Client (Addr : Type) where
  key : BitVec 64
  connection : GameNetConnection Addr
  stage : ClientStage
  heardLate : Bool

def Client.id {Addr : Type} (c : Client Addr) : BitVec 32 := c.connection.uniqueConnectionId

/-- The server, with the threads that add and remove clients and those that handle messages. A pointer to a status is
its place among all entries of `ConnectionRUDPMap` ever made. -/
structure GameServer (Addr : Type) where
  driver : IpNetDriver Addr
  statuses : List RUdpStatus
  connectionRUDPMap : UnorderedMap (BitVec 32) ℕ
  /-- The numbers are `int` in the source, which overflows behind 2 ^ 31 checks of one connection. -/
  connectionReliableMap : UnorderedMap (BitVec 32) ℤ
  roomManager : RoomManager
  clients : List (Client Addr)
  /-- The entries `NetworkStatusCheck` has been at; it holds `ConnectionReliableMapMutex`. -/
  checked : Option (List (BitVec 32))
  /-- The handlers of `NMT_NetSpeed` behind their lookup: the id, the entry and the number of the message. -/
  handling : List (BitVec 32 × ℕ × BitVec 64)
  /-- The messages whose handlers are done, in the order in which they counted. -/
  heard : List (BitVec 32 × BitVec 64)
  /-- The numbers `NetworkStatusCheck` has handed to connections. -/
  sent : List (ℕ × ℤ)

inductive ServerAction (Double Addr : Type)
  | addClient (key : BitVec 64) (pendingConnection : PendingRemoteConnection Double Addr)
  | advance (client : ℕ)
  | close (client : ℕ)
  | lookUpStatus (client : ℕ) (lastAckedPacketTime : BitVec 64)
  | countMessage (handler : ℕ)
  | beginStatusCheck
  | checkEntry (client : ℕ)
  | endStatusCheck

/-- Not yet behind `AddClient_Internal`; before that nobody else knows the client. -/
def ClientStage.isKnown : ClientStage → Bool
  | .published _ | .closed _ | .withdrawn | .statusErased | .numberErased | .leaving _ | .gone => true
  | _ => false

def ClientStage.isSeeking : ClientStage → Bool
  | .seeking _ => true
  | _ => false

def ClientStage.isErased : ClientStage → Bool
  | .statusErased | .numberErased | .leaving _ | .gone => true
  | _ => false

namespace GameServer

variable {Double Addr : Type} (s : GameServer Addr)

def start (maxChannelsSize : ℕ) (override : Option ℤ) : GameServer Addr where
  driver := .initListen maxChannelsSize override
  statuses := []
  connectionRUDPMap := .empty
  connectionReliableMap := .empty
  roomManager := .new
  clients := []
  checked := none
  handling := []
  heard := []
  sent := []

def roomsLocked : Bool := s.clients.any fun c => c.stage.isSeeking

def setClient (i : ℕ) (c : Client Addr) : GameServer Addr := { s with clients := s.clients.set i c }

/-- `AddClient` up to the id it takes. -/
def addClient (key : BitVec 64) (pendingConnection : PendingRemoteConnection Double Addr) : GameServer Addr :=
  let (connection, driver) := s.driver.makeConnection pendingConnection
  { s with driver := driver, clients := s.clients ++ [⟨key, connection, .allocated, false⟩] }

/-- `ConnectionRUDPMap[ConnectionId]`. -/
def statusOf (connectionId : BitVec 32) : ℕ × GameServer Addr :=
  match s.connectionRUDPMap connectionId with
  | some status => (status, s)
  | none =>
    (s.statuses.length, { s with
      statuses := s.statuses ++ [.new]
      connectionRUDPMap := s.connectionRUDPMap.set connectionId s.statuses.length })

/-- The loop of `RoomManager::AddPlayer` at a room, and what is behind the loop. -/
def seek (i : ℕ) (c : Client Addr) : List ℕ → GameServer Addr
  | it :: rooms =>
    if (s.roomManager.room it).isAddPlayer then
      let (added, room) := (s.roomManager.room it).addPlayer ⟨i, c.id⟩
      { s with roomManager := s.roomManager.setRoom it room }.setClient i
        { c with stage := if added then .joined else .seeking rooms }
    else s.setClient i { c with stage := .seeking rooms }
  | [] =>
    let (room, roomManager) := s.roomManager.addNewRoom
    { s with roomManager := roomManager.setRoom room ((roomManager.room room).addPlayer ⟨i, c.id⟩).2 }.setClient i
      { c with stage := .joined }

def advance (i : ℕ) : GameServer Addr :=
  match s.clients[i]? with
  | none => s
  | some c =>
    match c.stage with
    | .allocated => (s.statusOf c.id).2.setClient i { c with stage := .statusEntered }
    | .statusEntered =>
      if s.checked.isSome then s
      else
        { s with connectionReliableMap := s.connectionReliableMap.insert c.id 0 }.setClient i
          { c with stage := .numberEntered }
    | .numberEntered =>
      if s.roomsLocked then s else s.setClient i { c with stage := .seeking s.roomManager.rooms }
    | .seeking rooms => s.seek i c rooms
    | .joined =>
      { s with driver := s.driver.publish c.key c.connection }.setClient i
        { c with stage := .published s.driver.connections.length }
    | .published _ => s
    | .closed connection =>
      { s with driver := s.driver.removeConnection connection }.setClient i { c with stage := .withdrawn }
    | .withdrawn =>
      { s with connectionRUDPMap := s.connectionRUDPMap.erase c.id }.setClient i { c with stage := .statusErased }
    | .statusErased =>
      if s.checked.isSome then s
      else
        { s with connectionReliableMap := s.connectionReliableMap.erase c.id }.setClient i
          { c with stage := .numberErased }
    | .numberErased =>
      if s.roomsLocked then s
      else s.setClient i { c with stage := .leaving (s.roomManager.findRoomWithConnection c.id) }
    | .leaving (some room) =>
      { s with roomManager := s.roomManager.setRoom room ((s.roomManager.room room).removePlayer c.id).2 }.setClient i
        { c with stage := .gone }
    | .leaving none => s.setClient i { c with stage := .gone }
    | .gone => s

/-- The call of `Close` that exchanges the state; all others return at once. -/
def close (i : ℕ) : GameServer Addr :=
  match s.clients[i]? with
  | some ⟨key, c, .published connection, heardLate⟩ =>
    { s with
      driver := { s.driver with
        connections := s.driver.connections.modify connection fun c => { c with conn := c.conn.close } }
    }.setClient i ⟨key, c, .closed connection, heardLate⟩
  | _ => s

/-- `Protocol_NMT_NetSpeed` up to the pointer it takes out of the map. -/
def lookUpStatus (i : ℕ) (lastAckedPacketTime : BitVec 64) : GameServer Addr :=
  match s.clients[i]? with
  | none => s
  | some c =>
    if c.stage.isKnown then
      let (status, s) := s.statusOf c.id
      { s with handling := s.handling ++ [(c.id, status, lastAckedPacketTime)] }.setClient i
        { c with heardLate := c.heardLate || c.stage.isErased }
    else s

def countMessage (handler : ℕ) : GameServer Addr :=
  match s.handling[handler]? with
  | none => s
  | some (id, status, lastAckedPacketTime) =>
    { s with
      statuses := s.statuses.modify status fun status => status.protocolNMTNetSpeed lastAckedPacketTime
      handling := s.handling.eraseIdx handler
      heard := s.heard ++ [(id, lastAckedPacketTime)] }

def beginStatusCheck : GameServer Addr :=
  match s.checked with
  | some _ => s
  | none => { s with checked := some [] }

/-- The loop of `NetworkStatusCheck` at an entry, in any order: the number is used up whether `FindConnection` finds the
connection or not. -/
def checkEntry (i : ℕ) : GameServer Addr :=
  match s.checked, s.clients[i]? with
  | some ids, some c =>
    match s.connectionReliableMap c.id with
    | none => s
    | some number =>
      if ids.contains c.id then s
      else
        { s with
          connectionReliableMap := s.connectionReliableMap.set c.id (number + 1)
          checked := some (c.id :: ids)
          sent := s.sent ++ ((s.driver.connectionMap c.id).map fun connection => (connection, number)).toList }
  | _, _ => s

def endStatusCheck : GameServer Addr :=
  match s.checked with
  | none => s
  | some ids =>
    if s.clients.all fun c => (s.connectionReliableMap c.id).isNone || ids.contains c.id then { s with checked := none } else s

def next : ServerAction Double Addr → GameServer Addr
  | .addClient key pendingConnection => s.addClient key pendingConnection
  | .advance i => s.advance i
  | .close i => s.close i
  | .lookUpStatus i lastAckedPacketTime => s.lookUpStatus i lastAckedPacketTime
  | .countMessage handler => s.countMessage handler
  | .beginStatusCheck => s.beginStatusCheck
  | .checkEntry i => s.checkEntry i
  | .endStatusCheck => s.endStatusCheck

/-- The ids do not come round. -/
def IdsLast : ServerAction Double Addr → Prop
  | .addClient _ _ => s.clients.length + 1 < 2 ^ 32
  | _ => True

instance (a : ServerAction Double Addr) : Decidable (s.IdsLast a) := by
  cases a <;> unfold IdsLast <;> infer_instance

end GameServer

def gameServer (Double Addr : Type) : System (GameServer Addr) (ServerAction Double Addr) where
  init s := ∃ maxChannelsSize override, s = .start maxChannelsSize override
  next := GameServer.next

end RudpEngine
