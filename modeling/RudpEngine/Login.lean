import RudpEngine.Dialogue
import RudpEngine.ProtocolTable
import RudpEngine.ServerStatuses

/-!
# The login

Behind the handshake a client says `NMT_Hello` on its control channel. The
server challenges it, the client logs in, the server verifies the user against
the room of the connection and welcomes it or not, and the client joins. The
control channel hands on what was sent in order and each message once. The
worker of a connection handles one message after the other, while other threads
add and remove clients at any point.
-/

namespace RudpEngine

/-! ## The messages -/

inductive ControlMessage
  | NMT_Hello (token : String) (networkId : ℤ)
  | NMT_Challenge (option url : String)
  | NMT_Login (id password : String)
  | NMT_Welcome (gameName worldName : String)
  | NMT_Join (response : ℤ)
  | NMT_Failure (errorType errorNum : ℤ)
  deriving DecidableEq

def ControlMessage.id : ControlMessage → EControlProtocol
  | .NMT_Hello _ _ => .NMT_Hello
  | .NMT_Challenge _ _ => .NMT_Challenge
  | .NMT_Login _ _ => .NMT_Login
  | .NMT_Welcome _ _ => .NMT_Welcome
  | .NMT_Join _ => .NMT_Join
  | .NMT_Failure _ _ => .NMT_Failure

namespace Login

def hello : ControlMessage := .NMT_Hello "Hello World" 1557

def challenge : ControlMessage := .NMT_Challenge "hello" "try it"

def login : ControlMessage := .NMT_Login "test_id_1" "test_pw_1"

def welcome : ControlMessage := .NMT_Welcome "road runner" "L_Default"

def join : ControlMessage := .NMT_Join 1557

def failure : ControlMessage := .NMT_Failure 0 1

end Login

/-! ## The handlers -/

def credentialStore : UnorderedMap String String := UnorderedMap.empty.insert "test_id_1" "test_pw_1"

/-- How far the server is with a message. In `VerifiedUser` each stage is between two locks. -/
inductive HandlerStage
  | verifying
  | inRoom (targetRoom : ℕ)
  | withPlayer (targetPlayer : Player)
  | withId (targetPlayer : Player) (newPlayerId : BitVec 32)
  /-- Before `SendPacket`. -/
  | answering (newMessage : ControlMessage)
  deriving DecidableEq

/-- The function of the table, up to the first lock it takes. -/
def ControlProtocolServerHandler.controlProtocol (message : ControlMessage) : Option HandlerStage :=
  match ControlProtocolHandler.server.registered message.id.toId, message with
  | .Protocol_NMT_Hello, _ => some (.answering Login.challenge)
  | .Protocol_NMT_Login, .NMT_Login id password =>
    some (if credentialStore id = some password then .verifying else .answering Login.failure)
  | _, _ => none

def ControlProtocolClientHandler.controlProtocol (message : ControlMessage) : Option ControlMessage :=
  match ControlProtocolHandler.client.registered message.id.toId with
  | .Protocol_NMT_Challenge => some Login.login
  | .Protocol_NMT_Welcome => some Login.join
  | _ => none

/-! ## The parties -/

inductive EPlayerLoginState
  | NotAuthenticated
  | Verified
  deriving DecidableEq

structure PlayerLogin where
  authState : EPlayerLoginState
  playerId : ℤ
  deriving DecidableEq

/-- A client and its connection. `said` are the messages of both sides in the order in which they were sent. -/
structure LoginPeer where
  /-- Whether `HandshakeCompleteDel` is still set. -/
  handshakeCompleteDel : Bool
  /-- Whether `RemoteServerRegistry` has the client. -/
  registered : Bool
  toServer : List ControlMessage
  handling : Option (ControlMessage × HandlerStage)
  toClient : List ControlMessage
  said : List ControlMessage
  deriving DecidableEq

def LoginPeer.new : LoginPeer := ⟨true, true, [], none, [], []⟩

def LoginPeer.underway (p : LoginPeer) : List ControlMessage := p.toServer ++ (p.handling.map Prod.fst).toList ++ p.toClient

/-- The server, its clients in the order of `GameServer.clients`, and the clients that have got an id. The place of a
player is that of its client. -/
structure LoginRun (Addr : Type) where
  server : GameServer Addr
  players : List PlayerLogin
  playerIdAllocator : IDAllocator
  peers : List LoginPeer
  granted : List ℕ

inductive LoginAction (Double Addr : Type)
  | server (a : ServerAction Double Addr)
  | beginNMTHello (i : ℕ)
  | receive (i : ℕ)
  | handle (i : ℕ)
  | answer (i : ℕ)
  | unregister (i : ℕ)

namespace LoginRun

variable {Double Addr : Type} (s : LoginRun Addr)

def start (maxChannelsSize : ℕ) (override : Option ℤ) : LoginRun Addr :=
  ⟨.start maxChannelsSize override, [], .new, [], []⟩

def setPeer (i : ℕ) (p : LoginPeer) : LoginRun Addr := { s with peers := s.peers.set i p }

def beginNMTHello (i : ℕ) : LoginRun Addr :=
  match s.peers[i]? with
  | none => s
  | some p =>
    if p.handshakeCompleteDel then
      s.setPeer i { p with
        handshakeCompleteDel := false
        toServer := p.toServer ++ [Login.hello]
        said := p.said ++ [Login.hello] }
    else s

def receive (i : ℕ) : LoginRun Addr :=
  match s.peers[i]?, s.server.clients[i]? with
  | some p, some c =>
    match p.handling, p.toServer with
    | none, message :: toServer =>
      if c.stage.isKnown then
        s.setPeer i { p with
          toServer := toServer
          handling := (ControlProtocolServerHandler.controlProtocol message).map fun stage => (message, stage) }
      else s
    | _, _ => s
  | _, _ => s

def handle (i : ℕ) : LoginRun Addr :=
  match s.peers[i]?, s.server.clients[i]? with
  | some p, some c =>
    match p.handling with
    | none => s
    | some (message, stage) =>
      match stage with
      | .verifying =>
        if s.server.roomsLocked then s
        else
          s.setPeer i { p with handling := some (message,
            match s.server.roomManager.findRoomWithConnection c.id with
            | some targetRoom => .inRoom targetRoom
            | none => .answering Login.failure) }
      | .inRoom targetRoom =>
        s.setPeer i { p with handling := some (message,
          match (s.server.roomManager.room targetRoom).getPlayer c.id with
          | some targetPlayer => .withPlayer targetPlayer
          | none => .answering Login.failure) }
      | .withPlayer targetPlayer =>
        let (newPlayerId, playerIdAllocator) := s.playerIdAllocator.allocate
        { s with playerIdAllocator := playerIdAllocator, granted := s.granted ++ [i] }.setPeer i
          { p with handling := some (message, .withId targetPlayer newPlayerId) }
      | .withId targetPlayer newPlayerId =>
        { s with players := s.players.set targetPlayer.place ⟨.Verified, newPlayerId.toInt⟩ }.setPeer i
          { p with handling := some (message, .answering Login.welcome) }
      -- `FindConnection` finds the connection of this client or none
      | .answering newMessage =>
        if (s.server.driver.connectionMap c.id).isSome then
          s.setPeer i { p with
            handling := none
            toClient := p.toClient ++ [newMessage]
            said := p.said ++ [newMessage] }
        else s.setPeer i { p with handling := none }
  | _, _ => s

/-- The control channel of the client hands on the next message, and its handler answers. -/
def answer (i : ℕ) : LoginRun Addr :=
  match s.peers[i]? with
  | none => s
  | some p =>
    match p.toClient with
    | [] => s
    | message :: toClient =>
      match ControlProtocolClientHandler.controlProtocol message with
      | some newMessage =>
        if p.registered then
          s.setPeer i { p with
            toClient := toClient
            toServer := p.toServer ++ [newMessage]
            said := p.said ++ [newMessage] }
        else s.setPeer i { p with toClient := toClient }
      | none => s.setPeer i { p with toClient := toClient }

def unregister (i : ℕ) : LoginRun Addr :=
  match s.peers[i]? with
  | none => s
  | some p => s.setPeer i { p with registered := false }

def next : LoginAction Double Addr → LoginRun Addr
  | .server (.addClient key pendingConnection) =>
    { s with
      server := s.server.addClient key pendingConnection
      players := s.players ++ [⟨.NotAuthenticated, 0⟩]
      peers := s.peers ++ [.new] }
  | .server a => { s with server := s.server.next a }
  | .beginNMTHello i => s.beginNMTHello i
  | .receive i => s.receive i
  | .handle i => s.handle i
  | .answer i => s.answer i
  | .unregister i => s.unregister i

def IdsLast : LoginAction Double Addr → Prop
  | .server a => s.server.IdsLast a
  | _ => True

instance (a : LoginAction Double Addr) : Decidable (s.IdsLast a) := by
  cases a <;> unfold IdsLast <;> infer_instance

end LoginRun

def loginSystem (Double Addr : Type) : System (LoginRun Addr) (LoginAction Double Addr) where
  init s := ∃ maxChannelsSize override, s = .start maxChannelsSize override
  next := LoginRun.next

end RudpEngine
