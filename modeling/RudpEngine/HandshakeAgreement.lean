import RudpEngine.Handshake
import RudpEngine.InitSequence

/-!
# Agreement on the first sequences

A client and a server exchange handshake packets over a network that may lose,
repeat and reorder them. Once the server has made the connection, its pending
connection keeps the cookie of the accepted response, so every ack carries the
two sequences the connection was made with, in any order of the packets.
-/

namespace RudpEngine

/-- Both ends and every packet ever sent; the network delivers any of them at any time. -/
structure HandshakeRun (Double Addr : Type) where
  client : ClientProcessor Double Addr
  server : ServerProcessor Double Addr
  toServer : List (HandshakeData Double)
  toClient : List (HandshakeData Double)

inductive HandshakeAction (Double : Type)
  | sendInitialPacket (now : Double)
  | resendHandshake
  | deliverToServer (i : ℕ) (now : ℕ → Double)
  | deliverToClient (i : ℕ) (now : Double)
  | connectionsUpdate (timeId : ℕ) (now : Double)

/-- The channels of the one end are those of the other, in the other direction. -/
def ChannelsAgree (client server : NetConnection) : Prop :=
  ∀ i, (client.channel? i).map (fun ch => (ch.outReliable, ch.inReliable)) =
    (server.channel? i).map fun ch => (ch.inReliable, ch.outReliable)

namespace HandshakeRun

variable {Double Addr : Type} [DoubleOps Double] (setting : HandshakeSetting Double Addr) (key : BitVec 64)
  (address : Addr) (s : HandshakeRun Double Addr)

def start (clientChannels serverChannels : ℕ) (override : Option ℤ) (serverAddress : Addr) : HandshakeRun Double Addr :=
  ⟨.initConnect clientChannels serverAddress, .new (.initListen serverChannels override), [], []⟩

/-- A packet of the client at the server: it is for the connection of the address, or for the handshake. -/
def dispatchReceivedDatagram (now : ℕ → Double) (data : HandshakeData Double) :
    ServerProcessor Double Addr × Option (HandshakeData Double) :=
  match s.server.lookup key with
  | none => s.server.incomingConnectionless setting now key address data
  | some _ => s.server.incoming setting (now 0) key data

def next : HandshakeAction Double → HandshakeRun Double Addr
  | .sendInitialPacket now =>
    let (client, packet) := s.client.sendInitial now
    { s with client := client, toServer := s.toServer ++ [packet] }
  | .resendHandshake => { s with toServer := s.toServer ++ s.client.resendHandshake.toList }
  | .deliverToServer i now =>
    match s.toServer[i]? with
    | none => s
    | some data =>
      let (server, packet) := s.dispatchReceivedDatagram setting key address now data
      { s with server := server, toClient := s.toClient ++ packet.toList }
  | .deliverToClient i now =>
    match s.toClient[i]? with
    | none => s
    | some data =>
      let (client, packet) := s.client.incoming now data
      { s with client := client, toServer := s.toServer ++ packet.toList }
  | .connectionsUpdate timeId now => { s with server := s.server.connectionsUpdate setting timeId now }

/-- Each `InitSequence` of the client that succeeded, of which there is at most one, has the server's connection for the
client's address on its other side. -/
structure Agreement : Prop where
  once : s.client.initSequences.length ≤ 1
  agreed : ∀ serverSequence clientSequence, (serverSequence, clientSequence) ∈ s.client.initSequences →
    ∃ connection g, s.server.lookup key = some connection ∧ s.server.driver.connections[connection]? = some g ∧
      g.remoteAddr = address ∧
      g.conn = ((NetConnection.new true s.server.driver.maxChannelsSize .open).initSequence clientSequence
        serverSequence).2.createInitialChannels ∧
      ChannelsAgree s.client.serverConnection g.conn

end HandshakeRun

/-- One client with its address and one server; both have the channels `0` and `1` that `CreateInitialChannels` makes. -/
def handshakeSystem {Double Addr : Type} [DoubleOps Double] (setting : HandshakeSetting Double Addr) (key : BitVec 64)
    (address : Addr) : System (HandshakeRun Double Addr) (HandshakeAction Double) where
  init s := ∃ clientChannels serverChannels override serverAddress, 2 ≤ clientChannels ∧ 2 ≤ serverChannels ∧
    s = .start clientChannels serverChannels override serverAddress
  next s := s.next setting key address

/-! ## Channels at both ends -/

namespace NetConnection

theorem channel?_createInitialChannels {c : NetConnection} {n : ℕ} (hn : 2 ≤ n)
    (hc : c.channels = List.replicate n none) (i : ℕ) :
    c.createInitialChannels.channel? i =
      if i < 2 then some (NetChannel.init i c.initInReliable c.initOutReliable) else none := by
  have hlen : c.channels.length = n := by rw [hc, List.length_replicate]
  have hnone : c.channel? i = none := by
    unfold channel?
    rw [hc, List.getElem?_replicate]
    split <;> rfl
  unfold createInitialChannels createChannelByName
  rw [channel?_setChannel (by rw [length_setChannel, hlen]; exact hn), channel?_setChannel (by rw [hlen]; omega), hnone]
  by_cases h1 : i = 1
  · subst h1
    rfl
  · rw [if_neg h1]
    by_cases h0 : i = 0
    · subst h0
      rfl
    · rw [if_neg h0, if_neg (by omega)]

/-- The server makes its channels behind `InitSequence`, the client has them before. -/
theorem channelsAgree_initSequence {clientChannels serverChannels : ℕ} (hclient : 2 ≤ clientChannels)
    (hserver : 2 ≤ serverChannels) (serverSequence clientSequence : ℤ) :
    ChannelsAgree
      ((NetConnection.new false clientChannels .pending).createInitialChannels.initSequence serverSequence clientSequence).2
      ((NetConnection.new true serverChannels .open).initSequence clientSequence serverSequence).2.createInitialChannels := by
  intro i
  have hc : ∀ inc out : ℤ, ((NetConnection.new false clientChannels .pending).createInitialChannels.initSequence inc out).2.channel? i =
      ((NetConnection.new false clientChannels .pending).createInitialChannels.channel? i).map fun ch =>
        ch.updateChannelSeq (inc % maxChSequence).toNat (out % maxChSequence).toNat :=
    fun _ _ => channel?_mapChannels _ _
  have hs : ∀ inc out : ℤ, ((NetConnection.new true serverChannels .open).initSequence inc out).2.channels =
      List.replicate serverChannels none := fun _ _ => by
    show (List.replicate serverChannels none).map _ = _
    rw [List.map_replicate]
    rfl
  rw [hc, channel?_createInitialChannels hclient rfl, channel?_createInitialChannels hserver (hs _ _)]
  by_cases hi : i < 2
  · rw [if_pos hi, if_pos hi]
    rfl
  · rw [if_neg hi, if_neg hi]
    rfl

/-- The sequences of a cookie are masked, so the bookkeeping of the connections they start stays in step. -/
theorem afterInit_cookieSequence (cookie : Cookie) (i j : Fin cookieByteSize) (isServer : Bool) (n : ℕ)
    (state : EConnectionState) (cs : List (Option NetChannel)) :
    AfterInit ({ NetConnection.new isServer n state with channels := cs }.initSequence (cookieSequence cookie i)
      (cookieSequence cookie j)).2 :=
  ⟨isServer, n, state, cs, _, _, Int.natCast_nonneg _, rfl⟩

end NetConnection

/-! ## The server -/

namespace IpNetDriver

variable {Double Addr : Type} {d : IpNetDriver Addr} {key : BitVec 64}

theorem addClient_maxChannelsSize (key : BitVec 64) (p : PendingRemoteConnection Double Addr) :
    (d.addClient key p).maxChannelsSize = d.maxChannelsSize := by
  obtain ⟨_, _, heq⟩ := ((d.makeConnection p).2.publish key (d.makeConnection p).1).assignConnectionThreadIndex_cases
    d.connections.length
  have hadd : d.addClient key p = _ := heq
  rw [hadd]
  rfl

theorem addClient_lookup (h : d.hashToConnectionMap key = none) (p : PendingRemoteConnection Double Addr) :
    (d.addClient key p).hashToConnectionMap key = some d.connections.length ∧
      ∃ g, (d.addClient key p).connections[d.connections.length]? = some g ∧ g.remoteAddr = p.address ∧
        g.conn = ((NetConnection.new true d.maxChannelsSize .open).initSequence p.clientSequence
          p.serverSequence).2.createInitialChannels := by
  have hadded : ∀ (g : GameNetConnection Addr) (f : GameNetConnection Addr → GameNetConnection Addr),
      ((d.connections ++ [g]).modify d.connections.length f)[d.connections.length]? = some (f g) := by
    intro g f
    rw [List.getElem?_modify, List.getElem?_concat_length]
    simp
  have hinsert : (d.hashToConnectionMap.insert key d.connections.length) key = some d.connections.length := by
    rw [UnorderedMap.insert_of_none h]
    exact UnorderedMap.set_eq_some.mpr (.inl ⟨rfl, rfl⟩)
  obtain ⟨_, _, heq⟩ := ((d.makeConnection p).2.publish key (d.makeConnection p).1).assignConnectionThreadIndex_cases
    d.connections.length
  have hadd : d.addClient key p = _ := heq
  rw [hadd]
  exact ⟨hinsert, _, hadded _ _, rfl, rfl⟩

end IpNetDriver

namespace ServerProcessor

variable {Double Addr : Type} {setting : HandshakeSetting Double Addr} {key : BitVec 64} {address : Addr}
  {s s' : ServerProcessor Double Addr}

/-- The server's connection for the address was made with these two sequences. -/
def Connected (s : ServerProcessor Double Addr) (key : BitVec 64) (address : Addr)
    (clientSequence serverSequence : ℤ) : Prop :=
  ∃ connection g, s.lookup key = some connection ∧ s.driver.connections[connection]? = some g ∧ g.remoteAddr = address ∧
    g.conn = ((NetConnection.new true s.driver.maxChannelsSize .open).initSequence clientSequence
      serverSequence).2.createInitialChannels

def ConnectedBy (s : ServerProcessor Double Addr) (key : BitVec 64) (address : Addr) (cookie : Cookie) : Prop :=
  s.Connected key address (cookieSequence cookie 1) (cookieSequence cookie 0)

structure AcksConnected (setting : HandshakeSetting Double Addr) (key : BitVec 64) (address : Addr)
    (s : ServerProcessor Double Addr) (sent : List (HandshakeData Double)) : Prop where
  addressed : ∀ timeId p, s.remoteManager.clientCache timeId key = some p → p.address = address
  pending : ∀ timeId p, s.remoteManager.clientCache timeId key = some p → p.handshakePacketType = .ack →
    s.ConnectedBy key address (regenCookie setting p)
  sent : ∀ packet ∈ sent, packet.handshakePacketType = .ack → s.ConnectedBy key address packet.cookie

variable {sent : List (HandshakeData Double)}

theorem Connected.mono {clientSequence serverSequence : ℤ} (h : s.Connected key address clientSequence serverSequence)
    (hd : s'.driver = s.driver) : s'.Connected key address clientSequence serverSequence := by
  unfold Connected lookup at *
  rw [hd]
  exact h

theorem not_connected (h : s.lookup key = none) {clientSequence serverSequence : ℤ} :
    ¬ s.Connected key address clientSequence serverSequence := by
  rintro ⟨connection, g, hlookup, -⟩
  exact nomatch h.symm.trans hlookup

theorem AcksConnected.store (h : AcksConnected setting key address s sent) (timeId : ℕ)
    {p : PendingRemoteConnection Double Addr} (haddress : p.address = address)
    (hack : p.handshakePacketType = .ack → s.ConnectedBy key address (regenCookie setting p))
    {r : Option (HandshakeData Double)}
    (hr : ∀ packet ∈ r, packet.handshakePacketType = .ack → s.ConnectedBy key address packet.cookie) :
    AcksConnected setting key address (s.store timeId key p) (sent ++ r.toList) := by
  constructor
  · intro t q hq
    rcases PendingConnectionManager.clientCache_store hq with ⟨-, rfl⟩ | ⟨t', hold⟩
    · exact haddress
    · exact h.addressed t' q hold
  · intro t q hq hqack
    rcases PendingConnectionManager.clientCache_store hq with ⟨-, rfl⟩ | ⟨t', hold⟩
    · exact hack hqack
    · exact h.pending t' q hold hqack
  · intro data hdata hdataack
    rcases List.mem_append.mp hdata with hold | hnew
    · exact h.sent data hold hdataack
    · exact hr data (Option.mem_toList.mp hnew) hdataack

theorem AcksConnected.findOrAdd (h : AcksConnected setting key address s sent) {now : Double} {timeId : ℕ}
    {p : PendingRemoteConnection Double Addr}
    (hf : s.findOrAddConnection setting now key address = ((timeId, p), s')) :
    AcksConnected setting key address s' sent ∧ s'.driver = s.driver ∧ p.address = address ∧
      (p.handshakePacketType = .ack → s.ConnectedBy key address (regenCookie setting p)) := by
  unfold findOrAddConnection at hf
  cases hfound : s.remoteManager.findConnection key with
  | some found =>
    rw [hfound] at hf
    cases hf
    have hcache := PendingConnectionManager.findConnection_eq_some hfound
    exact ⟨h, rfl, h.addressed _ _ hcache, h.pending _ _ hcache⟩
  | none =>
    rw [hfound] at hf
    cases hf
    refine ⟨⟨?_, ?_, h.sent⟩, rfl, rfl, nofun⟩
    · intro t q hq
      rcases PendingConnectionManager.clientCache_addConnection hq with ⟨-, rfl⟩ | ⟨t', hold⟩
      · rfl
      · exact h.addressed t' q hold
    · intro t q hq hqack
      rcases PendingConnectionManager.clientCache_addConnection hq with ⟨-, rfl⟩ | ⟨t', hold⟩
      · cases hqack
      · exact h.pending t' q hold hqack

variable [DoubleOps Double]

/-- Where there is no connection, an ack is sent for the one that is made. -/
theorem AcksConnected.incomingConnectionless (h : AcksConnected setting key address s sent)
    (hnone : s.lookup key = none) (now : ℕ → Double) (data : HandshakeData Double) :
    AcksConnected setting key address (s.incomingConnectionless setting now key address data).1
      (sent ++ (s.incomingConnectionless setting now key address data).2.toList) := by
  rcases incomingConnectionless_cases setting s now key address data with
    heq | ⟨timeId, p, s', hf, heq | heq | ⟨hadds, heq⟩⟩
  · rw [heq]
    exact (List.append_nil sent).symm ▸ h
  · obtain ⟨hs', hd, haddress, hack⟩ := h.findOrAdd hf
    rw [heq]
    exact hs'.store timeId (p := p.touch (now 1)) haddress (fun ha => (hack ha).mono hd) (fun _ hm => nomatch hm)
  · obtain ⟨hs', hd, haddress, hack⟩ := h.findOrAdd hf
    rw [heq]
    refine hs'.store timeId
      (p := (sendConnectChallenge setting (now 2) ((p.touch (now 1)).updateHanshakePacketType .challenge)).1)
      (r := some (sendConnectChallenge setting (now 2) ((p.touch (now 1)).updateHanshakePacketType .challenge)).2)
      haddress (fun ha => nomatch ha) ?_
    intro packet hpacket hpacketack
    rw [← Option.some.inj hpacket] at hpacketack
    cases hpacketack
  · obtain ⟨hs', hd, haddress, hack⟩ := h.findOrAdd hf
    have hcookie : data.cookie = regenCookie setting p := by
      obtain ⟨-, -, hsuccess⟩ := hadds
      rw [hf] at hsuccess
      exact beq_iff_eq.mp (Bool.and_eq_true_iff.mp hsuccess).2
    have hfree : s'.driver.hashToConnectionMap key = none := hd ▸ hnone
    -- nothing was acknowledged before
    have hold : AcksConnected setting key address (s'.addClient key ((p.touch (now 1)).complete
        (cookieSequence data.cookie 0) (cookieSequence data.cookie 1))) sent :=
      ⟨hs'.addressed, fun t q hq hqack => absurd (hs'.pending t q hq hqack) (not_connected hfree),
        fun packet hpacket hpacketack => absurd (hs'.sent packet hpacket hpacketack) (not_connected hfree)⟩
    have hmade : (s'.addClient key ((p.touch (now 1)).complete (cookieSequence data.cookie 0)
        (cookieSequence data.cookie 1))).ConnectedBy key address (regenCookie setting p) := by
      obtain ⟨hlookup, g, hg, hremote, hconn⟩ := IpNetDriver.addClient_lookup hfree
        ((p.touch (now 1)).complete (cookieSequence data.cookie 0) (cookieSequence data.cookie 1))
      refine ⟨_, g, hlookup, hg, hremote.trans haddress, ?_⟩
      rw [hconn, ← hcookie]
      show _ = ((NetConnection.new true (s'.driver.addClient key _).maxChannelsSize .open).initSequence _
        _).2.createInitialChannels
      rw [IpNetDriver.addClient_maxChannelsSize]
      rfl
    rw [heq]
    refine hold.store timeId
      (p := (sendChallengeAck ((p.touch (now 1)).complete (cookieSequence data.cookie 0) (cookieSequence data.cookie 1))
        (regenCookie setting p)).1)
      (r := some (s'.acknowledge setting timeId key data (p.touch (now 1))).2) haddress (fun _ => hmade) ?_
    intro packet hpacket _
    rw [← Option.some.inj hpacket]
    exact hmade

theorem AcksConnected.incoming (h : AcksConnected setting key address s sent) (now : Double) (data : HandshakeData Double) :
    AcksConnected setting key address (s.incoming setting now key data).1
      (sent ++ (s.incoming setting now key data).2.toList) := by
  unfold ServerProcessor.incoming
  cases hfound : s.remoteManager.findConnection key with
  | none => exact (List.append_nil sent).symm ▸ h
  | some found =>
    obtain ⟨timeId, p⟩ := found
    have hcache := PendingConnectionManager.findConnection_eq_some hfound
    have haddress := h.addressed _ _ hcache
    have hack := h.pending _ _ hcache
    simp only
    split
    · split
      · next hresponse hcookie =>
        refine h.store timeId (p := (sendChallengeAck (p.touch now) (regenCookie setting (p.touch now))).1)
          (r := some (sendChallengeAck (p.touch now) (regenCookie setting (p.touch now))).2) haddress hack ?_
        intro packet hpacket _
        rw [← Option.some.inj hpacket]
        exact hack hresponse.2
      · exact h.store timeId (p := p.touch now) haddress hack (fun _ hm => nomatch hm)
    · exact h.store timeId (p := p.touch now) haddress hack (fun _ hm => nomatch hm)

theorem incoming_driver (s : ServerProcessor Double Addr) (now : Double) (key : BitVec 64) (data : HandshakeData Double) :
    (s.incoming setting now key data).1.driver = s.driver := by
  unfold ServerProcessor.incoming
  split
  · rfl
  · simp only
    split
    · split <;> rfl
    · rfl

theorem incomingConnectionless_maxChannelsSize (s : ServerProcessor Double Addr) (now : ℕ → Double) (key : BitVec 64)
    (address : Addr) (data : HandshakeData Double) :
    (s.incomingConnectionless setting now key address data).1.driver.maxChannelsSize = s.driver.maxChannelsSize := by
  have hfind : ∀ {timeId p s'}, s.findOrAddConnection setting (now 0) key address = ((timeId, p), s') →
      s'.driver.maxChannelsSize = s.driver.maxChannelsSize := by
    intro timeId p s' hf
    unfold findOrAddConnection at hf
    cases hfound : s.remoteManager.findConnection key <;> rw [hfound] at hf <;> cases hf <;> rfl
  rcases incomingConnectionless_cases setting s now key address data with
    heq | ⟨timeId, p, s', hf, heq | heq | ⟨-, heq⟩⟩
  · rw [heq]
  · rw [heq]
    show s'.driver.maxChannelsSize = _
    exact hfind hf
  · rw [heq]
    show s'.driver.maxChannelsSize = _
    exact hfind hf
  · rw [heq]
    exact (IpNetDriver.addClient_maxChannelsSize key _).trans (hfind hf)

end ServerProcessor

/-! ## Both ends -/

namespace HandshakeRun

variable {Double Addr : Type} [DoubleOps Double] {setting : HandshakeSetting Double Addr} {key : BitVec 64}
  {address : Addr} {s : HandshakeRun Double Addr}

/-- The client has not initialised, or did so once, with the sequences of the server's connection. -/
def ClientAgrees (clientChannels : ℕ) (key : BitVec 64) (address : Addr) (client : ClientProcessor Double Addr)
    (server : ServerProcessor Double Addr) : Prop :=
  (client.initSequences = [] ∧
      client.serverConnection = (NetConnection.new false clientChannels .pending).createInitialChannels) ∨
    (client.state = .initialized ∧ ∃ serverSequence clientSequence,
      client.initSequences = [(serverSequence, clientSequence)] ∧
      client.serverConnection = ((NetConnection.new false clientChannels .pending).createInitialChannels.initSequence
        serverSequence clientSequence).2 ∧
      server.Connected key address clientSequence serverSequence)

structure Agreeing (setting : HandshakeSetting Double Addr) (key : BitVec 64) (address : Addr) (clientChannels : ℕ)
    (s : HandshakeRun Double Addr) : Prop where
  channels : 2 ≤ clientChannels ∧ 2 ≤ s.server.driver.maxChannelsSize
  acks : ServerProcessor.AcksConnected setting key address s.server s.toClient
  client : ClientAgrees clientChannels key address s.client s.server

omit [DoubleOps Double] in
theorem ClientAgrees.mono {n : ℕ} {client : ClientProcessor Double Addr} {server server' : ServerProcessor Double Addr}
    (h : ClientAgrees n key address client server)
    (hs : ∀ c s, server.Connected key address c s → server'.Connected key address c s) :
    ClientAgrees n key address client server' := by
  rcases h with hfresh | ⟨hstate, serverSequence, clientSequence, hlog, hconn, hconnected⟩
  · exact .inl hfresh
  · exact .inr ⟨hstate, serverSequence, clientSequence, hlog, hconn, hs _ _ hconnected⟩

/-- One packet at the client, which initialises only from an ack. -/
theorem ClientAgrees.incoming {n : ℕ} {client : ClientProcessor Double Addr} {server : ServerProcessor Double Addr}
    (h : ClientAgrees n key address client server) (now : Double) {data : HandshakeData Double}
    (hdata : data.handshakePacketType = .ack → server.ConnectedBy key address data.cookie) :
    ClientAgrees n key address (client.incoming now data).1 server := by
  unfold ClientProcessor.incoming
  cases hfound : client.remoteManager.findConnection 0 with
  | none => exact h
  | some found =>
    simp only
    by_cases hstate : client.state = .unInitialized ∨ client.state = .initializedOnLocal
    · rw [if_pos hstate]
      have hfresh : client.initSequences = [] ∧
          client.serverConnection = (NetConnection.new false n .pending).createInitialChannels := by
        rcases h with hfresh | ⟨hinit, -⟩
        · exact hfresh
        · rw [hinit] at hstate
          rcases hstate with hs | hs <;> cases hs
      by_cases hchallenge : data.handshakePacketType = .challenge ∧ 0 < data.timeStamp
      · rw [if_pos hchallenge]
        exact .inl hfresh
      · rw [if_neg hchallenge]
        by_cases hack : data.handshakePacketType = .ack ∧ data.timeStamp < 0
        · rw [if_pos hack, hfresh.2]
          right
          refine ⟨rfl, _, _, ?_, rfl, hdata hack.1⟩
          show client.initSequences ++ _ = _
          rw [hfresh.1]
          rfl
        · rw [if_neg hack]
          exact .inl hfresh
    · rw [if_neg hstate]
      exact h

theorem Agreeing.dispatch {n : ℕ} (h : s.Agreeing setting key address n) (now : ℕ → Double)
    (data : HandshakeData Double) :
    ({ s with
      server := (s.dispatchReceivedDatagram setting key address now data).1
      toClient := s.toClient ++ (s.dispatchReceivedDatagram setting key address now data).2.toList } :
      HandshakeRun Double Addr).Agreeing setting key address n := by
  unfold dispatchReceivedDatagram
  cases hlookup : s.server.lookup key with
  | none =>
    refine ⟨⟨h.channels.1, ?_⟩, h.acks.incomingConnectionless hlookup now data, ?_⟩
    · show 2 ≤ (s.server.incomingConnectionless setting now key address data).1.driver.maxChannelsSize
      rw [ServerProcessor.incomingConnectionless_maxChannelsSize]
      exact h.channels.2
    · exact h.client.mono fun _ _ hc => absurd hc (ServerProcessor.not_connected hlookup)
  | some connection =>
    have hdriver : (s.server.incoming setting (now 0) key data).1.driver = _ :=
      ServerProcessor.incoming_driver s.server (now 0) key data
    refine ⟨⟨h.channels.1, ?_⟩, h.acks.incoming (now 0) data, h.client.mono fun _ _ hc => hc.mono hdriver⟩
    show 2 ≤ (s.server.incoming setting (now 0) key data).1.driver.maxChannelsSize
    rw [hdriver]
    exact h.channels.2

theorem next_agreeing {n : ℕ} (h : s.Agreeing setting key address n) (a : HandshakeAction Double) :
    (s.next setting key address a).Agreeing setting key address n := by
  cases a with
  | sendInitialPacket now => exact ⟨h.channels, h.acks, h.client⟩
  | resendHandshake => exact ⟨h.channels, h.acks, h.client⟩
  | deliverToServer i now =>
    show (match s.toServer[i]? with | none => s | some data => _ : HandshakeRun Double Addr).Agreeing setting key address n
    cases s.toServer[i]? with
    | none => exact h
    | some data => exact h.dispatch now data
  | deliverToClient i now =>
    show (match s.toClient[i]? with | none => s | some data => _ : HandshakeRun Double Addr).Agreeing setting key address n
    cases hi : s.toClient[i]? with
    | none => exact h
    | some data => exact ⟨h.channels, h.acks, h.client.incoming now (h.acks.sent data (List.mem_of_getElem? hi))⟩
  | connectionsUpdate timeId now =>
    refine ⟨h.channels, ⟨?_, ?_, h.acks.sent⟩, h.client⟩
    · intro t p hp
      obtain ⟨t', hold⟩ := PendingConnectionManager.clientCache_timeKillEvent hp
      exact h.acks.addressed t' p hold
    · intro t p hp hack
      obtain ⟨t', hold⟩ := PendingConnectionManager.clientCache_timeKillEvent hp
      exact h.acks.pending t' p hold hack

omit [DoubleOps Double] in
theorem Agreeing.agreement {n : ℕ} (h : s.Agreeing setting key address n) : s.Agreement key address := by
  rcases h.client with ⟨hlog, -⟩ | ⟨-, serverSequence, clientSequence, hlog, hconn, connection, g, hlookup, hg, haddress, hmade⟩
  · refine ⟨by rw [hlog]; exact Nat.zero_le 1, ?_⟩
    intro _ _ hmem
    rw [hlog] at hmem
    cases hmem
  · refine ⟨by rw [hlog]; exact Nat.le_refl 1, ?_⟩
    intro serverSequence' clientSequence' hmem
    rw [hlog] at hmem
    cases List.mem_singleton.mp hmem
    refine ⟨connection, g, hlookup, hg, haddress, hmade, ?_⟩
    rw [hconn, hmade]
    exact NetConnection.channelsAgree_initSequence h.channels.1 h.channels.2 _ _

/-- In every run, the client initialises at most once, and then with the sequences and the channels of the server. -/
theorem handshake_agreement (h : (handshakeSystem setting key address).Reachable s) : s.Agreement key address := by
  have hagree : ∃ n, s.Agreeing setting key address n := by
    refine System.Reach.invariant (I := fun s => ∃ n, s.Agreeing setting key address n) ?_ ?_ h
    · rintro s ⟨clientChannels, serverChannels, override, serverAddress, hc, hs, rfl⟩
      refine ⟨clientChannels, ⟨hc, hs⟩, ⟨?_, ?_, ?_⟩, .inl ⟨rfl, rfl⟩⟩
      · exact fun _ _ hp => nomatch hp
      · exact fun _ _ hp => nomatch hp
      · exact fun _ hp => absurd hp List.not_mem_nil
    · rintro s a ⟨n, hs⟩ -
      exact ⟨n, next_agreeing hs a⟩
  obtain ⟨n, hn⟩ := hagree
  exact hn.agreement

def clockSetting : HandshakeSetting ℤ (BitVec 64) where
  generateCookie _ _ time := Vector.ofFn fun i => BitVec.ofNat 8 (time.toNat + i)
  activeSecret := 0
  sessionID := 0
  maxCookieLifetime := 40
  inactivityTimeoutSec := 10

/-- A first packet that is sent twice and challenged at two times; the newer challenge is answered. -/
theorem handshake_agreement_two_challenges :
    ((handshakeSystem clockSetting 5 5).runFrom (.start 2 2 none 9)
      [.sendInitialPacket 0, .resendHandshake, .deliverToServer 0 fun _ => 3, .deliverToServer 1 fun _ => 4,
        .deliverToClient 0 5, .deliverToClient 1 5, .deliverToServer 2 fun _ => 6, .deliverToServer 3 fun _ => 6,
        .deliverToServer 3 fun _ => 7, .deliverToClient 3 8, .deliverToClient 2 8]).Agreement 5 5 := by
  have hstart : (handshakeSystem clockSetting 5 5).Reachable (.start 2 2 none 9) :=
    .init ⟨2, 2, none, 9, le_refl 2, le_refl 2, rfl⟩
  exact handshake_agreement (System.reachable_runFrom hstart _)

end HandshakeRun

end RudpEngine
