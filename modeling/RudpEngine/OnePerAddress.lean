import RudpEngine.Handshake
import RudpEngine.Run

/-!
# One connection for each address

A thread looks an address up in `HashToConnectionMap`, lets go of the lock and
then handles the datagram. Two responses of one client that are looked up
before either is handled add the client twice: the map keeps its first entry
and the two other containers take a second connection that no datagram reaches.
As long as no client is added whose key or id is there, the three containers
agree.
-/

namespace RudpEngine

namespace IpNetDriver

variable {Double Addr : Type} (hashKey : Addr → BitVec 64) (d : IpNetDriver Addr)

def key? (r : ℕ) : Option (BitVec 64) := d.connections[r]?.map fun c => hashKey c.remoteAddr

def id? (r : ℕ) : Option (BitVec 32) := d.connections[r]?.map fun c => c.uniqueConnectionId

def OpenRegistered : Prop :=
  ∀ r c, d.connections[r]? = some c → c.conn.state ≠ .closed → r ∈ d.remoteConnections

/-- `HashToConnectionMap`, `ConnectionMap` and `RemoteConnections` hold the same connections, each once. -/
structure OneToOne : Prop where
  registered : ∀ r ∈ d.remoteConnections, ∃ key id, d.key? hashKey r = some key ∧ d.id? r = some id ∧
    d.hashToConnectionMap key = some r ∧ d.connectionMap id = some r
  keyed : ∀ key r, d.hashToConnectionMap key = some r → r ∈ d.remoteConnections ∧ d.key? hashKey r = some key
  identified : ∀ id r, d.connectionMap id = some r → r ∈ d.remoteConnections ∧ d.id? r = some id
  nodup : d.remoteConnections.Nodup

def OnePerKey : Prop :=
  ∀ r ∈ d.remoteConnections, ∀ r' ∈ d.remoteConnections, d.key? hashKey r = d.key? hashKey r' → r = r'

variable {hashKey d}

theorem OneToOne.onePerKey (h : d.OneToOne hashKey) : d.OnePerKey hashKey := by
  intro r hr r' hr' hkey
  obtain ⟨key, id, hk, -, hmap, -⟩ := h.registered r hr
  obtain ⟨key', id', hk', -, hmap', -⟩ := h.registered r' hr'
  have heq : key = key' := Option.some.inj (hk.symm.trans (hkey.trans hk'))
  subst heq
  exact Option.some.inj (hmap.symm.trans hmap')

theorem lt_of_key? {r : ℕ} {key : BitVec 64} (h : d.key? hashKey r = some key) : r < d.connections.length := by
  by_contra hle
  rw [key?, List.getElem?_eq_none (Nat.le_of_not_lt hle)] at h
  cases h

/-! ## Connections that change in place -/

/-- The containers and the labels of the connections are those of another driver. -/
structure SameTables (hashKey : Addr → BitVec 64) (d d' : IpNetDriver Addr) : Prop where
  hashToConnectionMap : d'.hashToConnectionMap = d.hashToConnectionMap
  connectionMap : d'.connectionMap = d.connectionMap
  remoteConnections : d'.remoteConnections = d.remoteConnections
  key? : ∀ r, d'.key? hashKey r = d.key? hashKey r
  id? : ∀ r, d'.id? r = d.id? r

theorem SameTables.of_modify {d' : IpNetDriver Addr} {f : GameNetConnection Addr → GameNetConnection Addr} {r : ℕ}
    (hconn : d'.connections = d.connections.modify r f) (haddr : ∀ c, (f c).remoteAddr = c.remoteAddr)
    (hid : ∀ c, (f c).uniqueConnectionId = c.uniqueConnectionId)
    (hhash : d'.hashToConnectionMap = d.hashToConnectionMap) (hmap : d'.connectionMap = d.connectionMap)
    (hremote : d'.remoteConnections = d.remoteConnections) : SameTables hashKey d d' := by
  refine ⟨hhash, hmap, hremote, ?_, ?_⟩
  · intro r'
    unfold IpNetDriver.key?
    rw [hconn]
    exact map_getElem?_modify (fun c => hashKey c.remoteAddr) _ _ (fun c => congrArg hashKey (haddr c)) _
  · intro r'
    unfold IpNetDriver.id?
    rw [hconn]
    exact map_getElem?_modify _ _ _ hid _

theorem OneToOne.same {d' : IpNetDriver Addr} (h : d.OneToOne hashKey) (hs : SameTables hashKey d d') :
    d'.OneToOne hashKey := by
  constructor
  · intro r hr
    rw [hs.remoteConnections] at hr
    obtain ⟨key, id, hk, hid, hmap, hcmap⟩ := h.registered r hr
    exact ⟨key, id, (hs.key? r).trans hk, (hs.id? r).trans hid, by rw [hs.hashToConnectionMap, hmap],
      by rw [hs.connectionMap, hcmap]⟩
  · intro key r hmap
    rw [hs.hashToConnectionMap] at hmap
    rw [hs.remoteConnections, hs.key?]
    exact h.keyed key r hmap
  · intro id r hmap
    rw [hs.connectionMap] at hmap
    rw [hs.remoteConnections, hs.id?]
    exact h.identified id r hmap
  · rw [hs.remoteConnections]
    exact h.nodup

theorem assignConnectionThreadIndex_same (r : ℕ) : SameTables hashKey d (d.assignConnectionThreadIndex r) := by
  obtain ⟨_, _, heq⟩ := d.assignConnectionThreadIndex_cases r
  rw [heq]
  exact .of_modify rfl (fun _ => rfl) (fun _ => rfl) rfl rfl rfl

/-! ## Publishing and removing -/

section
variable {key : BitVec 64} {c : GameNetConnection Addr}

theorem key?_publish (r : ℕ) : (d.publish key c).key? hashKey r =
    if r = d.connections.length then some (hashKey c.remoteAddr) else d.key? hashKey r :=
  map_getElem?_concat _ _ _ _

theorem id?_publish (r : ℕ) : (d.publish key c).id? r =
    if r = d.connections.length then some c.uniqueConnectionId else d.id? r :=
  map_getElem?_concat _ _ _ _

theorem OneToOne.publish (h : d.OneToOne hashKey) (hkey : hashKey c.remoteAddr = key)
    (hfree : d.hashToConnectionMap key = none) (hid : d.connectionMap c.uniqueConnectionId = none) :
    (d.publish key c).OneToOne hashKey := by
  have hlt : ∀ r ∈ d.remoteConnections, r ≠ d.connections.length := by
    intro r hr
    obtain ⟨key', -, hk, -⟩ := h.registered r hr
    exact Nat.ne_of_lt (lt_of_key? hk)
  have hhash : (d.publish key c).hashToConnectionMap = d.hashToConnectionMap.set key d.connections.length :=
    UnorderedMap.insert_of_none hfree _
  have hconn : (d.publish key c).connectionMap = d.connectionMap.set c.uniqueConnectionId d.connections.length :=
    UnorderedMap.insert_of_none hid _
  have hremote : (d.publish key c).remoteConnections = d.remoteConnections ++ [d.connections.length] := rfl
  constructor
  · intro r hr
    rw [hhash, hconn, key?_publish, id?_publish]
    rcases List.mem_append.mp (hremote ▸ hr) with hold | hnew
    · obtain ⟨k, i, hk, hi, hmap, hcmap⟩ := h.registered r hold
      refine ⟨k, i, by rw [if_neg (hlt r hold), hk], by rw [if_neg (hlt r hold), hi], ?_, ?_⟩
      · exact UnorderedMap.set_eq_some.mpr (.inr ⟨(by rintro rfl; exact nomatch hfree.symm.trans hmap), hmap⟩)
      · exact UnorderedMap.set_eq_some.mpr (.inr ⟨(by rintro rfl; exact nomatch hid.symm.trans hcmap), hcmap⟩)
    · rw [List.mem_singleton.mp hnew]
      exact ⟨key, c.uniqueConnectionId, by rw [if_pos rfl, hkey], if_pos rfl,
        UnorderedMap.set_eq_some.mpr (.inl ⟨rfl, rfl⟩), UnorderedMap.set_eq_some.mpr (.inl ⟨rfl, rfl⟩)⟩
  · intro k r hmap
    rw [hhash] at hmap
    rw [hremote, key?_publish]
    rcases UnorderedMap.set_eq_some.mp hmap with ⟨rfl, rfl⟩ | ⟨-, hold⟩
    · exact ⟨List.mem_append_right _ (List.mem_singleton.mpr rfl), by rw [if_pos rfl, hkey]⟩
    · obtain ⟨hr, hk⟩ := h.keyed k r hold
      exact ⟨List.mem_append_left _ hr, by rw [if_neg (hlt r hr), hk]⟩
  · intro i r hmap
    rw [hconn] at hmap
    rw [hremote, id?_publish]
    rcases UnorderedMap.set_eq_some.mp hmap with ⟨rfl, rfl⟩ | ⟨-, hold⟩
    · exact ⟨List.mem_append_right _ (List.mem_singleton.mpr rfl), if_pos rfl⟩
    · obtain ⟨hr, hi⟩ := h.identified i r hold
      exact ⟨List.mem_append_left _ hr, by rw [if_neg (hlt r hr), hi]⟩
  · rw [hremote]
    refine List.nodup_append.mpr ⟨h.nodup, List.nodup_cons.mpr ⟨List.not_mem_nil, List.nodup_nil⟩, ?_⟩
    intro r hr r' hr' he
    rw [List.mem_singleton.mp hr'] at he
    exact hlt r hr he

theorem OneToOne.removeConnection (h : d.OneToOne hashKey) {r : ℕ} (hr : r ∈ d.remoteConnections) :
    (d.removeConnection r).OneToOne hashKey := by
  obtain ⟨key, id, hkey, hid, hmap, hcmap⟩ := h.registered r hr
  unfold IpNetDriver.removeConnection
  cases hc : d.connections[r]? with
  | none =>
    rw [id?, hc] at hid
    cases hid
  | some c =>
    have hid' : c.uniqueConnectionId = id := by
      rw [id?, hc] at hid
      exact Option.some.inj hid
    simp only
    constructor
    · intro r' hr'
      obtain ⟨hmem, hne⟩ := List.mem_filter.mp hr'
      have hne : r' ≠ r := of_decide_eq_true hne
      obtain ⟨k, i, hk, hi, hm, hcm⟩ := h.registered r' hmem
      refine ⟨k, i, hk, hi, UnorderedMap.eraseIf_eq_some.mpr ⟨hm, by simpa using hne⟩,
        UnorderedMap.erase_eq_some.mpr ⟨?_, hcm⟩⟩
      rintro rfl
      rw [hid', hcmap] at hcm
      exact hne (Option.some.inj hcm).symm
    · intro k r' hm
      obtain ⟨hm, hne⟩ := UnorderedMap.eraseIf_eq_some.mp hm
      obtain ⟨hmem, hk⟩ := h.keyed k r' hm
      exact ⟨List.mem_filter.mpr ⟨hmem, by simpa using hne⟩, hk⟩
    · intro i r' hm
      obtain ⟨hne, hm⟩ := UnorderedMap.erase_eq_some.mp hm
      obtain ⟨hmem, hi⟩ := h.identified i r' hm
      refine ⟨List.mem_filter.mpr ⟨hmem, decide_eq_true ?_⟩, hi⟩
      rintro rfl
      rw [hid] at hi
      exact hne (hid'.trans (Option.some.inj hi)).symm
    · exact h.nodup.filter _

end

/-! ## Adding and closing -/

structure Tidy (hashKey : Addr → BitVec 64) (d : IpNetDriver Addr) : Prop where
  oneToOne : d.OneToOne hashKey
  openRegistered : d.OpenRegistered

theorem openRegistered_assign (h : d.OpenRegistered) (r : ℕ) : (d.assignConnectionThreadIndex r).OpenRegistered := by
  obtain ⟨_, ownerThreadId, heq⟩ := d.assignConnectionThreadIndex_cases r
  rw [heq]
  intro r' c hc hopen
  obtain ⟨old, hold, rfl⟩ := modify_eq_some hc
  refine h r' old hold ?_
  split at hopen <;> exact hopen

theorem openRegistered_publish (h : d.OpenRegistered) (key : BitVec 64) (c : GameNetConnection Addr) :
    (d.publish key c).OpenRegistered := by
  intro r c' hc hopen
  apply List.mem_append.mpr
  rcases getElem?_concat_eq_some.mp hc with hold | ⟨hnew, -⟩
  · exact .inl (h r c' hold hopen)
  · exact .inr (List.mem_singleton.mpr hnew)

theorem Tidy.addClient (h : d.Tidy hashKey) {key : BitVec 64} {p : PendingRemoteConnection Double Addr}
    (hkey : hashKey p.address = key) (hfree : d.hashToConnectionMap key = none)
    (hid : d.connectionMap d.playerUniqueIdAllocator.allocate.1 = none) : (d.addClient key p).Tidy hashKey := by
  have hmade : SameTables hashKey d (d.makeConnection p).2 := ⟨rfl, rfl, rfl, fun _ => rfl, fun _ => rfl⟩
  have hpublished : ((d.makeConnection p).2.publish key (d.makeConnection p).1).OneToOne hashKey :=
    (h.oneToOne.same hmade).publish hkey hfree hid
  have hopen : ((d.makeConnection p).2.publish key (d.makeConnection p).1).OpenRegistered :=
    openRegistered_publish (d := (d.makeConnection p).2) h.openRegistered key _
  exact ⟨hpublished.same (assignConnectionThreadIndex_same _), openRegistered_assign hopen _⟩

theorem removeConnection_connections (r : ℕ) : (d.removeConnection r).connections = d.connections := by
  unfold IpNetDriver.removeConnection
  split <;> rfl

theorem removeConnection_remoteConnections {r : ℕ} (h : r < d.connections.length) :
    (d.removeConnection r).remoteConnections = d.remoteConnections.filter fun v => v ≠ r := by
  unfold IpNetDriver.removeConnection
  rw [List.getElem?_eq_getElem h]

theorem Tidy.close (h : d.Tidy hashKey) (r : ℕ) : (d.close r).Tidy hashKey := by
  unfold IpNetDriver.close
  cases hc : d.connections[r]? with
  | none => exact h
  | some c =>
    simp only
    by_cases hclosed : c.conn.state = .closed
    · rw [if_pos hclosed]
      exact h
    · rw [if_neg hclosed]
      have hr : r ∈ d.remoteConnections := h.openRegistered r c hc hclosed
      have hsame : SameTables hashKey d
          { d with connections := d.connections.modify r fun c => { c with conn := c.conn.close } } :=
        .of_modify rfl (fun _ => rfl) (fun _ => rfl) rfl rfl rfl
      refine ⟨(h.oneToOne.same hsame).removeConnection hr, ?_⟩
      intro r' c' hc' hopen
      rw [removeConnection_connections] at hc'
      rw [removeConnection_remoteConnections (by
        rw [List.length_modify]
        exact (List.getElem?_eq_some_iff.mp hc).1)]
      obtain ⟨old, hold, rfl⟩ := modify_eq_some hc'
      by_cases heq : r = r'
      · -- the one that is closed now
        rw [if_pos heq] at hopen
        exact absurd rfl hopen
      · rw [if_neg heq] at hopen
        exact List.mem_filter.mpr ⟨h.openRegistered r' old hold hopen, decide_eq_true (Ne.symm heq)⟩

end IpNetDriver

/-! ## Pending connections -/

def PendingConnectionManager.Addressed {Double Addr : Type} (hashKey : Addr → BitVec 64)
    (m : PendingConnectionManager Double Addr) : Prop :=
  ∀ timeId key p, m.clientCache timeId key = some p → hashKey p.address = key

/-! ## Threads -/

/-- A thread, between its lookup and what it does with the datagram. -/
inductive IoThread (Double Addr : Type)
  | idle
  | connectionless (address : Addr) (data : HandshakeData Double)
  | connected (connection : ℕ) (address : Addr) (data : HandshakeData Double)

/-- The server and its threads; datagrams that carry no handshake packet change nothing here. -/
structure IoServer (Double Addr : Type) where
  processor : ServerProcessor Double Addr
  threads : ℕ → IoThread Double Addr

inductive IoAction (Double Addr : Type)
  | lookup (thread : ℕ) (address : Addr) (data : HandshakeData Double)
  | handle (thread : ℕ) (now : ℕ → Double)
  | close (connection : ℕ)
  | connectionsUpdate (timeId : ℕ) (now : Double)

namespace IoServer

variable {Double Addr : Type} [DoubleOps Double] (hashKey : Addr → BitVec 64) (setting : HandshakeSetting Double Addr)
  (s : IoServer Double Addr)

def start (maxChannelsSize : ℕ) (override : Option ℤ) : IoServer Double Addr :=
  ⟨.new (.initListen maxChannelsSize override), fun _ => .idle⟩

def setThread (thread : ℕ) (t : IoThread Double Addr) : IoServer Double Addr :=
  { s with threads := fun i => if i = thread then t else s.threads i }

/-- `DispatchReceivedDatagram` up to the end of its critical section. -/
def lookup (address : Addr) (data : HandshakeData Double) : IoThread Double Addr :=
  match s.processor.lookup (hashKey address) with
  | none => .connectionless address data
  | some connection => .connected connection address data

/-- The rest of `DispatchReceivedDatagram`. -/
def handle (now : ℕ → Double) : IoThread Double Addr → ServerProcessor Double Addr
  | .idle => s.processor
  | .connectionless address data => (s.processor.incomingConnectionless setting now (hashKey address) address data).1
  | .connected _ address data => (s.processor.incoming setting (now 0) (hashKey address) data).1

def next : IoAction Double Addr → IoServer Double Addr
  | .lookup thread address data =>
    match s.threads thread with
    | .idle => s.setThread thread (s.lookup hashKey address data)
    | _ => s
  | .handle thread now =>
    { s with processor := s.handle hashKey setting now (s.threads thread) }.setThread thread .idle
  | .close connection => { s with processor := { s.processor with driver := s.processor.driver.close connection } }
  | .connectionsUpdate timeId now => { s with processor := s.processor.connectionsUpdate setting timeId now }

def AddsFresh : IoAction Double Addr → Prop
  | .handle thread now => ∀ address data, s.threads thread = .connectionless address data →
      s.processor.AddsClient setting now (hashKey address) address data →
        s.processor.driver.hashToConnectionMap (hashKey address) = none ∧
          s.processor.driver.connectionMap s.processor.driver.playerUniqueIdAllocator.allocate.1 = none
  | _ => True

end IoServer

/-- The server behind `InitListen`, with any number of threads. -/
def ioSystem {Double Addr : Type} [DoubleOps Double] (hashKey : Addr → BitVec 64) (setting : HandshakeSetting Double Addr) :
    System (IoServer Double Addr) (IoAction Double Addr) where
  init s := ∃ maxChannelsSize override, s = .start maxChannelsSize override
  next s := s.next hashKey setting

section
variable {Double Addr : Type} {hashKey : Addr → BitVec 64} {m : PendingConnectionManager Double Addr}

theorem PendingConnectionManager.Addressed.store (h : m.Addressed hashKey) (timeId : ℕ) {key : BitVec 64}
    {p : PendingRemoteConnection Double Addr} (hp : hashKey p.address = key) : (m.store timeId key p).Addressed hashKey := by
  intro t k q hq
  rcases clientCache_store hq with ⟨rfl, rfl⟩ | ⟨t', hold⟩
  · exact hp
  · exact h t' k q hold

theorem PendingConnectionManager.Addressed.addConnection (h : m.Addressed hashKey) (timeId : ℕ) {key : BitVec 64}
    {p : PendingRemoteConnection Double Addr} (hp : hashKey p.address = key) :
    (m.addConnection timeId key p).Addressed hashKey := by
  intro t k q hq
  rcases clientCache_addConnection hq with ⟨rfl, rfl⟩ | ⟨t', hold⟩
  · exact hp
  · exact h t' k q hold

end

namespace ServerProcessor

variable {Double Addr : Type} [DoubleOps Double] {hashKey : Addr → BitVec 64} {setting : HandshakeSetting Double Addr}
  {s : ServerProcessor Double Addr}

structure Tidy (hashKey : Addr → BitVec 64) (s : ServerProcessor Double Addr) : Prop where
  driver : s.driver.Tidy hashKey
  addressed : s.remoteManager.Addressed hashKey

omit [DoubleOps Double] in
theorem Tidy.store (h : s.Tidy hashKey) (timeId : ℕ) {key : BitVec 64} {p : PendingRemoteConnection Double Addr}
    (hp : hashKey p.address = key) : (s.store timeId key p).Tidy hashKey := ⟨h.driver, h.addressed.store timeId hp⟩

omit [DoubleOps Double] in
theorem Tidy.findOrAdd (h : s.Tidy hashKey) {now : Double} {address : Addr} {timeId : ℕ}
    {p : PendingRemoteConnection Double Addr} {s' : ServerProcessor Double Addr}
    (hf : s.findOrAddConnection setting now (hashKey address) address = ((timeId, p), s')) :
    s'.Tidy hashKey ∧ hashKey p.address = hashKey address ∧ s'.driver = s.driver := by
  unfold findOrAddConnection at hf
  cases hfound : s.remoteManager.findConnection (hashKey address) with
  | none =>
    rw [hfound] at hf
    cases hf
    exact ⟨⟨h.driver, h.addressed.addConnection _ rfl⟩, rfl, rfl⟩
  | some found =>
    rw [hfound] at hf
    cases hf
    exact ⟨h, h.addressed _ _ _ (PendingConnectionManager.findConnection_eq_some hfound), rfl⟩

theorem Tidy.incomingConnectionless (h : s.Tidy hashKey) {now : ℕ → Double} {address : Addr} {data : HandshakeData Double}
    (hfresh : s.AddsClient setting now (hashKey address) address data →
      s.driver.hashToConnectionMap (hashKey address) = none ∧
        s.driver.connectionMap s.driver.playerUniqueIdAllocator.allocate.1 = none) :
    (s.incomingConnectionless setting now (hashKey address) address data).1.Tidy hashKey := by
  rcases incomingConnectionless_cases setting s now (hashKey address) address data with
    heq | ⟨timeId, p, s', hf, heq | heq | ⟨hadds, heq⟩⟩
  · rw [heq]
    exact h
  · obtain ⟨htidy, hp, -⟩ := h.findOrAdd hf
    rw [heq]
    exact htidy.store timeId hp
  · obtain ⟨htidy, hp, -⟩ := h.findOrAdd hf
    rw [heq]
    exact htidy.store timeId hp
  · obtain ⟨htidy, hp, hdriver⟩ := h.findOrAdd hf
    obtain ⟨hfree, hid⟩ := hfresh hadds
    rw [← hdriver] at hfree hid
    rw [heq]
    have hadded : (s'.addClient (hashKey address) ((p.touch (now 1)).complete (cookieSequence data.cookie 0)
        (cookieSequence data.cookie 1))).Tidy hashKey :=
      ⟨htidy.driver.addClient hp hfree hid, htidy.addressed⟩
    exact hadded.store timeId hp

theorem Tidy.incoming (h : s.Tidy hashKey) (now : Double) (key : BitVec 64) (data : HandshakeData Double) :
    (s.incoming setting now key data).1.Tidy hashKey := by
  unfold ServerProcessor.incoming
  cases hfound : s.remoteManager.findConnection key with
  | none => exact h
  | some found =>
    obtain ⟨timeId, p⟩ := found
    have hp : hashKey p.address = key := h.addressed _ _ _ (PendingConnectionManager.findConnection_eq_some hfound)
    simp only
    split
    · split
      · exact h.store timeId hp
      · exact h.store timeId hp
    · exact h.store timeId hp

end ServerProcessor

namespace IoServer

variable {Double Addr : Type} [DoubleOps Double] {hashKey : Addr → BitVec 64} {setting : HandshakeSetting Double Addr}
  {s : IoServer Double Addr}

theorem next_tidy (h : s.processor.Tidy hashKey) (a : IoAction Double Addr) (ha : s.AddsFresh hashKey setting a) :
    (s.next hashKey setting a).processor.Tidy hashKey := by
  cases a with
  | lookup thread address data =>
    show (match s.threads thread with
      | .idle => s.setThread thread (s.lookup hashKey address data)
      | _ => s).processor.Tidy hashKey
    split <;> exact h
  | handle thread now =>
    show (s.handle hashKey setting now (s.threads thread)).Tidy hashKey
    cases hthread : s.threads thread with
    | idle => exact h
    | connectionless address data => exact h.incomingConnectionless (ha address data hthread)
    | connected connection address data => exact h.incoming _ _ _
  | close connection => exact ⟨h.driver.close connection, h.addressed⟩
  | connectionsUpdate timeId now =>
    refine ⟨h.driver, ?_⟩
    intro t key p hp
    obtain ⟨t', hold⟩ := PendingConnectionManager.clientCache_timeKillEvent hp
    exact h.addressed t' key p hold

/-- As long as clients are added under free keys and ids, each address has at most one registered connection and the
three containers agree. -/
theorem one_connection_per_address (h : (ioSystem hashKey setting).Reach (AddsFresh hashKey setting) s) :
    s.processor.driver.OnePerKey hashKey ∧ s.processor.driver.OneToOne hashKey := by
  have htidy : s.processor.Tidy hashKey := by
    refine System.Reach.invariant (I := fun s => s.processor.Tidy hashKey) ?_ ?_ h
    · rintro s ⟨maxChannelsSize, override, rfl⟩
      refine ⟨⟨⟨?_, ?_, ?_, List.nodup_nil⟩, ?_⟩, ?_⟩
      · exact fun _ hr => absurd hr List.not_mem_nil
      · exact fun _ _ hmap => nomatch hmap
      · exact fun _ _ hmap => nomatch hmap
      · exact fun _ _ hc => nomatch hc
      · exact fun _ _ _ hp => nomatch hp
    · exact fun s a hs ha => next_tidy hs a ha
  exact ⟨htidy.driver.oneToOne.onePerKey, htidy.driver.oneToOne⟩

/-! ## Two responses at once -/

/-- Settings whose cookies are all alike; the address of a client is its key. -/
def plainSetting : HandshakeSetting ℤ (BitVec 64) where
  generateCookie _ _ _ := Vector.replicate cookieByteSize 7
  activeSecret := 0
  sessionID := 0
  maxCookieLifetime := 40
  inactivityTimeoutSec := 10

def initialPacket : HandshakeData ℤ := ⟨0, .initialPacket, false, 0, Vector.replicate cookieByteSize 0⟩

def responsePacket : HandshakeData ℤ := ⟨0, .response, false, 1, Vector.replicate cookieByteSize 7⟩

def challenged : IoServer ℤ (BitVec 64) := (ioSystem id plainSetting).runFrom (.start 2 none)
  [.lookup 0 5 initialPacket, .handle 0 fun _ => 1]

theorem challenged_reach : (ioSystem id plainSetting).Reach (AddsFresh id plainSetting) challenged := by
  have hlookup : (ioSystem id plainSetting).Reach (AddsFresh id plainSetting)
      ((ioSystem id plainSetting).next (.start 2 none) (.lookup 0 5 initialPacket)) :=
    .next (.init ⟨2, none, rfl⟩) trivial
  exact .next hlookup fun _ _ _ _ => ⟨rfl, rfl⟩

/-- One response of the client. -/
theorem one_connection_per_address_one :
    ((ioSystem id plainSetting).runFrom challenged
      [.lookup 0 5 responsePacket, .handle 0 fun _ => 1]).processor.driver.OnePerKey id ∧
    ((ioSystem id plainSetting).runFrom challenged
      [.lookup 0 5 responsePacket, .handle 0 fun _ => 1]).processor.driver.OneToOne id := by
  have hlookup : (ioSystem id plainSetting).Reach (AddsFresh id plainSetting)
      ((ioSystem id plainSetting).next challenged (.lookup 0 5 responsePacket)) := .next challenged_reach trivial
  exact one_connection_per_address (.next hlookup fun _ _ _ _ => ⟨rfl, rfl⟩)

/-- Two threads that both look the client up before either handles its response. -/
def addedTwice : IoServer ℤ (BitVec 64) := (ioSystem id plainSetting).runFrom challenged
  [.lookup 0 5 responsePacket, .lookup 1 5 responsePacket, .handle 0 fun _ => 1, .handle 1 fun _ => 1]

theorem client_added_twice : ¬ ∀ s, (ioSystem id plainSetting).Reachable s →
    s.processor.driver.OnePerKey id ∧ s.processor.driver.OneToOne id := by
  intro h
  have hone := (h addedTwice (System.reachable_runFrom challenged_reach.reachable _)).1
  have hmem : (0 : ℕ) ∈ addedTwice.processor.driver.remoteConnections ∧
      1 ∈ addedTwice.processor.driver.remoteConnections := by decide +kernel
  have hkey : addedTwice.processor.driver.key? id 0 = addedTwice.processor.driver.key? id 1 := by decide +kernel
  exact Nat.zero_ne_one (hone 0 hmem.1 1 hmem.2 hkey)

end IoServer

end RudpEngine
