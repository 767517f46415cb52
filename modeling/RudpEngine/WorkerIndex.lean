import RudpEngine.Driver
import RudpEngine.Run

/-!
# The worker of a connection

A connection is pinned to a worker by its `OwnerThreadId`, which is all ones
until `AssignConnectionThreadIndex` has run, and that runs behind the critical
section that publishes the connection. A sweep or a datagram that finds it in
between submits a job with an index far beyond the last worker, and the jobs
that follow carry another one.
-/

namespace RudpEngine

/-- A thread that takes datagrams: adding a client, or on its way to `ReceivedRawPacket`. -/
inductive IoStage
  | idle
  | assigning (connection : ℕ)
  | submitting (connection : ℕ)

/-- The driver with its threads, what the sweep of the tick thread has yet to visit, and every job submitted for a
connection with the index it carries. -/
structure PinnedDriver (Addr : Type) where
  driver : IpNetDriver Addr
  threads : ℕ → IoStage
  sweep : List ℕ
  submitted : List (ℕ × ℤ)

inductive PinAction (Double Addr : Type)
  | publish (thread : ℕ) (key : BitVec 64) (pendingConnection : PendingRemoteConnection Double Addr)
  | assign (thread : ℕ)
  | lookup (thread : ℕ) (key : BitVec 64)
  | receivedRawPacket (thread : ℕ)
  | getClientConnections
  | tick
  | close (connection : ℕ)

namespace PinnedDriver

variable {Double Addr : Type} (s : PinnedDriver Addr)

def start (maxChannelsSize : ℕ) (override : Option ℤ) : PinnedDriver Addr :=
  ⟨.initListen maxChannelsSize override, fun _ => .idle, [], []⟩

def setThread (thread : ℕ) (stage : IoStage) : PinnedDriver Addr :=
  { s with threads := fun i => if i = thread then stage else s.threads i }

def threadIndex (connection : ℕ) : Option ℤ := s.driver.connections[connection]?.map fun c => c.ownerThreadId.toNat

/-- `AddAsyncJob` of `ReceivedRawPacket`, `TickDispatch` or `TickFlush`. -/
def addAsyncJob (connection : ℕ) : PinnedDriver Addr :=
  match s.threadIndex connection with
  | none => s
  | some index => { s with submitted := s.submitted ++ [(connection, index)] }

/-- `AddClient` up to the end of the critical section. -/
def publish (thread : ℕ) (key : BitVec 64) (pendingConnection : PendingRemoteConnection Double Addr) : PinnedDriver Addr :=
  match s.threads thread with
  | .idle =>
    let (c, d) := s.driver.makeConnection pendingConnection
    { s with driver := d.publish key c }.setThread thread (.assigning d.connections.length)
  | _ => s

def assign (thread : ℕ) : PinnedDriver Addr :=
  match s.threads thread with
  | .assigning connection => { s with driver := s.driver.assignConnectionThreadIndex connection }.setThread thread .idle
  | _ => s

/-- `DispatchReceivedDatagram` up to the end of its critical section, where it finds a connection. -/
def lookup (thread : ℕ) (key : BitVec 64) : PinnedDriver Addr :=
  match s.threads thread, s.driver.hashToConnectionMap key with
  | .idle, some connection => s.setThread thread (.submitting connection)
  | _, _ => s

def receivedRawPacket (thread : ℕ) : PinnedDriver Addr :=
  match s.threads thread with
  | .submitting connection => (s.addAsyncJob connection).setThread thread .idle
  | _ => s

/-- A sweep of `TickDispatch` or `TickFlush` begins. -/
def getClientConnections : PinnedDriver Addr :=
  match s.sweep with
  | [] => { s with sweep := s.driver.remoteConnections }
  | _ => s

def tick : PinnedDriver Addr :=
  match s.sweep with
  | [] => s
  | connection :: sweep => { s.addAsyncJob connection with sweep := sweep }

def next : PinAction Double Addr → PinnedDriver Addr
  | .publish thread key pendingConnection => s.publish thread key pendingConnection
  | .assign thread => s.assign thread
  | .lookup thread key => s.lookup thread key
  | .receivedRawPacket thread => s.receivedRawPacket thread
  | .getClientConnections => s.getClientConnections
  | .tick => s.tick
  | .close connection => { s with driver := s.driver.close connection }

def Assigned (connection : ℕ) : Prop := ∀ c, s.driver.connections[connection]? = some c → c.ownerThreadId ≠ -1

/-- A job is only submitted for a connection whose index is assigned. -/
def SubmitsAssigned : PinAction Double Addr → Prop
  | .receivedRawPacket thread => ∀ connection, s.threads thread = .submitting connection → s.Assigned connection
  | .tick => ∀ connection, s.sweep.head? = some connection → s.Assigned connection
  | _ => True

/-- Every job carries the index of a worker, and the jobs of one connection carry the same. -/
structure JobsPinned : Prop where
  inRange : ∀ job ∈ s.submitted, 0 ≤ job.2 ∧ job.2 < (s.driver.threadCount.toNat : ℤ)
  same : ∀ job ∈ s.submitted, ∀ job' ∈ s.submitted, job.1 = job'.1 → job.2 = job'.2

end PinnedDriver

def pinSystem (Double Addr : Type) : System (PinnedDriver Addr) (PinAction Double Addr) where
  init s := ∃ maxChannelsSize override, s = .start maxChannelsSize override
  next := PinnedDriver.next

/-! ## The index of a connection -/

namespace IpNetDriver

variable {Addr : Type} (d : IpNetDriver Addr)

def ownerThreadId? (r : ℕ) : Option (BitVec 32) := d.connections[r]?.map fun c => c.ownerThreadId

variable {d} {r : ℕ} {i : BitVec 32}

theorem ownerThreadId?_publish (key : BitVec 64) (c : GameNetConnection Addr) (r : ℕ) :
    (d.publish key c).ownerThreadId? r =
      if r = d.connections.length then some c.ownerThreadId else d.ownerThreadId? r := map_getElem?_concat _ _ _ _

theorem ownerThreadId?_publish_of_some (h : d.ownerThreadId? r = some i) (key : BitVec 64) (c : GameNetConnection Addr) :
    (d.publish key c).ownerThreadId? r = some i := by
  obtain ⟨c', hc', -⟩ := Option.map_eq_some_iff.mp h
  rw [ownerThreadId?_publish, if_neg (Nat.ne_of_lt (List.getElem?_eq_some_iff.mp hc').1), h]

theorem ownerThreadId?_close (connection : ℕ) : (d.close connection).ownerThreadId? r = d.ownerThreadId? r := by
  have hmodify : (d.connections.modify connection fun c => { c with conn := c.conn.close })[r]?.map
      (fun c => c.ownerThreadId) = d.connections[r]?.map fun c => c.ownerThreadId :=
    map_getElem?_modify (fun c : GameNetConnection Addr => c.ownerThreadId) d.connections r
      (f := fun c => { c with conn := c.conn.close }) (fun _ => rfl) connection
  unfold close
  cases hc : d.connections[connection]? with
  | none => rfl
  | some c =>
    simp only
    split
    · rfl
    · unfold removeConnection ownerThreadId?
      split <;> exact hmodify

theorem threadCount_close (connection : ℕ) : (d.close connection).threadCount = d.threadCount := by
  unfold close removeConnection
  cases d.connections[connection]? with
  | none => rfl
  | some c =>
    simp only
    split
    · rfl
    · split <;> rfl

theorem ownerThreadId?_assign_of_ne {connection : ℕ} (h : r ≠ connection) :
    (d.assignConnectionThreadIndex connection).ownerThreadId? r = d.ownerThreadId? r := by
  unfold assignConnectionThreadIndex ownerThreadId?
  split <;> simp only [List.getElem?_modify, if_neg (Ne.symm h)] <;> cases d.connections[r]? <;> rfl

theorem ownerThreadId?_assign (h : d.ownerThreadId? r = some i) (hcount : d.threadCount ≠ 0) :
    (d.assignConnectionThreadIndex r).ownerThreadId? r = some (d.nextThreadIndex % d.threadCount) := by
  obtain ⟨c, hc, -⟩ := Option.map_eq_some_iff.mp h
  unfold assignConnectionThreadIndex ownerThreadId?
  rw [if_neg hcount]
  simp only [List.getElem?_modify, if_true, hc]
  rfl

theorem threadCount_assign (connection : ℕ) : (d.assignConnectionThreadIndex connection).threadCount = d.threadCount := by
  unfold assignConnectionThreadIndex
  split <;> rfl

theorem resolveWorkerCount_bounds (override : Option ℤ) : 0 < resolveWorkerCount override 8 ∧ resolveWorkerCount override 8 ≤ 64 := by
  unfold resolveWorkerCount
  cases override with
  | none => decide
  | some parsed =>
    simp only
    split
    · decide
    · next h =>
      simp only [Bool.or_eq_true, decide_eq_true_eq] at h
      omega

end IpNetDriver

namespace PinnedDriver

variable {Double Addr : Type} {s : PinnedDriver Addr}

structure Pinned (s : PinnedDriver Addr) : Prop where
  threadCount : 0 < s.driver.threadCount.toNat ∧ s.driver.threadCount.toNat ≤ 64
  assigning : ∀ thread r, s.threads thread = .assigning r → s.driver.ownerThreadId? r = some (-1)
  distinct : ∀ thread thread' r, s.threads thread = .assigning r → s.threads thread' = .assigning r → thread = thread'
  index : ∀ r i, s.driver.ownerThreadId? r = some i → i ≠ -1 → i.toNat < s.driver.threadCount.toNat
  submitted : ∀ job ∈ s.submitted, ∃ i, s.driver.ownerThreadId? job.1 = some i ∧ i ≠ -1 ∧ job.2 = i.toNat

theorem Pinned.jobsPinned (h : s.Pinned) : s.JobsPinned := by
  constructor
  · intro job hjob
    obtain ⟨i, hi, hne, hindex⟩ := h.submitted job hjob
    have hlt := h.index _ i hi hne
    omega
  · intro job hjob job' hjob' hsame
    obtain ⟨i, hi, -, hindex⟩ := h.submitted job hjob
    obtain ⟨i', hi', -, hindex'⟩ := h.submitted job' hjob'
    rw [hsame, hi'] at hi
    rw [hindex, hindex', Option.some.inj hi]

theorem Pinned.setThread (h : s.Pinned) (thread : ℕ) {stage : IoStage} (hstage : ∀ r, stage ≠ .assigning r) :
    (s.setThread thread stage).Pinned := by
  have hold : ∀ t r, (s.setThread thread stage).threads t = .assigning r → s.threads t = .assigning r := by
    intro t r ht
    have ht : (if t = thread then stage else s.threads t) = .assigning r := ht
    by_cases heq : t = thread
    · rw [if_pos heq] at ht
      exact absurd ht (hstage r)
    · rwa [if_neg heq] at ht
  exact ⟨h.threadCount, fun t r ht => h.assigning t r (hold t r ht),
    fun t t' r ht ht' => h.distinct t t' r (hold t r ht) (hold t' r ht'), h.index, h.submitted⟩

theorem Pinned.addAsyncJob (h : s.Pinned) {connection : ℕ} (hassigned : s.Assigned connection) :
    (s.addAsyncJob connection).Pinned := by
  unfold PinnedDriver.addAsyncJob threadIndex
  cases hc : s.driver.connections[connection]? with
  | none => exact h
  | some c =>
    refine ⟨h.threadCount, h.assigning, h.distinct, h.index, ?_⟩
    intro job hjob
    rcases List.mem_append.mp hjob with hold | hnew
    · exact h.submitted job hold
    · rw [List.mem_singleton.mp hnew]
      have howner : s.driver.ownerThreadId? connection = some c.ownerThreadId := by
        unfold IpNetDriver.ownerThreadId?
        rw [hc]
        rfl
      exact ⟨c.ownerThreadId, howner, hassigned c hc, rfl⟩

theorem Pinned.publish (h : s.Pinned) {thread : ℕ} (key : BitVec 64) (p : PendingRemoteConnection Double Addr)
    (hidle : s.threads thread = .idle) : (s.publish thread key p).Pinned := by
  unfold PinnedDriver.publish
  rw [hidle]
  have hnew : ((s.driver.makeConnection p).2.publish key (s.driver.makeConnection p).1).ownerThreadId?
      s.driver.connections.length = some (-1) := by
    rw [IpNetDriver.ownerThreadId?_publish]
    exact if_pos rfl
  have hkeep : ∀ r i, s.driver.ownerThreadId? r = some i →
      ((s.driver.makeConnection p).2.publish key (s.driver.makeConnection p).1).ownerThreadId? r = some i :=
    fun r i hi => IpNetDriver.ownerThreadId?_publish_of_some (d := (s.driver.makeConnection p).2) hi _ _
  have hthreads : ∀ t r, (if t = thread then IoStage.assigning s.driver.connections.length else s.threads t) =
      .assigning r → (t = thread ∧ r = s.driver.connections.length) ∨ s.threads t = .assigning r := by
    intro t r ht
    by_cases heq : t = thread
    · rw [if_pos heq] at ht
      exact .inl ⟨heq, (IoStage.assigning.inj ht).symm⟩
    · rw [if_neg heq] at ht
      exact .inr ht
  have hfresh : ∀ t, s.threads t ≠ .assigning s.driver.connections.length := by
    intro t ht
    obtain ⟨c, hc, -⟩ := Option.map_eq_some_iff.mp (h.assigning t _ ht)
    exact Nat.lt_irrefl _ (List.getElem?_eq_some_iff.mp hc).1
  constructor
  · exact h.threadCount
  · intro t r ht
    rcases hthreads t r ht with ⟨-, rfl⟩ | hold
    · exact hnew
    · exact hkeep r _ (h.assigning t r hold)
  · intro t t' r ht ht'
    rcases hthreads t r ht with ⟨rfl, rfl⟩ | hold
    · rcases hthreads t' _ ht' with ⟨rfl, -⟩ | hold'
      · rfl
      · exact absurd hold' (hfresh t')
    · rcases hthreads t' r ht' with ⟨-, rfl⟩ | hold'
      · exact absurd hold (hfresh t)
      · exact h.distinct t t' r hold hold'
  · intro r i hi hne
    by_cases heq : r = s.driver.connections.length
    · rw [heq] at hi
      exact absurd (Option.some.inj (hi.symm.trans hnew)) hne
    · have hold : ((s.driver.makeConnection p).2.publish key (s.driver.makeConnection p).1).ownerThreadId? r =
          s.driver.ownerThreadId? r := (IpNetDriver.ownerThreadId?_publish _ _ _).trans (if_neg heq)
      exact h.index r i (hold.symm.trans hi) hne
  · intro job hjob
    obtain ⟨i, hi, hne, hindex⟩ := h.submitted job hjob
    exact ⟨i, hkeep _ _ hi, hne, hindex⟩

theorem Pinned.assign (h : s.Pinned) {thread r : ℕ} (hassign : s.threads thread = .assigning r) :
    (s.assign thread).Pinned := by
  unfold PinnedDriver.assign
  rw [hassign]
  have hunset := h.assigning thread r hassign
  have hcount : s.driver.threadCount ≠ 0 := by
    intro hzero
    have hpos := h.threadCount.1
    rw [hzero] at hpos
    exact Nat.lt_irrefl _ hpos
  have hassigned := IpNetDriver.ownerThreadId?_assign hunset hcount
  have hlt : (s.driver.nextThreadIndex % s.driver.threadCount).toNat < s.driver.threadCount.toNat := by
    rw [BitVec.toNat_umod]
    exact Nat.mod_lt _ h.threadCount.1
  have hset : s.driver.nextThreadIndex % s.driver.threadCount ≠ -1 := by
    intro heq
    rw [heq] at hlt
    have hle := h.threadCount.2
    have hmax : (-1 : BitVec 32).toNat = 2 ^ 32 - 1 := by decide
    omega
  have hthreads : ∀ t r', (if t = thread then IoStage.idle else s.threads t) = .assigning r' →
      s.threads t = .assigning r' ∧ r' ≠ r := by
    intro t r' ht
    by_cases heq : t = thread
    · rw [if_pos heq] at ht
      cases ht
    · rw [if_neg heq] at ht
      refine ⟨ht, ?_⟩
      rintro rfl
      exact heq (h.distinct t thread _ ht hassign)
  constructor
  · exact (IpNetDriver.threadCount_assign (d := s.driver) r).symm ▸ h.threadCount
  · intro t r' ht
    obtain ⟨hold, hne⟩ := hthreads t r' ht
    exact (IpNetDriver.ownerThreadId?_assign_of_ne hne).trans (h.assigning t r' hold)
  · intro t t' r' ht ht'
    exact h.distinct t t' r' (hthreads t r' ht).1 (hthreads t' r' ht').1
  · intro r' i hi hne
    show i.toNat < (s.driver.assignConnectionThreadIndex r).threadCount.toNat
    rw [IpNetDriver.threadCount_assign]
    by_cases heq : r' = r
    · rw [heq] at hi
      rw [← Option.some.inj (hassigned.symm.trans hi)]
      exact hlt
    · exact h.index r' i ((IpNetDriver.ownerThreadId?_assign_of_ne heq).symm.trans hi) hne
  · intro job hjob
    obtain ⟨i, hi, hne, hindex⟩ := h.submitted job hjob
    have hother : job.1 ≠ r := by
      rintro heq
      rw [heq, hunset] at hi
      exact hne (Option.some.inj hi).symm
    exact ⟨i, (IpNetDriver.ownerThreadId?_assign_of_ne hother).trans hi, hne, hindex⟩

theorem next_pinned (h : s.Pinned) (a : PinAction Double Addr) (ha : s.SubmitsAssigned a) : (s.next a).Pinned := by
  cases a with
  | publish thread key p =>
    show (s.publish thread key p).Pinned
    cases hthread : s.threads thread with
    | idle => exact h.publish key p hthread
    | _ => simpa only [PinnedDriver.publish, hthread] using h
  | assign thread =>
    show (s.assign thread).Pinned
    cases hthread : s.threads thread with
    | assigning r => exact h.assign hthread
    | _ => simpa only [PinnedDriver.assign, hthread] using h
  | lookup thread key =>
    show (s.lookup thread key).Pinned
    unfold PinnedDriver.lookup
    split
    · exact h.setThread thread fun r => nofun
    · exact h
  | receivedRawPacket thread =>
    show (s.receivedRawPacket thread).Pinned
    unfold PinnedDriver.receivedRawPacket
    cases hthread : s.threads thread with
    | submitting r => exact (h.addAsyncJob (ha r hthread)).setThread thread fun r => nofun
    | _ => exact h
  | getClientConnections =>
    show s.getClientConnections.Pinned
    unfold PinnedDriver.getClientConnections
    split
    · exact ⟨h.threadCount, h.assigning, h.distinct, h.index, h.submitted⟩
    · exact h
  | tick =>
    show s.tick.Pinned
    unfold PinnedDriver.tick
    cases hsweep : s.sweep with
    | nil => exact h
    | cons connection sweep =>
      have hadd := h.addAsyncJob (ha connection (by rw [hsweep]; rfl))
      exact ⟨hadd.threadCount, hadd.assigning, hadd.distinct, hadd.index, hadd.submitted⟩
  | close connection =>
    have howner : ∀ r, (s.driver.close connection).ownerThreadId? r = s.driver.ownerThreadId? r :=
      fun _ => IpNetDriver.ownerThreadId?_close connection
    have hcount := IpNetDriver.threadCount_close (d := s.driver) connection
    refine ⟨?_, ?_, h.distinct, ?_, ?_⟩
    · exact hcount.symm ▸ h.threadCount
    · intro t r ht
      exact (howner r).trans (h.assigning t r ht)
    · intro r i hi hne
      show i.toNat < (s.driver.close connection).threadCount.toNat
      rw [hcount]
      exact h.index r i ((howner r).symm.trans hi) hne
    · intro job hjob
      obtain ⟨i, hi, hne, hindex⟩ := h.submitted job hjob
      exact ⟨i, (howner _).trans hi, hne, hindex⟩

theorem start_pinned (maxChannelsSize : ℕ) (override : Option ℤ) : (start maxChannelsSize override : PinnedDriver Addr).Pinned := by
  have hbounds := IpNetDriver.resolveWorkerCount_bounds override
  have hcount : (IpNetDriver.initListen maxChannelsSize override : IpNetDriver Addr).threadCount.toNat =
      IpNetDriver.resolveWorkerCount override 8 := by
    show (BitVec.ofNat 32 (IpNetDriver.resolveWorkerCount override 8)).toNat = _
    rw [BitVec.toNat_ofNat]
    omega
  constructor
  · exact hcount.symm ▸ hbounds
  · exact fun _ _ ht => nomatch ht
  · exact fun _ _ _ ht => nomatch ht
  · exact fun _ _ hi => nomatch hi
  · exact fun _ hjob => absurd hjob List.not_mem_nil

/-- As long as jobs are submitted behind the assignment of their connection's index, each connection has its worker. -/
theorem connection_has_its_worker (h : (pinSystem Double Addr).Reach SubmitsAssigned s) : s.JobsPinned := by
  refine Pinned.jobsPinned (System.Reach.invariant (I := Pinned) ?_ ?_ h)
  · rintro s ⟨maxChannelsSize, override, rfl⟩
    exact start_pinned maxChannelsSize override
  · exact fun s a hs ha => next_pinned hs a ha

/-! ## A sweep before the assignment -/

/-- One client that is added, and a sweep behind that. -/
theorem connection_has_its_worker_one : ((pinSystem ℤ (BitVec 64)).runFrom (.start 2 none)
    [.publish 0 5 pendingClient, .assign 0, .getClientConnections, .tick]).JobsPinned := by
  have hassign : (pinSystem ℤ (BitVec 64)).Reach SubmitsAssigned ((pinSystem ℤ (BitVec 64)).runFrom (.start 2 none)
      [.publish 0 5 pendingClient, .assign 0, .getClientConnections]) :=
    .next (.next (.next (.init ⟨2, none, rfl⟩) trivial) trivial) trivial
  refine connection_has_its_worker (.next hassign ?_)
  intro connection hhead c hc
  cases hhead
  cases hc
  decide

/-- The tick thread sweeps between the publication of a connection and the assignment of its index. -/
def sweptEarly : PinnedDriver (BitVec 64) := (pinSystem ℤ (BitVec 64)).runFrom (.start 2 none)
  [.publish 0 5 pendingClient, .getClientConnections, .tick, .assign 0, .getClientConnections, .tick]

theorem job_without_worker : ¬ ∀ s, (pinSystem ℤ (BitVec 64)).Reachable s → s.JobsPinned := by
  intro h
  have hstart : (pinSystem ℤ (BitVec 64)).Reachable (.start 2 none) := .init ⟨2, none, rfl⟩
  have hpinned := h sweptEarly (System.reachable_runFrom hstart _)
  have hjobs : sweptEarly.submitted = [(0, 4294967295), (0, 0)] := by decide +kernel
  have hcount : sweptEarly.driver.threadCount = 8 := by decide +kernel
  have hrange := (hpinned.inRange (0, 4294967295) (by rw [hjobs]; exact List.mem_cons_self)).2
  rw [hcount] at hrange
  revert hrange
  decide

end PinnedDriver

end RudpEngine
