import RudpEngine.UniqueIds
import RudpEngine.Handshake

/-!
# The table of pending connections

A handshake packet looks its address up in the 60 buckets one after the other,
takes a client id if it is in none, and then inserts a new entry; each of the
three locks for itself. Of two packets of one address that both have missed it,
the second one's entry is not inserted, and nothing frees its id. As long as no
entry comes too late, every id that is out has one owner.
-/

namespace RudpEngine

open scoped List

/-- A shared `PendingRemoteConnection`: its place stands for the pointer, what does not change of it is kept with it. -/
structure PendingClient where
  place : ℕ
  clientID : BitVec 32
  timeId : BitVec 8

abbrev ClientHashMap : Type := List (BitVec 64 × PendingClient)

namespace ClientHashMap

variable (m : ClientHashMap)

def find (key : BitVec 64) : Option PendingClient := m.lookup key

/-- `insert` leaves a key that is there as it is. -/
def insert (key : BitVec 64) (client : PendingClient) : ClientHashMap :=
  match m.find key with
  | some _ => m
  | none => (key, client) :: m

def keys : List (BitVec 64) := m.map Prod.fst

def ids : List (BitVec 32) := m.map fun entry => entry.2.clientID

end ClientHashMap

inductive IncomingStage
  | idle
  | finding (key : BitVec 64) (timeId : ℕ)
  | missed (key : BitVec 64)
  | created (key : BitVec 64) (client : PendingClient)
  | found (client : PendingClient)

def IncomingStage.carried : IncomingStage → Option (BitVec 32)
  | .created _ client => some client.clientID
  | _ => none

/-- `RemoteManager` with `PendingClientIDManager`, `ClientTimeId`, the IO threads and `tempIdVec` of a `TimeKillEvent`
that is going on. Behind them the number of ids created, and the ids in the order in which they were handed out, reaped
and freed; those handed out and not freed are outstanding. -/
structure PendingTable (Double : Type) where
  clientCache : ℕ → ClientHashMap
  lastActivityTime : ℕ → Double
  places : ℕ
  clientTimeId : BitVec 8
  threads : List IncomingStage
  tempIdVec : List (BitVec 32)
  allocator : IDAllocator
  created : ℕ
  handedOut : List (BitVec 32)
  outstanding : List (BitVec 32)
  reaped : List (BitVec 32)
  freed : List (BitVec 32)

inductive PendingAction (Double : Type)
  | receive (thread : ℕ) (key : BitVec 64)
  | findConnection (thread : ℕ)
  | allocate (thread : ℕ) (now : Double)
  | addConnection (thread : ℕ)
  | touch (thread : ℕ) (now : Double)
  | timeKillEvent (timeId : ℕ) (now : Double)
  | free (id : BitVec 32)
  | advance

namespace PendingTable

variable {Double : Type} (s : PendingTable Double)

def new (threads : ℕ) (lastActivityTime : ℕ → Double) : PendingTable Double where
  clientCache := fun _ => []
  lastActivityTime := lastActivityTime
  places := 0
  clientTimeId := 59
  threads := List.replicate threads .idle
  tempIdVec := []
  allocator := .new
  created := 0
  handedOut := []
  outstanding := []
  reaped := []
  freed := []

def setStage (thread : ℕ) (stage : IncomingStage) : PendingTable Double := { s with threads := s.threads.set thread stage }

def setCache (timeId : ℕ) (cache : ClientHashMap) : PendingTable Double :=
  { s with clientCache := fun t => if t = timeId then cache else s.clientCache t }

/-- A handshake packet that passes the parser of a server. -/
def receive (thread : ℕ) (key : BitVec 64) : PendingTable Double :=
  match s.threads[thread]? with
  | some .idle => s.setStage thread (.finding key 0)
  | _ => s

def findConnection (thread : ℕ) : PendingTable Double :=
  match s.threads[thread]? with
  | some (.finding key timeId) =>
    match (s.clientCache timeId).find key with
    | some client => s.setStage thread (.found client)
    | none => s.setStage thread (if timeId + 1 < 60 then .finding key (timeId + 1) else .missed key)
  | _ => s

/-- `CreatePendingClient` with the `Allocate` among its arguments. -/
def allocate (thread : ℕ) (now : Double) : PendingTable Double :=
  match s.threads[thread]? with
  | some (.missed key) =>
    let (id, allocator) := s.allocator.allocate
    { s.setStage thread (.created key ⟨s.places, id, s.clientTimeId⟩) with
      lastActivityTime := fun p => if p = s.places then now else s.lastActivityTime p
      places := s.places + 1
      allocator := allocator
      created := if s.allocator.freeIDs = [] then s.created + 1 else s.created
      handedOut := id :: s.handedOut
      outstanding := id :: s.outstanding }
  | _ => s

def addConnection (thread : ℕ) : PendingTable Double :=
  match s.threads[thread]? with
  | some (.created key client) =>
    (s.setStage thread (.found client)).setCache client.timeId.toNat
      ((s.clientCache client.timeId.toNat).insert key client)
  | _ => s

/-- What comes behind works on the entry alone. -/
def touch (thread : ℕ) (now : Double) : PendingTable Double :=
  match s.threads[thread]? with
  | some (.found client) =>
    { s.setStage thread .idle with
      lastActivityTime := fun p => if p = client.place then now else s.lastActivityTime p }
  | _ => s

/-- The loop of `TimeKillEvent` under the lock. -/
def reap (timeId : ℕ) (idle : BitVec 64 × PendingClient → Bool) : PendingTable Double :=
  let ids := ClientHashMap.ids ((s.clientCache timeId).filter idle)
  { s.setCache timeId ((s.clientCache timeId).filter fun entry => !idle entry) with
    tempIdVec := ids
    reaped := ids ++ s.reaped }

/-- `TimeKillEvent` up to the first `Free`; the one before has come to its end. -/
def timeKillEvent [DoubleOps Double] (inactivityTimeoutSec : Double) (timeId : ℕ) (now : Double) : PendingTable Double :=
  match s.tempIdVec with
  | [] => s.reap timeId fun entry => inactivityTimeoutSec ≤ now - s.lastActivityTime entry.2.place
  | _ :: _ => s

/-- One `Free` of `TimeKillEvent`; the order of the map is unspecified, so any of them can come next. -/
def free (id : BitVec 32) : PendingTable Double :=
  if id ∈ s.tempIdVec then
    { s with
      tempIdVec := s.tempIdVec.erase id
      allocator := s.allocator.free id
      outstanding := s.outstanding.erase id
      freed := id :: s.freed }
  else s

/-- The end of `ConnectionsUpdate`. -/
def advance : PendingTable Double :=
  { s with clientTimeId := s.clientTimeId + BitVec.ofNat 8 ((s.clientTimeId.toNat + 1) % 60) }

def next [DoubleOps Double] (inactivityTimeoutSec : Double) : PendingAction Double → PendingTable Double
  | .receive thread key => s.receive thread key
  | .findConnection thread => s.findConnection thread
  | .allocate thread now => s.allocate thread now
  | .addConnection thread => s.addConnection thread
  | .touch thread now => s.touch thread now
  | .timeKillEvent timeId now => s.timeKillEvent inactivityTimeoutSec timeId now
  | .free id => s.free id
  | .advance => s.advance

/-! ## The owners of the ids -/

def keys : List (BitVec 64) := (List.range 60).flatMap fun timeId => (s.clientCache timeId).keys

def stored : List (BitVec 32) := (List.range 60).flatMap fun timeId => (s.clientCache timeId).ids

def carried : List (BitVec 32) := s.threads.filterMap IncomingStage.carried

/-- The owners of ids: an entry, a thread that is about to insert one, or a `TimeKillEvent` that is about to free them. -/
def owners : List (BitVec 32) := s.stored ++ s.carried ++ s.tempIdVec

structure Sound : Prop where
  one_bucket : s.keys.Nodup
  one_owner : ∀ id ∈ s.outstanding, s.owners.count id = 1
  handed_out : (s.freed ++ s.outstanding).Perm s.handedOut
  reaped : (s.freed ++ s.tempIdVec).Perm s.reaped

/-- The entry that a thread inserts is the first of its key, and fewer than `2 ^ 32` ids were created before another. -/
def Proper : PendingAction Double → Prop
  | .addConnection thread => ∀ key client, s.threads[thread]? = some (.created key client) →
      (s.clientCache client.timeId.toNat).find key = none
  | .allocate thread _ => ∀ key, s.threads[thread]? = some (.missed key) → s.allocator.freeIDs = [] → s.created < 2 ^ 32
  | _ => True

end PendingTable

def pendingSystem {Double : Type} [DoubleOps Double] (inactivityTimeoutSec : Double) :
    System (PendingTable Double) (PendingAction Double) where
  init s := ∃ threads lastActivityTime, s = .new threads lastActivityTime
  next := fun s a => s.next inactivityTimeoutSec a

namespace PendingTable

variable {Double : Type} {s : PendingTable Double}

/-! ## Keys and buckets -/

theorem find_eq_none {m : ClientHashMap} {key : BitVec 64} (h : m.find key = none) : key ∉ m.keys := by
  unfold ClientHashMap.find at h
  rw [List.lookup_eq_none_iff] at h
  intro hmem
  obtain ⟨entry, hentry, hkey⟩ := List.mem_map.mp hmem
  simpa [hkey] using h entry hentry

theorem keys_insert {m : ClientHashMap} (h : m.keys.Nodup) (key : BitVec 64) (client : PendingClient) :
    (m.insert key client).keys.Nodup := by
  unfold ClientHashMap.insert
  split
  · exact h
  case h_2 hfind => exact List.nodup_cons.mpr ⟨find_eq_none hfind, h⟩

/-- Every entry is in the bucket that `ClientTimeId` began with, each key once. -/
structure Filed (s : PendingTable Double) : Prop where
  clientTimeId : s.clientTimeId = 59
  created : ∀ key client, IncomingStage.created key client ∈ s.threads → client.timeId = 59
  elsewhere : ∀ timeId, timeId ≠ 59 → s.clientCache timeId = []
  keys : (s.clientCache 59).keys.Nodup

theorem Filed.flatMap_eq (h : s.Filed) {α : Type} {f : ClientHashMap → List α} (hnil : f [] = []) :
    ((List.range 60).flatMap fun timeId => f (s.clientCache timeId)) = f (s.clientCache 59) := by
  rw [List.range_succ, List.flatMap_append, List.flatMap_eq_nil_iff.mpr]
  · simp
  · intro timeId ht
    rw [h.elsewhere timeId (by have := List.mem_range.mp ht; omega)]
    exact hnil

theorem Filed.keys_eq (h : s.Filed) : s.keys = (s.clientCache 59).keys := h.flatMap_eq rfl

theorem Filed.stored_eq (h : s.Filed) : s.stored = (s.clientCache 59).ids := h.flatMap_eq rfl

theorem Filed.setStage (h : s.Filed) (thread : ℕ) {stage : IncomingStage}
    (hstage : ∀ key client, stage = .created key client → client.timeId = 59) : (s.setStage thread stage).Filed := by
  refine ⟨h.clientTimeId, fun key client hmem => ?_, h.elsewhere, h.keys⟩
  rcases List.mem_or_eq_of_mem_set hmem with hold | hnew
  · exact h.created key client hold
  · exact hstage key client hnew.symm

theorem Filed.setCache (h : s.Filed) {timeId : ℕ} {cache : ClientHashMap} (helse : timeId ≠ 59 → cache = [])
    (hkeys : timeId = 59 → cache.keys.Nodup) : (s.setCache timeId cache).Filed := by
  refine ⟨h.clientTimeId, h.created, fun t ht => ?_, ?_⟩
  · show (if t = timeId then cache else s.clientCache t) = []
    split_ifs with heq
    · exact helse (heq ▸ ht)
    · exact h.elsewhere t ht
  · show ClientHashMap.keys (if 59 = timeId then cache else s.clientCache 59) |>.Nodup
    split_ifs with heq
    · exact hkeys heq.symm
    · exact h.keys

theorem Filed.addConnection (h : s.Filed) (thread : ℕ) : (s.addConnection thread).Filed := by
  unfold PendingTable.addConnection
  split
  case h_1 key client hstage =>
    have htime := h.created key client (List.mem_of_getElem? hstage)
    have hset : (s.setStage thread (.found client)).Filed := h.setStage thread (fun _ _ heq => nomatch heq)
    refine hset.setCache ?_ ?_
    · intro hne
      rw [htime] at hne
      exact absurd rfl hne
    · intro heq
      rw [heq]
      exact keys_insert h.keys key client
  case h_2 => exact h

theorem Filed.advance (h : s.Filed) : s.advance.Filed := by
  refine ⟨?_, h.created, h.elsewhere, h.keys⟩
  show s.clientTimeId + BitVec.ofNat 8 ((s.clientTimeId.toNat + 1) % 60) = 59
  rw [h.clientTimeId]
  rfl

theorem Filed.reap (h : s.Filed) (timeId : ℕ) (idle : BitVec 64 × PendingClient → Bool) : (s.reap timeId idle).Filed := by
  have hset : (s.setCache timeId ((s.clientCache timeId).filter fun entry => !idle entry)).Filed :=
    h.setCache (fun ht => by rw [h.elsewhere timeId ht]; rfl)
      (fun ht => h.keys.sublist (by rw [ht]; exact List.filter_sublist.map _))
  exact ⟨hset.clientTimeId, hset.created, hset.elsewhere, hset.keys⟩

section
variable [DoubleOps Double] {inactivityTimeoutSec : Double}

theorem Filed.next (h : s.Filed) (a : PendingAction Double) : (s.next inactivityTimeoutSec a).Filed := by
  cases a with
  | receive thread key =>
    show (s.receive thread key).Filed
    unfold PendingTable.receive
    split
    · exact h.setStage thread (fun _ _ heq => nomatch heq)
    · exact h
  | findConnection thread =>
    show (s.findConnection thread).Filed
    unfold PendingTable.findConnection
    split
    · split
      · exact h.setStage thread (fun _ _ heq => nomatch heq)
      · refine h.setStage thread (fun _ _ heq => ?_)
        split_ifs at heq
    · exact h
  | allocate thread now =>
    show (s.allocate thread now).Filed
    unfold PendingTable.allocate
    split
    case h_1 key _ =>
      have hset : (s.setStage thread (.created key ⟨s.places, s.allocator.allocate.1, s.clientTimeId⟩)).Filed :=
        h.setStage thread (fun _ _ heq => by cases heq; exact h.clientTimeId)
      exact ⟨hset.clientTimeId, hset.created, hset.elsewhere, hset.keys⟩
    case h_2 => exact h
  | addConnection thread => exact h.addConnection thread
  | touch thread now =>
    show (s.touch thread now).Filed
    unfold PendingTable.touch
    split
    case h_1 client _ =>
      have hset : (s.setStage thread .idle).Filed := h.setStage thread (fun _ _ heq => nomatch heq)
      exact ⟨hset.clientTimeId, hset.created, hset.elsewhere, hset.keys⟩
    case h_2 => exact h
  | timeKillEvent timeId now =>
    show (s.timeKillEvent inactivityTimeoutSec timeId now).Filed
    unfold PendingTable.timeKillEvent
    split
    · exact h.reap timeId _
    · exact h
  | free id =>
    show (s.free id).Filed
    unfold PendingTable.free
    split_ifs
    · exact ⟨h.clientTimeId, h.created, h.elsewhere, h.keys⟩
    · exact h
  | advance => exact h.advance

end

/-! ## Ids -/

theorem filterMap_toList {α β : Type} (f : α → Option β) (a : α) (l : List α) :
    (a :: l).filterMap f = (f a).toList ++ l.filterMap f := by
  cases h : f a <;> simp [h]

theorem carried_setStage {thread : ℕ} {old : IncomingStage} (h : s.threads[thread]? = some old) (new : IncomingStage) :
    (old.carried.toList ++ (s.setStage thread new).carried) ~ (new.carried.toList ++ s.carried) := by
  obtain ⟨hlt, hget⟩ := List.getElem?_eq_some_iff.mp h
  have hnew := (List.set_perm_cons_eraseIdx hlt new).filterMap IncomingStage.carried
  have hold := (List.getElem_cons_eraseIdx_perm hlt).filterMap IncomingStage.carried
  rw [filterMap_toList] at hnew hold
  rw [hget] at hold
  calc old.carried.toList ++ (s.threads.set thread new).filterMap IncomingStage.carried
      ~ old.carried.toList ++ (new.carried.toList ++ (s.threads.eraseIdx thread).filterMap IncomingStage.carried) :=
        hnew.append_left _
    _ ~ new.carried.toList ++ (old.carried.toList ++ (s.threads.eraseIdx thread).filterMap IncomingStage.carried) := by
        simp only [← List.append_assoc]
        exact List.perm_append_comm.append_right _
    _ ~ new.carried.toList ++ s.threads.filterMap IncomingStage.carried := hold.append_left _

structure Owned (s : PendingTable Double) : Prop where
  accounts : s.allocator.Accounts 1 s.created s.outstanding
  owners : s.owners ~ s.outstanding
  handed_out : (s.freed ++ s.outstanding) ~ s.handedOut
  reaped : (s.freed ++ s.tempIdVec) ~ s.reaped

theorem Owned.sound (h : s.Owned) (hf : s.Filed) : s.Sound := by
  refine ⟨hf.keys_eq ▸ hf.keys, fun id hid => ?_, h.handed_out, h.reaped⟩
  rw [h.owners.count_eq]
  exact List.count_eq_one_of_mem h.accounts.nodup.of_append_left hid

theorem Owned.setStage (h : s.Owned) {thread : ℕ} {old new : IncomingStage} (hold : s.threads[thread]? = some old)
    (hcarried : old.carried = none) (hcarried' : new.carried = none) : (s.setStage thread new).Owned := by
  have hperm := carried_setStage hold new
  rw [hcarried, hcarried'] at hperm
  refine ⟨h.accounts, List.Perm.trans ?_ h.owners, h.handed_out, h.reaped⟩
  exact (hperm.append_left s.stored).append_right s.tempIdVec

theorem Owned.allocate (h : s.Owned) (thread : ℕ) (now : Double) (hok : s.Proper (.allocate thread now)) :
    (s.allocate thread now).Owned := by
  unfold PendingTable.allocate
  split
  case h_1 key hstage =>
    have hperm := carried_setStage hstage (.created key ⟨s.places, s.allocator.allocate.1, s.clientTimeId⟩)
    refine ⟨h.accounts.allocate (hok key hstage), ?_, ?_, h.reaped⟩
    · refine List.Perm.trans ?_ (h.owners.cons s.allocator.allocate.1)
      refine ((hperm.append_left s.stored).append_right s.tempIdVec).trans ?_
      exact List.perm_middle.append_right s.tempIdVec
    · exact List.perm_middle.trans (h.handed_out.cons _)
  case h_2 => exact h

theorem addConnection_created {key : BitVec 64} {client : PendingClient} {thread : ℕ}
    (hstage : s.threads[thread]? = some (.created key client)) :
    s.addConnection thread = (s.setStage thread (.found client)).setCache client.timeId.toNat
      ((s.clientCache client.timeId.toNat).insert key client) := by
  unfold PendingTable.addConnection
  rw [hstage]

theorem stored_addConnection (hf : s.Filed) {key : BitVec 64} {client : PendingClient} {thread : ℕ}
    (hstage : s.threads[thread]? = some (.created key client)) :
    (s.addConnection thread).stored = ((s.clientCache 59).insert key client).ids := by
  have htime := hf.created key client (List.mem_of_getElem? hstage)
  rw [(hf.addConnection thread).stored_eq, addConnection_created hstage, htime]
  rfl

theorem owners_addConnection {key : BitVec 64} {client : PendingClient} {thread : ℕ}
    (hstage : s.threads[thread]? = some (.created key client)) :
    (client.clientID :: (s.addConnection thread).owners) ~
      ((s.addConnection thread).stored ++ s.carried ++ s.tempIdVec) := by
  have hperm : (client.clientID :: (s.addConnection thread).carried) ~ s.carried := by
    rw [addConnection_created hstage]
    exact carried_setStage hstage (.found client)
  have htemp : (s.addConnection thread).tempIdVec = s.tempIdVec := by
    rw [addConnection_created hstage]
    rfl
  unfold PendingTable.owners
  rw [htemp]
  calc client.clientID :: ((s.addConnection thread).stored ++ (s.addConnection thread).carried ++ s.tempIdVec)
      ~ (s.addConnection thread).stored ++ (client.clientID :: (s.addConnection thread).carried) ++ s.tempIdVec :=
        (List.perm_middle.append_right s.tempIdVec).symm
    _ ~ (s.addConnection thread).stored ++ s.carried ++ s.tempIdVec := (hperm.append_left _).append_right _

theorem Owned.addConnection (h : s.Owned) (hf : s.Filed) (thread : ℕ) (hok : s.Proper (.addConnection thread)) :
    (s.addConnection thread).Owned := by
  by_cases hstage : ∃ key client, s.threads[thread]? = some (.created key client)
  · obtain ⟨key, client, hstage⟩ := hstage
    have hfree := hok key client hstage
    rw [hf.created key client (List.mem_of_getElem? hstage)] at hfree
    have hstored : (s.addConnection thread).stored = client.clientID :: s.stored := by
      rw [stored_addConnection hf hstage, hf.stored_eq]
      unfold ClientHashMap.insert
      rw [show (s.clientCache 59).find key = none from hfree]
      rfl
    have howners : (s.addConnection thread).owners ~ s.owners := by
      have hperm := owners_addConnection hstage
      rw [hstored] at hperm
      exact hperm.cons_inv
    rw [addConnection_created hstage] at howners ⊢
    exact ⟨h.accounts, howners.trans h.owners, h.handed_out, h.reaped⟩
  · have hsame : s.addConnection thread = s := by
      unfold PendingTable.addConnection
      split
      case h_1 key client hcreated => exact absurd ⟨key, client, hcreated⟩ hstage
      case h_2 => rfl
    rw [hsame]
    exact h

theorem Owned.free (h : s.Owned) (id : BitVec 32) : (s.free id).Owned := by
  unfold PendingTable.free
  split_ifs with hmem
  · have hout : id ∈ s.outstanding := h.owners.mem_iff.mp (List.mem_append_right _ hmem)
    have htemp := List.perm_cons_erase hmem
    have hcons := List.perm_cons_erase hout
    refine ⟨h.accounts.free hout, ?_, ?_, ?_⟩
    · refine List.Perm.cons_inv (a := id) (List.Perm.trans ?_ (h.owners.trans hcons))
      refine List.perm_middle.symm.trans ?_
      exact (htemp.append_left (s.stored ++ s.carried)).symm
    · refine List.Perm.trans ?_ h.handed_out
      exact List.perm_middle.symm.trans (hcons.append_left s.freed).symm
    · refine List.Perm.trans ?_ h.reaped
      exact List.perm_middle.symm.trans (htemp.append_left s.freed).symm
  · exact h

theorem stored_reap (hf : s.Filed) (timeId : ℕ) (idle : BitVec 64 × PendingClient → Bool) :
    s.stored ~ ClientHashMap.ids ((s.clientCache timeId).filter idle) ++ (s.reap timeId idle).stored := by
  rw [hf.stored_eq, (hf.reap timeId idle).stored_eq]
  show (s.clientCache 59).ids ~ _ ++ ClientHashMap.ids (if 59 = timeId then _ else s.clientCache 59)
  split_ifs with ht
  · subst ht
    refine ((List.filter_append_perm idle (s.clientCache 59)).map _).symm.trans ?_
    rw [List.map_append]
    exact List.Perm.refl _
  · rw [hf.elsewhere timeId (Ne.symm ht)]
    exact List.Perm.refl _

theorem Owned.reap (h : s.Owned) (hf : s.Filed) (htemp : s.tempIdVec = []) (timeId : ℕ)
    (idle : BitVec 64 × PendingClient → Bool) : (s.reap timeId idle).Owned := by
  have hfreed := h.reaped
  have howners := h.owners
  unfold PendingTable.owners at howners
  rw [htemp, List.append_nil] at hfreed howners
  refine ⟨h.accounts, List.Perm.trans ?_ howners, h.handed_out, ?_⟩
  · calc (s.reap timeId idle).stored ++ s.carried ++ ClientHashMap.ids ((s.clientCache timeId).filter idle)
        ~ ClientHashMap.ids ((s.clientCache timeId).filter idle) ++ ((s.reap timeId idle).stored ++ s.carried) :=
          List.perm_append_comm
      _ ~ s.stored ++ s.carried := by
          rw [← List.append_assoc]
          exact (stored_reap hf timeId idle).symm.append_right _
  · exact List.perm_append_comm.trans (hfreed.append_left _)

theorem filed_new (threads : ℕ) (lastActivityTime : ℕ → Double) : (new threads lastActivityTime).Filed := by
  refine ⟨rfl, fun key client hmem => ?_, fun _ _ => rfl, List.nodup_nil⟩
  cases List.eq_of_mem_replicate hmem

theorem owned_new (threads : ℕ) (lastActivityTime : ℕ → Double) : (new threads lastActivityTime).Owned := by
  have hcarried : (new threads lastActivityTime).carried = [] :=
    List.filterMap_eq_nil_iff.mpr fun stage hmem => by rw [List.eq_of_mem_replicate hmem]; rfl
  refine ⟨IDAllocator.accounts_start, ?_, List.Perm.refl _, List.Perm.refl _⟩
  unfold PendingTable.owners
  rw [hcarried, (filed_new threads lastActivityTime).stored_eq]
  exact List.Perm.refl _

/-! ## What goes wrong otherwise -/

/-- The entry that comes too late takes its id out of sight. -/
theorem not_sound_addConnection (h : s.Owned) (hf : s.Filed) {thread : ℕ} (hbad : ¬ s.Proper (.addConnection thread)) :
    ¬ (s.addConnection thread).Sound := by
  intro hsound
  simp only [Proper, not_forall] at hbad
  obtain ⟨key, client, hstage, hfind⟩ := hbad
  have htime := hf.created key client (List.mem_of_getElem? hstage)
  rw [htime] at hfind
  have hstored : (s.addConnection thread).stored = s.stored := by
    obtain ⟨entry, hentry⟩ := Option.ne_none_iff_exists'.mp hfind
    rw [stored_addConnection hf hstage, hf.stored_eq]
    unfold ClientHashMap.insert
    rw [show (s.clientCache 59).find key = some entry from hentry]
  have hperm : (client.clientID :: (s.addConnection thread).owners) ~ s.outstanding := by
    have := owners_addConnection hstage
    rw [hstored] at this
    exact this.trans h.owners
  have hout : client.clientID ∈ s.outstanding := hperm.mem_iff.mp List.mem_cons_self
  have hsame : (s.addConnection thread).outstanding = s.outstanding := by
    rw [addConnection_created hstage]
    rfl
  have hcount := hperm.count_eq client.clientID
  rw [List.count_cons_self, List.count_eq_one_of_mem h.accounts.nodup.of_append_left hout,
    hsound.one_owner _ (hsame ▸ hout)] at hcount
  omega

/-- With all ids out the counter comes back to one of them. -/
theorem not_sound_allocate (h : s.Owned) {thread : ℕ} {now : Double} (hbad : ¬ s.Proper (.allocate thread now)) :
    ¬ (s.allocate thread now).Sound := by
  intro hsound
  simp only [Proper, not_forall] at hbad
  obtain ⟨key, hstage, hfree, hcreated⟩ := hbad
  have hid : s.allocator.allocate.1 = s.allocator.counter := by
    unfold IDAllocator.allocate
    rw [hfree]
  have hout : s.allocator.counter ∈ s.outstanding := by
    have hperm := h.accounts.perm
    rw [hfree, List.append_nil] at hperm
    have hall : s.created = 2 ^ 32 := le_antisymm h.accounts.bound (not_lt.mp hcreated)
    rw [hperm.mem_iff, h.accounts.counter, hall]
    exact List.mem_map.mpr ⟨0, List.mem_range.mpr (by omega), rfl⟩
  have hnext : (s.allocate thread now).outstanding = s.allocator.counter :: s.outstanding ∧
      (s.allocate thread now).owners =
        s.stored ++ (s.setStage thread (.created key ⟨s.places, s.allocator.counter, s.clientTimeId⟩)).carried ++
          s.tempIdVec := by
    unfold PendingTable.allocate
    rw [hstage, ← hid]
    exact ⟨rfl, rfl⟩
  have hperm : (s.allocate thread now).owners ~ (s.allocator.counter :: s.outstanding) := by
    rw [hnext.2]
    refine List.Perm.trans ?_ (h.owners.cons _)
    refine (((carried_setStage hstage _).append_left s.stored).append_right s.tempIdVec).trans ?_
    exact List.perm_middle.append_right s.tempIdVec
  have hcount := hperm.count_eq s.allocator.counter
  rw [hsound.one_owner _ (hnext.1 ▸ List.mem_cons_self), List.count_cons_self,
    List.count_eq_one_of_mem h.accounts.nodup.of_append_left hout] at hcount
  omega

/-! ## Runs -/

section
variable [DoubleOps Double] {inactivityTimeoutSec : Double}

theorem Owned.next (h : s.Owned) (hf : s.Filed) (a : PendingAction Double) (hok : s.Proper a) :
    (s.next inactivityTimeoutSec a).Owned := by
  cases a with
  | receive thread key =>
    show (s.receive thread key).Owned
    unfold PendingTable.receive
    split
    case h_1 hstage => exact h.setStage hstage rfl rfl
    case h_2 => exact h
  | findConnection thread =>
    show (s.findConnection thread).Owned
    unfold PendingTable.findConnection
    split
    case h_1 key timeId hstage =>
      split
      · exact h.setStage hstage rfl rfl
      · refine h.setStage hstage rfl ?_
        split_ifs <;> rfl
    case h_2 => exact h
  | allocate thread now => exact h.allocate thread now hok
  | addConnection thread => exact h.addConnection hf thread hok
  | touch thread now =>
    show (s.touch thread now).Owned
    unfold PendingTable.touch
    split
    case h_1 client hstage =>
      have hset : (s.setStage thread .idle).Owned := h.setStage hstage rfl rfl
      exact ⟨hset.accounts, hset.owners, hset.handed_out, hset.reaped⟩
    case h_2 => exact h
  | timeKillEvent timeId now =>
    show (s.timeKillEvent inactivityTimeoutSec timeId now).Owned
    unfold PendingTable.timeKillEvent
    split
    case h_1 htemp => exact h.reap hf htemp timeId _
    case h_2 => exact h
  | free id => exact h.free id
  | advance => exact ⟨h.accounts, h.owners, h.handed_out, h.reaped⟩

theorem not_sound_next (h : s.Owned) (hf : s.Filed) (a : PendingAction Double) (hbad : ¬ s.Proper a) :
    ¬ (s.next inactivityTimeoutSec a).Sound := by
  cases a with
  | addConnection thread => exact not_sound_addConnection h hf hbad
  | allocate thread now => exact not_sound_allocate h hbad
  | _ => exact absurd trivial hbad

/-- In every run each key is in one bucket. -/
theorem one_bucket_of_reachable (h : (pendingSystem inactivityTimeoutSec).Reachable s) : s.keys.Nodup := by
  have hf : s.Filed := by
    refine System.Reach.invariant ?_ (fun s a hs _ => hs.next a) h
    rintro s ⟨threads, lastActivityTime, rfl⟩
    exact filed_new threads lastActivityTime
  exact hf.keys_eq ▸ hf.keys

/-- A run stays sound exactly as long as no entry comes too late and there are ids left. -/
theorem table_sound_iff (inactivityTimeoutSec : Double) (threads : ℕ) (lastActivityTime : ℕ → Double)
    (actions : List (PendingAction Double)) :
    (∀ n, ((pendingSystem inactivityTimeoutSec).runFrom (new threads lastActivityTime) (actions.take n)).Sound) ↔
      ∀ n a, actions[n]? = some a →
        ((pendingSystem inactivityTimeoutSec).runFrom (new threads lastActivityTime) (actions.take n)).Proper a := by
  refine System.runFrom_good_iff (I := fun s => s.Filed ∧ s.Owned) ?_ ?_ ?_ ?_ actions
  · exact fun s h => h.2.sound h.1
  · exact fun s a h hok => ⟨h.1.next a, h.2.next h.1 a hok⟩
  · exact fun s a h hbad => not_sound_next h.2 h.1 a hbad
  · exact ⟨filed_new threads lastActivityTime, owned_new threads lastActivityTime⟩

end

/-- Once nothing is on the way, the owner of an id is one entry. -/
theorem Sound.one_entry (h : s.Sound) (hcarried : s.carried = []) (htemp : s.tempIdVec = []) {id : BitVec 32}
    (hid : id ∈ s.outstanding) : s.stored.count id = 1 := by
  have := h.one_owner id hid
  unfold PendingTable.owners at this
  rwa [hcarried, htemp, List.append_nil, List.append_nil] at this

def twice (key : BitVec 64) : List (PendingAction ℤ) :=
  [.receive 0 key, .receive 1 key] ++ List.replicate 60 (.findConnection 0) ++ List.replicate 60 (.findConnection 1) ++
    [.allocate 0 0, .allocate 1 0, .addConnection 0, .addConnection 1, .touch 0 0, .touch 1 0]

theorem second_id_leaks : ¬ ∀ (threads : ℕ) (actions : List (PendingAction ℤ)),
    ((pendingSystem (0 : ℤ)).runFrom (new threads fun _ => 0) actions).Sound := by
  intro h
  have hout : (2 : BitVec 32) ∈ ((pendingSystem (0 : ℤ)).runFrom (new 2 fun _ => 0) (twice 0)).outstanding := by
    decide +kernel
  have hcount : ((pendingSystem (0 : ℤ)).runFrom (new 2 fun _ => 0) (twice 0)).owners.count 2 = 0 := by decide +kernel
  have := (h 2 (twice 0)).one_owner 2 hout
  omega

end PendingTable

end RudpEngine
