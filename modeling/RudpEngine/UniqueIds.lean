import RudpEngine.Driver
import RudpEngine.Run
import Mathlib.Data.List.Nodup
import Mathlib.Data.List.Perm.Basic
import Mathlib.Data.List.Range

/-!
# Ids are unique

`Allocate` takes two atomic steps: it looks for a freed id under the lock, and
where there is none it goes on to the counter, which is outside the lock. In
between other threads may free ids and create new ones.
-/

namespace RudpEngine

namespace IDAllocator

variable (a : IDAllocator)

/-- The section of `Allocate` under the lock. -/
def popFreeID : Option (BitVec 32 × IDAllocator) :=
  match a.freeIDs with
  | id :: freeIDs => some (id, { a with freeIDs := freeIDs })
  | [] => none

def fetchAdd : BitVec 32 × IDAllocator := (a.counter, { a with counter := a.counter + 1 })

def free (id : BitVec 32) : IDAllocator := { a with freeIDs := a.freeIDs ++ [id] }

theorem allocate_eq : a.allocate = a.popFreeID.getD a.fetchAdd := by
  unfold allocate popFreeID fetchAdd
  cases a.freeIDs <;> rfl

/-! ## The ids of an allocator -/

def created (start : BitVec 32) (i : ℕ) : BitVec 32 := start + BitVec.ofNat 32 i

/-- An allocator that began with `start` and has created `n` ids: each is outstanding or waits to be used again. -/
structure Accounts (start : BitVec 32) (n : ℕ) (outstanding : List (BitVec 32)) : Prop where
  counter : a.counter = created start n
  bound : n ≤ 2 ^ 32
  perm : (outstanding ++ a.freeIDs).Perm ((List.range n).map (created start))

section
variable {a} {start id : BitVec 32} {n i j : ℕ} {outstanding : List (BitVec 32)} {a' : IDAllocator}

theorem created_inj (hi : i < 2 ^ 32) (hj : j < 2 ^ 32) (h : created start i = created start j) : i = j := by
  have := congrArg BitVec.toNat ((BitVec.add_right_inj start).mp h)
  simpa only [BitVec.toNat_ofNat, Nat.mod_eq_of_lt hi, Nat.mod_eq_of_lt hj] using this

theorem Accounts.nodup (h : a.Accounts start n outstanding) : (outstanding ++ a.freeIDs).Nodup := by
  refine h.perm.nodup_iff.mpr (List.Nodup.map_on (fun i hi j hj heq => ?_) List.nodup_range)
  rw [List.mem_range] at hi hj
  exact created_inj (hi.trans_le h.bound) (hj.trans_le h.bound) heq

theorem Accounts.notMem (h : a.Accounts start n (id :: outstanding)) : id ∉ outstanding := by
  intro hid
  exact (List.nodup_cons.mp h.nodup).1 (List.mem_append_left _ hid)

theorem accounts_start : (⟨start, []⟩ : IDAllocator).Accounts start 0 [] :=
  ⟨by simp [created], by omega, by simp⟩

theorem Accounts.popFreeID (h : a.Accounts start n outstanding) (hpop : a.popFreeID = some (id, a')) :
    a'.Accounts start n (id :: outstanding) := by
  unfold IDAllocator.popFreeID at hpop
  split at hpop
  case h_1 head freeIDs hfree =>
    cases hpop
    refine ⟨h.counter, h.bound, List.Perm.trans ?_ h.perm⟩
    rw [hfree]
    exact List.perm_middle.symm
  case h_2 => cases hpop

theorem Accounts.fetchAdd (h : a.Accounts start n outstanding) (hn : n < 2 ^ 32) :
    a.fetchAdd.2.Accounts start (n + 1) (a.fetchAdd.1 :: outstanding) := by
  refine ⟨?_, hn, ?_⟩
  · simp only [IDAllocator.fetchAdd, h.counter, created, BitVec.ofNat_add, BitVec.add_assoc]
    rfl
  · rw [List.range_succ, List.map_append]
    refine List.Perm.trans ?_ (List.perm_append_comm.trans (List.Perm.append_right _ h.perm.symm).symm)
    simp only [IDAllocator.fetchAdd, h.counter]
    exact List.Perm.refl _

theorem Accounts.allocate (h : a.Accounts start n outstanding) (hn : a.freeIDs = [] → n < 2 ^ 32) :
    a.allocate.2.Accounts start (if a.freeIDs = [] then n + 1 else n) (a.allocate.1 :: outstanding) := by
  rw [allocate_eq]
  cases hpop : a.popFreeID with
  | none =>
    have hfree : a.freeIDs = [] := by
      unfold IDAllocator.popFreeID at hpop
      split at hpop
      · cases hpop
      · assumption
    rw [if_pos hfree]
    exact h.fetchAdd (hn hfree)
  | some r =>
    have hfree : a.freeIDs ≠ [] := by
      rintro hfree
      unfold IDAllocator.popFreeID at hpop
      rw [hfree] at hpop
      cases hpop
    rw [if_neg hfree]
    exact h.popFreeID hpop

theorem Accounts.free (h : a.Accounts start n outstanding) (hid : id ∈ outstanding) :
    (a.free id).Accounts start n (outstanding.erase id) := by
  refine ⟨h.counter, h.bound, List.Perm.trans ?_ h.perm⟩
  unfold IDAllocator.free
  rw [← List.append_assoc]
  refine List.perm_append_comm.trans ?_
  exact (List.perm_cons_erase hid).symm.append_right _

end

end IDAllocator

/-! ## Threads -/

inductive AllocateStage
  | locked
  | counter

/-- An allocator and the threads that use it; an id is outstanding from the step that hands it out until it is freed. -/
structure IdUse where
  allocator : IDAllocator
  stage : ℕ → AllocateStage
  created : ℕ
  outstanding : List (BitVec 32)

inductive IdAction
  | allocate (thread : ℕ)
  | free (id : BitVec 32)

namespace IdUse

variable (s : IdUse)

def setStage (thread : ℕ) (stage : AllocateStage) : IdUse :=
  { s with stage := fun t => if t = thread then stage else s.stage t }

/-- The next atomic step of a thread in `Allocate`, with the id that it returns. -/
def allocate (thread : ℕ) : Option (BitVec 32) × IdUse :=
  match s.stage thread with
  | .locked =>
    match s.allocator.popFreeID with
    | some (id, allocator) => (some id, { s with allocator := allocator, outstanding := id :: s.outstanding })
    | none => (none, s.setStage thread .counter)
  | .counter =>
    let (id, allocator) := s.allocator.fetchAdd
    (some id,
      { s.setStage thread .locked with
        allocator := allocator
        created := s.created + 1
        outstanding := id :: s.outstanding })

def free (id : BitVec 32) : IdUse := { s with allocator := s.allocator.free id, outstanding := s.outstanding.erase id }

def next : IdAction → IdUse
  | .allocate thread => (s.allocate thread).2
  | .free id => s.free id

/-- Only an outstanding id is freed, and no more than `2 ^ 32` ids are created. -/
def Proper : IdAction → Prop
  | .allocate _ => s.created < 2 ^ 32
  | .free id => id ∈ s.outstanding

end IdUse

def idSystem : System IdUse IdAction where
  init s := (∃ start, s.allocator = ⟨start, []⟩) ∧ (∀ thread, s.stage thread = .locked) ∧ s.created = 0 ∧ s.outstanding = []
  next := IdUse.next

namespace IdUse

variable {s : IdUse} {start id : BitVec 32} {thread : ℕ}

def Accounted (s : IdUse) (start : BitVec 32) : Prop := s.allocator.Accounts start s.created s.outstanding

theorem Accounted.allocate (h : s.Accounted start) (hs : s.created < 2 ^ 32) (thread : ℕ) :
    (s.allocate thread).2.Accounted start := by
  unfold IdUse.allocate
  split
  · split
    case h_1 hpop => exact IDAllocator.Accounts.popFreeID h hpop
    case h_2 => exact h
  · exact IDAllocator.Accounts.fetchAdd h hs

theorem allocate_outstanding (hid : (s.allocate thread).1 = some id) :
    (s.allocate thread).2.outstanding = id :: s.outstanding := by
  unfold IdUse.allocate at hid ⊢
  split at hid
  · split at hid
    · cases hid
      rfl
    · cases hid
  · cases hid
    rfl

theorem accounted_of_reach (h : idSystem.Reach Proper s) : ∃ start, s.Accounted start := by
  refine System.Reach.invariant (I := fun s => ∃ start, s.Accounted start) ?_ ?_ h
  · rintro s ⟨⟨start, ha⟩, -, hn, ho⟩
    refine ⟨start, ?_⟩
    unfold Accounted
    rw [ha, hn, ho]
    exact IDAllocator.accounts_start
  · rintro s (thread | id) ⟨start, hs⟩ hok
    · exact ⟨start, hs.allocate hok thread⟩
    · exact ⟨start, IDAllocator.Accounts.free hs hok⟩

/-- An id that is handed out is not outstanding. -/
theorem handed_out_once (h : idSystem.Reach Proper s) (hcreated : s.created < 2 ^ 32)
    (hid : (s.allocate thread).1 = some id) : id ∉ s.outstanding := by
  obtain ⟨start, hs⟩ := accounted_of_reach h
  have hnext := hs.allocate hcreated thread
  unfold Accounted at hnext
  rw [allocate_outstanding hid] at hnext
  exact hnext.notMem

def unused : IdUse := ⟨.new, fun _ => .locked, 0, []⟩

/-- Two threads have found no freed id, and the first has got one from the counter. -/
def contended : IdUse := idSystem.runFrom unused [.allocate 0, .allocate 1, .allocate 0]

theorem handed_out_once_contended : (2 : BitVec 32) ∉ contended.outstanding := by
  have h0 : idSystem.Reach Proper unused := .init ⟨⟨1, rfl⟩, fun _ => rfl, rfl, rfl⟩
  have h1 := h0.next (a := IdAction.allocate 0) (show 0 < 2 ^ 32 by decide)
  have h2 := h1.next (a := IdAction.allocate 1) (show 0 < 2 ^ 32 by decide)
  have h3 : idSystem.Reach Proper contended := h2.next (a := IdAction.allocate 0) (show 0 < 2 ^ 32 by decide)
  exact handed_out_once (s := contended) h3 (show 1 < 2 ^ 32 by decide) (show (contended.allocate 1).1 = some 2 by rfl)

end IdUse

end RudpEngine
