import RudpEngine.Run
import Mathlib.Data.Int.Notation
import Mathlib.Algebra.Group.Nat.Defs

/-!
# The job system

A worker has four queues. Each is a pair of interlocked stacks: submitters push
on the first, and the worker, which alone takes from the queue, turns the first
over onto the second whenever the second is empty. Submitters then count the
job under the worker's mutex and notify it.
-/

namespace RudpEngine

/-! ## `SListQueue` -/

/-- `SListQueue`; the head of a list is the top of its stack. -/
structure SListQueue (α : Type) where
  pushStack : List α
  popStack : List α

/-- Where a `TryPopFront` stands; the queue has one consumer, so the critical section is free when it gets there. -/
inductive PopStage (α : Type)
  | first
  | second
  | flush
  | moving (listHead : List α)
  | third
  deriving DecidableEq

namespace SListQueue

variable {α : Type}

def empty : SListQueue α := ⟨[], []⟩

def pushBack (q : SListQueue α) (data : α) : SListQueue α := { q with pushStack := data :: q.pushStack }

/-- `InterlockedPopEntrySList` of the second stack, with what to do where it is empty. -/
def popEntry (q : SListQueue α) (nullptr : PopStage α ⊕ Option α) : SListQueue α × (PopStage α ⊕ Option α) :=
  match q.popStack with
  | [] => (q, nullptr)
  | entry :: popStack => ({ q with popStack := popStack }, .inr (some entry))

/-- One atomic step of `TryPopFront`: it goes on at a stage, or returns. -/
def tryPopFront (q : SListQueue α) : PopStage α → SListQueue α × (PopStage α ⊕ Option α)
  | .first => q.popEntry (.inl .second)
  | .second => q.popEntry (.inl .flush)
  | .flush => ({ q with pushStack := [] }, .inl (.moving q.pushStack))
  | .moving [] => (q, .inl .third)
  | .moving (listHead :: next) => ({ q with popStack := listHead :: q.popStack }, .inl (.moving next))
  | .third => q.popEntry (.inr none)

end SListQueue

/-! ## Workers -/

/-- A task: a function or a coroutine, with the worker it is pinned to. -/
structure Job (α : Type) where
  task : α
  bFunction : Bool
  threadIndex : ℤ
  deriving DecidableEq

inductive QueueKind
  | localFunc
  | localCoroutine
  | globalFunc
  | globalCoroutine
  deriving DecidableEq

def QueueKind.next : QueueKind → Option QueueKind
  | .localFunc => some .localCoroutine
  | .localCoroutine => some .globalFunc
  | .globalFunc => some .globalCoroutine
  | .globalCoroutine => none

def Job.queue {α : Type} (job : Job α) : QueueKind :=
  if job.bFunction then if job.threadIndex < 0 then .globalFunc else .localFunc
  else if job.threadIndex < 0 then .globalCoroutine else .localCoroutine

inductive WorkerPc (α : Type)
  | loop
  | polling (kind : QueueKind) (stage : PopStage (Job α))
  | popped (job : Job α)
  | running (job : Job α)
  | locking
  | predicate
  | blocking
  | waiting
  | stopped
  deriving DecidableEq

structure Worker (α : Type) where
  queues : QueueKind → SListQueue (Job α)
  locked : Bool
  pendingTaskCount : BitVec 64
  pc : WorkerPc α

namespace Worker

variable {α : Type}

def start : Worker α := ⟨fun _ => .empty, false, 0, .loop⟩

def setQueue (w : Worker α) (kind : QueueKind) (q : SListQueue (Job α)) : Worker α :=
  { w with queues := fun k => if k = kind then q else w.queues k }

def pushBack (w : Worker α) (job : Job α) : Worker α := w.setQueue job.queue ((w.queues job.queue).pushBack job)

/-- `notify_one`, or a spurious wake-up: the worker waits for its mutex again. -/
def notify (w : Worker α) : Worker α :=
  match w.pc with
  | .waiting => { w with pc := .locking }
  | _ => w

def step (bSystemWork bUseCVWait : Bool) (w : Worker α) : Worker α :=
  match w.pc with
  | .loop => { w with pc := if bSystemWork then .polling .localFunc .first else .stopped }
  | .polling kind stage =>
    match (w.queues kind).tryPopFront stage with
    | (q, .inl stage) => { w.setQueue kind q with pc := .polling kind stage }
    | (q, .inr (some job)) => { w.setQueue kind q with pc := .popped job }
    | (q, .inr none) =>
      { w.setQueue kind q with
        pc := match kind.next with
          | some kind => .polling kind .first
          | none => if bUseCVWait then .locking else .loop }
  | .popped job => { w with pendingTaskCount := w.pendingTaskCount - 1, pc := .running job }
  | .running _ => { w with pc := .loop }
  | .locking => if w.locked then w else { w with locked := true, pc := .predicate }
  | .predicate =>
    if !bSystemWork || w.pendingTaskCount ≠ 0 then { w with locked := false, pc := .loop } else { w with pc := .blocking }
  | .blocking => { w with locked := false, pc := .waiting }
  | .waiting => w
  | .stopped => w

end Worker

/-! ## Submitters -/

/-- Where an `Internal_AddJob` stands, behind the choice of its worker. -/
inductive SubmitStage
  | chosen
  | pushed
  | locked
  | counted
  | unlocked
  deriving DecidableEq

structure Submission (α : Type) where
  job : Job α
  index : ℕ
  stage : SubmitStage

structure JobSystem (α : Type) where
  threadCount : ℕ
  bUseCVWait : Bool
  bSystemWork : Bool
  nextThreadIndex : BitVec 64
  workers : ℕ → Worker α
  submissions : List (Submission α)

/-- A job is submitted, the `i`-th submission or the `i`-th worker makes a step, a worker wakes up for no reason, or the
system is shut down. -/
inductive JobAction (α : Type)
  | submit (job : Job α)
  | submitter (i : ℕ)
  | worker (i : ℕ)
  | wake (i : ℕ)
  | shutDown

namespace JobSystem

variable {α : Type}

def start (threadCount : ℕ) (bUseCVWait : Bool) : JobSystem α :=
  ⟨threadCount, bUseCVWait, true, 0, fun _ => .start, []⟩

variable (s : JobSystem α)

def setWorker (i : ℕ) (w : Worker α) : JobSystem α :=
  { s with workers := fun j => if j = i then w else s.workers j }

def takeThreadIndex : ℕ × JobSystem α :=
  if s.threadCount = 0 then (0, s)
  else (s.nextThreadIndex.toNat % s.threadCount, { s with nextThreadIndex := s.nextThreadIndex + 1 })

/-- `Internal_AddJob` begins: it picks the worker. -/
def internalAddJob (job : Job α) : JobSystem α :=
  if job.threadIndex < 0 then
    let (i, s) := s.takeThreadIndex
    { s with submissions := s.submissions ++ [⟨job, i, .chosen⟩] }
  else { s with submissions := s.submissions ++ [⟨job, job.threadIndex.toNat, .chosen⟩] }

def setStage (i : ℕ) (sub : Submission α) (stage : SubmitStage) : JobSystem α :=
  { s with submissions := s.submissions.set i { sub with stage := stage } }

/-- One atomic step of `Internal_AddJob`. An index out of range is undefined behaviour; here nothing happens. -/
def submitterStep (i : ℕ) : JobSystem α :=
  match s.submissions[i]? with
  | none => s
  | some sub =>
    let w := s.workers sub.index
    match sub.stage with
    | .chosen =>
      if sub.index < s.threadCount then (s.setWorker sub.index (w.pushBack sub.job)).setStage i sub .pushed else s
    | .pushed => if w.locked then s else (s.setWorker sub.index { w with locked := true }).setStage i sub .locked
    | .locked =>
      (s.setWorker sub.index { w with pendingTaskCount := w.pendingTaskCount + 1 }).setStage i sub .counted
    | .counted => (s.setWorker sub.index { w with locked := false }).setStage i sub .unlocked
    | .unlocked => { s.setWorker sub.index w.notify with submissions := s.submissions.eraseIdx i }

def next : JobAction α → JobSystem α
  | .submit job => s.internalAddJob job
  | .submitter i => s.submitterStep i
  | .worker i => if i < s.threadCount then s.setWorker i ((s.workers i).step s.bSystemWork s.bUseCVWait) else s
  | .wake i => s.setWorker i (s.workers i).notify
  | .shutDown => { s with bSystemWork := false }

def running (i : ℕ) : Option (Job α) :=
  if i < s.threadCount then
    match (s.workers i).pc with
    | .running job => some job
    | _ => none
  else none

end JobSystem

/-- All steps of the only submission, one after the other. -/
def submitAll {A : Type} (submitter : ℕ → A) : List A := List.replicate 5 (submitter 0)

/-- The job system as `Init` makes it, with any number of workers. -/
def jobSystem (α : Type) : System (JobSystem α) (JobAction α) where
  init s := ∃ threadCount bUseCVWait, s = .start threadCount bUseCVWait
  next := JobSystem.next

end RudpEngine
