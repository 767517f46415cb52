import RudpEngine.WakeUp

/-!
# Function jobs and their root tasks

A function job that submits another one becomes its root task. The worker that
has run a job deletes it, and then counts it off at its root task; what the
counter of a root task stands at does not keep it from being deleted.
-/

namespace RudpEngine

/-- A `FuncTask`; a pointer to it is its place among all that were ever made. -/
structure FuncTask where
  rootTask : Option ℕ
  childrenTaskCount : BitVec 32
  deriving DecidableEq

/-- Where a worker stands with the job it runs: in `DoTask`, in an `AddAsyncJob` out of it, or behind it in
`NotifyRootTask`. -/
inductive RunStage
  | doTask
  | adding (job : Job ℕ) (childrenCount : ℤ)
  | choosing (job : Job ℕ)
  | submitting (task : ℕ)
  | notifyRootTask
  | counting (rootTask : ℕ)
  | ended
  deriving DecidableEq

/-- The job system with its tasks, the `thread_current_job` of each worker, and the tasks deleted so far. -/
structure JobTree where
  system : JobSystem ℕ
  tasks : List FuncTask
  currentJob : ℕ → Option ℕ
  stage : ℕ → RunStage
  deleted : List ℕ

/-- A thread that is no worker submits a job, or the job on worker `i` does; that job returns; the worker goes on with
what it does around the job; or the job system makes a step. -/
inductive JobTreeAction
  | submit (threadIndex : ℤ)
  | addAsyncJob (i : ℕ) (threadIndex : ℤ) (taskCount : ℤ)
  | returnTask (i : ℕ)
  | run (i : ℕ)
  | submitter (k : ℕ)
  | worker (i : ℕ)
  | wake (i : ℕ)
  | shutDown

namespace JobTree

def start (threadCount : ℕ) (bUseCVWait : Bool) : JobTree :=
  ⟨.start threadCount bUseCVWait, [], fun _ => none, fun _ => .doTask, []⟩

variable (s : JobTree)

abbrev running (i : ℕ) : Option (Job ℕ) := s.system.running i

/-- The code of the job is running, and in no call of the job system. -/
def inTask (i : ℕ) : Bool := (s.running i).isSome && decide (s.stage i = .doTask)

def rootTask (task : ℕ) : Option ℕ := s.tasks[task]?.bind FuncTask.rootTask

def setStage (i : ℕ) (stage : RunStage) : JobTree := { s with stage := fun k => if k = i then stage else s.stage k }

def setCount (task : ℕ) (f : BitVec 32 → BitVec 32) : JobTree :=
  { s with tasks := s.tasks.modify task fun t => { t with childrenTaskCount := f t.childrenTaskCount } }

/-- A new task of the root task; a pointer to it is the number of those before it. -/
def newTask (rootTask : Option ℕ) (childrenTaskCount : BitVec 32) : JobTree :=
  { s with tasks := s.tasks ++ [⟨rootTask, childrenTaskCount⟩] }

/-- `fetch_add` of `Internal_AddJob`, at the root task if there is one. -/
def addChildren (task : ℕ) (childrenCount : ℤ) : JobTree :=
  match s.rootTask task with
  | some root =>
    if childrenCount ≠ 0 then
      s.setCount root (· + BitVec.ofInt 32 (if childrenCount < 0 then 1 else childrenCount))
    else s
  | none => s

/-- `delete` in `NotifyRootTask`, which has read the root task. -/
def deleteJob (i : ℕ) (job : ℕ) : JobTree :=
  { s with deleted := job :: s.deleted }.setStage i <|
    match s.rootTask job with
    | some root => .counting root
    | none => .ended

/-- One step of a worker around its job. The root tasks are function tasks, so none of them is submitted again. -/
def runStep (i : ℕ) : JobTree :=
  match s.stage i with
  | .doTask => s
  | .adding job childrenCount => (s.addChildren job.task childrenCount).setStage i (.choosing job)
  | .choosing job =>
    { s.setCount job.task (fun _ => 1) with system := s.system.internalAddJob job }.setStage i (.submitting job.task)
  | .submitting task =>
    if s.system.submissions.any fun sub => sub.job.task == task then s else s.setStage i .doTask
  | .notifyRootTask =>
    match s.currentJob i with
    | some job => s.deleteJob i job
    | none => s
  | .counting root => (s.setCount root (· - 1)).setStage i .ended
  | .ended => { s with system := s.system.next (.worker i) }.setStage i .doTask

/-- A step of a worker that runs no job; with a job in its hand it makes it the current one and calls `DoTask`. -/
def workerStep (i : ℕ) : JobTree :=
  match (s.system.workers i).pc with
  | .running _ => s
  | .popped job =>
    { s with
      system := s.system.next (.worker i)
      currentJob := fun k => if k = i then some job.task else s.currentJob k }.setStage i .doTask
  | _ => { s with system := s.system.next (.worker i) }

def next : JobTreeAction → JobTree
  | .submit threadIndex =>
    { s.newTask none 1 with system := s.system.internalAddJob ⟨s.tasks.length, true, threadIndex⟩ }
  | .addAsyncJob i threadIndex taskCount =>
    if s.inTask i then
      (s.newTask (s.currentJob i) 0).setStage i (.adding ⟨s.tasks.length, true, threadIndex⟩ taskCount)
    else s
  | .returnTask i => if s.inTask i then s.setStage i .notifyRootTask else s
  | .run i => if (s.running i).isSome then s.runStep i else s
  | .submitter k => { s with system := s.system.next (.submitter k) }
  | .worker i => s.workerStep i
  | .wake i => { s with system := s.system.next (.wake i) }
  | .shutDown => { s with system := s.system.next .shutDown }

def counterAccess : JobTreeAction → Option ℕ
  | .run i =>
    if (s.running i).isSome then
      match s.stage i with
      | .adding job childrenCount => if childrenCount ≠ 0 then s.rootTask job.task else none
      | .counting root => some root
      | _ => none
    else none
  | _ => none

/-- When a job is deleted, every job it has submitted is deleted and counted off. -/
def ChildrenDone (s : JobTree) : JobTreeAction → Prop
  | .run i => (s.running i).isSome → s.stage i = .notifyRootTask → ∀ job ∈ s.currentJob i,
    (∀ task < s.tasks.length, s.rootTask task = some job → task ∈ s.deleted) ∧
      ∀ k < s.system.threadCount, s.stage k ≠ .counting job
  | _ => True

instance (s : JobTree) (a : JobTreeAction) : Decidable (s.ChildrenDone a) := by
  cases a <;> unfold ChildrenDone <;> infer_instance

end JobTree

def jobTree : System JobTree JobTreeAction where
  init s := ∃ threadCount bUseCVWait, s = .start threadCount bUseCVWait
  next := JobTree.next

end RudpEngine
