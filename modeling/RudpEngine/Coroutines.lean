import RudpEngine.JobPool

/-!
# Coroutines on the job system

A coroutine that awaits a tuple of jobs submits them with itself as their root
task and sleeps. Whoever counts off the last of them submits the coroutine
again. A coroutine can also move to another worker, for which it submits
itself.
-/

namespace RudpEngine

/-- What the job system reads of a `Task`; a pointer to one is its place among all that were ever made. -/
structure Task where
  rootTask : Option ℕ
  childrenTaskCount : BitVec 32
  isFunctionTask : Bool
  threadIndex : ℤ
  bDone : Bool
  deriving DecidableEq

/-- A job in a tuple that is awaited. A coroutine whose handle is missing or done is not submitted. -/
structure AwaitedJob where
  isFunctionTask : Bool
  threadIndex : ℤ
  bDone : Bool
  deriving DecidableEq

def AwaitedJob.submitted (job : AwaitedJob) : Bool := job.isFunctionTask || !job.bDone

/-! ## `AwaitableTuple` -/

/-- `AddAsyncJob` of a vector; of anything else, it is one element. Only the first element brings the count. -/
def addVector (jobCount : ℤ) : List AwaitedJob → List (AwaitedJob × ℤ)
  | [] => []
  | job :: jobs => (job, jobCount) :: addVector 0 jobs

/-- `polled_elem_funnel`: only the first element of the tuple brings the count. -/
def pollTuple (jobCount : ℤ) : List (List AwaitedJob) → List (AwaitedJob × ℤ)
  | [] => []
  | elem :: elems => addVector jobCount elem ++ pollTuple 0 elems

def sumOfJobCount (tuple : List (List AwaitedJob)) : ℕ := (tuple.map List.length).sum

/-- The jobs that `await_suspend` submits, with the counts they bring. -/
def awaitSuspend (tuple : List (List AwaitedJob)) : List (AwaitedJob × ℤ) :=
  (pollTuple (BitVec.ofNat 32 (sumOfJobCount tuple)).toInt tuple).filter fun elem => elem.1.submitted

/-! ## Workers -/

/-- Where a worker stands with the task it runs. In the submission of a job, `rest` are the jobs of a tuple still to
come, or the task's own code goes on behind it. -/
inductive TaskStage
  | doTask
  | suspending (jobs : List (ℕ × ℤ))
  | choosing (job : Job ℕ) (rest : Option (List (ℕ × ℤ)))
  | submitting (task : ℕ) (rest : Option (List (ℕ × ℤ)))
  | returned
  | counting (rootTask : ℕ)
  | resuming (rootTask : ℕ)
  | ended
  deriving DecidableEq

/-- The job system with its tasks and the `thread_current_job` of each worker. The other fields are for proofs: the
coroutines that sleep, the tasks that are counted off, who awaits a task, and how much more than the unfinished tasks
it awaits the counter of a coroutine counts. -/
structure Coroutines where
  system : JobSystem ℕ
  tasks : List Task
  currentJob : ℕ → Option ℕ
  stage : ℕ → TaskStage
  awaiting : Multiset ℕ
  finished : Multiset ℕ
  awaitedBy : ℕ → Option ℕ
  surplus : ℕ → ℕ

/-- A thread that is no worker submits a task; the task on worker `i` submits one, awaits a tuple of jobs, moves to
another worker or returns; the worker goes on with what it does around the task; or the job system makes a step. -/
inductive CoroutineAction
  | submit (isFunctionTask : Bool) (threadIndex : ℤ)
  | addAsyncJob (i : ℕ) (isFunctionTask : Bool) (threadIndex : ℤ) (taskCount : ℤ)
  | await (i : ℕ) (tuple : List (List AwaitedJob))
  | resumeOn (i : ℕ) (threadIndex : ℤ)
  | returnTask (i : ℕ)
  | run (i : ℕ)
  | submitter (k : ℕ)
  | worker (i : ℕ)
  | wake (i : ℕ)
  | shutDown

namespace Coroutines

def start (threadCount : ℕ) (bUseCVWait : Bool) : Coroutines :=
  ⟨.start threadCount bUseCVWait, [], fun _ => none, fun _ => .doTask, 0, 0, fun _ => none, fun _ => 0⟩

variable (s : Coroutines)

def inTask (i : ℕ) : Option (Job ℕ) := (s.system.running i).filter fun _ => s.stage i = .doTask

def rootTask (task : ℕ) : Option ℕ := (s.tasks[task]?.map Task.rootTask).join

def count (task : ℕ) : BitVec 32 := (s.tasks[task]?.map Task.childrenTaskCount).getD 0

def isFunctionTask (task : ℕ) : Bool := (s.tasks[task]?.map Task.isFunctionTask).getD false

def threadIndex (task : ℕ) : ℤ := (s.tasks[task]?.map Task.threadIndex).getD (-1)

def bDone (task : ℕ) : Bool := (s.tasks[task]?.map Task.bDone).getD false

def setStage (i : ℕ) (stage : TaskStage) : Coroutines := { s with stage := fun k => if k = i then stage else s.stage k }

def setTask (task : ℕ) (f : Task → Task) : Coroutines := { s with tasks := s.tasks.modify task f }

def setCount (task : ℕ) (f : BitVec 32 → BitVec 32) : Coroutines :=
  s.setTask task fun t => { t with childrenTaskCount := f t.childrenTaskCount }

def newTasks (tasks : List Task) : Coroutines := { s with tasks := s.tasks ++ tasks }

/-- `Internal_AddJob` up to the choice of the worker: the root task, and the children counted there. -/
def setRootTask (task : ℕ) (rootTask : Option ℕ) (childrenCount : ℤ) : Coroutines :=
  let s := s.setTask task fun t => { t with rootTask := rootTask }
  match rootTask with
  | some root =>
    if childrenCount ≠ 0 then s.setCount root (· + BitVec.ofInt 32 (if childrenCount < 0 then 1 else childrenCount)) else s
  | none => s

/-- The rest of `Internal_AddJob` up to the push; the type of the pointer tells which queue is meant. -/
def chooseWorker (i : ℕ) (job : Job ℕ) (rest : Option (List (ℕ × ℤ))) : Coroutines :=
  { s.setCount job.task (fun _ => if job.bFunction then 1 else 0) with system := s.system.internalAddJob job }.setStage i
    (.submitting job.task rest)

def fallAsleep (coroutine : ℕ) (jobs : List (ℕ × ℤ)) (jobCount : ℤ) : Coroutines :=
  if jobCount = 0 then s else
    { s with
      awaiting := coroutine ::ₘ s.awaiting
      awaitedBy := fun task => if task ∈ jobs.map Prod.fst then some coroutine else s.awaitedBy task
      surplus := fun task => if task = coroutine then jobCount.toNat - jobs.length else s.surplus task }

def suspendStep (i : ℕ) (coroutine : ℕ) : List (ℕ × ℤ) → Coroutines
  | [] => s.setStage i .ended
  | (task, jobCount) :: jobs =>
    ((s.fallAsleep coroutine ((task, jobCount) :: jobs) jobCount).setRootTask task (some coroutine) jobCount).setStage i
      (.choosing ⟨task, s.isFunctionTask task, s.threadIndex task⟩ (some jobs))

/-- `fetch_sub` of `NotifyRootTask` or `FinalAwaiter`, with the branch on what it has read. Only the former looks at what
the root task is, and forgets the job that is current. -/
def countOff (i : ℕ) (job : Job ℕ) (root : ℕ) : Coroutines :=
  let after := { s.setCount root (· - 1) with finished := job.task ::ₘ s.finished }
  if s.count root = 1 && !(job.bFunction && s.isFunctionTask root) then
    { after with
      awaiting := s.awaiting.erase root
      currentJob := fun k => if k = i && job.bFunction then none else s.currentJob k }.setStage i (.resuming root)
  else after.setStage i .ended

/-- The root task is submitted again. `FinalAwaiter` calls `AddAsyncJob`, which puts the current job in the place of a
root task that is missing; `NotifyRootTask` calls `Internal_AddJob`. -/
def resumeStep (i : ℕ) (job : Job ℕ) (root : ℕ) : Coroutines :=
  let rootOfRoot := if job.bFunction then s.rootTask root else (s.rootTask root).or (s.currentJob i)
  (s.setRootTask root rootOfRoot 0).setStage i (.choosing ⟨root, false, s.threadIndex root⟩ (some []))

def runStep (i : ℕ) (job : Job ℕ) : Coroutines :=
  match s.stage i with
  | .doTask => s
  | .suspending jobs => s.suspendStep i job.task jobs
  | .choosing job' rest => s.chooseWorker i job' rest
  | .submitting task rest =>
    if s.system.submissions.any fun sub => sub.job.task == task then s
    else s.setStage i (match rest with
      | none => .doTask
      | some jobs => .suspending jobs)
  | .returned =>
    match s.rootTask job.task with
    | some root => s.setStage i (.counting root)
    | none => { s with finished := job.task ::ₘ s.finished }.setStage i .ended
  | .counting root => s.countOff i job root
  | .resuming root => s.resumeStep i job root
  | .ended => { s with system := s.system.next (.worker i) }.setStage i .doTask

/-- A step of a worker that runs no task; with a job in its hand it makes it the current one and calls `DoTask`, which
does nothing for a coroutine that is done. -/
def workerStep (i : ℕ) : Coroutines :=
  match (s.system.workers i).pc with
  | .running _ => s
  | .popped job =>
    { s with
      system := s.system.next (.worker i)
      currentJob := fun k => if k = i then some job.task else s.currentJob k }.setStage i
        (if !job.bFunction && s.bDone job.task then .ended else .doTask)
  | _ => { s with system := s.system.next (.worker i) }

def addAsyncJob (i : ℕ) (isFunctionTask : Bool) (threadIndex : ℤ) (taskCount : ℤ) : Coroutines :=
  let task := s.tasks.length
  ((s.newTasks [⟨none, 0, isFunctionTask, threadIndex, false⟩]).setRootTask task (s.currentJob i) taskCount).setStage i
    (.choosing ⟨task, isFunctionTask, threadIndex⟩ none)

/-- `co_await` of a tuple; with no job in it, nothing is suspended. -/
def await (i : ℕ) (tuple : List (List AwaitedJob)) : Coroutines :=
  if sumOfJobCount tuple = 0 then s else
    let elems := awaitSuspend tuple
    (s.newTasks (elems.map fun elem => ⟨none, 0, elem.1.isFunctionTask, elem.1.threadIndex, false⟩)).setStage i
      (.suspending (elems.mapIdx fun k elem => (s.tasks.length + k, elem.2)))

/-- `co_await` of a worker index: the coroutine is submitted again, and counted once more at its root task. -/
def resumeOn (i : ℕ) (coroutine : ℕ) (threadIndex : ℤ) : Coroutines :=
  if (s.currentJob i).map s.threadIndex = some threadIndex then s else
    let moved := s.setTask coroutine fun t => { t with threadIndex := threadIndex }
    let root := (s.rootTask coroutine).or (s.currentJob i)
    { moved.setRootTask coroutine root (-1) with
      surplus := fun task => if root = some task ∧ task ≠ coroutine then s.surplus task + 1 else s.surplus task }.setStage i
        (.choosing ⟨coroutine, false, threadIndex⟩ (some []))

def next : CoroutineAction → Coroutines
  | .submit isFunctionTask threadIndex =>
    { s.newTasks [⟨none, if isFunctionTask then 1 else 0, isFunctionTask, threadIndex, false⟩] with
      system := s.system.internalAddJob ⟨s.tasks.length, isFunctionTask, threadIndex⟩ }
  | .addAsyncJob i isFunctionTask threadIndex taskCount =>
    match s.inTask i with
    | some _ => s.addAsyncJob i isFunctionTask threadIndex taskCount
    | none => s
  | .await i tuple =>
    match s.inTask i with
    | some job => if job.bFunction then s else s.await i tuple
    | none => s
  | .resumeOn i threadIndex =>
    match s.inTask i with
    | some job => if job.bFunction then s else s.resumeOn i job.task threadIndex
    | none => s
  | .returnTask i =>
    match s.inTask i with
    | some job => (s.setTask job.task fun t => { t with bDone := true }).setStage i .returned
    | none => s
  | .run i =>
    match s.system.running i with
    | some job => s.runStep i job
    | none => s
  | .submitter k => { s with system := s.system.next (.submitter k) }
  | .worker i => if i < s.system.threadCount then s.workerStep i else s
  | .wake i => { s with system := s.system.next (.wake i) }
  | .shutDown => { s with system := s.system.next .shutDown }

end Coroutines

def coroutines : System Coroutines CoroutineAction where
  init s := ∃ threadCount bUseCVWait, s = .start threadCount bUseCVWait
  next := Coroutines.next

end RudpEngine
