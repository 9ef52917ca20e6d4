import Mathlib.Logic.Function.Basic

/-!
# Work queues

The worker threads of `workqueue.c` and any number of threads that call
`workqueue_add_work` and `workqueue_cancel_work`, as steps of one machine.  A step is
one access to shared memory: a backlog operation under `backlog_lock`, a read or write
of a worker's state, of a work's status or of its requests, an `event_set`, an
`event_is_set`, or a call of a user function.

An event is a pipe: `event_set` puts a token into it, `event_is_set` blocks until there
is one and drains them all.  The workers have been created, and none of them has run.
The time slice of a work is left out, because nothing reads it.  The backlog is a list
of items where the code links the works themselves; the two agree as long as no work is
added while it is in the backlog.
-/

namespace CUtils

/-- The states of a worker; `calloc` makes it OFFLINE. -/
inductive WorkerState
  | offline
  | idle
  | running
deriving DecidableEq

/-- `enum work_status`. -/
inductive WorkStatus
  | new
  | queued
  | inProgress
  | complete
deriving DecidableEq

/-- `WQ_REQ_CANCEL_WORK`. -/
def wqReqCancelWork : UInt32 := 1

/-- `work_t`; `workFn` and `completeFn` tell which function pointers the user has set. -/
structure Work where
  status : WorkStatus
  requests : UInt32
  workFn : Bool
  completeFn : Bool
deriving DecidableEq

/-- A work item in the hands of a thread or in the backlog, with the number of the
    `workqueue_add_work` call that added it.  No step depends on that number. -/
structure Job where
  work : Nat
  add : Nat
deriving DecidableEq

/-- The next access inside of `put_backlog`. -/
inductive PutPc
  /-- the critical section -/
  | enqueue (job : Job)
  /-- the test of the loop of `wakeup_first_free_worker`, with the read of the state -/
  | scan (i : Nat)
  /-- `event_set(&w->event)` -/
  | signal (i : Nat)
deriving DecidableEq

/-- The next access inside of `workqueue_factory`. -/
inductive WorkerPc
  /-- the first `w->state = WQ_WORKER_STATE_IDLE` -/
  | start
  /-- `event_is_set(&w->event)` -/
  | wait
  /-- `w->state = WQ_WORKER_STATE_RUNNING` -/
  | run
  /-- `get_backlog(wq)` -/
  | get
  /-- the first test of `work->requests` -/
  | testCancel (job : Job)
  /-- `complete_work` after that test: the status, then the function -/
  | cancelStatus (job : Job)
  | cancelFn (job : Job)
  /-- `work->status = WQ_WORK_IN_PROGRESS` -/
  | progress (job : Job)
  /-- the call of `work_fn`, and its execution -/
  | call (job : Job)
  | running (job : Job)
  /-- `rc <= 0 || work->requests & WQ_REQ_CANCEL_WORK` -/
  | test (job : Job) (rc : Int)
  /-- `complete_work` after that test -/
  | completeStatus (job : Job)
  | completeFn (job : Job)
  /-- inside of `put_backlog` -/
  | put (p : PutPc)
  /-- the second `w->state = WQ_WORKER_STATE_IDLE` -/
  | idle
deriving DecidableEq

/-- The next access of a thread inside of `workqueue_add_work`. -/
inductive AdderPc
  /-- outside of the function -/
  | idle
  /-- `work->requests = 0` -/
  | requests (job : Job)
  /-- `work->status = WQ_WORK_QUEUED` -/
  | status (job : Job)
  /-- inside of `put_backlog` -/
  | put (p : PutPc)
deriving DecidableEq

/-- `worker_t` with its thread. -/
structure Worker where
  state : WorkerState
  tokens : Nat
  pc : WorkerPc
deriving DecidableEq

/-- What the log of a run records. -/
inductive WorkEvent
  /-- the call of `workqueue_add_work` -/
  | added (work : Nat)
  /-- the status becomes `WQ_WORK_IN_PROGRESS` -/
  | inProgress (work : Nat)
  /-- `work_fn` is called -/
  | workFn (work : Nat)
  /-- the status becomes `WQ_WORK_COMPLETE` -/
  | complete (work : Nat)
  /-- `complete_fn` is called -/
  | completeFn (job : Job)
deriving DecidableEq

/-- `workqueue_t`, its workers, the threads that add work, and all works.  `adds`
    counts the calls of `workqueue_add_work`, `log` has the newest event first; no
    step depends on them. -/
structure Workqueue where
  numWorkers : Nat
  workers : Nat → Worker
  numAdders : Nat
  adders : Nat → AdderPc
  backlog : List Job
  backlogCount : Int
  works : Nat → Work
  adds : Nat
  log : List WorkEvent

/-- What the scheduler can do. -/
inductive WqAct
  /-- the next access of a worker -/
  | worker (i : Nat)
  /-- the `work_fn` that a worker has called returns -/
  | workReturns (i : Nat) (rc : Int)
  /-- a thread calls `workqueue_add_work` -/
  | add (k w : Nat)
  /-- the next access of that thread -/
  | adder (k : Nat)
  /-- some thread calls `workqueue_cancel_work` -/
  | cancel (w : Nat)
deriving DecidableEq

/-- `workqueue_create`, with the works as the user has prepared them. -/
def workqueueInit (numWorkers numAdders : Nat) (works : Nat → Work) : Workqueue :=
  { numWorkers, workers := fun _ => { state := .offline, tokens := 0, pc := .start }, numAdders,
    adders := fun _ => .idle, backlog := [], backlogCount := 0, works, adds := 0, log := [] }

namespace Workqueue

/-- Replace a worker. -/
def setWorker (s : Workqueue) (i : Nat) (w : Worker) : Workqueue :=
  { s with workers := Function.update s.workers i w }

/-- Move a worker to its next access. -/
def setPc (s : Workqueue) (i : Nat) (pc : WorkerPc) : Workqueue :=
  s.setWorker i { s.workers i with pc }

/-- Move an adder to its next access. -/
def setAdder (s : Workqueue) (k : Nat) (pc : AdderPc) : Workqueue :=
  { s with adders := Function.update s.adders k pc }

/-- `work->status = status`. -/
def setStatus (s : Workqueue) (w : Nat) (status : WorkStatus) : Workqueue :=
  { s with works := Function.update s.works w { s.works w with status } }

/-- `work->requests = requests`. -/
def setRequests (s : Workqueue) (w : Nat) (requests : UInt32) : Workqueue :=
  { s with works := Function.update s.works w { s.works w with requests } }

/-- Record an event. -/
def record (s : Workqueue) (e : WorkEvent) : Workqueue := { s with log := e :: s.log }

/-- `work->requests & WQ_REQ_CANCEL_WORK`. -/
def cancelled (s : Workqueue) (w : Nat) : Prop := (s.works w).requests &&& wqReqCancelWork ≠ 0

instance (s : Workqueue) (w : Nat) : Decidable (s.cancelled w) := inferInstanceAs (Decidable (_ ≠ _))

@[simp] theorem setWorker_self (s : Workqueue) (i : Nat) (w : Worker) :
    (s.setWorker i w).workers i = w := Function.update_self _ _ _

theorem setWorker_of_ne (s : Workqueue) {i j : Nat} (w : Worker) (h : j ≠ i) :
    (s.setWorker i w).workers j = s.workers j := Function.update_of_ne h _ _

theorem pc_setWorker (s : Workqueue) {i : Nat} {w : Worker} (h : w.pc = (s.workers i).pc) (j : Nat) :
    ((s.setWorker i w).workers j).pc = (s.workers j).pc := by
  by_cases hji : j = i
  · rw [hji, setWorker_self, h]
  · rw [setWorker_of_ne s w hji]

@[simp] theorem setAdder_self (s : Workqueue) (k : Nat) (pc : AdderPc) :
    (s.setAdder k pc).adders k = pc := Function.update_self _ _ _

theorem setAdder_of_ne (s : Workqueue) {k j : Nat} (pc : AdderPc) (h : j ≠ k) :
    (s.setAdder k pc).adders j = s.adders j := Function.update_of_ne h _ _

end Workqueue

/-- The next access of `put_backlog`, and where it continues; `none` is the return. -/
def putBacklog (s : Workqueue) : PutPc → Workqueue × Option PutPc
  | .enqueue job =>
    ({ s with backlog := s.backlog ++ [job], backlogCount := s.backlogCount + 1 }, some (.scan 0))
  | .scan i =>
    if i < s.numWorkers then
      if (s.workers i).state = .idle then (s, some (.signal i)) else (s, some (.scan (i + 1)))
    else
      (s, none)
  | .signal i => (s.setWorker i { s.workers i with tokens := (s.workers i).tokens + 1 }, none)

/-- The same threads and works, apart from the backlog and from the wakeups. -/
structure Workqueue.SameThreads (s' s : Workqueue) : Prop where
  numWorkers : s'.numWorkers = s.numWorkers
  numAdders : s'.numAdders = s.numAdders
  adders : s'.adders = s.adders
  works : s'.works = s.works
  adds : s'.adds = s.adds
  log : s'.log = s.log
  pcs : ∀ j, (s'.workers j).pc = (s.workers j).pc

/-- `put_backlog` wakes workers, but moves none. -/
theorem putBacklog_sameThreads (s : Workqueue) (p : PutPc) :
    (putBacklog s p).1.SameThreads s := by
  have hsame : s.SameThreads s := ⟨rfl, rfl, rfl, rfl, rfl, rfl, fun _ => rfl⟩
  cases p with
  | enqueue job => exact ⟨rfl, rfl, rfl, rfl, rfl, rfl, fun _ => rfl⟩
  | scan i =>
    unfold putBacklog
    by_cases hi : i < s.numWorkers
    · by_cases hidle : (s.workers i).state = .idle
      · simp only [hi, hidle, ↓reduceIte]
        exact hsame
      · simp only [hi, hidle, ↓reduceIte]
        exact hsame
    · simp only [hi, ↓reduceIte]
      exact hsame
  | signal i => exact ⟨rfl, rfl, rfl, rfl, rfl, rfl, Workqueue.pc_setWorker s rfl⟩

/-- The first access of `complete_work`. -/
def completeWorkStatus (s : Workqueue) (job : Job) : Workqueue :=
  (s.setStatus job.work .complete).record (.complete job.work)

/-- The second access of `complete_work`. -/
def completeWorkFn (s : Workqueue) (job : Job) : Workqueue :=
  if (s.works job.work).completeFn then s.record (.completeFn job) else s

/-- The next access of `workqueue_factory` in the worker `i`. -/
def workqueueFactory (s : Workqueue) (i : Nat) : Option Workqueue :=
  let w := s.workers i
  match w.pc with
  | .start => some (s.setWorker i { w with state := .idle, pc := .wait })
  | .wait =>
    if w.tokens = 0 then none else some (s.setWorker i { w with tokens := 0, pc := .run })
  | .run => some (s.setWorker i { w with state := .running, pc := .get })
  | .get => match s.backlog with
    | [] => some (s.setPc i .idle)
    | job :: backlog =>
      some { s.setPc i (.testCancel job) with backlog, backlogCount := s.backlogCount - 1 }
  | .testCancel job =>
    some (s.setPc i (if s.cancelled job.work then .cancelStatus job else .progress job))
  | .cancelStatus job => some ((completeWorkStatus s job).setPc i (.cancelFn job))
  -- the item is completed, and then run all the same
  | .cancelFn job => some ((completeWorkFn s job).setPc i (.progress job))
  | .progress job =>
    some (((s.setStatus job.work .inProgress).record (.inProgress job.work)).setPc i (.call job))
  | .call job => some ((s.record (.workFn job.work)).setPc i (.running job))
  | .running _ => none -- left by `workReturns`
  | .test job rc =>
    some (s.setPc i
      (if rc ≤ 0 ∨ s.cancelled job.work then .completeStatus job else .put (.enqueue job)))
  | .completeStatus job => some ((completeWorkStatus s job).setPc i (.completeFn job))
  | .completeFn job => some ((completeWorkFn s job).setPc i .get)
  | .put p =>
    let r := putBacklog s p
    some (r.1.setPc i (match r.2 with
      | some p => .put p
      | none => .get))
  | .idle => some (s.setWorker i { w with state := .idle, pc := .wait })

/-- The next access of `workqueue_add_work` in the thread `k`. -/
def workqueueAddWork (s : Workqueue) (k : Nat) : Option Workqueue :=
  match s.adders k with
  | .idle => none
  | .requests job => some ((s.setRequests job.work 0).setAdder k (.status job))
  | .status job => some ((s.setStatus job.work .queued).setAdder k (.put (.enqueue job)))
  | .put p =>
    let r := putBacklog s p
    some (r.1.setAdder k (match r.2 with
      | some p => .put p
      | none => .idle))

/-- One step of all threads.  An add of a work without `work_fn` returns at once. -/
def wqStep (s : Workqueue) : WqAct → Option Workqueue
  | .worker i => if i < s.numWorkers then workqueueFactory s i else none
  | .workReturns i rc =>
    if i < s.numWorkers then
      match (s.workers i).pc with
      | .running job => some (s.setPc i (.test job rc))
      | _ => none
    else
      none
  | .add k w =>
    if k < s.numAdders ∧ s.adders k = .idle then
      if (s.works w).workFn then
        some { (s.record (.added w)).setAdder k (.requests ⟨w, s.adds⟩) with adds := s.adds + 1 }
      else
        some s
    else
      none
  | .adder k => if k < s.numAdders then workqueueAddWork s k else none
  | .cancel w => some (s.setRequests w ((s.works w).requests ||| wqReqCancelWork))

end CUtils
