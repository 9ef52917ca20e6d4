import CUtils.Native.List
import CUtils.Native.Workqueue

/-!
# Work queues with a linked backlog

The machine of `CUtils.Native.Workqueue` with the backlog as the code has it: a queue of
the nodes embedded in the works.  The two critical sections under `backlog_lock` call
`queue_enqueue` and `queue_dequeue`, every other access is that of the other machine.
The node of a work has the number of the work as its address, so that `CONTAINER_OF` is
the identity.  `flush_backlog` is what `workqueue_destroy` begins with.
-/

namespace CUtils

/-- A work queue whose backlog is linked.  The threads and the works are those of `wq`,
    whose list of items stays empty.  `addOf` remembers the number of the last add of a
    work, `entered` and `left` are the works in the order in which they were enqueued and
    dequeued; no step depends on these three. -/
structure LinkedWorkqueue where
  wq : Workqueue
  mem : NodeMem
  queue : Queue
  addOf : Nat → Nat
  entered : List Nat
  left : List Nat

/-- `workqueue_create`; the nodes of the works are not initialised. -/
def linkedWorkqueueInit (numWorkers numAdders : Nat) (works : Nat → Work) (mem : NodeMem) :
    LinkedWorkqueue :=
  { wq := workqueueInit numWorkers numAdders works, mem, queue := queueInit, addOf := fun _ => 0,
    entered := [], left := [] }

/-- The critical section of `put_backlog`. -/
def putBacklogLinked (s : LinkedWorkqueue) (job : Job) : LinkedWorkqueue :=
  let (mem, queue) := queueEnqueue s.mem s.queue job.work
  { s with
    wq := { s.wq with backlogCount := s.wq.backlogCount + 1 }, mem, queue,
    addOf := Function.update s.addOf job.work job.add, entered := s.entered ++ [job.work] }

/-- `get_backlog`; no item is NULL. -/
def getBacklogLinked (s : LinkedWorkqueue) : Option (LinkedWorkqueue × Option Job) :=
  let (mem, queue, result) := queueDequeue s.mem s.queue
  if result.rc = 0 then do
    let node ← result.node
    let wq := { s.wq with backlogCount := s.wq.backlogCount - 1 }
    return ({ s with wq, mem, queue, left := s.left ++ [node] }, some ⟨node, s.addOf node⟩)
  else
    return ({ s with mem, queue }, none)

/-- The next access of `workqueue_factory` in the worker `i`. -/
def workqueueFactoryLinked (s : LinkedWorkqueue) (i : Nat) : Option LinkedWorkqueue :=
  match (s.wq.workers i).pc with
  | .get => do
    let (s, job) ← getBacklogLinked s
    let pc := match job with
      | some job => WorkerPc.testCancel job
      | none => .idle
    return { s with wq := s.wq.setPc i pc }
  | .put (.enqueue job) =>
    let s := putBacklogLinked s job
    some { s with wq := s.wq.setPc i (.put (.scan 0)) }
  | _ => (workqueueFactory s.wq i).map fun wq => { s with wq }

/-- The next access of `workqueue_add_work` in the thread `k`. -/
def workqueueAddWorkLinked (s : LinkedWorkqueue) (k : Nat) : Option LinkedWorkqueue :=
  match s.wq.adders k with
  | .put (.enqueue job) =>
    let s := putBacklogLinked s job
    some { s with wq := s.wq.setAdder k (.put (.scan 0)) }
  | _ => (workqueueAddWork s.wq k).map fun wq => { s with wq }

/-- One step of all threads. -/
def linkedStep (s : LinkedWorkqueue) : WqAct → Option LinkedWorkqueue
  | .worker i => if i < s.wq.numWorkers then workqueueFactoryLinked s i else none
  | .workReturns i rc => (wqStep s.wq (.workReturns i rc)).map fun wq => { s with wq }
  | .add k w => (wqStep s.wq (.add k w)).map fun wq => { s with wq }
  | .adder k => if k < s.wq.numAdders then workqueueAddWorkLinked s k else none
  | .cancel w => (wqStep s.wq (.cancel w)).map fun wq => { s with wq }

/-- The loop of `flush_backlog`, for fewer than `fuel` items, which is one critical section;
    `none` means that `fuel` is used up. -/
def flushBacklog : Nat → LinkedWorkqueue → Option LinkedWorkqueue
  | 0, _ => none
  | fuel + 1, s =>
    let (mem, queue, result) := queueDequeue s.mem s.queue
    if result.rc = 0 then do
      let node ← result.node
      -- the status only: `complete_fn` is not called
      let wq := completeWorkStatus s.wq ⟨node, s.addOf node⟩
      let wq := { wq with backlogCount := wq.backlogCount - 1 }
      flushBacklog fuel { s with wq, mem, queue, left := s.left ++ [node] }
    else
      some { s with mem, queue }

end CUtils
