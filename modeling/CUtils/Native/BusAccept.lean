import CUtils.Native.Workqueue

/-!
# The accept thread of the bus server

`bus_server_queue_work` of `bus_server.c` in the accept thread, together with the workers
of its work queue, as steps of one machine.  There are as many workers as work items, and
the accept thread is the only thread that adds work.  Inside of `bus_server_work_fn` a
step is one access to the client or to the globals; the bytes of the messages are left
out, and the results of reads and writes are arbitrary.

Message ids are `int`s that do not overflow.
-/

namespace CUtils

/-- The next access of the accept thread; `w` is the number of the work item it has
    chosen. -/
inductive AcceptPc
  /-- inside of `accept` -/
  | accept
  /-- the test of the loop over the work items, with the read of `status` that is compared
      with NEW -/
  | scanNew (fd : Int) (i : Nat)
  /-- the read of `status` that is compared with COMPLETE -/
  | scanComplete (fd : Int) (i : Nat)
  /-- `memset(work, 0, sizeof(work_t))` -/
  | clear (fd : Int) (w : Nat)
  /-- `work->arg = client_data; work->work_fn = bus_server_work_fn` -/
  | fill (fd : Int) (w : Nat)
  /-- the call of `workqueue_add_work` -/
  | add (w : Nat)
  /-- inside of `workqueue_add_work` -/
  | adding (w : Nat)
  /-- `while (READ_ONCE(work->status) != WQ_WORK_IN_PROGRESS)` -/
  | wait (w : Nat)
deriving DecidableEq

/-- The next access of `bus_server_work_fn`. -/
inductive BusFnPc
  /-- `fcntl_setfl(p->fd, O_NONBLOCK)` -/
  | setfl
  /-- `read_loop(p->fd, ..)`, and `p->message_id += 1` if there is a message -/
  | read
  /-- the first critical section -/
  | publish
  /-- `g_message_id > p->message_id` -/
  | compare
  /-- the second critical section -/
  | copy
  /-- `write_loop(p->fd, ..)` -/
  | write
  /-- `close(p->fd)`, and the return of `rc` -/
  | close
deriving DecidableEq

/-- A call of `bus_server_work_fn` with its `bus_client_data`. -/
structure BusFn where
  fd : Int
  messageId : Int
  rc : Int
  pc : BusFnPc
deriving DecidableEq

/-- The server: its work queue, the accept thread, the client data that the work items
    point to, the calls of `bus_server_work_fn` in the workers, and `g_message_id`. -/
structure BusAccept where
  wq : Workqueue
  maxClients : Nat
  accept : AcceptPc
  args : Nat → Option Int
  fns : Nat → Option BusFn
  gMessageId : Int

/-- What the scheduler can do. -/
inductive BusAcceptAct
  /-- `accept` returns a client -/
  | connect (fd : Int)
  /-- the next access of the accept thread -/
  | accept
  /-- the next access of a worker outside of `bus_server_work_fn` -/
  | worker (i : Nat)
  /-- its next access inside; `ret` is the result if that is a read or a write -/
  | fn (i : Nat) (ret : Int)
deriving DecidableEq

/-- `bus_server_start`, before any thread has run. -/
def busAcceptInit (maxClients : Nat) : BusAccept :=
  { wq := workqueueInit maxClients 1 fun _ => ⟨.new, 0, false, false⟩, maxClients,
    accept := .accept, args := fun _ => none, fns := fun _ => none, gMessageId := 0 }

namespace BusAccept

/-- Replace a work item. -/
def setWork (s : BusAccept) (w : Nat) (work : Work) : BusAccept :=
  { s with wq := { s.wq with works := Function.update s.wq.works w work } }

/-- Replace the call in a worker. -/
def setFn (s : BusAccept) (i : Nat) (f : Option BusFn) : BusAccept :=
  { s with fns := Function.update s.fns i f }

end BusAccept

/-- The next access of `bus_server_queue_work`; a full queue makes it return -1, after
    which the caller closes the client. -/
def busServerQueueWork (s : BusAccept) : Option BusAccept :=
  match s.accept with
  | .accept => none -- left by `connect`
  | .scanNew fd i =>
    if i < s.maxClients then
      if (s.wq.works i).status = .new then
        some { s with accept := .clear fd i }
      else
        some { s with accept := .scanComplete fd i }
    else
      some { s with accept := .accept }
  | .scanComplete fd i =>
    if (s.wq.works i).status = .complete then
      some { s with accept := .clear fd i }
    else
      some { s with accept := .scanNew fd (i + 1) }
  | .clear fd w => some { s.setWork w ⟨.new, 0, false, false⟩ with accept := .fill fd w }
  | .fill fd w =>
    some { s.setWork w { s.wq.works w with workFn := true } with
      args := Function.update s.args w (some fd), accept := .add w }
  | .add w => (wqStep s.wq (.add 0 w)).map fun wq => { s with wq, accept := .adding w }
  | .adding w =>
    (wqStep s.wq (.adder 0)).map fun wq =>
      { s with wq, accept := if wq.adders 0 = .idle then .wait w else .adding w }
  | .wait w =>
    if (s.wq.works w).status = .inProgress then
      some { s with accept := .accept }
    else
      some s

/-- The next access of a worker outside of `bus_server_work_fn`.  The call of that
    function reads `work->arg`, whose `message_id` is zero from `calloc`. -/
def busWorkerStep (s : BusAccept) (i : Nat) : Option BusAccept := do
  let wq ← wqStep s.wq (.worker i)
  match (s.wq.workers i).pc with
  | .call job =>
    let fd ← s.args job.work
    return { s.setFn i (some ⟨fd, 0, -1, .setfl⟩) with wq }
  | _ => return { s with wq }

/-- The next access of `bus_server_work_fn` in the worker `i`. -/
def busFnStep (s : BusAccept) (i : Nat) (ret : Int) : Option BusAccept := do
  let f ← s.fns i
  match f.pc with
  | .setfl => return s.setFn i (some { f with pc := .read })
  | .read =>
    if ret < 0 then
      return s.setFn i (some { f with rc := -1, pc := .close })
    else if ret > 0 then
      return s.setFn i (some { f with messageId := f.messageId + 1, pc := .publish })
    else
      return s.setFn i (some { f with pc := .compare })
  | .publish =>
    return { s.setFn i (some { f with pc := .compare }) with gMessageId := f.messageId }
  | .compare =>
    let pc := if s.gMessageId > f.messageId then BusFnPc.copy else .read
    return s.setFn i (some { f with pc })
  | .copy => return s.setFn i (some { f with messageId := s.gMessageId, pc := .write })
  | .write =>
    if ret < 0 then
      return s.setFn i (some { f with rc := -1, pc := .close })
    else
      return s.setFn i (some { f with pc := .read })
  | .close =>
    let wq ← wqStep s.wq (.workReturns i f.rc)
    return { s.setFn i none with wq }

/-- One step of all threads. -/
def busAcceptStep (s : BusAccept) : BusAcceptAct → Option BusAccept
  | .connect fd =>
    if s.accept = .accept then some { s with accept := .scanNew fd 0 } else none
  | .accept => busServerQueueWork s
  | .worker i => busWorkerStep s i
  | .fn i ret => busFnStep s i ret

end CUtils
