import CUtils.Native.FdUtils

/-!
# One call of bus_server_work_fn

The loop of `bus_server_work_fn` in `bus_server.c` with the system calls underneath.  What
the client and the other workers do in an iteration is arbitrary.

Message ids are `int`s that do not overflow.
-/

namespace CUtils

/-- `g_message_id`, and `g_message_data` up to `g_message_data_length`. -/
structure BusGlobals where
  messageId : Int
  data : List UInt8
deriving DecidableEq

/-- `struct bus_client_data`. -/
structure BusClientData where
  fd : Int
  messageId : Int
deriving DecidableEq

/-- The call at the top of its loop: its client data, the globals, and the bytes it has
    written to the client. -/
structure BusWorker where
  p : BusClientData
  globals : BusGlobals
  written : List UInt8
deriving DecidableEq

/-- What happens in one iteration: the results of the calls, and what another worker has
    published last before the comparison and before the second critical section, if any. -/
structure BusIteration where
  read : SysCalls (List UInt8)
  beforeCompare : Option BusGlobals
  beforeCopy : Option BusGlobals
  write : SysCalls Nat

/-- How an iteration ends. -/
inductive BusIterationEnd
  | again (w : BusWorker)
  | leaves (w : BusWorker) (rc : Int)
deriving DecidableEq

namespace BusWorker

/-- A message from the client: `p->message_id += 1` and the first critical section. -/
def publish (w : BusWorker) (busData : List UInt8) : BusWorker :=
  { w with
    p := { w.p with messageId := w.p.messageId + 1 }
    globals := ⟨w.p.messageId + 1, busData⟩ }

/-- What another worker has published. -/
def others (w : BusWorker) (globals : Option BusGlobals) : BusWorker :=
  { w with globals := globals.getD w.globals }

/-- The second critical section. -/
def copy (w : BusWorker) : BusWorker :=
  { w with p := { w.p with messageId := w.globals.messageId } }

/-- `write_loop(p->fd, bus_data, bus_data_len)` of the message that was copied. -/
def send (w : BusWorker) (write : SysCalls Nat) (busData : List UInt8) : BusIterationEnd :=
  let (bs, ret) := write.writeLoop busData
  let w := { w with written := w.written ++ bs }
  if ret < 0 then .leaves w (-1) else .again w

/-- The iteration from the comparison `g_message_id > p->message_id` on. -/
def forward (w : BusWorker) (e : BusIteration) : BusIterationEnd :=
  let w := w.others e.beforeCompare
  if w.globals.messageId > w.p.messageId then
    -- the globals may have changed since the comparison
    let w := w.others e.beforeCopy
    w.copy.send e.write w.globals.data
  else
    .again w

end BusWorker

/-- One iteration of the loop. -/
def busServerIteration (w : BusWorker) (e : BusIteration) : BusIterationEnd :=
  let (busData, ret) := e.read.readLoop
  if ret < 0 then
    .leaves w (-1)
  else
    (if ret > 0 then w.publish busData else w).forward e

/-- What a call has done when it returns: its result, the descriptors closed, and how
    often `p` was freed. -/
structure BusReturn where
  rc : Int
  closed : List Int
  frees : Nat
deriving DecidableEq

/-- How far a call has come. -/
inductive BusOutcome
  | running (w : BusWorker)
  | returned (ret : BusReturn)
deriving DecidableEq

/-- The loop, and what follows it. -/
def busServerLoop (w : BusWorker) : List BusIteration → BusOutcome
  | [] => .running w
  | e :: es =>
    match busServerIteration w e with
    | .again w => busServerLoop w es
    | .leaves w rc => .returned { rc, closed := [w.p.fd], frees := 1 }

/-- `bus_server_work_fn(arg)` for the client `fd`; its `message_id` is zero from `calloc`. -/
def busServerWork (fd : Int) (globals : BusGlobals) (es : List BusIteration) : BusOutcome :=
  busServerLoop ⟨⟨fd, 0⟩, globals, []⟩ es

end CUtils
