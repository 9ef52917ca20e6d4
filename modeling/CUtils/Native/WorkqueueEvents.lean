import CUtils.Native.Workqueue

/-!
# Workers without an event

`workqueue_create` does not look at the result of `event_init`.  When the pipe of a worker
cannot be made, its thread is started all the same, and the event of the zeroed `worker_t`
stays uninitialised: `event_set` returns before it writes, so the event never has a token,
and `event_is_set` returns 0, so the thread marks itself IDLE, leaves the loop and ends.  In
a step it is a worker that waits for a token it cannot get.
-/

namespace CUtils

/-- `event_set` has no effect on the events that are not initialised. -/
def Workqueue.dropTokens (initialized : Nat → Bool) (s : Workqueue) : Workqueue :=
  { s with workers := fun i =>
      if initialized i then s.workers i else { s.workers i with tokens := 0 } }

/-- One step of all threads, where `initialized` tells for which workers `event_init` has
    succeeded. -/
def wqEventStep (initialized : Nat → Bool) (s : Workqueue) (a : WqAct) : Option Workqueue :=
  (wqStep s a).map (Workqueue.dropTokens initialized)

/-- The first access of every worker, one worker after the other. -/
def startUp (numWorkers : Nat) : List WqAct := (List.range numWorkers).map .worker

end CUtils
