import CUtils.Native.FdUtils

/-!
# Events

The events of `event.c`.  A result `none` means that the call waits for the other end of
its pipe.
-/

namespace CUtils

/-- `event_t`, with the pipe behind its two descriptors. -/
structure Event where
  initialized : Bool
  pipe : Pipe
deriving DecidableEq

/-- The bytes of the `uint64_t` that `event_set` writes. -/
def eventValue : List UInt8 := leBytes 8 1

/-- `event_set(e)`. -/
def eventSet (e : Event) (signals : List Bool) : Option (Event × Bool) :=
  if ¬ e.initialized then
    some (e, false)
  else
    (writeLoop e.pipe eventValue signals).map fun r => ({ e with pipe := r.1 }, ¬ r.2 < 0)

/-- Which calls of `event_init` succeed, and what the new pipe can hold. -/
structure InitResult where
  pipe : Bool
  fcntlRead : Bool
  fcntlWrite : Bool
  capacity : Nat

/-- `event_init(e, active, blocking)`. -/
def eventInit (e : Event) (active blocking : Bool) (res : InitResult) (signals : List Bool) :
    Option (Event × Int) :=
  if ¬ res.pipe then
    some (e, -1)
  else if ¬ blocking ∧ ¬ (res.fcntlRead ∧ res.fcntlWrite) then
    some (e, -1) -- both ends are closed again
  else
    let e := { initialized := true, pipe := ⟨[], res.capacity, ¬ blocking, ¬ blocking⟩ }
    if active then (eventSet e signals).map fun r => (r.1, 0)
    else some (e, 0)

/-- `event_is_set(e)`, for at most the given number of reads. -/
def eventIsSet (reads : Nat) (e : Event) (signals : List Bool) : FlushOutcome :=
  if ¬ e.initialized then .returned false e.pipe
  else flushFd reads e.pipe signals

end CUtils
