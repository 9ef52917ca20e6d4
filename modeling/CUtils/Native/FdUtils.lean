import CUtils.Native.Utils

/-!
# Pipes and the helpers of `fdutils.c`

`read_loop` and `write_loop` on any descriptor, whose calls may return anything; then a
pipe with both ends open and no other reader or writer.  Any call on it may be
interrupted by a signal; the list `signals` tells which of the next calls are, and no
call is interrupted when it is used up.
-/

namespace CUtils

/-! ## Any descriptor -/

/-- What `read` or `write` returns if no signal interrupts it: a result, or -1, where
    `errno` may be EAGAIN. -/
inductive SysResult (α : Type)
  | ok (a : α)
  | eagain
  | error
deriving DecidableEq

/-- The calls of one loop of `read` or `write`: so many are interrupted, and the last one
    is not. -/
structure SysCalls (α : Type) where
  interrupts : Nat
  result : SysResult α

namespace SysCalls

/-- The body of `read_loop` and `write_loop`: what the call has returned, if it has not
    failed, and the return value. -/
def loop {α : Type} (count : α → Nat) : Nat → SysResult α → Option α × Int
  | 0, .ok a => (some a, count a)
  | 0, .eagain => (none, 0)
  | 0, .error => (none, -1)
  | interrupts + 1, result => loop count interrupts result -- EINTR

/-- `read_loop(fd, buf, max_len)`: the bytes read, and the return value. -/
def readLoop (calls : SysCalls (List UInt8)) : List UInt8 × Int :=
  let (buf, ret) := loop List.length calls.interrupts calls.result
  (buf.getD [], ret)

/-- `write_loop(fd, buf, len)`: the bytes written, and the return value. -/
def writeLoop (calls : SysCalls Nat) (buf : List UInt8) : List UInt8 × Int :=
  let (n, ret) := loop id calls.interrupts calls.result
  (buf.take (n.getD 0), ret)

theorem loop_eq {α : Type} (count : α → Nat) (interrupts : Nat) (result : SysResult α) :
    loop count interrupts result = loop count 0 result := by
  induction interrupts with
  | zero => rfl
  | succ interrupts ih => rw [loop, ih]

theorem readLoop_eof {calls : SysCalls (List UInt8)} (h : calls.result = .ok []) :
    calls.readLoop = ([], 0) := by
  rw [readLoop, loop_eq, h]
  rfl

theorem writeLoop_neg_iff (calls : SysCalls Nat) (buf : List UInt8) :
    (calls.writeLoop buf).2 < 0 ↔ calls.result = .error := by
  rw [writeLoop, loop_eq]
  cases calls.result with
  | ok n => simp [loop]
  | eagain => simp [loop]
  | error => simp [loop]

end SysCalls

/-! ## Pipes -/

/-- The bytes in a pipe, how many it can hold, and which ends are `O_NONBLOCK`. -/
structure Pipe where
  bytes : List UInt8
  capacity : Nat
  readNonblock : Bool
  writeNonblock : Bool
deriving DecidableEq

/-- The values of `errno` after a failed call on a pipe. -/
inductive PipeErrno
  | eagain
  | eintr
deriving DecidableEq

/-- What `read` or `write` does: it transfers the bytes `bs`, it returns -1, or it waits
    for the other end. -/
inductive PipeResult
  | done (bs : List UInt8) (pipe : Pipe)
  | error (errno : PipeErrno)
  | blocks

/-- `read(fd, buf, n)`.  On an empty pipe that is not `O_NONBLOCK` the call waits, also
    when a signal would end that. -/
def Pipe.read (pipe : Pipe) (n : Nat) (interrupted : Bool) : PipeResult :=
  if pipe.bytes = [] ∧ ¬ pipe.readNonblock then
    .blocks
  else if interrupted then
    .error .eintr
  else if pipe.bytes = [] then
    .error .eagain
  else
    .done (pipe.bytes.take n) { pipe with bytes := pipe.bytes.drop n }

/-- `write(fd, buf, len)` of at most `PIPE_BUF` bytes, which are written together. -/
def Pipe.write (pipe : Pipe) (buf : List UInt8) (interrupted : Bool) : PipeResult :=
  if interrupted then
    .error .eintr
  else if pipe.bytes.length + buf.length ≤ pipe.capacity then
    .done buf { pipe with bytes := pipe.bytes ++ buf }
  else if pipe.writeNonblock then
    .error .eagain
  else
    .blocks

/-- `write_loop(fd, buf, len)` with its return value, or `none` when it waits. -/
def writeLoop (pipe : Pipe) (buf : List UInt8) : List Bool → Option (Pipe × Int)
  | [] =>
    match pipe.write buf false with
    | .done bs pipe => some (pipe, bs.length)
    | .error _ => some (pipe, 0) -- EAGAIN
    | .blocks => none
  | interrupted :: signals =>
    match pipe.write buf interrupted with
    | .done bs pipe => some (pipe, bs.length)
    | .error .eintr => writeLoop pipe buf signals
    | .error .eagain => some (pipe, 0)
    | .blocks => none

/-- How a run of `flush_fd` ends. -/
inductive FlushOutcome
  | returned (ret : Bool) (pipe : Pipe)
  /-- it reads from an empty pipe that blocks -/
  | blocks
  /-- it has not returned after the given number of reads -/
  | unfinished
deriving DecidableEq

/-- The loop of `flush_fd`, for at most the given number of reads. -/
def flushFdLoop : Nat → Pipe → List Bool → Bool → FlushOutcome
  | 0, _, _, _ => .unfinished
  | reads + 1, pipe, signals, ret =>
    match pipe.read 64 (signals.headD false) with
    | .done buf pipe =>
      let ret := ret || decide (buf.length > 0)
      if buf.length = 64 then flushFdLoop reads pipe signals.tail ret
      else .returned ret pipe
    | .error .eintr => flushFdLoop reads pipe signals.tail ret
    | .error .eagain => .returned ret pipe
    | .blocks => .blocks

/-- `flush_fd(fd)`. -/
def flushFd (reads : Nat) (pipe : Pipe) (signals : List Bool) : FlushOutcome :=
  flushFdLoop reads pipe signals false

end CUtils
