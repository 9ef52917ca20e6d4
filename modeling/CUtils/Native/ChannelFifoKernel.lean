import CUtils.ForStd.Heap
import CUtils.Native.ChannelFifo
import CUtils.Native.ChannelIo

/-!
# FIFOs of the kernel

What the acts of `channel_fifo_setup` and `channel_fifo_teardown` do to the FIFOs of a file
system and to the descriptors of any number of processes, and the calls that move bytes through
them.  Every descriptor is opened with `O_RDWR`, so no open waits, and a read of an empty FIFO
fails with EAGAIN once `O_NONBLOCK` is set.  Each call takes effect at once, except a flush, which
is a sequence of reads.
-/

namespace CUtils

/-! ## Names and descriptors -/

/-- A descriptor of a process. -/
structure FifoFd where
  proc : Nat
  num : Int
  fifo : Ptr
deriving DecidableEq

/-- Which FIFO a path names, the bytes in the FIFOs, and the descriptors that are open. -/
structure FifoKernel where
  names : List Int8 → Option Ptr
  fifos : Heap (List UInt8)
  fds : List FifoFd

namespace FifoKernel

/-- No FIFO and no descriptor. -/
def empty : FifoKernel := ⟨fun _ => none, Heap.empty, []⟩

/-- The FIFO behind a descriptor. -/
def lookup (k : FifoKernel) (proc : Nat) (num : Int) : Option Ptr :=
  (k.fds.find? fun e => e.proc = proc ∧ e.num = num).map (·.fifo)

/-- The bytes in a FIFO. -/
def bytes (k : FifoKernel) (q : Ptr) : List UInt8 := (k.fifos.cells q).getD []

/-- Replace the bytes of a FIFO. -/
def setBytes (k : FifoKernel) (q : Ptr) (bs : List UInt8) : FifoKernel :=
  { k with fifos := k.fifos.set q bs }

/-- `mkfifo(path, 0666)` when it succeeds. -/
def mkfifo (alloc : Allocator (List UInt8)) (k : FifoKernel) (path : List Int8) :
    Option FifoKernel :=
  if k.names path = none then
    some { k with
      names := Function.update k.names path (some (alloc.malloc k.fifos))
      fifos := k.fifos.set (alloc.malloc k.fifos) [] }
  else none -- EEXIST

/-- `unlink(path)` when it succeeds; the FIFO stays as long as a descriptor is open. -/
def unlink (k : FifoKernel) (path : List Int8) : Option FifoKernel :=
  if k.names path = none then none -- ENOENT
  else some { k with names := Function.update k.names path none }

/-- `open(path, O_RDWR)` when it returns `num`, a number that the process does not use. -/
def openAt (k : FifoKernel) (proc : Nat) (path : List Int8) (num : Int) : Option FifoKernel :=
  match k.names path, k.lookup proc num with
  | some q, none => some { k with fds := ⟨proc, num, q⟩ :: k.fds }
  | _, _ => none

/-- `close(num)`: the bytes of a FIFO are lost when its last descriptor is closed. -/
def close (k : FifoKernel) (proc : Nat) (num : Int) : FifoKernel :=
  match k.lookup proc num with
  | none => k -- EBADF
  | some q =>
    let k := { k with fds := k.fds.filter fun e => ¬ (e.proc = proc ∧ e.num = num) }
    if ∃ e ∈ k.fds, e.fifo = q then k else k.setBytes q []

/-- `read(num, buf, n)`. -/
def read (k : FifoKernel) (proc : Nat) (num : Int) (n : Nat) :
    SysResult (List UInt8) × FifoKernel :=
  match k.lookup proc num with
  | none => (.error, k) -- EBADF
  | some q =>
    if n = 0 then (.ok [], k)
    else if k.bytes q = [] then (.eagain, k)
    else (.ok ((k.bytes q).take n), k.setBytes q ((k.bytes q).drop n))

/-- `write(num, buf, len)` has taken the bytes `bs`. -/
def wrote (k : FifoKernel) (proc : Nat) (num : Int) (bs : List UInt8) : Option FifoKernel :=
  match k.lookup proc num with
  | none => if bs = [] then some k else none -- EBADF
  | some q => some (k.setBytes q (k.bytes q ++ bs))

end FifoKernel

/-! ## Acts -/

/-- Perform an act of a process; the paths are those that it opens next.  An act that the kernel
    does not allow never was the outcome of a call. -/
def fifoAct (alloc : Allocator (List UInt8)) (proc : Nat) (s : List (List Int8) × FifoKernel) :
    FifoAct → Option (List (List Int8) × FifoKernel)
  | .alloc _ => some s
  | .free _ => some s
  | .mkfifo path => (s.2.mkfifo alloc path).map fun k => (s.1, k)
  | .unlink path removed => if removed then (s.2.unlink path).map fun k => (s.1, k) else some s
  | .closed fd => some (s.1, s.2.close proc fd)
  | .opened fd =>
    match s.1 with
    | [] => none
    | path :: paths => (s.2.openAt proc path fd).map fun k => (paths, k)

/-- Perform acts in order. -/
def fifoActs (alloc : Allocator (List UInt8)) (proc : Nat) :
    List FifoAct → List (List Int8) × FifoKernel → Option (List (List Int8) × FifoKernel)
  | [], s => some s
  | act :: acts, s => (fifoAct alloc proc s act).bind (fifoActs alloc proc acts)

/-- The paths that `channel_fifo_setup` opens, in order. -/
def fifoOpenPaths (device : CString) (isServer : Bool) : List (List Int8) :=
  if isServer then [fifoPath device 48, fifoPath device 49]
  else [fifoPath device 49, fifoPath device 48]

/-! ## Any number of channels -/

/-- A channel that is open, and the process that has opened it. -/
structure FifoChannel where
  proc : Nat
  ctx : ChannelFifo

/-- The kernel, and the channels by number. -/
structure FifoState where
  kernel : FifoKernel
  channels : Nat → Option FifoChannel

/-- No channel and no FIFO. -/
def FifoState.empty : FifoState := ⟨.empty, fun _ => none⟩

/-- The calls that the owners of the channels make; `flushRead` is one of the reads of
    `channel_fifo_flush`. -/
inductive FifoCall
  | setup (i proc : Nat) (o : FifoOutcomes) (device : CString) (isServer : Bool)
  | send (i : Nat) (write : SysCalls Nat) (buf : List UInt8)
  | recv (i interrupts maxLen : Nat)
  | flushRead (i : Nat)
  | teardown (i : Nat) (unlink0 unlink1 : Bool)

/-- What a call returns, and the bytes that it has moved. -/
structure FifoOut where
  ret : Int
  bytes : List UInt8
deriving DecidableEq

/-- Perform a call; a number is used for one channel at a time. -/
def channelFifoStep (alloc : Allocator (List UInt8)) (s : FifoState) :
    FifoCall → Option (FifoState × FifoOut)
  | .setup i proc o device isServer =>
    if (s.channels i).isSome then none
    else
      let (rc, ctx, acts) := channelFifoSetup o device isServer
      (fifoActs alloc proc acts (fifoOpenPaths device isServer, s.kernel)).map fun r =>
        (⟨r.2, Function.update s.channels i (ctx.map fun ctx => ⟨proc, ctx⟩)⟩, ⟨rc, []⟩)
  | .send i write buf => do
    let c ← s.channels i
    let (ret, bytes) := channelFdSend write buf
    let kernel ← s.kernel.wrote c.proc c.ctx.wfd bytes
    return ({ s with kernel }, ⟨ret, bytes⟩)
  | .recv i interrupts maxLen => do
    let c ← s.channels i
    let (result, kernel) := s.kernel.read c.proc c.ctx.rfd maxLen
    let (ret, bytes) := channelFdRecv ⟨interrupts, result⟩
    return ({ s with kernel }, ⟨ret, bytes⟩)
  | .flushRead i => do
    let c ← s.channels i
    let (result, kernel) := s.kernel.read c.proc c.ctx.rfd 64
    return ({ s with kernel }, ⟨0, (channelFdRecv ⟨0, result⟩).2⟩)
  | .teardown i unlink0 unlink1 => do
    let c ← s.channels i
    let r ← fifoActs alloc c.proc (channelFifoTeardown c.ctx unlink0 unlink1) ([], s.kernel)
    return (⟨r.2, Function.update s.channels i none⟩, ⟨0, []⟩)

end CUtils
