import CUtils.Native.StrUtils

/-!
# Channels over FIFOs

`channel_fifo_setup` and `channel_fifo_teardown` of `channel.c`.  The outcomes of the
system calls are arbitrary, and what the functions do with descriptors, memory and paths
is recorded as a list of acts, in order.
-/

namespace CUtils

/-- The objects that `channel_fifo_setup` allocates. -/
inductive FifoObj
  | ctx
  | fifo0
  | fifo1
deriving DecidableEq

/-- An act on memory, a descriptor or a path; an `unlink` may remove what is there. -/
inductive FifoAct
  | alloc (obj : FifoObj)
  | free (obj : FifoObj)
  | opened (fd : Int)
  | closed (fd : Int)
  | mkfifo (path : List Int8)
  | unlink (path : List Int8) (removed : Bool)
deriving DecidableEq

/-- `struct channel_fifo`. -/
structure ChannelFifo where
  fifo0 : Option (List Int8)
  fifo1 : Option (List Int8)
  isServer : Bool
  rfd : Int
  wfd : Int
deriving DecidableEq

/-- The outcomes of the calls of `channel_fifo_setup`: whether memory is found, what `mkfifo`,
    `open` and the two `fcntl` of each `fcntl_setfl` return, and which `unlink` removes a
    file: `stale` those in front of `mkfifo`, `unlink` those after an error. -/
structure FifoOutcomes where
  calloc : Bool
  stale0 : Bool
  mkfifo0 : Int
  strdup0 : Bool
  stale1 : Bool
  mkfifo1 : Int
  strdup1 : Bool
  openR : Int
  openW : Int
  getflR : Int
  setflR : Int
  getflW : Int
  setflW : Int
  unlink0 : Bool
  unlink1 : Bool

/-- `fcntl_setfl(fd, flag)`, with what the two calls of `fcntl` return. -/
def fcntlSetfl (getfl setfl : Int) : Int :=
  if getfl = -1 then -1
  else if setfl = -1 then -1
  else 0

/-- `snprintf(path, 128, "%s-0", device)` or the same with `-1`. -/
def fifoPath (device : CString) (digit : Int8) : List Int8 :=
  (device.chars ++ [45, digit]).take 127

/-- `open(path, O_RDWR)`; there is no file at NULL. -/
def cOpen (path : Option (List Int8)) (fd : Int) : Int := if path = none then -1 else fd

/-- The context and the acts so far; `.error` is a jump to the label `error`. -/
abbrev FifoStage := Except (ChannelFifo × List FifoAct) (ChannelFifo × List FifoAct)

/-- A server removes what is at a path and makes a FIFO there. -/
def fifoMake (path : List Int8) (stale : Bool) (rc : Int) (s : ChannelFifo × List FifoAct) :
    FifoStage :=
  if s.1.isServer then
    if rc < 0 then .error (s.1, s.2 ++ [.unlink path stale])
    else .ok (s.1, s.2 ++ [.unlink path stale, .mkfifo path])
  else .ok s

/-- A path is duplicated, and `set` stores the copy in the context. -/
def fifoDup (set : ChannelFifo → List Int8 → ChannelFifo) (obj : FifoObj) (path : List Int8)
    (found : Bool) (s : ChannelFifo × List FifoAct) : ChannelFifo × List FifoAct :=
  if found then (set s.1 path, s.2 ++ [.alloc obj]) else s

/-- `ctx->fifo0 = strdup(path)`. -/
def fifoDup0 (path : List Int8) (found : Bool) (s : ChannelFifo × List FifoAct) :
    ChannelFifo × List FifoAct :=
  fifoDup (fun ctx path => { ctx with fifo0 := some path }) .fifo0 path found s

/-- `ctx->fifo1 = strdup(path)`. -/
def fifoDup1 (path : List Int8) (found : Bool) (s : ChannelFifo × List FifoAct) :
    ChannelFifo × List FifoAct :=
  fifoDup (fun ctx path => { ctx with fifo1 := some path }) .fifo1 path found s

/-- A path is opened, and `set` stores the descriptor in the context. -/
def fifoOpen (set : ChannelFifo → Int → ChannelFifo) (path : Option (List Int8)) (fd : Int)
    (s : ChannelFifo × List FifoAct) : FifoStage :=
  let fd := cOpen path fd
  if fd < 0 then .error (set s.1 fd, s.2) else .ok (set s.1 fd, s.2 ++ [.opened fd])

/-- `ctx->rfd = open(path, O_RDWR)`. -/
def fifoOpenR (path : Option (List Int8)) (fd : Int) (s : ChannelFifo × List FifoAct) :
    FifoStage :=
  fifoOpen (fun ctx fd => { ctx with rfd := fd }) path fd s

/-- `ctx->wfd = open(path, O_RDWR)`. -/
def fifoOpenW (path : Option (List Int8)) (fd : Int) (s : ChannelFifo × List FifoAct) :
    FifoStage :=
  fifoOpen (fun ctx fd => { ctx with wfd := fd }) path fd s

/-- A test of the result of `fcntl_setfl`. -/
def fifoSetfl (rc : Int) (s : ChannelFifo × List FifoAct) : FifoStage :=
  if rc < 0 then .error s else .ok s

/-- The body of `channel_fifo_setup` behind the allocation of the context. -/
def channelFifoBody (o : FifoOutcomes) (device : CString) (s : ChannelFifo × List FifoAct) :
    FifoStage := do
  let s ← fifoMake (fifoPath device 48) o.stale0 o.mkfifo0 s
  let s := fifoDup0 (fifoPath device 48) o.strdup0 s
  let s ← fifoMake (fifoPath device 49) o.stale1 o.mkfifo1 s
  let s := fifoDup1 (fifoPath device 49) o.strdup1 s
  let s ← fifoOpenR (if s.1.isServer then s.1.fifo0 else s.1.fifo1) o.openR s
  let s ← fifoOpenW (if s.1.isServer then s.1.fifo1 else s.1.fifo0) o.openW s
  let s ← fifoSetfl (fcntlSetfl o.getflR o.setflR) s
  fifoSetfl (fcntlSetfl o.getflW o.setflW) s

/-- The acts behind the label `error`. -/
def channelFifoError (o : FifoOutcomes) (ctx : ChannelFifo) : List FifoAct :=
  (if ctx.rfd > 0 then [.closed ctx.rfd] else []) ++
  -- the second test closes `rfd` as well
  (if ctx.wfd > 0 then [.closed ctx.rfd] else []) ++
  (match ctx.fifo0 with
    | some path => [.unlink path o.unlink0, .free .fifo0]
    | none => []) ++
  (match ctx.fifo1 with
    | some path => [.unlink path o.unlink1, .free .fifo1]
    | none => []) ++
  [.free .ctx]

/-- `channel_fifo_setup(data, c)`: the return value, `*data` if it is written, and the acts. -/
def channelFifoSetup (o : FifoOutcomes) (device : CString) (isServer : Bool) :
    Int × Option ChannelFifo × List FifoAct :=
  if castInt device.chars.length > 120 then (-1, none, [])
  else if ¬ o.calloc then (-1, none, [])
  else
    match channelFifoBody o device (⟨none, none, isServer, 0, 0⟩, [.alloc .ctx]) with
    | .ok s => (0, some s.1, s.2)
    | .error s => (-1, none, s.2 ++ channelFifoError o s.1)

/-- `channel_fifo_teardown(data)`, where `unlink0` and `unlink1` tell whether a file is
    removed. -/
def channelFifoTeardown (ctx : ChannelFifo) (unlink0 unlink1 : Bool) : List FifoAct :=
  [.closed ctx.rfd, .closed ctx.wfd] ++
  (if ctx.isServer then
    [.unlink (ctx.fifo0.getD []) unlink0, .unlink (ctx.fifo1.getD []) unlink1]
  else []) ++
  [.free .fifo0, .free .fifo1, .free .ctx]

end CUtils
