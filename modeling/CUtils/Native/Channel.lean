import CUtils.Native.HashMap

/-!
# Channel manager

The manager of `channel.c`: a counter of open channels and a hash map from device
names to channel objects.  The backends behind `g_channel_ops` are function pointers;
what they do to the outside world is not modelled, but every call of one is recorded
together with its argument, and the outcome of a `setup` is arbitrary.
-/

namespace CUtils

/-- `enum channel_errors`. -/
inductive ChannelError where
  | none
  | alreadyOpen
  | openFailed
  | unknownType
  | notOpen
  | oom
deriving DecidableEq

/-- `enum channel_type`; a caller may pass any value of the underlying type. -/
abbrev ChannelType := UInt32

namespace ChannelType

/-- `CHANNEL_TYPE_ERR`. -/
def err : ChannelType := 0

/-- `CHANNEL_TYPE_UART`. -/
def uart : ChannelType := 1

/-- `CHANNEL_TYPE_MSGQ`. -/
def msgq : ChannelType := 2

/-- `CHANNEL_TYPE_FIFO`. -/
def fifo : ChannelType := 3

/-- `CHANNEL_TYPE_UNIX_BUS`. -/
def unixBus : ChannelType := 4

/-- `CHANNEL_TYPE_SENTINEL`. -/
def sentinel : ChannelType := 5

end ChannelType

/-- The backend functions of `channel.c`, without their prefix `channel_`. -/
inductive ChannelFn where
  | uartSend | uartRecv | uartFlush | uartSetup | uartTeardown
  | msgqSend | msgqRecv | msgqFlush | msgqSetup | msgqTeardown
  | fifoSend | fifoRecv | fifoFlush | fifoSetup | fifoTeardown
  | unixBusSend | unixBusRecv | unixBusFlush | unixBusSetup | unixBusTeardown
deriving DecidableEq

/-- `struct channel_ops`; a function pointer is `none` when it is NULL. -/
structure ChannelOps where
  send : Option ChannelFn
  receive : Option ChannelFn
  flush : Option ChannelFn
  setup : Option ChannelFn
  teardown : Option ChannelFn
deriving DecidableEq

/-- `g_channel_ops`; the entry of `CHANNEL_TYPE_ERR` has no initialiser. -/
def gChannelOps : List ChannelOps :=
  [⟨none, none, none, none, none⟩,
   ⟨some .uartSend, some .uartRecv, some .uartFlush, some .uartSetup, some .uartTeardown⟩,
   ⟨some .msgqSend, some .msgqRecv, some .msgqFlush, some .msgqSetup, some .msgqTeardown⟩,
   ⟨some .fifoSend, some .fifoRecv, some .fifoFlush, some .fifoSetup, some .fifoTeardown⟩,
   ⟨some .unixBusSend, some .unixBusRecv, some .unixBusFlush, some .unixBusSetup,
    some .unixBusTeardown⟩]

/-- `g_channel_ops[type]`. -/
def channelOps (type : ChannelType) : Option ChannelOps := gChannelOps[type.toNat]?

/-- `struct channel`.  The device name is the copy made by `strdup`, `none` when that
    copy failed; `data` belongs to the backend. -/
structure Channel where
  id : Int
  speed : Int
  device : Option CString
  isServer : Int
  type : ChannelType
  data : Option Ptr
deriving DecidableEq

/-- `struct channel_manager`. -/
structure ChannelManager where
  openChannels : Int
  channels : HashMapState Ptr

/-- A manager together with the heap of its channel objects. -/
structure ChannelState where
  ctx : ChannelManager
  objects : Heap Channel

/-- The outcomes of what `channel_open` calls outside the manager: whether `calloc` and
    `strdup` return memory, the return value of `setup` and the `data` it leaves. -/
structure OpenEnv where
  calloc : Bool
  strdup : Bool
  setup : Int
  data : Option Ptr

/-- A call of a backend function with its argument. -/
inductive BackendCall where
  | setup (fn : ChannelFn) (c : Ptr)
  | flush (fn : ChannelFn) (data : Option Ptr)
  | teardown (fn : ChannelFn) (data : Option Ptr)
deriving DecidableEq

/-- The out pointers of `channel_get` that are not NULL. -/
structure GetArgs where
  id : Bool
  data : Bool
  send : Bool
  receive : Bool
  flush : Bool

/-- What `channel_get` writes through its out pointers; `none` where nothing is written. -/
structure ChannelView where
  id : Option Int
  data : Option (Option Ptr)
  send : Option (Option ChannelFn)
  receive : Option (Option ChannelFn)
  flush : Option (Option ChannelFn)
deriving DecidableEq

/-- The view of a call that writes nothing. -/
def ChannelView.empty : ChannelView := ⟨none, none, none, none, none⟩

/-- What a call of the interface returns, writes for its caller, and asks of the
    backends. -/
structure ChannelOut where
  rc : ChannelError
  view : ChannelView
  calls : List BackendCall
deriving DecidableEq

/-- The result of a call that returns an error. -/
def ChannelOut.error (rc : ChannelError) : ChannelOut := ⟨rc, .empty, []⟩

/-- `channel_manager_init(ctx)` on zeroed memory. -/
def channelManagerInit : ChannelState :=
  { ctx := { openChannels := 0, channels := hashMapInit }, objects := Heap.empty }

/-- The range check of `channel_open`. -/
def channelTypeKnown (type : ChannelType) : Bool :=
  ¬ (type ≤ ChannelType.err ∨ type ≥ ChannelType.sentinel)

/-- The object that `channel_open` hands to `setup`, as `setup` leaves it: the fields
    written so far and `data`; the rest is zero from `calloc`. -/
def newChannel (env : OpenEnv) (type : ChannelType) (device : CString) (speed isServer : Int) :
    Channel :=
  { id := 0, speed, device := if env.strdup then some device else none, isServer, type,
    data := env.data }

/-- The rest of `channel_open` after a successful `setup` of the object `c`. -/
def channelRegister (dense : DensityTest) (alloc : Allocator (HashMapItem Ptr)) (s : ChannelState)
    (c : Ptr) (chan : Channel) : Option ChannelState := do
  let openChannels ← cInt (s.ctx.openChannels + 1)
  let objects := s.objects.set c { chan with id := openChannels }
  -- `hash_map_insert` reads the key; a failed `strdup` faults here
  let key ← chan.device
  let (channels, _) ← hashMapInsert dense alloc s.ctx.channels key (some c)
  return { ctx := { openChannels, channels }, objects }

/-- `channel_open(ctx, type, device, speed, is_server)`. -/
def channelOpen (dense : DensityTest) (itemAlloc : Allocator (HashMapItem Ptr))
    (alloc : Allocator Channel) (s : ChannelState) (env : OpenEnv) (type : ChannelType)
    (device : Option CString) (speed isServer : Int) : Option (ChannelState × ChannelOut) :=
  if ¬ channelTypeKnown type then some (s, .error .unknownType)
  else match device with
  | none => some (s, .error .openFailed)
  | some device => do
    let val ← hashMapGet s.ctx.channels (some device) 0
    if val ≠ none then
      return (s, .error .alreadyOpen)
    else if ¬ env.calloc then
      return (s, .error .oom)
    else
      let c := alloc.malloc s.objects
      let chan := newChannel env type device speed isServer
      let s := { s with objects := s.objects.set c chan }
      let ops ← channelOps type
      let setup ← ops.setup
      if env.setup ≠ 0 then
        return ({ s with objects := s.objects.free c },
          ⟨.openFailed, .empty, [.setup setup c]⟩)
      else
        let flushed := ops.flush.toList.map fun flush => .flush flush chan.data
        let s ← channelRegister dense itemAlloc s c chan
        return (s, ⟨.none, .empty, .setup setup c :: flushed⟩)

/-- One `if (fn != NULL) *fn = g_channel_ops[c->type].fn;` of `channel_get`. -/
def channelGetFn (want : Bool) (type : ChannelType) (fn : ChannelOps → Option ChannelFn) :
    Option (Option (Option ChannelFn)) :=
  if want then (channelOps type).map fun ops => some (fn ops) else some none

/-- The assignments through the out pointers of `channel_get`. -/
def channelView (args : GetArgs) (chan : Channel) : Option ChannelView := do
  let id := if args.id then some chan.id else none
  let data := if args.data then some chan.data else none
  let send ← channelGetFn args.send chan.type ChannelOps.send
  let receive ← channelGetFn args.receive chan.type ChannelOps.receive
  let flush ← channelGetFn args.flush chan.type ChannelOps.flush
  return { id, data, send, receive, flush }

/-- `channel_get(ctx, device, id, data, send, receive, flush)`. -/
def channelGet (s : ChannelState) (device : Option CString) (args : GetArgs) :
    Option ChannelOut := do
  let c ← hashMapGet s.ctx.channels device 0
  match c with
  | none => return .error .notOpen
  | some c =>
    let chan ← s.objects.cells c
    let view ← channelView args chan
    return ⟨.none, view, []⟩

/-- `channel_close(ctx, device)`. -/
def channelClose (s : ChannelState) (device : Option CString) :
    Option (ChannelState × ChannelOut) := do
  let c ← hashMapGet s.ctx.channels device 0
  match c with
  | none => return (s, .error .notOpen)
  | some c =>
    let chan ← s.objects.cells c
    let ops ← channelOps chan.type
    let teardown ← ops.teardown
    let (channels, _) ← hashMapDelete s.ctx.channels device 0
    let openChannels ← cInt (s.ctx.openChannels - 1)
    return ({ ctx := { openChannels, channels }, objects := s.objects.free c },
      ⟨.none, .empty, [.teardown teardown chan.data]⟩)

/-- `channel_hash_map_callback(key, val)`. -/
def channelHashMapCallback (objects : Heap Channel) (_key : CString) (val : Option Ptr) :
    Option (Heap Channel) := do
  let c ← val
  let _ ← objects.cells c
  return objects.free c

/-- The loop body of `channel_manager_teardown`; the calls of the backends are collected. -/
def channelTeardownBody (t : ChannelState × List BackendCall) (device : CString)
    (_c : Option Ptr) : Option (ChannelState × List BackendCall) := do
  let (s, out) ← channelClose t.1 (some device)
  return (s, t.2 ++ out.calls)

/-- `channel_manager_teardown(ctx)`, with the calls of the backends. -/
def channelManagerTeardown (fuel : Nat) (s : ChannelState) :
    Option (ChannelState × List BackendCall) := do
  let (s, calls) ← hashMapForeach (fun t => t.1.ctx.channels) channelTeardownBody fuel (s, [])
    hashMapItInit
  let (channels, objects) ← hashMapFree channelHashMapCallback s.ctx.channels s.objects
  return ({ ctx := { s.ctx with channels }, objects }, calls)

/-- A call of the manager's interface. -/
inductive ChannelCall where
  | opening (env : OpenEnv) (type : ChannelType) (device : Option CString) (speed isServer : Int)
  | get (device : Option CString) (args : GetArgs)
  | close (device : Option CString)

/-- Perform a call. -/
def channelStep (dense : DensityTest) (itemAlloc : Allocator (HashMapItem Ptr))
    (alloc : Allocator Channel) (s : ChannelState) :
    ChannelCall → Option (ChannelState × ChannelOut)
  | .opening env type device speed isServer =>
    channelOpen dense itemAlloc alloc s env type device speed isServer
  | .get device args => (channelGet s device args).map fun out => (s, out)
  | .close device => channelClose s device

end CUtils
