import CUtils.ForStd.Heap
import CUtils.ForStd.TaggedQueue
import CUtils.Native.ChannelIo
import CUtils.Native.StrUtils

/-!
# Channels over message queues

`channel_msgq_setup` and `channel_msgq_flush` of `channel.c` over the message queues of the
kernel, and any number of channels that are opened and used in any order.
-/

namespace CUtils

/-! ## Queues of the kernel -/

/-- The message queues: which queue a key names, and the messages with their types. -/
structure MsgKernel where
  names : Int → Option Ptr
  queues : Heap (List (Int × List UInt8))

/-- No queue exists. -/
def MsgKernel.empty : MsgKernel := ⟨fun _ => none, Heap.empty⟩

/-- A new queue; the key 0 is `IPC_PRIVATE` and does not name it. -/
def MsgKernel.create (k : MsgKernel) (key : Int) (q : Ptr) : MsgKernel where
  names := if key = 0 then k.names else Function.update k.names key (some q)
  queues := k.queues.set q []

/-- `msgget(key, 0666 | IPC_CREAT)`, which may fail. -/
def msgget (alloc : Allocator (List (Int × List UInt8))) (k : MsgKernel) (key : Int) (ok : Bool) :
    Int × MsgKernel :=
  if ¬ ok then (-1, k)
  else
    match if key = 0 then none else k.names key with
    | some q => (q, k)
    | none => (alloc.malloc k.queues, k.create key (alloc.malloc k.queues))

/-- The queue with an identifier. -/
def MsgKernel.queue (k : MsgKernel) (msgid : Int) : Option (List (Int × List UInt8)) :=
  if msgid < 0 then none else k.queues.cells msgid.toNat

/-- Replace the messages of a queue. -/
def MsgKernel.setQueue (k : MsgKernel) (msgid : Int) (q : List (Int × List UInt8)) : MsgKernel :=
  { k with queues := k.queues.set msgid.toNat q }

/-- `msgsnd` of a message: `res` is what happens if the queue exists. -/
def msgsndResult (k : MsgKernel) (msgid : Int) (res : IoResult Unit) : IoResult Unit :=
  if k.queue msgid = none then .error .other -- EINVAL
  else res

/-- `msgrcv(msgid, msgp, max_len, type, MSG_NOERROR | IPC_NOWAIT)`: the text is cut to
    `max_len` bytes. -/
def msgrcv (k : MsgKernel) (msgid : Int) (maxLen : Nat) (type : Int) :
    IoResult (List UInt8) × MsgKernel :=
  match k.queue msgid with
  | none => (.error .other, k) -- EINVAL
  | some q =>
    match takeTag q type with
    | none => (.error .other, k) -- ENOMSG
    | some (text, q) => (.ok (text.take maxLen), k.setQueue msgid q)

/-! ## Channels -/

/-- Whether `malloc` and the two calls of `msgget` succeed. -/
structure MsgqOutcomes where
  malloc : Bool
  getSend : Bool
  getRecv : Bool

/-- `channel_msgq_setup(data, c)`: the return value, `*data` if it is written, and the queues. -/
def channelMsgqSetup (ftok : CString → Int → Int) (alloc : Allocator (List (Int × List UInt8)))
    (o : MsgqOutcomes) (k : MsgKernel) (device : CString) (isServer : Bool) :
    Int × Option ChannelMsgq × MsgKernel :=
  if ¬ o.malloc then (-1, none, k)
  else
    let sendId := if isServer then 13 else 17
    let (sendMsgid, k) := msgget alloc k (ftok device sendId) o.getSend
    if sendMsgid < 0 then (-1, none, k)
    else
      let recvId := if isServer then 17 else 13
      let (recvMsgid, k) := msgget alloc k (ftok device recvId) o.getRecv
      if recvMsgid < 0 then (-1, none, k)
      else (0, some ⟨sendId, sendMsgid, isServer, recvId, recvMsgid⟩, k)

/-- `channel_msgq_send` with the queues: the kernel gets the message from `send_buf`. -/
def msgqSend (ctx : ChannelMsgq) (k : MsgKernel) (sendBuf : ChannelMsgbuf) (buf : List UInt8)
    (res : IoResult Unit) : Option (MsgKernel × ChannelMsgbuf × IoEnd) := do
  let res := msgsndResult k ctx.sendMsgid res
  let (sendBuf, ret, text) ← channelMsgqSend ctx sendBuf buf buf.length res
  match res, k.queue ctx.sendMsgid with
  | .ok (), some q => return (k.setQueue ctx.sendMsgid (q ++ [(sendBuf.mtype, text)]), sendBuf, ret)
  | _, _ => return (k, sendBuf, ret)

/-- `channel_msgq_recv` with the queues: how it ends, and the bytes for the caller. -/
def msgqRecv (ctx : ChannelMsgq) (k : MsgKernel) (recvBuf : ChannelMsgbuf) (maxLen : Nat) :
    Option (MsgKernel × ChannelMsgbuf × IoEnd × List UInt8) := do
  let (res, k) := msgrcv k ctx.recvMsgid maxLen ctx.recvId
  let (recvBuf, ret, bytes) ← channelMsgqRecv ctx recvBuf res
  return (k, recvBuf, ret, bytes)

/-- `channel_msgq_flush(data)`. -/
def channelMsgqFlush (ctx : ChannelMsgq) :
    Nat → MsgKernel → ChannelMsgbuf → Option (MsgKernel × ChannelMsgbuf × IoEnd)
  | 0, _, _ => none
  | fuel + 1, k, recvBuf => do
    let (k, recvBuf, ret, _) ← msgqRecv ctx k recvBuf 128
    match ret with
    | .exits => return (k, recvBuf, .exits)
    | .returns ret =>
      if ret ≤ 0 then return (k, recvBuf, .returns 0) else channelMsgqFlush ctx fuel k recvBuf

/-! ## Any number of channels -/

/-- The queues, and the channels by number. -/
structure MsgqState where
  kernel : MsgKernel
  channels : Nat → Option ChannelMsgq

/-- The calls that the owners of the channels make, in any number of processes: the static
    buffers may hold anything when a call begins. -/
inductive MsgqCall
  | setup (i : Nat) (o : MsgqOutcomes) (device : CString) (isServer : Bool)
  | send (i : Nat) (sendBuf : ChannelMsgbuf) (buf : List UInt8) (res : IoResult Unit)
  | recv (i : Nat) (recvBuf : ChannelMsgbuf) (maxLen : Nat)
  | flush (i : Nat) (recvBuf : ChannelMsgbuf)

/-- What a call returns, and the bytes that it delivers. -/
structure MsgqOut where
  ret : IoEnd
  bytes : List UInt8
deriving DecidableEq

/-- Perform a call; a number is used for one channel only, and only after its setup. -/
def msgqStep (ftok : CString → Int → Int) (alloc : Allocator (List (Int × List UInt8)))
    (fuel : Nat) (s : MsgqState) : MsgqCall → Option (MsgqState × MsgqOut)
  | .setup i o device isServer =>
    if (s.channels i).isSome then none
    else
      let (rc, ctx, kernel) := channelMsgqSetup ftok alloc o s.kernel device isServer
      some (⟨kernel, Function.update s.channels i ctx⟩, ⟨.returns rc, []⟩)
  | .send i sendBuf buf res => do
    let ctx ← s.channels i
    let (kernel, _, ret) ← msgqSend ctx s.kernel sendBuf buf res
    return ({ s with kernel }, ⟨ret, []⟩)
  | .recv i recvBuf maxLen => do
    let ctx ← s.channels i
    let (kernel, _, ret, bytes) ← msgqRecv ctx s.kernel recvBuf maxLen
    return ({ s with kernel }, ⟨ret, bytes⟩)
  | .flush i recvBuf => do
    let ctx ← s.channels i
    let (kernel, _, ret) ← channelMsgqFlush ctx fuel s.kernel recvBuf
    return ({ s with kernel }, ⟨ret, []⟩)

end CUtils
