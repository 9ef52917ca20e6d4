import CUtils.Native.FdUtils

/-!
# Sending and receiving over channels

The send and receive functions of the four backends of `channel.c`.  What the underlying
system call does is an argument: a `write` takes some of the bytes, `msgsnd` all of them,
and `read` and `msgrcv` deliver bytes.  A result `none` means that the C code would leave
one of its static buffers.
-/

namespace CUtils

/-- The values of `errno` that a backend tells apart. -/
inductive IoErrno
  | eagain
  | eintr
  | eidrm
  | other
deriving DecidableEq

/-- What a single system call returns: a result, or -1 with `errno`. -/
inductive IoResult (α : Type)
  | ok (a : α)
  | error (errno : IoErrno)
deriving DecidableEq

/-- How a send or receive function ends. -/
inductive IoEnd
  | returns (ret : Int)
  | exits
deriving DecidableEq

/-! ## Serial ports -/

/-- `serial_write(ctx, buf, size)`: the return value, and the bytes that were taken. -/
def serialWrite (buf : List UInt8) : IoResult Nat → Int × List UInt8
  | .ok n => (castInt n, buf.take n)
  | .error .eagain => (0, [])
  | .error _ => (-1, [])

/-- `serial_read(ctx, buf, size)`: the return value, and the bytes that were stored. -/
def serialRead : IoResult (List UInt8) → Int × List UInt8
  | .ok bs => (castInt bs.length, bs)
  | .error .eagain => (0, [])
  | .error _ => (-1, [])

/-! ## Message queues -/

/-- `struct channel_msgbuf`. -/
structure ChannelMsgbuf where
  mtype : Int
  mtext : List UInt8
  size : mtext.length = 512

/-- `struct channel_msgq_s`. -/
structure ChannelMsgq where
  sendId : Int
  sendMsgid : Int
  isServer : Bool
  recvId : Int
  recvMsgid : Int

/-- Store a message in a static buffer; more than its 512 bytes fault. -/
def ChannelMsgbuf.store (msgbuf : ChannelMsgbuf) (mtype : Int) (src : List UInt8) (n : Nat) :
    Option ChannelMsgbuf :=
  match h : memcpy msgbuf.mtext 0 src n with
  | some mtext => some ⟨mtype, mtext, (memcpy_eq_some h).2.2.trans msgbuf.size⟩
  | none => none

/-- `channel_msgq_send(data, buf, len)`: `send_buf`, how the function ends, and the bytes that
    were taken. -/
def channelMsgqSend (ctx : ChannelMsgq) (sendBuf : ChannelMsgbuf) (buf : List UInt8) (len : Nat)
    (msgsnd : IoResult Unit) : Option (ChannelMsgbuf × IoEnd × List UInt8) := do
  let sendBuf ← sendBuf.store ctx.sendId buf len
  match msgsnd with
  | .error .eidrm => return (sendBuf, .exits, [])
  | .error _ => return (sendBuf, .returns len, [])
  | .ok () => return (sendBuf, .returns len, sendBuf.mtext.take len)

/-- `channel_msgq_recv(data, buf, max_len)`: `recv_buf`, how the function ends, and the bytes
    that are copied to `buf`.  The call stores the message `bs` in `recv_buf`. -/
def channelMsgqRecv (ctx : ChannelMsgq) (recvBuf : ChannelMsgbuf) :
    IoResult (List UInt8) → Option (ChannelMsgbuf × IoEnd × List UInt8)
  | .error .eagain => some (recvBuf, .returns 0, [])
  | .error .eidrm => some (recvBuf, .exits, [])
  | .error _ => some (recvBuf, .returns (-1), [])
  | .ok bs => do
    let recvBuf ← recvBuf.store ctx.recvId bs bs.length
    let ret := castInt bs.length
    if ret = 0 then
      return (recvBuf, .returns 0, [])
    else if ret > 0 then
      let bytes ← readAt recvBuf.mtext 0 ret.toNat
      return (recvBuf, .returns ret, bytes)
    else
      return (recvBuf, .returns ret, [])

/-! ## The backends -/

/-- A send through one of the backends, with what its system call does; for a descriptor
    there may be several calls, of which the last is not interrupted. -/
inductive SendCall
  | uart (write : IoResult Nat)
  | msgq (ctx : ChannelMsgq) (sendBuf : ChannelMsgbuf) (msgsnd : IoResult Unit)
  | fifo (write : SysCalls Nat)
  | unixBus (write : SysCalls Nat)

/-- A receive through one of the backends. -/
inductive RecvCall
  | uart (read : IoResult (List UInt8))
  | msgq (ctx : ChannelMsgq) (recvBuf : ChannelMsgbuf) (msgrcv : IoResult (List UInt8))
  | fifo (read : SysCalls (List UInt8))
  | unixBus (read : SysCalls (List UInt8))

/-- `channel_fifo_send` and `channel_unix_bus_send`. -/
def channelFdSend (write : SysCalls Nat) (buf : List UInt8) : Int × List UInt8 :=
  let (bytes, ret) := write.writeLoop buf
  (castInt ret, bytes)

/-- `channel_fifo_recv` and `channel_unix_bus_recv`. -/
def channelFdRecv (read : SysCalls (List UInt8)) : Int × List UInt8 :=
  let (bytes, ret) := read.readLoop
  (castInt ret, bytes)

/-- The `send` function of a backend: how it ends, and the bytes that were taken. -/
def channelSend (buf : List UInt8) (len : Nat) : SendCall → Option (IoEnd × List UInt8)
  | .uart write =>
    let (ret, bytes) := serialWrite buf write
    some (.returns ret, bytes)
  | .msgq ctx sendBuf msgsnd => (channelMsgqSend ctx sendBuf buf len msgsnd).map (·.2)
  | .fifo write =>
    let (ret, bytes) := channelFdSend write buf
    some (.returns ret, bytes)
  | .unixBus write =>
    let (ret, bytes) := channelFdSend write buf
    some (.returns ret, bytes)

/-- The `receive` function of a backend: how it ends, and the bytes that were stored. -/
def channelReceive : RecvCall → Option (IoEnd × List UInt8)
  | .uart read =>
    let (ret, bytes) := serialRead read
    some (.returns ret, bytes)
  | .msgq ctx recvBuf msgrcv => (channelMsgqRecv ctx recvBuf msgrcv).map (·.2)
  | .fifo read =>
    let (ret, bytes) := channelFdRecv read
    some (.returns ret, bytes)
  | .unixBus read =>
    let (ret, bytes) := channelFdRecv read
    some (.returns ret, bytes)

end CUtils
