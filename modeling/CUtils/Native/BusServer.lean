import Mathlib.Logic.Function.Basic

/-!
# Bus server

The worker loops of `bus_server.c`, one for every connected client, as steps of one
machine.  `bus_server_work_fn` is cut at its accesses to shared state: the read from
the client, the publication under `bus_global_lock`, the comparison outside of the
lock, the copy under the lock and the write to the client.  Reads return whole
messages and writes succeed in full.

Ids are `int`s that do not overflow and are modelled by `Nat`.
-/

namespace CUtils

/-- A message: its bytes, and what identifies it, the client that sent it and its
    number among all messages sent.  No step depends on the latter two. -/
structure BusMsg where
  data : List UInt8
  sender : Nat
  tag : Nat
deriving DecidableEq

/-- The next access of a worker, with what it holds in `bus_data`. -/
inductive BusPc
  /-- `read_loop(p->fd, ..)`, and `p->message_id += 1` if there is a message -/
  | read
  /-- the first critical section -/
  | publish (m : BusMsg)
  /-- `g_message_id > p->message_id` -/
  | compare
  /-- the second critical section -/
  | copy
  /-- `write_loop(p->fd, ..)` -/
  | write (m : Option BusMsg)
deriving DecidableEq

/-- A worker with its `bus_client_data`, and the two directions of its socket: the
    messages not yet read, and those written. -/
structure BusClient where
  messageId : Nat
  pc : BusPc
  input : List BusMsg
  delivered : List BusMsg

/-- The globals and the workers; `gMessageData` is `none` while `g_message_data_length`
    is 0.  `sent` records the messages of all clients. -/
structure BusServer where
  gMessageId : Nat
  gMessageData : Option BusMsg
  numClients : Nat
  clients : Nat → BusClient
  sent : List BusMsg

/-- What can happen. -/
inductive BusAct
  /-- a client connects and its worker starts -/
  | connect
  /-- a client sends a message -/
  | send (i : Nat) (data : List UInt8)
  /-- the next access of a worker -/
  | worker (i : Nat)
deriving DecidableEq

/-- The `bus_client_data` from `calloc`, and a worker at the top of its loop. -/
def busClientInit : BusClient := { messageId := 0, pc := .read, input := [], delivered := [] }

/-- The zeroed globals, before any client has connected. -/
def busInit : BusServer :=
  { gMessageId := 0, gMessageData := none, numClients := 0, clients := fun _ => busClientInit,
    sent := [] }

/-- Replace a client. -/
def BusServer.setClient (s : BusServer) (i : Nat) (p : BusClient) : BusServer :=
  { s with clients := Function.update s.clients i p }

/-- The next access of `bus_server_work_fn`. -/
def busServerWorkFn (s : BusServer) (i : Nat) : BusServer :=
  let p := s.clients i
  match p.pc with
  | .read => match p.input with
    | [] => s.setClient i { p with pc := .compare }
    | m :: input =>
      s.setClient i { p with messageId := p.messageId + 1, pc := .publish m, input }
  | .publish m =>
    -- `g_message_id = p->message_id`, whatever the id of the slot was
    { s.setClient i { p with pc := .compare } with
      gMessageData := some m, gMessageId := p.messageId }
  | .compare =>
    s.setClient i { p with pc := if s.gMessageId > p.messageId then .copy else .read }
  -- the slot may have changed since the comparison
  | .copy => s.setClient i { p with messageId := s.gMessageId, pc := .write s.gMessageData }
  | .write m => s.setClient i { p with pc := .read, delivered := p.delivered ++ m.toList }

/-- One step of the server and its clients.  A message fits into `bus_data`. -/
def busStep (s : BusServer) : BusAct → Option BusServer
  | .connect =>
    some { s.setClient s.numClients busClientInit with numClients := s.numClients + 1 }
  | .send i data =>
    if i < s.numClients ∧ 0 < data.length ∧ data.length ≤ 1024 then
      let p := s.clients i
      let m : BusMsg := { data, sender := i, tag := s.sent.length }
      some { s.setClient i { p with input := p.input ++ [m] } with sent := s.sent ++ [m] }
    else
      none
  | .worker i => if i < s.numClients then some (busServerWorkFn s i) else none

end CUtils
