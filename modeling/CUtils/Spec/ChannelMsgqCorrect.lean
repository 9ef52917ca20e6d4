import CUtils.ForStd.StepSystem
import CUtils.Native.ChannelMsgq
import CUtils.Spec.ChannelIoCorrect

/-!
# Channels over message queues are pairs of FIFOs

A server sends messages of type 13 and a client messages of type 17, each into the queue whose
key is made of the device and that number, and each receives from the other one's queue.
Whatever queues coincide, every key and type has a FIFO of its own.

- `msgq_refines_fifos`: the results of every run, for any number of channels.
- `msgq_received_in_order`: what is received is what was sent, in order.
-/

namespace CUtils

/-! ## Abstract channels -/

/-- What the two ends of a channel write: the project id of their key and the type of their
    messages. -/
def msgqId (isServer : Bool) : Int := if isServer then 13 else 17

/-- The channels with their devices and roles, and the messages on the way for every key and
    type. -/
structure MsgqSpec where
  channels : Nat → Option (CString × Bool)
  fifo : Int → Int → List (List UInt8)

/-- No channel and no message. -/
def MsgqSpec.empty : MsgqSpec := ⟨fun _ => none, fun _ _ => []⟩

/-- Replace the messages of one key and type. -/
def MsgqSpec.setFifo (t : MsgqSpec) (key type : Int) (q : List (List UInt8)) : MsgqSpec :=
  { t with fifo := Function.update t.fifo key (Function.update (t.fifo key) type q) }

/-- What a flush leaves: it stops behind the first empty message. -/
def flushed (q : List (List UInt8)) : List (List UInt8) := (q.dropWhile (· ≠ [])).drop 1

/-- Perform a call; a message must fit into `send_buf`. -/
def msgqSpecStep (ftok : CString → Int → Int) (t : MsgqSpec) :
    MsgqCall → Option (MsgqSpec × MsgqOut)
  | .setup i o device isServer =>
    if (t.channels i).isSome then none
    else if o.malloc && o.getSend && o.getRecv then
      some ({ t with channels := Function.update t.channels i (some (device, isServer)) },
        ⟨.returns 0, []⟩)
    else some (t, ⟨.returns (-1), []⟩)
  | .send i _ buf res => do
    let (device, isServer) ← t.channels i
    let id := msgqId isServer
    if buf.length > 512 then none
    else match res with
      | .ok () =>
        some (t.setFifo (ftok device id) id (t.fifo (ftok device id) id ++ [buf]),
          ⟨.returns buf.length, []⟩)
      | .error .eidrm => some (t, ⟨.exits, []⟩)
      | .error _ => some (t, ⟨.returns buf.length, []⟩)
  | .recv i _ maxLen => do
    let (device, isServer) ← t.channels i
    let id := msgqId (!isServer)
    match t.fifo (ftok device id) id with
    | [] => some (t, ⟨.returns (-1), []⟩)
    | text :: q =>
      some (t.setFifo (ftok device id) id q,
        ⟨.returns (text.take maxLen).length, text.take maxLen⟩)
  | .flush i _ => do
    let (device, isServer) ← t.channels i
    let id := msgqId (!isServer)
    some (t.setFifo (ftok device id) id (flushed (t.fifo (ftok device id) id)), ⟨.returns 0, []⟩)

/-! ## Queues of the kernel -/

namespace MsgKernel

/-- The messages of a key and a type. -/
def messages (k : MsgKernel) (key type : Int) : List (List UInt8) :=
  match (k.names key).bind k.queues.cells with
  | some q => ofTag q type
  | none => []

/-- Keys name queues that exist, and different ones. -/
structure Wf (k : MsgKernel) : Prop where
  live : ∀ key q, k.names key = some q → (k.queues.cells q).isSome
  inj : ∀ key key' q, k.names key = some q → k.names key' = some q → key = key'

theorem wf_empty : empty.Wf where
  live _ _ h := by cases h
  inj _ _ _ h := by cases h

variable {k : MsgKernel} {key : Int} {q : Ptr}

/-- The queue that a key names, by its identifier. -/
theorem queue_of_names (hwf : k.Wf) (hq : k.names key = some q) :
    ∃ msgs, k.queue q = some msgs ∧ ∀ type, k.messages key type = ofTag msgs type := by
  obtain ⟨msgs, hmsgs⟩ := Option.isSome_iff_exists.mp (hwf.live key q hq)
  refine ⟨msgs, ?_, fun type => ?_⟩
  · rw [queue, if_neg (by omega), Int.toNat_natCast, hmsgs]
  · rw [messages, hq, Option.bind_some, hmsgs]

theorem wf_setQueue (hwf : k.Wf) (msgid : Int) (msgs : List (Int × List UInt8)) :
    (k.setQueue msgid msgs).Wf where
  live key q h := by
    show (Function.update k.queues.cells msgid.toNat (some msgs) q).isSome
    by_cases hq : q = msgid.toNat
    · rw [hq, Function.update_self]
      rfl
    · rw [Function.update_of_ne hq]
      exact hwf.live key q h
  inj := hwf.inj

/-- Only the key that names a queue sees its messages. -/
theorem messages_setQueue (hwf : k.Wf) (hq : k.names key = some q)
    (msgs : List (Int × List UInt8)) (key' type : Int) :
    (k.setQueue q msgs).messages key' type =
      if key' = key then ofTag msgs type else k.messages key' type := by
  show (match (k.names key').bind (Function.update k.queues.cells (Int.toNat q) (some msgs)) with
    | some q => ofTag q type
    | none => []) = _
  rw [Int.toNat_natCast]
  split_ifs with hkey
  · rw [hkey, hq, Option.bind_some, Function.update_self]
  · unfold messages
    cases hq' : k.names key' with
    | none => rfl
    | some q' =>
      have hne : q' ≠ q := by
        rintro rfl
        exact hkey (hwf.inj key' key q' hq' hq)
      rw [Option.bind_some, Option.bind_some, Function.update_of_ne hne]

section

variable {key : Int} {p : Ptr}

theorem names_create (k : MsgKernel) (hkey : key ≠ 0) :
    (k.create key p).names = Function.update k.names key (some p) := if_neg hkey

/-- No key names a queue that does not exist. -/
theorem ne_of_fresh (hwf : k.Wf) (hp : k.queues.cells p = none) {key' : Int} {q' : Ptr}
    (h : k.names key' = some q') : q' ≠ p := by
  rintro rfl
  have hlive := hwf.live key' _ h
  rw [hp] at hlive
  cases hlive

theorem wf_create (hwf : k.Wf) (hkey : key ≠ 0) (hp : k.queues.cells p = none) :
    (k.create key p).Wf where
  live key' q' h := by
    rw [names_create k hkey] at h
    show (Function.update k.queues.cells p (some []) q').isSome
    by_cases hk : key' = key
    · rw [hk, Function.update_self] at h
      rw [← Option.some.inj h, Function.update_self]
      rfl
    · rw [Function.update_of_ne hk] at h
      rw [Function.update_of_ne (ne_of_fresh hwf hp h)]
      exact hwf.live key' q' h
  inj key' key'' q' h h' := by
    rw [names_create k hkey] at h h'
    by_cases hk : key' = key
    · by_cases hk' : key'' = key
      · rw [hk, hk']
      · rw [hk, Function.update_self] at h
        rw [Function.update_of_ne hk'] at h'
        exact absurd (Option.some.inj h).symm (ne_of_fresh hwf hp h')
    · rw [Function.update_of_ne hk] at h
      by_cases hk' : key'' = key
      · rw [hk', Function.update_self] at h'
        exact absurd (Option.some.inj h').symm (ne_of_fresh hwf hp h)
      · rw [Function.update_of_ne hk'] at h'
        exact hwf.inj key' key'' q' h h'

/-- A new queue is empty, and the other keys name the same queues as before. -/
theorem messages_create (hwf : k.Wf) (hkey : key ≠ 0) (hnone : k.names key = none)
    (hp : k.queues.cells p = none) : (k.create key p).messages = k.messages := by
  funext key' type
  have hcells : (k.create key p).queues.cells = Function.update k.queues.cells p (some []) := rfl
  unfold messages
  rw [names_create k hkey, hcells]
  by_cases hk : key' = key
  · rw [hk, Function.update_self, hnone, Option.bind_some, Function.update_self]
    rfl
  · rw [Function.update_of_ne hk]
    cases hq' : k.names key' with
    | none => rfl
    | some q' =>
      rw [Option.bind_some, Option.bind_some, Function.update_of_ne (ne_of_fresh hwf hp hq')]

end

/-- A kernel in which the keys go on naming their queues, with the same messages. -/
structure Extends (k k' : MsgKernel) : Prop where
  wf : k'.Wf
  names : ∀ key q, k.names key = some q → k'.names key = some q
  messages : k'.messages = k.messages

theorem Extends.refl (hwf : k.Wf) : k.Extends k := ⟨hwf, fun _ _ h => h, rfl⟩

theorem Extends.trans {k' k'' : MsgKernel} (h : k.Extends k') (h' : k'.Extends k'') :
    k.Extends k'' :=
  ⟨h'.wf, fun key q hq => h'.names key q (h.names key q hq), h'.messages.trans h.messages⟩

/-- `msgget` finds or makes the queue of a key, and touches no message. -/
theorem msgget_spec (alloc : Allocator (List (Int × List UInt8))) (hwf : k.Wf) (hkey : key ≠ 0) :
    ∃ (q : Ptr) (k' : MsgKernel), msgget alloc k key true = ((q : Int), k') ∧ k.Extends k' ∧
      k'.names key = some q := by
  unfold msgget
  rw [if_neg (by decide), if_neg hkey]
  cases hq : k.names key with
  | some q => exact ⟨q, k, rfl, Extends.refl hwf, hq⟩
  | none =>
    have hfresh := alloc.malloc_fresh k.queues
    refine ⟨alloc.malloc k.queues, k.create key (alloc.malloc k.queues), rfl,
      ⟨wf_create hwf hkey hfresh, fun key' q' h => ?_, messages_create hwf hkey hq hfresh⟩, ?_⟩
    · have hk : key' ≠ key := by
        rintro rfl
        rw [hq] at h
        cases h
      rw [names_create k hkey, Function.update_of_ne hk, h]
    · rw [names_create k hkey, Function.update_self]

end MsgKernel

/-! ## One channel -/

/-- The context of a channel names the two queues of its device. -/
def ChannelNames (ftok : CString → Int → Int) (k : MsgKernel) (device : CString) (isServer : Bool)
    (ctx : ChannelMsgq) : Prop :=
  ∃ qs qr : Ptr, k.names (ftok device (msgqId isServer)) = some qs ∧
    k.names (ftok device (msgqId (!isServer))) = some qr ∧
    ctx = ⟨msgqId isServer, qs, isServer, msgqId (!isServer), qr⟩

theorem ChannelNames.mono {ftok : CString → Int → Int} {k k' : MsgKernel} {device : CString}
    {isServer : Bool} {ctx : ChannelMsgq} (h : ChannelNames ftok k device isServer ctx)
    (hext : ∀ key q, k.names key = some q → k'.names key = some q) :
    ChannelNames ftok k' device isServer ctx := by
  obtain ⟨qs, qr, hs, hr, hctx⟩ := h
  exact ⟨qs, qr, hext _ _ hs, hext _ _ hr, hctx⟩

section

variable {ftok : CString → Int → Int} {k : MsgKernel} {device : CString} {isServer : Bool}
variable {ctx : ChannelMsgq}

/-- A setup that succeeds names two queues; one that fails may have made a queue. -/
theorem channelMsgqSetup_spec (hftok : ∀ device id, ftok device id ≠ 0)
    (alloc : Allocator (List (Int × List UInt8))) (hwf : k.Wf) (o : MsgqOutcomes)
    (device : CString) (isServer : Bool) :
    ∃ rc ctx k', channelMsgqSetup ftok alloc o k device isServer = (rc, ctx, k') ∧
      k.Extends k' ∧
      (if o.malloc && o.getSend && o.getRecv then
        rc = 0 ∧ ∃ c, ctx = some c ∧ ChannelNames ftok k' device isServer c
      else rc = -1 ∧ ctx = none) := by
  obtain ⟨malloc, getSend, getRecv⟩ := o
  unfold channelMsgqSetup
  cases malloc with
  | false => exact ⟨-1, none, k, rfl, .refl hwf, rfl, rfl⟩
  | true =>
    rw [if_neg (not_not_intro rfl)]
    have hsend : (if isServer then 13 else 17 : Int) = msgqId isServer := rfl
    have hrecv : (if isServer then 17 else 13 : Int) = msgqId (!isServer) := by
      cases isServer <;> rfl
    simp only [hsend, hrecv]
    cases getSend with
    | false => exact ⟨-1, none, k, rfl, .refl hwf, rfl, rfl⟩
    | true =>
      obtain ⟨qs, k₁, hget, hext, hqs⟩ := MsgKernel.msgget_spec alloc hwf
        (hftok device (msgqId isServer))
      rw [hget]
      simp only [if_neg (show ¬ ((qs : Int) < 0) by omega)]
      cases getRecv with
      | false => exact ⟨-1, none, k₁, rfl, hext, rfl, rfl⟩
      | true =>
        obtain ⟨qr, k₂, hget', hext', hqr⟩ := MsgKernel.msgget_spec alloc hext.wf
          (hftok device (msgqId (!isServer)))
        rw [hget']
        simp only [if_neg (show ¬ ((qr : Int) < 0) by omega)]
        exact ⟨0, _, k₂, rfl, hext.trans hext', rfl, _, rfl, qs, qr, hext'.names _ _ hqs, hqr, rfl⟩

/-- What `memcpy` stores in a static buffer, with the type. -/
theorem store_spec (msgbuf : ChannelMsgbuf) (mtype : Int) {src : List UInt8}
    (hfit : src.length ≤ 512) :
    ∃ msgbuf', msgbuf.store mtype src src.length = some msgbuf' ∧ msgbuf'.mtype = mtype ∧
      msgbuf'.mtext.take src.length = src := by
  obtain ⟨msgbuf', hstore, htake⟩ := msgbuf.store_of_le mtype (Nat.le_refl _) hfit
  refine ⟨msgbuf', hstore, ?_, by rw [htake, List.take_length]⟩
  unfold ChannelMsgbuf.store at hstore
  split at hstore
  · rw [← Option.some.inj hstore]
  · cases hstore

/-- The messages after a change of the queue of one key and type. -/
def MsgKernel.setMessages (k : MsgKernel) (key type : Int) (q : List (List UInt8)) :
    Int → Int → List (List UInt8) :=
  Function.update k.messages key (Function.update (k.messages key) type q)

/-- A message that fits is appended to the messages of its key and type if the kernel takes
    it, and the result does not tell. -/
theorem msgqSend_spec (hwf : k.Wf) (hctx : ChannelNames ftok k device isServer ctx)
    (sendBuf : ChannelMsgbuf) {buf : List UInt8} (hfit : buf.length ≤ 512) (res : IoResult Unit) :
    ∃ k' sendBuf', msgqSend ctx k sendBuf buf res = some (k', sendBuf',
        if res = .error .eidrm then .exits else .returns buf.length) ∧ k'.Wf ∧
      k'.names = k.names ∧
      k'.messages =
        if res = .ok () then
          k.setMessages (ftok device (msgqId isServer)) (msgqId isServer)
            (k.messages (ftok device (msgqId isServer)) (msgqId isServer) ++ [buf])
        else k.messages := by
  obtain ⟨qs, qr, hs, hr, rfl⟩ := hctx
  obtain ⟨msgs, hqueue, hmsgs⟩ := MsgKernel.queue_of_names hwf hs
  obtain ⟨sendBuf', hstore, htype, htext⟩ := store_spec sendBuf (msgqId isServer) hfit
  have hres : msgsndResult k qs res = res := by
    rw [msgsndResult, if_neg (by rw [hqueue]; simp)]
  unfold msgqSend
  simp only [hres, hqueue, channelMsgqSend, hstore, Option.bind_eq_bind, Option.bind_some]
  cases res with
  | ok u =>
    refine ⟨_, sendBuf', rfl, MsgKernel.wf_setQueue hwf _ _, rfl, ?_⟩
    funext key type
    rw [MsgKernel.messages_setQueue hwf hs, htype, htext, if_pos rfl, MsgKernel.setMessages]
    by_cases hkey : key = ftok device (msgqId isServer)
    · rw [if_pos hkey, hkey, Function.update_self, ofTag_append_singleton]
      by_cases htype' : msgqId isServer = type
      · rw [if_pos htype', ← htype', Function.update_self, hmsgs]
      · rw [if_neg htype', Function.update_of_ne (Ne.symm htype'), hmsgs]
    · rw [if_neg hkey, Function.update_of_ne hkey]
  | error errno =>
    cases errno <;> exact ⟨k, sendBuf', rfl, hwf, rfl, rfl⟩

/-- The first message of the other end's type is taken, and cut to the buffer. -/
theorem msgqRecv_spec (hwf : k.Wf) (hctx : ChannelNames ftok k device isServer ctx)
    (recvBuf : ChannelMsgbuf) (maxLen : Nat) :
    let key := ftok device (msgqId (!isServer))
    let type := msgqId (!isServer)
    match k.messages key type with
    | [] => ∃ recvBuf', msgqRecv ctx k recvBuf maxLen = some (k, recvBuf', .returns (-1), [])
    | text :: q => text.length ≤ 512 →
      ∃ k' recvBuf', msgqRecv ctx k recvBuf maxLen = some (k', recvBuf',
          .returns (text.take maxLen).length, text.take maxLen) ∧ k'.Wf ∧ k'.names = k.names ∧
        k'.messages = k.setMessages key type q := by
  intro key type
  obtain ⟨qs, qr, hs, hr, rfl⟩ := hctx
  obtain ⟨msgs, hqueue, hmsgs⟩ := MsgKernel.queue_of_names hwf hr
  have hof : k.messages key type = ofTag msgs type := hmsgs type
  unfold msgqRecv msgrcv
  simp only [hqueue]
  split
  · next hnil =>
    have hnone : takeTag msgs (msgqId (!isServer)) = none := takeTag_eq_none (hof.symm.trans hnil)
    rw [hnone]
    exact ⟨recvBuf, rfl⟩
  · next text q hcons =>
    intro hfit
    obtain ⟨msgs', htake, hrest⟩ := takeTag_eq_some (hof.symm.trans hcons)
    have hlen : (text.take maxLen).length ≤ 512 := Nat.le_trans (List.length_take_le' _ _) hfit
    obtain ⟨recvBuf', hstore, _, htext⟩ := store_spec recvBuf (msgqId (!isServer)) hlen
    have hcast : castInt (text.take maxLen).length = ((text.take maxLen).length : Int) :=
      castInt_count hlen (by decide)
    have hsize := recvBuf'.size
    have hkernel : (k.setQueue qr msgs').messages = k.setMessages key type q := by
      funext key' type'
      rw [MsgKernel.messages_setQueue hwf hr, MsgKernel.setMessages]
      by_cases hkey : key' = key
      · rw [if_pos hkey, hkey, Function.update_self, hrest]
        by_cases htype' : type = type'
        · rw [if_pos htype', ← htype', Function.update_self]
        · rw [if_neg htype', Function.update_of_ne (Ne.symm htype'), hmsgs]
      · rw [if_neg hkey, Function.update_of_ne hkey]
    rw [htake]
    simp only [channelMsgqRecv, hstore, hcast, Option.bind_eq_bind, Option.bind_some]
    refine ⟨k.setQueue qr msgs', recvBuf', ?_, MsgKernel.wf_setQueue hwf _ _, rfl, hkernel⟩
    split
    · next hzero =>
      have hnil : text.take maxLen = [] := List.length_eq_zero_iff.mp (by omega)
      rw [hnil]
      rfl
    · next hne =>
      rw [if_pos (by omega), Int.toNat_natCast, readAt_of_le (by omega), List.drop_zero, htext]
      rfl

theorem setMessages_self (k : MsgKernel) (key type : Int) :
    k.setMessages key type (k.messages key type) = k.messages := by
  rw [MsgKernel.setMessages, Function.update_eq_self, Function.update_eq_self]

/-- A flush ends, and takes the messages up to the first empty one. -/
theorem channelMsgqFlush_spec {fuel : Nat} (hwf : k.Wf)
    (hctx : ChannelNames ftok k device isServer ctx) (recvBuf : ChannelMsgbuf)
    (hfuel : (k.messages (ftok device (msgqId (!isServer))) (msgqId (!isServer))).length < fuel)
    (hfit : ∀ text ∈ k.messages (ftok device (msgqId (!isServer))) (msgqId (!isServer)),
      text.length ≤ 512) :
    ∃ k' recvBuf', channelMsgqFlush ctx fuel k recvBuf = some (k', recvBuf', .returns 0) ∧ k'.Wf ∧
      k'.names = k.names ∧
      k'.messages = k.setMessages (ftok device (msgqId (!isServer))) (msgqId (!isServer))
        (flushed (k.messages (ftok device (msgqId (!isServer))) (msgqId (!isServer)))) := by
  induction fuel generalizing k recvBuf with
  | zero => cases hfuel
  | succ fuel ih =>
    have hrecv := msgqRecv_spec hwf hctx recvBuf 128
    cases hmsgs : k.messages (ftok device (msgqId (!isServer))) (msgqId (!isServer)) with
    | nil =>
      simp only [hmsgs] at hrecv
      obtain ⟨recvBuf', hcall⟩ := hrecv
      refine ⟨k, recvBuf', ?_, hwf, rfl, ?_⟩
      · simp only [channelMsgqFlush, hcall, Option.bind_eq_bind, Option.bind_some]
        rfl
      · have hself := setMessages_self k (ftok device (msgqId (!isServer))) (msgqId (!isServer))
        rw [hmsgs] at hself
        exact hself.symm
    | cons text q =>
      simp only [hmsgs] at hrecv
      rw [hmsgs] at hfuel hfit
      obtain ⟨htext, hrest⟩ := List.forall_mem_cons.mp hfit
      obtain ⟨k₁, recvBuf₁, hcall, hwf₁, hnames, hmsgs₁⟩ := hrecv htext
      have hfifo : k₁.messages (ftok device (msgqId (!isServer))) (msgqId (!isServer)) = q := by
        rw [hmsgs₁, MsgKernel.setMessages, Function.update_self, Function.update_self]
      simp only [channelMsgqFlush, hcall, Option.bind_eq_bind, Option.bind_some]
      by_cases hempty : text = []
      · -- an empty message looks like an empty queue
        refine ⟨k₁, recvBuf₁, ?_, hwf₁, hnames, ?_⟩
        · rw [hempty]
          rfl
        · rw [hmsgs₁, hempty]
          rfl
      · have hpos : 0 < text.length := List.length_pos_iff.mpr hempty
        have hnonzero : ¬ (((text.take 128).length : Int) ≤ 0) := by
          rw [List.length_take]
          omega
        rw [if_neg hnonzero]
        rw [List.length_cons] at hfuel
        obtain ⟨k₂, recvBuf₂, hflush, hwf₂, hnames₂, hmsgs₂⟩ := ih hwf₁
          (hctx.mono fun key q hq => by rw [hnames, hq]) recvBuf₁ (by rw [hfifo]; omega)
          (by rw [hfifo]; exact hrest)
        refine ⟨k₂, recvBuf₂, hflush, hwf₂, hnames₂.trans hnames, ?_⟩
        have hflushed : flushed (text :: q) = flushed q := by
          rw [flushed, List.dropWhile_cons_of_pos (by simpa using hempty), flushed]
        rw [hmsgs₂, hfifo, hflushed, MsgKernel.setMessages, hmsgs₁, MsgKernel.setMessages,
          MsgKernel.setMessages, Function.update_self, Function.update_idem, Function.update_idem]

end

/-! ## Refinement -/

/-- The kernel holds the messages of the abstract channels, after `n` calls. -/
structure MsgqRepr (ftok : CString → Int → Int) (n : Nat) (s : MsgqState) (t : MsgqSpec) :
    Prop where
  wf : s.kernel.Wf
  fifo : s.kernel.messages = t.fifo
  closed : ∀ i, t.channels i = none → s.channels i = none
  opened : ∀ i device isServer, t.channels i = some (device, isServer) →
    ∃ ctx, s.channels i = some ctx ∧ ChannelNames ftok s.kernel device isServer ctx
  fits : ∀ key type, (t.fifo key type).length ≤ n ∧ ∀ text ∈ t.fifo key type, text.length ≤ 512

section

variable {ftok : CString → Int → Int} {n : Nat} {s : MsgqState} {t : MsgqSpec}

/-- A step that changes the messages of one key and type keeps the representation. -/
theorem MsgqRepr.setFifo (h : MsgqRepr ftok n s t) {kernel : MsgKernel} (hwf : kernel.Wf)
    (hnames : kernel.names = s.kernel.names) {key type : Int} {q : List (List UInt8)}
    (hmsgs : kernel.messages = s.kernel.setMessages key type q) (hlen : q.length ≤ n + 1)
    (hfit : ∀ text ∈ q, text.length ≤ 512) :
    MsgqRepr ftok (n + 1) { s with kernel } (t.setFifo key type q) where
  wf := hwf
  fifo := by
    show kernel.messages = Function.update t.fifo key (Function.update (t.fifo key) type q)
    rw [hmsgs, MsgKernel.setMessages, h.fifo]
  closed := h.closed
  opened i device isServer hi := by
    obtain ⟨ctx, hctx, hch⟩ := h.opened i device isServer hi
    exact ⟨ctx, hctx, hch.mono fun key q hq => by rw [← hq]; exact congrFun hnames key⟩
  fits key' type' := by
    show (Function.update t.fifo key (Function.update (t.fifo key) type q) key' type').length ≤ _ ∧
      ∀ text ∈ Function.update t.fifo key (Function.update (t.fifo key) type q) key' type', _
    obtain ⟨hold, holdfit⟩ := h.fits key' type'
    by_cases hkey : key' = key
    · subst hkey
      rw [Function.update_self]
      by_cases htype : type' = type
      · rw [htype, Function.update_self]
        exact ⟨hlen, hfit⟩
      · rw [Function.update_of_ne htype]
        exact ⟨by omega, holdfit⟩
    · rw [Function.update_of_ne hkey]
      exact ⟨by omega, holdfit⟩

/-- A step that changes nothing. -/
theorem MsgqRepr.mono (h : MsgqRepr ftok n s t) : MsgqRepr ftok (n + 1) s t where
  wf := h.wf
  fifo := h.fifo
  closed := h.closed
  opened := h.opened
  fits key type := ⟨Nat.le_succ_of_le (h.fits key type).1, (h.fits key type).2⟩

theorem MsgqRepr.setup (h : MsgqRepr ftok n s t) (hftok : ∀ device id, ftok device id ≠ 0)
    (alloc : Allocator (List (Int × List UInt8))) (fuel i : Nat) (o : MsgqOutcomes)
    (device : CString) (isServer : Bool) {t' : MsgqSpec} {out : MsgqOut}
    (hspec : msgqSpecStep ftok t (.setup i o device isServer) = some (t', out)) :
    ∃ s', msgqStep ftok alloc fuel s (.setup i o device isServer) = some (s', out) ∧
      MsgqRepr ftok (n + 1) s' t' := by
  obtain ⟨rc, ctx, k', hsetup, hext, hres⟩ := channelMsgqSetup_spec hftok alloc h.wf o device
    isServer
  have hnone : t.channels i = none := by
    cases hi : t.channels i with
    | none => rfl
    | some c =>
      rw [msgqSpecStep, if_pos (by rw [hi]; rfl)] at hspec
      cases hspec
  have hclosed := h.closed i hnone
  have hstep : msgqStep ftok alloc fuel s (.setup i o device isServer) =
      some (⟨k', Function.update s.channels i ctx⟩, ⟨.returns rc, []⟩) := by
    rw [msgqStep, if_neg (by rw [hclosed]; decide), hsetup]
  rw [msgqSpecStep, if_neg (by rw [hnone]; decide)] at hspec
  -- the other channels go on naming their queues
  have hothers : ∀ j device isServer, t.channels j = some (device, isServer) →
      ∃ c, Function.update s.channels i ctx j = some c ∧
        ChannelNames ftok k' device isServer c := by
    intro j device isServer hj
    have hji : j ≠ i := by
      rintro rfl
      rw [hnone] at hj
      cases hj
    obtain ⟨c, hc, hch⟩ := h.opened j device isServer hj
    exact ⟨c, by rw [Function.update_of_ne hji, hc], hch.mono hext.names⟩
  have hfits := h.mono.fits
  split at hspec
  · next hok =>
    rw [if_pos hok] at hres
    obtain ⟨rfl, c, rfl, hch⟩ := hres
    obtain ⟨rfl, rfl⟩ := Prod.mk.inj (Option.some.inj hspec)
    refine ⟨_, hstep, hext.wf, hext.messages.trans h.fifo, ?_, ?_, hfits⟩
    · intro j hj
      change Function.update t.channels i (some (device, isServer)) j = none at hj
      have hji : j ≠ i := by
        rintro rfl
        rw [Function.update_self] at hj
        cases hj
      rw [Function.update_of_ne hji] at hj
      show Function.update s.channels i (some c) j = none
      rw [Function.update_of_ne hji, h.closed j hj]
    · intro j device' isServer' hj
      change Function.update t.channels i (some (device, isServer)) j = _ at hj
      by_cases hji : j = i
      · rw [hji, Function.update_self] at hj
        obtain ⟨rfl, rfl⟩ := Prod.mk.inj (Option.some.inj hj)
        exact ⟨c, by rw [hji]; exact Function.update_self i (some c) s.channels, hch⟩
      · rw [Function.update_of_ne hji] at hj
        exact hothers j device' isServer' hj
  · next hfail =>
    rw [if_neg hfail] at hres
    obtain ⟨rfl, rfl⟩ := hres
    obtain ⟨rfl, rfl⟩ := Prod.mk.inj (Option.some.inj hspec)
    refine ⟨_, hstep, hext.wf, hext.messages.trans h.fifo, ?_, hothers, hfits⟩
    intro j hj
    show Function.update s.channels i none j = none
    by_cases hji : j = i
    · rw [hji, Function.update_self]
    · rw [Function.update_of_ne hji, h.closed j hj]

/-- Every call does what the abstract channels do. -/
theorem MsgqRepr.step (h : MsgqRepr ftok n s t) (hftok : ∀ device id, ftok device id ≠ 0)
    (alloc : Allocator (List (Int × List UInt8))) {fuel : Nat} (hfuel : n < fuel)
    (call : MsgqCall) {t' : MsgqSpec} {out : MsgqOut}
    (hspec : msgqSpecStep ftok t call = some (t', out)) :
    ∃ s', msgqStep ftok alloc fuel s call = some (s', out) ∧ MsgqRepr ftok (n + 1) s' t' := by
  -- a channel in use has its context
  have hopen : ∀ i, ∀ f : CString × Bool → Option (MsgqSpec × MsgqOut),
      (t.channels i).bind f = some (t', out) → ∃ device isServer ctx, s.channels i = some ctx ∧
        ChannelNames ftok s.kernel device isServer ctx ∧ f (device, isServer) = some (t', out) := by
    intro i f hf
    obtain ⟨⟨device, isServer⟩, hi, hf⟩ := Option.bind_eq_some_iff.mp hf
    obtain ⟨ctx, hctx, hch⟩ := h.opened i device isServer hi
    exact ⟨device, isServer, ctx, hctx, hch, hf⟩
  cases call with
  | setup i o device isServer => exact h.setup hftok alloc fuel i o device isServer hspec
  | send i sendBuf buf res =>
    obtain ⟨device, isServer, ctx, hctx, hch, hf⟩ := hopen i _ hspec
    simp only at hf
    split at hf
    · cases hf
    · next hfit =>
      obtain ⟨k', sendBuf', hsend, hwf, hnames, hmsgs⟩ := msgqSend_spec h.wf hch sendBuf
        (Nat.not_lt.mp hfit) res
      have hstep : msgqStep ftok alloc fuel s (.send i sendBuf buf res) = some ({ s with kernel := k' },
          ⟨if res = .error .eidrm then .exits else .returns buf.length, []⟩) := by
        simp only [msgqStep, hctx, hsend, Option.bind_eq_bind, Option.bind_some, Option.pure_def]
      -- without a message the kernel is as it was
      have hsame : res ≠ .ok () → MsgqRepr ftok (n + 1) { s with kernel := k' } t := by
        intro hne
        rw [if_neg hne] at hmsgs
        refine ⟨hwf, hmsgs.trans h.fifo, h.closed, fun j device isServer hj => ?_, h.mono.fits⟩
        obtain ⟨c, hc, hch⟩ := h.opened j device isServer hj
        exact ⟨c, hc, hch.mono fun key q hq => by rw [← hq]; exact congrFun hnames key⟩
      cases res with
      | ok u =>
        obtain ⟨rfl, rfl⟩ := Prod.mk.inj (Option.some.inj hf)
        rw [if_pos rfl, h.fifo] at hmsgs
        obtain ⟨hlen, hfits⟩ := h.fits (ftok device (msgqId isServer)) (msgqId isServer)
        refine ⟨_, hstep, h.setFifo hwf hnames hmsgs ?_ ?_⟩
        · rw [List.length_append, List.length_singleton]
          omega
        · intro text htext
          rcases List.mem_append.mp htext with hold | hnew
          · exact hfits text hold
          · rw [List.mem_singleton.mp hnew]
            exact Nat.not_lt.mp hfit
      | error errno =>
        have hrepr := hsame (by simp)
        cases errno <;>
        · obtain ⟨rfl, rfl⟩ := Prod.mk.inj (Option.some.inj hf)
          exact ⟨_, hstep, hrepr⟩
  | recv i recvBuf maxLen =>
    obtain ⟨device, isServer, ctx, hctx, hch, hf⟩ := hopen i _ hspec
    have hrecv := msgqRecv_spec h.wf hch recvBuf maxLen
    simp only [h.fifo] at hrecv hf
    obtain ⟨hlen, hfits⟩ := h.fits (ftok device (msgqId (!isServer))) (msgqId (!isServer))
    cases hq : t.fifo (ftok device (msgqId (!isServer))) (msgqId (!isServer)) with
    | nil =>
      simp only [hq] at hrecv hf
      obtain ⟨recvBuf', hcall⟩ := hrecv
      obtain ⟨rfl, rfl⟩ := Prod.mk.inj (Option.some.inj hf)
      refine ⟨s, ?_, h.mono⟩
      simp only [msgqStep, hctx, hcall, Option.bind_eq_bind, Option.bind_some, Option.pure_def]
    | cons text q =>
      simp only [hq] at hrecv hf
      rw [hq] at hlen hfits
      obtain ⟨htext, hrest⟩ := List.forall_mem_cons.mp hfits
      obtain ⟨k', recvBuf', hcall, hwf, hnames, hmsgs⟩ := hrecv htext
      obtain ⟨rfl, rfl⟩ := Prod.mk.inj (Option.some.inj hf)
      rw [List.length_cons] at hlen
      refine ⟨{ s with kernel := k' }, ?_, h.setFifo hwf hnames hmsgs (by omega) hrest⟩
      simp only [msgqStep, hctx, hcall, Option.bind_eq_bind, Option.bind_some, Option.pure_def]
  | flush i recvBuf =>
    obtain ⟨device, isServer, ctx, hctx, hch, hf⟩ := hopen i _ hspec
    obtain ⟨rfl, rfl⟩ := Prod.mk.inj (Option.some.inj hf)
    obtain ⟨hlen, hfits⟩ := h.fits (ftok device (msgqId (!isServer))) (msgqId (!isServer))
    have hpending : (s.kernel.messages (ftok device (msgqId (!isServer)))
        (msgqId (!isServer))).length < fuel := by
      rw [h.fifo]
      omega
    obtain ⟨k', recvBuf', hcall, hwf, hnames, hmsgs⟩ := channelMsgqFlush_spec h.wf hch recvBuf
      hpending (by rw [h.fifo]; exact hfits)
    rw [h.fifo] at hmsgs
    have hsub : (flushed (t.fifo (ftok device (msgqId (!isServer))) (msgqId (!isServer)))).Sublist
        (t.fifo (ftok device (msgqId (!isServer))) (msgqId (!isServer))) :=
      (List.drop_sublist 1 _).trans (List.dropWhile_sublist _)
    refine ⟨{ s with kernel := k' }, ?_, h.setFifo hwf hnames hmsgs ?_ ?_⟩
    · simp only [msgqStep, hctx, hcall, Option.bind_eq_bind, Option.bind_some, Option.pure_def]
    · exact Nat.le_trans hsub.length_le (by omega)
    · exact fun text htext => hfits text (hsub.subset htext)

end

/-- Any number of channels over message queues, set up and used in any order, return what a
    FIFO for every key and type returns. -/
theorem msgq_refines_fifos {ftok : CString → Int → Int} (hftok : ∀ device id, ftok device id ≠ 0)
    (alloc : Allocator (List (Int × List UInt8))) {calls : List MsgqCall} {t : MsgqSpec}
    {outs : List MsgqOut}
    (h : StepSystem.runOut (msgqSpecStep ftok) .empty calls = some (t, outs)) {fuel : Nat}
    (hfuel : calls.length < fuel) :
    ∃ s, StepSystem.runOut (msgqStep ftok alloc fuel) ⟨.empty, fun _ => none⟩ calls =
        some (s, outs) ∧ MsgqRepr ftok calls.length s t := by
  have hinit : MsgqRepr ftok 0 ⟨.empty, fun _ => none⟩ .empty :=
    ⟨MsgKernel.wf_empty, rfl, fun _ _ => rfl, fun _ _ _ hi => (by cases hi),
      fun _ _ => ⟨Nat.le_refl 0, fun _ htext => (by cases htext)⟩⟩
  have hrun := StepSystem.runOut_simulation_count (R := MsgqRepr ftok) (n := calls.length)
    (fun k s t call t' out hk hR hspec =>
      hR.step hftok alloc (show k < fuel by omega) call hspec) hinit
    (Nat.le_of_eq (Nat.zero_add _)) h
  rwa [Nat.zero_add] at hrun

/-- A server and a client that exchange three messages. -/
def echoCalls : List MsgqCall :=
  [.setup 0 ⟨true, true, true⟩ ⟨[47], by decide⟩ true,
    .setup 1 ⟨true, true, true⟩ ⟨[47], by decide⟩ false,
    .send 0 zeroMsgbuf [1, 2, 3] (.ok ()), .send 0 zeroMsgbuf [4] (.ok ()),
    .send 1 zeroMsgbuf [9] (.ok ()), .recv 1 zeroMsgbuf 2, .recv 1 zeroMsgbuf 64,
    .recv 0 zeroMsgbuf 64]

/-- What they see. -/
def echoOuts : List MsgqOut :=
  [⟨.returns 0, []⟩, ⟨.returns 0, []⟩, ⟨.returns 3, []⟩, ⟨.returns 1, []⟩, ⟨.returns 1, []⟩,
    ⟨.returns 2, [1, 2]⟩, ⟨.returns 1, [4]⟩, ⟨.returns 1, [9]⟩]

/-- Keys that only depend on the project id. -/
def idKey (_ : CString) (id : Int) : Int := if id = 0 then 1 else id

theorem idKey_ne_zero (device : CString) (id : Int) : idKey device id ≠ 0 := by
  unfold idKey
  split
  · decide
  · assumption

theorem msgq_refines_fifos_echo :
    ∃ s, StepSystem.runOut (msgqStep idKey (Allocator.bump _) 9) ⟨.empty, fun _ => none⟩
      echoCalls = some (s, echoOuts) := by
  have hspec : StepSystem.runOut (msgqSpecStep idKey) .empty echoCalls = some (_, echoOuts) := rfl
  obtain ⟨s, hrun, _⟩ := msgq_refines_fifos idKey_ne_zero (Allocator.bump _) hspec
    (show echoCalls.length < 9 by decide)
  exact ⟨s, hrun⟩

/-! ## Order -/

/-- The channels, and for every key and type the messages that the kernel took and the bytes
    that were delivered, as the callers see them. -/
structure MsgqLog where
  channels : Nat → Option (CString × Bool)
  sent : Int → Int → List (List UInt8)
  got : Int → Int → List (List UInt8)

/-- Append to the list of a key and type. -/
def logAt (log : Int → Int → List (List UInt8)) (key type : Int) (bytes : List UInt8) :
    Int → Int → List (List UInt8) :=
  Function.update log key (Function.update (log key) type (log key type ++ [bytes]))

/-- Follow a call and its result. -/
def MsgqLog.follow (ftok : CString → Int → Int) (l : MsgqLog) : MsgqCall × MsgqOut → MsgqLog
  | (.setup i _ device isServer, out) =>
    if out.ret = .returns 0 then
      { l with channels := Function.update l.channels i (some (device, isServer)) }
    else l
  | (.send i _ buf (.ok ()), _) =>
    match l.channels i with
    | some (device, isServer) =>
      { l with sent := logAt l.sent (ftok device (msgqId isServer)) (msgqId isServer) buf }
    | none => l
  | (.recv i _ _, out) =>
    match l.channels i with
    | some (device, isServer) =>
      if out.ret = .returns (-1) then l
      else { l with
        got := logAt l.got (ftok device (msgqId (!isServer))) (msgqId (!isServer)) out.bytes }
    | none => l
  | _ => l

/-- The delivered bytes are the first messages, each cut at its end, and the others are on the
    way. -/
structure MsgqInOrder (t : MsgqSpec) (l : MsgqLog) : Prop where
  channels : l.channels = t.channels
  order : ∀ key type, ∃ taken, l.sent key type = taken ++ t.fifo key type ∧
    List.Forall₂ (· <+: ·) (l.got key type) taken

/-- The list of a key and type, and the others. -/
theorem logAt_eq (log : Int → Int → List (List UInt8)) (key type key' type' : Int)
    (bytes : List UInt8) :
    logAt log key type bytes key' type' =
      if key' = key ∧ type' = type then log key type ++ [bytes] else log key' type' := by
  unfold logAt
  by_cases hkey : key' = key
  · subst hkey
    rw [Function.update_self]
    by_cases htype : type' = type
    · rw [htype, Function.update_self, if_pos ⟨rfl, rfl⟩]
    · rw [Function.update_of_ne htype, if_neg fun h => htype h.2]
  · rw [Function.update_of_ne hkey, if_neg fun h => hkey h.1]

theorem setFifo_fifo (t : MsgqSpec) (key type key' type' : Int) (q : List (List UInt8)) :
    (t.setFifo key type q).fifo key' type' =
      if key' = key ∧ type' = type then q else t.fifo key' type' := by
  show Function.update t.fifo key (Function.update (t.fifo key) type q) key' type' = _
  by_cases hkey : key' = key
  · subst hkey
    rw [Function.update_self]
    by_cases htype : type' = type
    · rw [htype, Function.update_self, if_pos ⟨rfl, rfl⟩]
    · rw [Function.update_of_ne htype, if_neg fun h => htype h.2]
  · rw [Function.update_of_ne hkey, if_neg fun h => hkey h.1]

theorem MsgqInOrder.step {ftok : CString → Int → Int} {t : MsgqSpec} {l : MsgqLog}
    (h : MsgqInOrder t l) {call : MsgqCall} {t' : MsgqSpec} {out : MsgqOut}
    (hflush : ∀ i recvBuf, call ≠ .flush i recvBuf)
    (hspec : msgqSpecStep ftok t call = some (t', out)) :
    MsgqInOrder t' (l.follow ftok (call, out)) := by
  cases call with
  | flush i recvBuf => exact absurd rfl (hflush i recvBuf)
  | setup i o device isServer =>
    rw [msgqSpecStep] at hspec
    split at hspec
    · cases hspec
    · split at hspec
      · obtain ⟨rfl, rfl⟩ := Prod.mk.inj (Option.some.inj hspec)
        refine ⟨?_, h.order⟩
        show Function.update l.channels i (some (device, isServer)) = _
        rw [h.channels]
      · obtain ⟨rfl, rfl⟩ := Prod.mk.inj (Option.some.inj hspec)
        exact h
  | send i sendBuf buf res =>
    obtain ⟨⟨device, isServer⟩, hi, hf⟩ := Option.bind_eq_some_iff.mp hspec
    simp only at hf
    split at hf
    · cases hf
    · cases res with
      | error errno =>
        cases errno <;>
        · obtain ⟨rfl, rfl⟩ := Prod.mk.inj (Option.some.inj hf)
          exact h
      | ok u =>
        obtain ⟨rfl, rfl⟩ := Prod.mk.inj (Option.some.inj hf)
        unfold MsgqLog.follow
        simp only [h.channels, hi]
        refine ⟨rfl, fun key type => ?_⟩
        obtain ⟨taken, hsent, hgot⟩ := h.order key type
        refine ⟨taken, ?_, hgot⟩
        simp only [logAt_eq, setFifo_fifo]
        split
        · next heq => rw [← heq.1, ← heq.2, hsent, List.append_assoc]
        · exact hsent
  | recv i recvBuf maxLen =>
    obtain ⟨⟨device, isServer⟩, hi, hf⟩ := Option.bind_eq_some_iff.mp hspec
    unfold MsgqLog.follow
    simp only [h.channels, hi]
    cases hq : t.fifo (ftok device (msgqId (!isServer))) (msgqId (!isServer)) with
    | nil =>
      simp only [hq] at hf
      obtain ⟨rfl, rfl⟩ := Prod.mk.inj (Option.some.inj hf)
      rw [if_pos rfl]
      exact h
    | cons text q =>
      simp only [hq] at hf
      obtain ⟨rfl, rfl⟩ := Prod.mk.inj (Option.some.inj hf)
      have hcount : IoEnd.returns ((text.take maxLen).length : Int) ≠ .returns (-1) := by
        intro heq
        have hret := IoEnd.returns.inj heq
        omega
      rw [if_neg hcount]
      refine ⟨rfl, fun key type => ?_⟩
      obtain ⟨taken, hsent, hgot⟩ := h.order key type
      simp only [logAt_eq, setFifo_fifo]
      split
      · next heq =>
        -- one more message is taken
        rw [heq.1, heq.2] at hsent hgot ⊢
        refine ⟨taken ++ [text], ?_, List.rel_append hgot ?_⟩
        · rw [hsent, hq, List.append_assoc, List.singleton_append]
        · exact .cons (List.take_prefix maxLen text) .nil
      · exact ⟨taken, hsent, hgot⟩

/-- While no channel is flushed, the bytes delivered for a key and type are, one receive after
    the other, the beginnings of the messages that the kernel took, in the order in which it
    took them: none is lost, repeated or exchanged. -/
theorem msgq_received_in_order {ftok : CString → Int → Int}
    (hftok : ∀ device id, ftok device id ≠ 0) (alloc : Allocator (List (Int × List UInt8)))
    {calls : List MsgqCall} {t : MsgqSpec} {outs : List MsgqOut}
    (h : StepSystem.runOut (msgqSpecStep ftok) .empty calls = some (t, outs))
    (hflush : ∀ i recvBuf, .flush i recvBuf ∉ calls) :
    ∃ s, StepSystem.runOut (msgqStep ftok alloc (calls.length + 1)) ⟨.empty, fun _ => none⟩ calls =
        some (s, outs) ∧
      MsgqInOrder t ((calls.zip outs).foldl (MsgqLog.follow ftok)
        ⟨fun _ => none, fun _ _ => [], fun _ _ => []⟩) := by
  obtain ⟨s, hrun, _⟩ := msgq_refines_fifos hftok alloc h (Nat.lt_succ_self _)
  have hinit : MsgqInOrder .empty ⟨fun _ => none, fun _ _ => [], fun _ _ => []⟩ :=
    ⟨rfl, fun _ _ => ⟨[], rfl, .nil⟩⟩
  have hkind : ∀ call ∈ calls, ∀ i recvBuf, call ≠ .flush i recvBuf := by
    intro call hmem i recvBuf heq
    exact hflush i recvBuf (heq ▸ hmem)
  exact ⟨s, hrun, StepSystem.inv_of_runOut_mem
    (fun t l call t' out hkind hl hspec => hl.step hkind hspec) hinit hkind h⟩

theorem msgq_received_in_order_echo :
    ∃ t s, StepSystem.runOut (msgqStep idKey (Allocator.bump _) (echoCalls.length + 1))
        ⟨.empty, fun _ => none⟩ echoCalls = some (s, echoOuts) ∧
      MsgqInOrder t ((echoCalls.zip echoOuts).foldl (MsgqLog.follow idKey)
        ⟨fun _ => none, fun _ _ => [], fun _ _ => []⟩) := by
  have hspec : StepSystem.runOut (msgqSpecStep idKey) .empty echoCalls = some (_, echoOuts) := rfl
  have hflush : ∀ i recvBuf, .flush i recvBuf ∉ echoCalls := by
    intro i recvBuf
    simp only [echoCalls, List.mem_cons, List.not_mem_nil, reduceCtorEq, or_false, not_false_eq_true]
  exact ⟨_, msgq_received_in_order idKey_ne_zero (Allocator.bump _) hspec hflush⟩

end CUtils
