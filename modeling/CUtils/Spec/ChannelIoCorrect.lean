import CUtils.Native.ChannelIo

/-!
# The send and receive contract of the channels

A send function returns a negative value after an error that is not transient, and
otherwise how many bytes were taken; a receive function returns at most the length of the
buffer.

- `channelIo_contract_iff`: for which calls the four backends honour that contract.
-/

namespace CUtils

/-! ## The contract -/

/-- The call failed, and with neither EAGAIN nor EINTR. -/
def IoResult.fatal {α : Type} : IoResult α → Bool
  | .error .eidrm | .error .other => true
  | _ => false

/-- The last call of a loop failed, and not with EAGAIN. -/
def SysCalls.fatal {α : Type} (calls : SysCalls α) : Bool :=
  match calls.result with
  | .error => true
  | _ => false

def SendCall.fatal : SendCall → Bool
  | .uart write => write.fatal
  | .msgq _ _ msgsnd => msgsnd.fatal
  | .fifo write | .unixBus write => write.fatal

def RecvCall.fatal : RecvCall → Bool
  | .uart read => read.fatal
  | .msgq _ _ msgrcv => msgrcv.fatal
  | .fifo read | .unixBus read => read.fatal

/-- `write` takes no more bytes than it is given. -/
def SendCall.Bounded (len : Nat) : SendCall → Prop
  | .uart write => ∀ n, write = .ok n → n ≤ len
  | .msgq _ _ _ => True
  | .fifo write | .unixBus write => ∀ n, write.result = .ok n → n ≤ len

/-- `read` and `msgrcv` deliver no more bytes than they are asked for. -/
def RecvCall.Bounded (maxLen : Nat) : RecvCall → Prop
  | .uart read => ∀ bs, read = .ok bs → bs.length ≤ maxLen
  | .msgq _ _ msgrcv => ∀ bs, msgrcv = .ok bs → bs.length ≤ maxLen
  | .fifo read | .unixBus read => ∀ bs, read.result = .ok bs → bs.length ≤ maxLen

/-- A send does not fault, and what it returns is negative after a fatal error and otherwise a
    count of at most `len` bytes that were all taken. -/
def SendContract (len : Nat) (fatal : Bool) (r : Option (IoEnd × List UInt8)) : Prop :=
  ∃ e bytes, r = some (e, bytes) ∧ ∀ ret, e = .returns ret →
    if fatal then ret < 0 else 0 ≤ ret ∧ ret ≤ len ∧ ret ≤ bytes.length

/-- A receive does not fault, and what it returns is negative after a fatal error and otherwise
    at most `maxLen`. -/
def RecvContract (maxLen : Nat) (fatal : Bool) (r : Option (IoEnd × List UInt8)) : Prop :=
  ∃ e bytes, r = some (e, bytes) ∧ ∀ ret, e = .returns ret →
    if fatal then ret < 0 else ret ≤ maxLen

/-- When a send honours the contract: a serial port is not interrupted; a message fits into
    `send_buf`, and the queue takes it, is gone, or there was nothing to take. -/
def SendCall.Meets (len : Nat) : SendCall → Prop
  | .uart write => write ≠ .error .eintr
  | .msgq _ _ msgsnd => len ≤ 512 ∧
    (msgsnd = .ok () ∨ msgsnd = .error .eidrm ∨ (msgsnd ≠ .error .other ∧ len = 0))
  | .fifo _ | .unixBus _ => True

/-- When a receive honours the contract: a message fits into `recv_buf`. -/
def RecvCall.Meets : RecvCall → Prop
  | .msgq _ _ msgrcv => ∀ bs, msgrcv = .ok bs → bs.length ≤ 512
  | .uart _ | .fifo _ | .unixBus _ => True

/-! ## The static buffers -/

namespace ChannelMsgbuf

variable {msgbuf : ChannelMsgbuf} {src : List UInt8} {n : Nat}

/-- What fits into the 512 bytes is stored. -/
theorem store_of_le (mtype : Int) (hsrc : n ≤ src.length) (hfit : n ≤ 512) :
    ∃ msgbuf', msgbuf.store mtype src n = some msgbuf' ∧ msgbuf'.mtext.take n = src.take n := by
  have hsize := msgbuf.size
  have hlen : (src.take n).length = n := List.length_take_of_le hsrc
  have hin : 0 + (src.take n).length ≤ msgbuf.mtext.length := by omega
  have hcopy : memcpy msgbuf.mtext 0 src n = some (splice msgbuf.mtext 0 (src.take n)) :=
    memcpy_of_le hsrc (by omega)
  have htake := take_splice hin
  rw [Nat.zero_add, hlen, List.take_zero, List.nil_append] at htake
  refine ⟨⟨mtype, splice msgbuf.mtext 0 (src.take n), (length_splice hin).trans hsize⟩, ?_, htake⟩
  unfold store
  split
  · next mtext h =>
    obtain rfl := Option.some.inj (hcopy.symm.trans h)
    rfl
  · next h =>
    rw [hcopy] at h
    cases h

/-- Anything longer leaves the buffer. -/
theorem store_of_gt (mtype : Int) (hsrc : n ≤ src.length) (hgt : 512 < n) :
    msgbuf.store mtype src n = none := by
  have hsize := msgbuf.size
  have hcopy : memcpy msgbuf.mtext 0 src n = none := memcpy_of_gt hsrc (by omega)
  unfold store
  split
  · next mtext h =>
    rw [hcopy] at h
    cases h
  · rfl

end ChannelMsgbuf

/-! ## Backends -/

section

variable {buf : List UInt8} {len maxLen : Nat}

/-- What a contract says of a call that returns. -/
theorem exists_returns_iff {P : List UInt8 → Int → Prop} {ret : Int} {bytes : List UInt8} :
    (∃ e bs, some (IoEnd.returns ret, bytes) = some (e, bs) ∧ ∀ r, e = .returns r → P bs r) ↔
      P bytes ret := by
  constructor
  · intro ⟨e, bs, heq, hret⟩
    obtain ⟨rfl, rfl⟩ := Prod.mk.inj (Option.some.inj heq)
    exact hret ret rfl
  · intro h
    refine ⟨_, _, rfl, fun r hr => ?_⟩
    obtain rfl := IoEnd.returns.inj hr
    exact h

theorem sendContract_some_iff {fatal : Bool} {ret : Int} {bytes : List UInt8} :
    SendContract len fatal (some (.returns ret, bytes)) ↔
      if fatal then ret < 0 else 0 ≤ ret ∧ ret ≤ len ∧ ret ≤ bytes.length :=
  exists_returns_iff (P := fun bytes ret =>
    if fatal then ret < 0 else 0 ≤ ret ∧ ret ≤ len ∧ ret ≤ bytes.length)

theorem recvContract_some_iff {fatal : Bool} {ret : Int} {bytes : List UInt8} :
    RecvContract maxLen fatal (some (.returns ret, bytes)) ↔
      if fatal then ret < 0 else ret ≤ maxLen :=
  exists_returns_iff (P := fun _ ret => if fatal then ret < 0 else ret ≤ maxLen)

/-- The return value -1 is for fatal errors. -/
theorem sendContract_error_iff {fatal : Bool} {bytes : List UInt8} :
    SendContract len fatal (some (.returns (-1), bytes)) ↔ fatal = true := by
  rw [sendContract_some_iff]
  cases fatal with
  | true => exact iff_of_true (show (-1 : Int) < 0 by decide) rfl
  | false => exact iff_of_false (fun h => absurd h.1 (by decide)) (by decide)

theorem recvContract_error {fatal : Bool} {bytes : List UInt8} :
    RecvContract maxLen fatal (some (.returns (-1), bytes)) := by
  rw [recvContract_some_iff]
  split
  · decide
  · omega

/-- A count of bytes that were taken. -/
theorem sendContract_count {n : Nat} {ret : Int} (hret : ret = n) (hn : n ≤ len)
    (hlen : len ≤ buf.length) :
    SendContract len false (some (.returns ret, buf.take n)) := by
  have htake : (buf.take n).length = n := List.length_take_of_le (by omega)
  rw [sendContract_some_iff, htake, hret]
  exact ⟨Int.natCast_nonneg n, Int.ofNat_le.mpr hn, Int.le_refl _⟩

/-- A count of bytes that were stored. -/
theorem recvContract_count {ret : Int} {bs bytes : List UInt8} (hret : ret = bs.length)
    (hbs : bs.length ≤ maxLen) : RecvContract maxLen false (some (.returns ret, bytes)) := by
  rw [recvContract_some_iff, hret]
  exact Int.ofNat_le.mpr hbs

/-- Nothing was stored. -/
theorem recvContract_zero {bytes : List UInt8} :
    RecvContract maxLen false (some (.returns 0, bytes)) :=
  recvContract_some_iff.mpr (Int.natCast_nonneg maxLen)

theorem castInt_count {n m : Nat} (hn : n ≤ m) (hmax : (m : Int) ≤ intMax) :
    castInt n = (n : Int) := by
  unfold intMax at hmax
  exact castInt_of_lt (by omega) (by omega)

/-- A serial port reports an interrupted call as an error. -/
theorem serialWrite_contract_iff {write : IoResult Nat} (hlen : len ≤ buf.length)
    (hmax : (len : Int) ≤ intMax) (hbound : ∀ n, write = .ok n → n ≤ len) :
    SendContract len write.fatal (some (.returns (serialWrite buf write).1,
      (serialWrite buf write).2)) ↔ write ≠ .error .eintr := by
  cases write with
  | ok n =>
    have hn := hbound n rfl
    refine iff_of_true ?_ fun h => by cases h
    simp only [IoResult.fatal, serialWrite]
    exact sendContract_count (castInt_count hn hmax) hn hlen
  | error errno =>
    cases errno with
    | eagain =>
      exact iff_of_true (sendContract_count (n := 0) rfl (Nat.zero_le _) hlen) (by decide)
    | eintr => exact sendContract_error_iff.trans (by decide)
    | eidrm => exact sendContract_error_iff.trans (by decide)
    | other => exact sendContract_error_iff.trans (by decide)

theorem serialRead_contract {read : IoResult (List UInt8)} (hmax : (maxLen : Int) ≤ intMax)
    (hbound : ∀ bs, read = .ok bs → bs.length ≤ maxLen) :
    RecvContract maxLen read.fatal (some (.returns (serialRead read).1, (serialRead read).2)) := by
  cases read with
  | ok bs =>
    have hbs := hbound bs rfl
    simp only [IoResult.fatal, serialRead]
    exact recvContract_count (castInt_count hbs hmax) hbs
  | error errno =>
    cases errno with
    | eagain => exact recvContract_zero
    | eintr => exact recvContract_error
    | eidrm => exact recvContract_error
    | other => exact recvContract_error

/-- `write_loop` honours the contract. -/
theorem channelFdSend_contract {write : SysCalls Nat} (hlen : len ≤ buf.length)
    (hmax : (len : Int) ≤ intMax) (hbound : ∀ n, write.result = .ok n → n ≤ len) :
    SendContract len write.fatal (some (.returns (channelFdSend write buf).1,
      (channelFdSend write buf).2)) := by
  rw [channelFdSend, SysCalls.writeLoop, SysCalls.loop_eq, SysCalls.fatal]
  cases hresult : write.result with
  | ok n =>
    have hn := hbound n hresult
    simp only [SysCalls.loop, id, Option.getD_some]
    exact sendContract_count (castInt_count hn hmax) hn hlen
  | eagain =>
    show SendContract len false (some (.returns (castInt 0), buf.take 0))
    exact sendContract_count (by decide) (Nat.zero_le _) hlen
  | error =>
    have hret : castInt (-1) = -1 := by decide
    simp only [SysCalls.loop, hret]
    exact sendContract_error_iff.mpr rfl

/-- `read_loop` honours the contract. -/
theorem channelFdRecv_contract {read : SysCalls (List UInt8)} (hmax : (maxLen : Int) ≤ intMax)
    (hbound : ∀ bs, read.result = .ok bs → bs.length ≤ maxLen) :
    RecvContract maxLen read.fatal (some (.returns (channelFdRecv read).1,
      (channelFdRecv read).2)) := by
  rw [channelFdRecv, SysCalls.readLoop, SysCalls.loop_eq, SysCalls.fatal]
  cases hresult : read.result with
  | ok bs =>
    have hbs := hbound bs hresult
    simp only [SysCalls.loop, Option.getD_some]
    exact recvContract_count (castInt_count hbs hmax) hbs
  | eagain =>
    show RecvContract maxLen false (some (.returns (castInt 0), []))
    have hzero : castInt 0 = 0 := by decide
    rw [hzero]
    exact recvContract_zero
  | error =>
    have hret : castInt (-1) = -1 := by decide
    simp only [SysCalls.loop, hret]
    exact recvContract_error

end

/-! ## Message queues -/

section

variable {ctx : ChannelMsgq} {msgbuf : ChannelMsgbuf} {buf : List UInt8} {len maxLen : Nat}

/-- A message that is too long leaves `send_buf`, and the result of `msgsnd` only counts if
    the queue is gone. -/
theorem channelMsgqSend_contract_iff {msgsnd : IoResult Unit} (hlen : len ≤ buf.length) :
    SendContract len msgsnd.fatal
        ((channelMsgqSend ctx msgbuf buf len msgsnd).map (·.2)) ↔
      len ≤ 512 ∧
        (msgsnd = .ok () ∨ msgsnd = .error .eidrm ∨ (msgsnd ≠ .error .other ∧ len = 0)) := by
  by_cases hfit : len ≤ 512
  · obtain ⟨msgbuf', hstore, htake⟩ := msgbuf.store_of_le ctx.sendId hlen hfit
    rw [channelMsgqSend, hstore, Option.bind_eq_bind, Option.bind_some, and_iff_right hfit]
    have hnone : SendContract len false (some (.returns (len : Int), [])) ↔ len = 0 := by
      rw [sendContract_some_iff]
      simp
    cases msgsnd with
    | ok u =>
      refine iff_of_true ?_ (.inl rfl)
      show SendContract len false (some (.returns (len : Int), msgbuf'.mtext.take len))
      rw [htake]
      exact sendContract_count rfl (Nat.le_refl _) hlen
    | error errno =>
      cases errno with
      | eagain => exact hnone.trans (by simp)
      | eintr => exact hnone.trans (by simp)
      | eidrm =>
        refine iff_of_true ⟨.exits, [], rfl, fun ret hret => ?_⟩ (.inr (.inl rfl))
        cases hret
      | other =>
        -- the error is not reported
        refine iff_of_false (fun h => ?_) (by simp)
        have hneg : (len : Int) < 0 := sendContract_some_iff.mp h
        omega
  · rw [channelMsgqSend, ChannelMsgbuf.store_of_gt ctx.sendId hlen (by omega)]
    refine iff_of_false ?_ fun h => hfit h.1
    intro ⟨e, bytes, heq, _⟩
    cases heq

/-- A message that is too long leaves `recv_buf`. -/
theorem channelMsgqRecv_contract_iff {msgrcv : IoResult (List UInt8)}
    (hmax : (maxLen : Int) ≤ intMax) (hbound : ∀ bs, msgrcv = .ok bs → bs.length ≤ maxLen) :
    RecvContract maxLen msgrcv.fatal ((channelMsgqRecv ctx msgbuf msgrcv).map (·.2)) ↔
      ∀ bs, msgrcv = .ok bs → bs.length ≤ 512 := by
  cases msgrcv with
  | error errno =>
    refine iff_of_true ?_ fun bs h => by cases h
    cases errno with
    | eagain => exact recvContract_zero
    | eintr => exact recvContract_error
    | eidrm => exact ⟨.exits, [], rfl, fun ret hret => by cases hret⟩
    | other => exact recvContract_error
  | ok bs =>
    have hbs := hbound bs rfl
    have hcast := castInt_count hbs hmax
    by_cases hfit : bs.length ≤ 512
    · -- the message is stored and copied on, unless it is empty
      refine iff_of_true ?_ fun bs' h => IoResult.ok.inj h ▸ hfit
      obtain ⟨msgbuf', hstore, _⟩ := msgbuf.store_of_le ctx.recvId (Nat.le_refl _) hfit
      have hsize := msgbuf'.size
      simp only [channelMsgqRecv, hstore, hcast, Option.bind_eq_bind, Option.bind_some]
      split
      · next hzero => exact recvContract_zero
      · split
        · rw [Int.toNat_natCast, readAt_of_le (by omega), Option.bind_some]
          exact recvContract_count rfl hbs
        · exact recvContract_count rfl hbs
    · refine iff_of_false ?_ fun h => hfit (h bs rfl)
      simp only [channelMsgqRecv, ChannelMsgbuf.store_of_gt ctx.recvId (Nat.le_refl _)
        (Nat.not_le.mp hfit), Option.bind_eq_bind, Option.bind_none]
      intro ⟨e, bytes, heq, _⟩
      cases heq

end

/-! ## All backends -/

/-- For which calls each backend honours the contract of a send and of a receive. -/
theorem channelIo_contract_iff (send : SendCall) (recv : RecvCall) {buf : List UInt8}
    {len maxLen : Nat} (hlen : len ≤ buf.length) (hlenMax : (len : Int) ≤ intMax)
    (hmaxLen : (maxLen : Int) ≤ intMax) (hsend : send.Bounded len) (hrecv : recv.Bounded maxLen) :
    (SendContract len send.fatal (channelSend buf len send) ↔ send.Meets len) ∧
    (RecvContract maxLen recv.fatal (channelReceive recv) ↔ recv.Meets) := by
  constructor
  · cases send with
    | uart write => exact serialWrite_contract_iff hlen hlenMax hsend
    | msgq ctx sendBuf msgsnd => exact channelMsgqSend_contract_iff hlen
    | fifo write => exact iff_of_true (channelFdSend_contract hlen hlenMax hsend) trivial
    | unixBus write => exact iff_of_true (channelFdSend_contract hlen hlenMax hsend) trivial
  · cases recv with
    | uart read => exact iff_of_true (serialRead_contract hmaxLen hrecv) trivial
    | msgq ctx recvBuf msgrcv => exact channelMsgqRecv_contract_iff hmaxLen hrecv
    | fifo read => exact iff_of_true (channelFdRecv_contract hmaxLen hrecv) trivial
    | unixBus read => exact iff_of_true (channelFdRecv_contract hmaxLen hrecv) trivial

/-- `channelIo_contract_iff` for two bytes to a serial port and one byte from a FIFO, after a
    signal. -/
theorem channelIo_contract_iff_bytes :
    SendContract 2 false (channelSend [1, 2] 2 (.uart (.ok 2))) ∧
      RecvContract 4 false (channelReceive (.fifo ⟨1, .ok [7]⟩)) := by
  have hsend : SendCall.Bounded 2 (.uart (.ok 2)) := by
    intro n hn
    obtain rfl := IoResult.ok.inj hn
    exact Nat.le_refl 2
  have hrecv : RecvCall.Bounded 4 (.fifo ⟨1, .ok [7]⟩) := by
    intro bs hbs
    obtain rfl := SysResult.ok.inj hbs
    decide
  obtain ⟨hs, hr⟩ := channelIo_contract_iff (.uart (.ok 2)) (.fifo ⟨1, .ok [7]⟩)
    (show 2 ≤ [(1 : UInt8), 2].length by decide) (by decide) (by decide) hsend hrecv
  exact ⟨hs.mpr (by simp [SendCall.Meets]), hr.mpr trivial⟩

/-- `send_buf` of a server before the first message. -/
def zeroMsgbuf : ChannelMsgbuf := ⟨13, List.replicate 512 0, List.length_replicate⟩

/-- A message of 513 bytes leaves `send_buf`, the result of a failed `msgsnd` is the length of
    the message, and that of an interrupted `write` to a serial port is -1. -/
theorem channelSend_breaks_contract :
    channelSend (List.replicate 513 0) 513 (.msgq ⟨13, 0, true, 17, 1⟩ zeroMsgbuf (.ok ())) =
        none ∧
      ¬ SendContract 513 false (channelSend (List.replicate 513 0) 513
        (.msgq ⟨13, 0, true, 17, 1⟩ zeroMsgbuf (.ok ()))) ∧
      ¬ SendContract 2 true (channelSend [1, 2] 2
        (.msgq ⟨13, 0, true, 17, 1⟩ zeroMsgbuf (.error .other))) ∧
      ¬ SendContract 2 false (channelSend [1, 2] 2 (.uart (.error .eintr))) := by
  have hstore : zeroMsgbuf.store 13 (List.replicate 513 0) 513 = none :=
    ChannelMsgbuf.store_of_gt 13 (Nat.le_of_eq List.length_replicate.symm) (by decide)
  have hlong : channelSend (List.replicate 513 0) 513
      (.msgq ⟨13, 0, true, 17, 1⟩ zeroMsgbuf (.ok ())) = none := by
    simp only [channelSend, channelMsgqSend, hstore, Option.bind_eq_bind, Option.bind_none,
      Option.map_none]
  refine ⟨hlong, ?_, ?_, ?_⟩
  · rw [hlong]
    intro ⟨e, bytes, heq, _⟩
    cases heq
  · -- the failed `msgsnd` is reported as two bytes
    obtain ⟨msgbuf, hshort, _⟩ := zeroMsgbuf.store_of_le 13
      (show 2 ≤ [(1 : UInt8), 2].length by decide) (by decide)
    simp only [channelSend, channelMsgqSend, hshort, Option.bind_eq_bind, Option.bind_some]
    intro hsend
    have hneg : (2 : Int) < 0 := sendContract_some_iff.mp hsend
    omega
  · intro hsend
    have hfatal := sendContract_error_iff.mp hsend
    cases hfatal

end CUtils
