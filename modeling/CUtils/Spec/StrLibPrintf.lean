import CUtils.Native.StrLib

/-!
# When `string_printf` fails cleanly, and when it agrees with `string_copy`

`string_printf` formats into the buffer and compares the length afterwards, with a bound
that leaves one byte of the capacity unused.

- `stringPrintf_eq`: what the function computes on a valid string.
- `stringPrintf_error_keeps_iff`: an error leaves the string as it was exactly when the
  stored bytes repeat what was there.
- `stringPrintf_agrees_iff`: the two writers agree exactly when the text does not end at
  the last byte of the capacity.
-/

namespace CUtils

/-- A string with a buffer of `maxLen + 1` bytes and a terminator behind its bytes. -/
structure StringValid (s : StringT) (obj : List UInt8) : Prop where
  buf_eq : s.buf = some obj
  length_eq : obj.length = s.maxLen + 1
  len_le : s.len ≤ s.maxLen
  nul : obj[s.len]? = some 0
  /-- no object has half the size of the address space -/
  maxLen_lt : s.maxLen < 2 ^ 63

/-- The bytes that `vsnprintf` stores when it is given `size` bytes. -/
def VsnprintfOutcome.written (out : VsnprintfOutcome) (size : Nat) : List UInt8 :=
  if size = 0 then [] else out.stored size

theorem VsnprintfOutcome.length_written_le (out : VsnprintfOutcome) (size : Nat) :
    (out.written size).length ≤ size := by
  unfold VsnprintfOutcome.written
  split
  · exact Nat.zero_le _
  · cases out with
    | text t =>
      simp only [VsnprintfOutcome.stored, List.length_append, List.length_take,
        List.length_singleton]
      omega
    | error ret neg stored =>
      rw [VsnprintfOutcome.stored, List.length_take]
      omega

theorem VsnprintfOutcome.le_ret (out : VsnprintfOutcome) : -intMax - 1 ≤ out.ret := by
  cases out with
  | text t =>
    simp only [VsnprintfOutcome.ret, intMax]
    omega
  | error ret neg stored => exact neg.1

namespace StringValid

variable {s : StringT} {obj : List UInt8} {mode : StringMode} {out : VsnprintfOutcome}

/-- The start is a number of bytes of the string, or negative when `len` is not an
    `int`. -/
theorem stringStart_le (s : StringT) (mode : StringMode) :
    -intMax - 1 ≤ stringStart s mode ∧ stringStart s mode ≤ s.len := by
  unfold stringStart
  split
  · exact ⟨(castInt_bounds _).1, castInt_natCast_le _⟩
  · unfold intMax
    omega

/-- A negative start faults. -/
theorem stringPrintf_of_neg (h : StringValid s obj) (hneg : stringStart s mode < 0) :
    stringPrintf s mode out = none := by
  have hlo := (stringStart_le s mode).1
  have hmax := h.maxLen_lt
  have hsize : castSize (s.maxLen - stringStart s mode) ≠ 0 := by
    unfold intMax at hlo
    rw [castSize_of_lt (by omega) (by omega)]
    omega
  have hoff : cOffset (stringStart s mode) = none := if_neg (by omega)
  cases hret : cInt out.ret with
  | none => simp only [stringPrintf, vsnprintf, hret, Option.bind_eq_bind, Option.bind_none]
  | some ret =>
    simp only [stringPrintf, vsnprintf, hret, if_neg hsize, h.buf_eq, hoff, Option.bind_eq_bind,
      Option.bind_some, Option.bind_none]

/-- The value returned by `vsnprintf`. -/
theorem vsnprintf_ret {buf buf' : Option (List UInt8)} {start ret : Int} {size : Nat}
    (hv : vsnprintf buf start size out = some (buf', ret)) : ret = out.ret := by
  obtain ⟨r, hr, hv⟩ := Option.bind_eq_some_iff.mp hv
  have hreq : r = out.ret := by
    unfold cInt at hr
    split at hr
    · exact (Option.some.inj hr).symm
    · cases hr
  split at hv
  · simp only [Option.pure_def, Option.some.injEq, Prod.mk.injEq] at hv
    exact hv.2.symm.trans hreq
  · obtain ⟨o, _, hv⟩ := Option.bind_eq_some_iff.mp hv
    obtain ⟨off, _, hv⟩ := Option.bind_eq_some_iff.mp hv
    obtain ⟨o', _, hv⟩ := Option.bind_eq_some_iff.mp hv
    simp only [Option.pure_def, Option.some.injEq, Prod.mk.injEq] at hv
    exact hv.2.symm.trans hreq

/-- A length that is not an `int` faults. -/
theorem stringPrintf_of_overflow (out : VsnprintfOutcome)
    (hover : intMax < stringStart s mode + out.ret) :
    stringPrintf s mode out = none := by
  have hsum : cInt (stringStart s mode + out.ret) = none := if_neg (by omega)
  simp only [stringPrintf, Option.bind_eq_bind]
  cases hv : vsnprintf s.buf (stringStart s mode)
      (castSize (s.maxLen - stringStart s mode)) out with
  | none => rfl
  | some r =>
    obtain ⟨buf', ret⟩ := r
    simp only [Option.bind_some, vsnprintf_ret hv, hsum, Option.bind_none]

/-- The stored bytes stay inside of the buffer. -/
theorem written_le (h : StringValid s obj) (mode : StringMode) (out : VsnprintfOutcome) :
    (stringStart s mode).toNat +
      (out.written (s.maxLen - (stringStart s mode).toNat)).length ≤ obj.length := by
  have hle := (stringStart_le s mode).2
  have hlen := h.len_le
  have hobj := h.length_eq
  have hw := out.length_written_le (s.maxLen - (stringStart s mode).toNat)
  omega

/-- What `vsnprintf` leaves in the buffer. -/
theorem vsnprintf_eq (h : StringValid s obj) (hstart : 0 ≤ stringStart s mode)
    (hmax : stringStart s mode + out.ret ≤ intMax) :
    vsnprintf s.buf (stringStart s mode) (castSize (s.maxLen - stringStart s mode)) out =
      some (some (splice obj (stringStart s mode).toNat
        (out.written (s.maxLen - (stringStart s mode).toNat))), out.ret) := by
  have hle := (stringStart_le s mode).2
  have hlen := h.len_le
  have hlt := h.maxLen_lt
  have hin := h.written_le mode out
  have hret : cInt out.ret = some out.ret := if_pos ⟨out.le_ret, by omega⟩
  have hsize : castSize (s.maxLen - stringStart s mode) =
      s.maxLen - (stringStart s mode).toNat := castSize_eq (by omega) (by omega)
  simp only [vsnprintf, hret, hsize, h.buf_eq, cOffset_of_nonneg hstart, Option.bind_eq_bind,
    Option.bind_some]
  by_cases hz : s.maxLen - (stringStart s mode).toNat = 0
  · rw [if_pos hz, VsnprintfOutcome.written, if_pos hz, splice_nil]
    rfl
  · rw [VsnprintfOutcome.written, if_neg hz] at hin ⊢
    rw [if_neg hz, writeAt_of_le hin]
    rfl

/-- What `string_printf` computes when no `int` overflows. -/
theorem stringPrintf_eq (h : StringValid s obj) (out : VsnprintfOutcome)
    (hstart : 0 ≤ stringStart s mode) (hmax : stringStart s mode + out.ret ≤ intMax)
    {obj' : List UInt8}
    (hobj' : obj' = splice obj (stringStart s mode).toNat
      (out.written (s.maxLen - (stringStart s mode).toNat))) :
    stringPrintf s mode out =
      if castInt s.maxLen ≤ stringStart s mode + out.ret then
        some ({ s with buf := some obj' }, -1)
      else
        (writeAt obj' (castSize (stringStart s mode + out.ret)) [0]).map fun o =>
          ({ s with buf := some o, len := castSize (stringStart s mode + out.ret) }, out.ret) := by
  have hlo := out.le_ret
  have hsum : cInt (stringStart s mode + out.ret) = some (stringStart s mode + out.ret) :=
    if_pos ⟨by omega, hmax⟩
  simp only [stringPrintf, h.vsnprintf_eq hstart hmax, ← hobj', hsum, Option.bind_eq_bind,
    Option.bind_some, ge_iff_le]
  split
  · rfl
  · cases writeAt obj' (castSize (stringStart s mode + out.ret)) [0] with
    | none => rfl
    | some o => rfl

/-- The terminator fits when the new length is below the bound, and not when it is
    negative. -/
theorem writeAt_end_isSome (h : StringValid s obj) {obj' : List UInt8} {newLen : Int}
    (hobj' : obj'.length = obj.length) (hlo : -intMax - 1 ≤ newLen)
    (hlt : newLen < castInt s.maxLen) :
    (writeAt obj' (castSize newLen) [0]).isSome ↔ 0 ≤ newLen := by
  have hle := castInt_natCast_le s.maxLen
  have hmax := h.maxLen_lt
  have hlen := h.length_eq
  by_cases h0 : 0 ≤ newLen
  · have hin : castSize newLen + [(0 : UInt8)].length ≤ obj'.length := by
      rw [castSize_of_lt h0 (by omega), List.length_singleton]
      omega
    simp only [writeAt_of_le hin, Option.isSome_some, h0]
  · have hout : ¬ castSize newLen + [(0 : UInt8)].length ≤ obj'.length := by
      unfold intMax at hlo
      have hcast := castSize_of_neg (x := newLen) (by omega) (by omega)
      rw [List.length_singleton]
      omega
    rw [writeAt, if_neg hout]
    simp only [Option.isSome_none, Bool.false_eq_true, h0]

end StringValid

/-! ## The error path -/

/-- The call returns, and an error leaves the string as it was. -/
def PrintfErrorKeeps (s : StringT) (obj : List UInt8) (mode : StringMode)
    (out : VsnprintfOutcome) : Prop :=
  ∃ s' ret, stringPrintf s mode out = some (s', ret) ∧
    (ret = -1 → s'.len = s.len ∧ ∃ obj', s'.buf = some obj' ∧
      obj'.take s.len = obj.take s.len ∧ obj'[s.len]? = some 0)

/-- The bytes stored from `start` on repeat what the buffer holds up to its terminator. -/
def VsnprintfOutcome.Repeats (out : VsnprintfOutcome) (s : StringT) (obj : List UInt8)
    (start : Nat) : Prop :=
  ∀ i ≤ s.len, start ≤ i → ∀ v, (out.written (s.maxLen - start))[i - start]? = some v →
    obj[i]? = some v

/-- No `int` overflows, a rejected text stores what was there, and an accepted result is
    neither -1 nor in front of the string. -/
def PrintfErrorCond (s : StringT) (obj : List UInt8) (mode : StringMode)
    (out : VsnprintfOutcome) : Prop :=
  0 ≤ stringStart s mode ∧ stringStart s mode + out.ret ≤ intMax ∧
    if castInt s.maxLen ≤ stringStart s mode + out.ret then
      out.Repeats s obj (stringStart s mode).toNat
    else
      out.ret ≠ -1 ∧ 0 ≤ stringStart s mode + out.ret

/-- The first `len` bytes and the terminator are kept together. -/
theorem take_and_nul_iff {s : StringT} {obj obj' : List UInt8} (h : StringValid s obj) :
    (obj'.take s.len = obj.take s.len ∧ obj'[s.len]? = some 0) ↔
      obj'.take (s.len + 1) = obj.take (s.len + 1) := by
  constructor
  · intro ⟨htake, hnul⟩
    apply List.ext_getElem?
    intro i
    by_cases hi : i < s.len + 1
    · rw [List.getElem?_take_of_lt hi, List.getElem?_take_of_lt hi]
      by_cases hlt : i < s.len
      · have hget := congrArg (fun l => l[i]?) htake
        simp only [List.getElem?_take_of_lt hlt] at hget
        exact hget
      · have heq : i = s.len := by omega
        rw [heq, hnul, h.nul]
    · rw [List.getElem?_take_eq_none (by omega), List.getElem?_take_eq_none (by omega)]
  · intro htake
    refine ⟨take_eq_of_le (Nat.le_succ _) htake, ?_⟩
    have hget := congrArg (fun l => l[s.len]?) htake
    simp only [List.getElem?_take_of_lt (Nat.lt_succ_self _)] at hget
    rw [hget, h.nul]

/-- When `string_printf` leaves the string as it was on an error, in every mode. -/
theorem stringPrintf_error_keeps_iff {s : StringT} {obj : List UInt8} (h : StringValid s obj)
    (mode : StringMode) (out : VsnprintfOutcome) :
    PrintfErrorKeeps s obj mode out ↔ PrintfErrorCond s obj mode out := by
  unfold PrintfErrorKeeps PrintfErrorCond
  by_cases hstart : 0 ≤ stringStart s mode
  swap
  · simp only [h.stringPrintf_of_neg (Int.not_le.mp hstart), hstart, false_and, reduceCtorEq,
      exists_false]
  by_cases hmax : stringStart s mode + out.ret ≤ intMax
  swap
  · simp only [StringValid.stringPrintf_of_overflow out (Int.not_le.mp hmax), hmax, false_and,
      and_false, reduceCtorEq, exists_false]
  have hin := h.written_le mode out
  have hle := (StringValid.stringStart_le s mode).2
  have hlo := out.le_ret
  obtain ⟨obj', hobj'⟩ : ∃ obj', obj' = splice obj (stringStart s mode).toNat
      (out.written (s.maxLen - (stringStart s mode).toNat)) := ⟨_, rfl⟩
  have hlen : obj'.length = obj.length := by rw [hobj', length_splice hin]
  rw [h.stringPrintf_eq out hstart hmax hobj']
  simp only [hstart, hmax, true_and]
  split
  · -- the text is rejected after it was stored
    have hkept : (obj'.take s.len = obj.take s.len ∧ obj'[s.len]? = some 0) ↔
        out.Repeats s obj (stringStart s mode).toNat := by
      rw [take_and_nul_iff h, hobj', take_splice_eq_iff hin]
      unfold VsnprintfOutcome.Repeats
      simp only [Nat.lt_succ_iff]
    rw [← hkept]
    constructor
    · intro ⟨s', ret, hret, hkeep⟩
      simp only [Option.some.injEq, Prod.mk.injEq] at hret
      obtain ⟨rfl, rfl⟩ := hret
      obtain ⟨_, o, ho, hk⟩ := hkeep rfl
      obtain rfl := Option.some.inj ho
      exact hk
    · intro hk
      exact ⟨_, _, rfl, fun _ => ⟨rfl, obj', rfl, hk⟩⟩
  · -- the new length is stored
    next hlt =>
    have hsome := h.writeAt_end_isSome hlen (by omega) (Int.not_le.mp hlt)
    have hmax_lt := h.maxLen_lt
    have hlen_le := h.len_le
    constructor
    · intro ⟨s', ret, hret, hkeep⟩
      obtain ⟨o, ho, heq⟩ := Option.map_eq_some_iff.mp hret
      obtain ⟨rfl, rfl⟩ := Prod.mk.inj heq
      rw [ho] at hsome
      have h0 : 0 ≤ stringStart s mode + out.ret := hsome.mp rfl
      refine ⟨fun hneg => ?_, h0⟩
      -- an error without a change would leave `len` at one less than the start
      have hlen' := (hkeep hneg).1
      have hcast : castSize (stringStart s mode + out.ret) = (stringStart s mode + out.ret).toNat :=
        castSize_of_lt h0 (by omega)
      simp only [hcast] at hlen'
      omega
    · intro ⟨hne, h0⟩
      obtain ⟨o, ho⟩ := Option.isSome_iff_exists.mp (hsome.mpr h0)
      refine ⟨_, _, Option.map_eq_some_iff.mpr ⟨o, ho, rfl⟩, fun hret => absurd hret hne⟩

/-- A text that is too long replaces the string "ab" before the call fails. -/
theorem stringPrintf_error_overwrites :
    StringValid ⟨0, some [97, 98, 0, 0, 0], 2, 4⟩ [97, 98, 0, 0, 0] ∧
      stringPrintf ⟨0, some [97, 98, 0, 0, 0], 2, 4⟩ .c (.text [119, 120, 121, 122]) =
        some (⟨0, some [119, 120, 121, 0, 0], 2, 4⟩, -1) ∧
      ¬ PrintfErrorKeeps ⟨0, some [97, 98, 0, 0, 0], 2, 4⟩ [97, 98, 0, 0, 0] .c
        (.text [119, 120, 121, 122]) := by
  have hcall : stringPrintf ⟨0, some [97, 98, 0, 0, 0], 2, 4⟩ .c (.text [119, 120, 121, 122]) =
      some (⟨0, some [119, 120, 121, 0, 0], 2, 4⟩, -1) := by decide +kernel
  refine ⟨⟨rfl, rfl, by decide, rfl, by decide⟩, hcall, ?_⟩
  intro ⟨s', ret, hret, hkeep⟩
  obtain ⟨rfl, rfl⟩ := Prod.mk.inj (Option.some.inj (hcall.symm.trans hret))
  obtain ⟨_, obj', hobj', htake, _⟩ := hkeep rfl
  obtain rfl := Option.some.inj hobj'
  exact absurd htake (by decide)

/-- A full string rejects any text without a change. -/
theorem stringPrintf_error_keeps_full :
    PrintfErrorKeeps ⟨0, some [97, 98, 0], 2, 2⟩ [97, 98, 0] .a (.text [99]) := by
  have hvalid : StringValid ⟨0, some [97, 98, 0], 2, 2⟩ [97, 98, 0] :=
    ⟨rfl, rfl, by decide, rfl, by decide⟩
  refine (stringPrintf_error_keeps_iff hvalid .a (.text [99])).mpr
    ⟨by decide, by decide, ?_⟩
  rw [if_pos (by decide)]
  intro i _ _ v hv
  cases hv

/-! ## The capacity -/

/-- Printing a text and copying it succeed together, namely when the text fits, and then
    return its length and leave the same contents. -/
def PrintfAgrees (s : StringT) (mode : StringMode) (t : List UInt8) : Prop :=
  ∃ s₁ r₁ s₂ r₂, stringPrintf s mode (.text t) = some (s₁, r₁) ∧
    stringCopy s mode t t.length = some (s₂, r₂) ∧
    (0 ≤ r₁ ↔ 0 ≤ r₂) ∧ (0 ≤ r₂ ↔ stringStart s mode + t.length ≤ s.maxLen) ∧
    (0 ≤ r₂ → r₁ = t.length ∧ r₂ = t.length ∧ s₁.len = s₂.len ∧
      s₁.buf.map (List.take s₁.len) = s₂.buf.map (List.take s₂.len))

/-- No `int` overflows, and the text does not end at the last byte of the capacity, as
    an `int` or as it is. -/
def PrintfAgreesCond (s : StringT) (mode : StringMode) (t : List UInt8) : Prop :=
  0 ≤ stringStart s mode ∧ stringStart s mode + t.length ≤ intMax ∧
    (stringStart s mode + t.length < castInt s.maxLen ∨
      s.maxLen < stringStart s mode + t.length)

section Agree

variable {s : StringT} {obj t : List UInt8} {mode : StringMode}

/-- A text that does not fit is rejected by `string_copy`. -/
theorem stringCopy_of_gt (hmode : mode = .c ∨ mode = .a) (hstart : 0 ≤ stringStart s mode)
    (hmax : stringStart s mode + t.length ≤ intMax)
    (hgt : s.maxLen < stringStart s mode + t.length) :
    stringCopy s mode t t.length = some (s, -1) := by
  have hsum : castSize (stringStart s mode + t.length) > s.maxLen := by
    unfold intMax at hmax
    rw [castSize_of_lt (by omega) (by omega)]
    omega
  -- without the fill flag the text is refused before a byte is stored
  have hfill : mode.chars[1]? ≠ some 'f' := by
    rcases hmode with rfl | rfl
    · decide
    · decide
  simp only [stringCopy, if_pos hsum, if_pos hfill]

/-- A text that fits is stored by `string_copy`. -/
theorem stringCopy_of_le (h : StringValid s obj) (hstart : 0 ≤ stringStart s mode)
    (hmax : stringStart s mode + t.length ≤ intMax)
    (hle : stringStart s mode + t.length ≤ s.maxLen) :
    ∃ obj', stringCopy s mode t t.length =
        some ({ s with buf := some obj', len := (stringStart s mode).toNat + t.length },
          (t.length : Int)) ∧
      obj'.take ((stringStart s mode).toNat + t.length) =
        obj.take (stringStart s mode).toNat ++ t := by
  have hobj := h.length_eq
  unfold intMax at hmax
  have hsum : castSize (stringStart s mode + t.length) =
      (stringStart s mode).toNat + t.length := castSize_eq (by omega) (by omega)
  have hin : (stringStart s mode).toNat + t.length ≤ obj.length := by omega
  have hcopy : memcpy obj (stringStart s mode).toNat t t.length =
      some (splice obj (stringStart s mode).toNat t) := memcpy_length hin
  -- the terminator has its place behind the text
  have hend : (stringStart s mode).toNat + t.length + [(0 : UInt8)].length ≤
      (splice obj (stringStart s mode).toNat t).length := by
    rw [length_splice hin, List.length_singleton]
    omega
  refine ⟨_, ?_, (take_splice_of_le hend (Nat.le_refl _)).trans (take_splice hin)⟩
  have hgt : ¬ (stringStart s mode).toNat + t.length > s.maxLen := by omega
  simp only [stringCopy, hsum, if_neg hgt, stringCopyAt, h.buf_eq, cOffset_of_nonneg hstart,
    hcopy, writeAt_of_le hend, Option.bind_eq_bind, Option.bind_some]
  rw [castInt_of_lt (by omega) (by omega)]
  rfl

/-- A text that ends before the bound is stored by `string_printf`. -/
theorem stringPrintf_of_lt (h : StringValid s obj) (hstart : 0 ≤ stringStart s mode)
    (hmax : stringStart s mode + t.length ≤ intMax)
    (hlt : stringStart s mode + t.length < castInt s.maxLen) :
    ∃ obj', stringPrintf s mode (.text t) =
        some ({ s with buf := some obj', len := (stringStart s mode).toNat + t.length },
          (t.length : Int)) ∧
      obj'.take ((stringStart s mode).toNat + t.length) =
        obj.take (stringStart s mode).toNat ++ t := by
  have hobj := h.length_eq
  have hcast := castInt_natCast_le s.maxLen
  have hbound := h.maxLen_lt
  have hin := h.written_le mode (.text t)
  -- the text is not cut
  have hwritten : VsnprintfOutcome.written (.text t) (s.maxLen - (stringStart s mode).toNat) =
      t ++ [0] := by
    rw [VsnprintfOutcome.written, if_neg (by omega), VsnprintfOutcome.stored,
      List.take_of_length_le (by omega)]
  rw [hwritten] at hin
  have hnew : castSize (stringStart s mode + t.length) =
      (stringStart s mode).toNat + t.length := castSize_eq (by omega) (by omega)
  have hend : (stringStart s mode).toNat + t.length + [(0 : UInt8)].length ≤
      (splice obj (stringStart s mode).toNat (t ++ [0])).length := by
    rw [length_splice hin, List.length_singleton]
    omega
  refine ⟨_, ?_, (take_splice_of_le hend (Nat.le_refl _)).trans (take_splice_append hin)⟩
  have heq := h.stringPrintf_eq (.text t) hstart hmax rfl
  have hnot : ¬ castInt s.maxLen ≤ stringStart s mode + t.length := by omega
  rw [heq, hwritten]
  simp only [VsnprintfOutcome.ret, if_neg hnot, hnew, writeAt_of_le hend, Option.map_some]

/-- A text that ends at the bound or behind it is rejected by `string_printf`. -/
theorem stringPrintf_of_ge (h : StringValid s obj) (hstart : 0 ≤ stringStart s mode)
    (hmax : stringStart s mode + t.length ≤ intMax)
    (hge : castInt s.maxLen ≤ stringStart s mode + t.length) :
    ∃ s', stringPrintf s mode (.text t) = some (s', -1) := by
  have heq := h.stringPrintf_eq (.text t) hstart hmax rfl
  rw [heq]
  exact ⟨_, if_pos hge⟩

end Agree

/-- When `string_printf` of a text and `string_copy` agree. -/
theorem stringPrintf_agrees_iff {s : StringT} {obj : List UInt8} (h : StringValid s obj)
    {mode : StringMode} (hmode : mode = .c ∨ mode = .a) (t : List UInt8) :
    PrintfAgrees s mode t ↔ PrintfAgreesCond s mode t := by
  have hcast := castInt_natCast_le s.maxLen
  constructor
  · intro ⟨s₁, r₁, s₂, r₂, hprintf, hcopy, hboth, hfits, _⟩
    have hstart : 0 ≤ stringStart s mode := by
      by_contra hneg
      rw [h.stringPrintf_of_neg (Int.not_le.mp hneg)] at hprintf
      cases hprintf
    have hmax : stringStart s mode + t.length ≤ intMax := by
      by_contra hover
      rw [StringValid.stringPrintf_of_overflow (.text t) (Int.not_le.mp hover)] at hprintf
      cases hprintf
    refine ⟨hstart, hmax, ?_⟩
    by_cases hlt : stringStart s mode + t.length < castInt s.maxLen
    · exact .inl hlt
    · -- `string_printf` has failed, and so has `string_copy`
      obtain ⟨s', hfail⟩ := stringPrintf_of_ge h hstart hmax (Int.not_lt.mp hlt)
      rw [hfail] at hprintf
      obtain ⟨_, rfl⟩ := Prod.mk.inj (Option.some.inj hprintf)
      have hr₂ : ¬ 0 ≤ r₂ := fun h0 => by
        have := hboth.mpr h0
        omega
      rw [hfits] at hr₂
      exact .inr (Int.not_le.mp hr₂)
  · intro ⟨hstart, hmax, hcases⟩
    rcases hcases with hlt | hgt
    · obtain ⟨obj₁, hprintf, htake₁⟩ := stringPrintf_of_lt h hstart hmax hlt
      obtain ⟨obj₂, hcopy, htake₂⟩ := stringCopy_of_le h hstart hmax (by omega)
      have hpos : (0 : Int) ≤ t.length := Int.natCast_nonneg _
      refine ⟨_, _, _, _, hprintf, hcopy, Iff.rfl, ⟨fun _ => by omega, fun _ => hpos⟩,
        fun _ => ⟨rfl, rfl, rfl, ?_⟩⟩
      simp only [Option.map_some, htake₁, htake₂]
    · obtain ⟨s', hprintf⟩ := stringPrintf_of_ge h hstart hmax (t := t) (by omega)
      have hcopy := stringCopy_of_gt hmode hstart hmax hgt
      refine ⟨_, _, _, _, hprintf, hcopy, Iff.rfl, ⟨fun h0 => by omega, fun h0 => by omega⟩,
        fun h0 => by omega⟩

/-- Four bytes fit into an empty string of capacity four, and only `string_copy` takes
    them. -/
theorem stringPrintf_rejects_exact_fit :
    StringValid (stringDef 4) [0, 0, 0, 0, 0] ∧
      stringCopy (stringDef 4) .c [97, 98, 99, 100] 4 =
        some (⟨0, some [97, 98, 99, 100, 0], 4, 4⟩, 4) ∧
      stringPrintf (stringDef 4) .c (.text [97, 98, 99, 100]) =
        some (⟨0, some [97, 98, 99, 0, 0], 0, 4⟩, -1) ∧
      ¬ PrintfAgrees (stringDef 4) .c [97, 98, 99, 100] := by
  have hcopy : stringCopy (stringDef 4) .c [97, 98, 99, 100] 4 =
      some (⟨0, some [97, 98, 99, 100, 0], 4, 4⟩, 4) := by decide +kernel
  have hprintf : stringPrintf (stringDef 4) .c (.text [97, 98, 99, 100]) =
      some (⟨0, some [97, 98, 99, 0, 0], 0, 4⟩, -1) := by decide +kernel
  refine ⟨⟨rfl, rfl, by decide, rfl, by decide⟩, hcopy, hprintf, ?_⟩
  intro ⟨s₁, r₁, s₂, r₂, h₁, h₂, hboth, _⟩
  obtain ⟨_, rfl⟩ := Prod.mk.inj (Option.some.inj (hprintf.symm.trans h₁))
  obtain ⟨_, rfl⟩ := Prod.mk.inj (Option.some.inj (hcopy.symm.trans h₂))
  exact absurd (hboth.mpr (by decide)) (by decide)

/-- Three bytes are stored by both. -/
theorem stringPrintf_agrees_three : PrintfAgrees (stringDef 4) .c [97, 98, 99] :=
  (stringPrintf_agrees_iff ⟨rfl, rfl, by decide, rfl, by decide⟩ (.inl rfl) _).mpr
    ⟨by decide, by decide, by decide⟩

end CUtils
