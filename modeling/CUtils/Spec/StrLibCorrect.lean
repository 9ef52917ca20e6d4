import CUtils.ForStd.StepSystem
import CUtils.Native.StrLib

/-!
# Strings are byte sequences of bounded length

`AbsString` is what a `string_t` stands for: its bytes, the most it can hold, and
whether it can grow.  `StringRepr` connects the two.

- `stringCopy_spec`, `stringResize_spec`, `stringMerge_of_some`: what one call does.
- `strlib_refines`: every sequence of calls that respects the bounds stays inside of the
  buffers and returns what the byte sequences return.
-/

namespace CUtils

open StepSystem

/-! ## Bounded byte sequences -/

/-- A sequence of at most `maxLen` bytes. -/
structure AbsString where
  bytes : List UInt8
  maxLen : Nat
  allocated : Bool

/-- `a` and `af` keep the bytes that are there. -/
def StringMode.appends (mode : StringMode) : Bool := mode = .a ∨ mode = .af

/-- `cf` and `af` cut what does not fit. -/
def StringMode.fills (mode : StringMode) : Bool := mode = .cf ∨ mode = .af

/-- Replace or extend the bytes by `src`, or by the longest prefix that fits. -/
def AbsString.copy (a : AbsString) (mode : StringMode) (src : List UInt8) : AbsString × Int :=
  let old := if mode.appends then a.bytes else []
  if old.length + src.length ≤ a.maxLen then
    ({ a with bytes := old ++ src }, src.length)
  else if mode.fills then
    ({ a with bytes := old ++ src.take (a.maxLen - old.length) }, a.maxLen - old.length)
  else
    (a, -1)

/-- An allocated string takes the new bound. -/
def AbsString.resize (a : AbsString) (newLen : Nat) : AbsString × Int :=
  if a.allocated then ({ a with bytes := a.bytes.take newLen, maxLen := newLen }, 0) else (a, -1)

/-- The concatenation, when the first string is large enough or can grow. -/
def AbsString.merge (a b : AbsString) : Option AbsString :=
  let total := a.bytes.length + b.bytes.length
  if total ≤ a.maxLen then
    some { a with bytes := a.bytes ++ b.bytes }
  else if a.allocated then
    some { a with bytes := a.bytes ++ b.bytes, maxLen := total }
  else
    none

/-- The calls on byte sequences.  A call with a length of `2 ^ 31` or more, with a source
    that is shorter than its length, or on a variable without a string is not accepted. -/
def absStep (vars : Nat → Option AbsString) :
    StrOp → Option ((Nat → Option AbsString) × Int)
  | .define var length => do
    cAssert (length < 2 ^ 31)
    return (Function.update vars var (some ⟨[], length, false⟩), 0)
  | .create var buf len _ => do
    cAssert (len < 2 ^ 31 ∧ ∀ src ∈ buf, len ≤ src.length)
    return (Function.update vars var (some ⟨(buf.getD []).take len, len, true⟩), 0)
  | .clone dest src _ => do
    let a ← vars src
    return (Function.update vars dest (some ⟨a.bytes, a.bytes.length, true⟩), 0)
  | .copy var mode str len => do
    cAssert (len < 2 ^ 31 ∧ len ≤ str.length)
    let a ← vars var
    return (Function.update vars var (some (a.copy mode (str.take len)).1),
      (a.copy mode (str.take len)).2)
  | .resize var newLen _ => do
    cAssert (newLen < 2 ^ 31)
    let a ← vars var
    return (Function.update vars var (some (a.resize newLen).1), (a.resize newLen).2)
  | .merge primary secondary _ => do
    cAssert (primary ≠ secondary)
    let a ← vars primary
    let b ← vars secondary
    match a.merge b with
    | some m =>
      cAssert (m.maxLen < 2 ^ 31)
      return (Function.update (Function.update vars primary (some m)) secondary none, 0)
    | none => return (vars, -1)
  | .flush var => do
    let a ← vars var
    return (Function.update vars var (some { a with bytes := [] }), 0)

/-! ## Representation -/

/-- The string `s` stands for the bytes of `a`; its buffer has `maxLen + 1` bytes. -/
structure StringRepr (s : StringT) (a : AbsString) : Prop where
  flags_eq : s.flags = if a.allocated then stringAllocated else 0
  len_eq : s.len = a.bytes.length
  maxLen_eq : s.maxLen = a.maxLen
  length_le : a.bytes.length ≤ a.maxLen
  maxLen_lt : a.maxLen < 2 ^ 31
  buf_eq : ∃ obj, s.buf = some obj ∧ obj.length = a.maxLen + 1 ∧
    obj.take a.bytes.length = a.bytes

/-- The terminator is written inside of the buffer and behind the kept bytes. -/
theorem writeAt_nul {obj : List UInt8} {m k : Nat} (hobj : obj.length = m + 1) (hk : k ≤ m) :
    ∃ obj', writeAt obj k [0] = some obj' ∧ obj'.length = m + 1 ∧ obj'.take k = obj.take k := by
  have hin : k + [(0 : UInt8)].length ≤ obj.length := by
    rw [hobj, List.length_singleton]
    omega
  exact ⟨_, writeAt_of_le hin, (length_splice hin).trans hobj,
    take_splice_of_le hin (Nat.le_refl k)⟩

namespace StringRepr

variable {s t : StringT} {a b : AbsString} {str : List UInt8} {len : Nat}

/-- Copying behind the first `start` bytes. -/
theorem stringCopyAt_spec (h : StringRepr s a) {start : Nat} (hstart : start ≤ a.bytes.length)
    (hstr : len ≤ str.length) (hfit : start + len ≤ a.maxLen) :
    ∃ s', stringCopyAt s start str len = some (s', (len : Int)) ∧
      StringRepr s' { a with bytes := a.bytes.take start ++ str.take len } := by
  obtain ⟨obj, hbuf, hobj, htake⟩ := h.buf_eq
  have hlt := h.maxLen_lt
  have hsrc : (str.take len).length = len := List.length_take_of_le hstr
  have hin : start + (str.take len).length ≤ obj.length := by
    rw [hsrc, hobj]
    omega
  have hcopy : memcpy obj start str len = some (splice obj start (str.take len)) :=
    memcpy_of_le hstr (by rwa [hsrc] at hin)
  have hend : castSize ((start : Int) + len) = start + len := castSize_eq (by omega) (by omega)
  -- the terminator may take the byte behind the capacity
  obtain ⟨obj', hnul, hobj', htake'⟩ := writeAt_nul ((length_splice hin).trans hobj) hfit
  have hbytes : (splice obj start (str.take len)).take (start + len) =
      a.bytes.take start ++ str.take len := by
    have hsplice := take_splice hin
    rw [hsrc] at hsplice
    rw [hsplice, ← htake, List.take_take, Nat.min_eq_left hstart]
  have hlen : (a.bytes.take start ++ str.take len).length = start + len := by
    rw [List.length_append, List.length_take, hsrc]
    omega
  refine ⟨{ s with buf := some obj', len := start + len }, ?_,
    ⟨h.flags_eq, hlen.symm, h.maxLen_eq, by rwa [hlen], hlt, obj', rfl, hobj', ?_⟩⟩
  · simp only [stringCopyAt, hbuf, cOffset_of_nonneg (Int.natCast_nonneg start), Int.toNat_natCast,
      hcopy, hend, hnul, Option.bind_eq_bind, Option.bind_some, Option.pure_def]
    rw [castInt_of_lt (by omega) (by omega)]
  · rw [hlen, htake', hbytes]

theorem stringStart_eq (h : StringRepr s a) (mode : StringMode) :
    stringStart s mode = ((if mode.appends then a.bytes else []).length : Nat) := by
  have hlt := h.maxLen_lt
  have hle := h.length_le
  have hlen : castInt s.len = (a.bytes.length : Int) := by
    rw [h.len_eq]
    exact castInt_of_lt (by omega) (by omega)
  cases mode with
  | c => rfl
  | cf => rfl
  | a => exact (if_pos (by decide)).trans hlen
  | af => exact (if_pos (by decide)).trans hlen

/-- `string_copy` replaces or extends the bytes. -/
theorem stringCopy_spec (h : StringRepr s a) (mode : StringMode) (hlt : len < 2 ^ 31)
    (hstr : len ≤ str.length) :
    ∃ s', stringCopy s mode str len = some (s', (a.copy mode (str.take len)).2) ∧
      StringRepr s' (a.copy mode (str.take len)).1 := by
  have hmax := h.maxLen_lt
  have hle := h.length_le
  have hsrc : (str.take len).length = len := List.length_take_of_le hstr
  -- the bytes that the mode keeps
  obtain ⟨old, hold⟩ : ∃ old, old = if mode.appends then a.bytes else [] := ⟨_, rfl⟩
  have hstart : stringStart s mode = (old.length : Nat) := hold ▸ h.stringStart_eq mode
  have hpre : old.length ≤ a.bytes.length ∧ a.bytes.take old.length = old := by
    rw [hold]
    cases mode.appends
    · exact ⟨Nat.zero_le _, rfl⟩
    · exact ⟨Nat.le_refl _, List.take_length⟩
  have hsum : castSize ((old.length : Int) + len) = old.length + len :=
    castSize_eq (by omega) (by omega)
  have hfill : (mode.chars[1]? ≠ some 'f') ↔ mode.fills = false := by
    cases mode <;> decide
  simp only [stringCopy, AbsString.copy, hstart, hsum, h.maxLen_eq, ← hold, hsrc, hfill]
  by_cases hfit : old.length + len ≤ a.maxLen
  · obtain ⟨s', hcopy, hrepr⟩ := h.stringCopyAt_spec hpre.1 hstr hfit
    rw [hpre.2] at hrepr
    rw [if_neg (by omega), if_pos hfit]
    exact ⟨s', hcopy, hrepr⟩
  · rw [if_pos (by omega), if_neg hfit]
    cases hm : mode.fills
    · exact ⟨s, rfl, h⟩
    · -- what is left of the buffer is filled
      have hroom : castSize ((a.maxLen : Int) - old.length) = a.maxLen - old.length :=
        castSize_eq (by omega) (by omega)
      have hmin : min (a.maxLen - old.length) len = a.maxLen - old.length := by omega
      have hcast : ((a.maxLen - old.length : Nat) : Int) = a.maxLen - old.length := by omega
      have hstr' : a.maxLen - old.length ≤ str.length := by omega
      obtain ⟨s', hcopy, hrepr⟩ := h.stringCopyAt_spec hpre.1 hstr' (by omega)
      rw [hpre.2] at hrepr
      rw [hcast] at hcopy
      simp only [hroom, List.take_take, hmin]
      exact ⟨s', hcopy, hrepr⟩

/-- `string_resize` of an allocated string truncates, otherwise it fails. -/
theorem stringResize_spec (h : StringRepr s a) (junk : Nat → UInt8) {newLen : Nat}
    (hlt : newLen < 2 ^ 31) :
    ∃ s', stringResize junk s newLen = some (s', (a.resize newLen).2) ∧
      StringRepr s' (a.resize newLen).1 := by
  have hflags := h.flags_eq
  cases halloc : a.allocated
  · refine ⟨s, ?_, ?_⟩
    · rw [halloc] at hflags
      simp only [stringResize, hflags, AbsString.resize, halloc]
      rfl
    · simp only [AbsString.resize, halloc]
      exact h
  · obtain ⟨obj, hbuf, hobj, htake⟩ := h.buf_eq
    have hle := h.length_le
    have hsize : castSize ((newLen : Int) + 1) = newLen + 1 := castSize_eq (by omega) (by omega)
    -- `safe_realloc` keeps what fits, and the terminator is written behind it
    obtain ⟨obj', hnul, hobj', htake'⟩ :=
      writeAt_nul (length_safeRealloc junk obj (newLen + 1)) (Nat.le_refl newLen)
    have hlen : (a.bytes.take newLen).length = min newLen a.bytes.length := List.length_take
    have hbytes : obj'.take (min newLen a.bytes.length) = a.bytes.take newLen := by
      have hkept : obj'.take (min newLen a.bytes.length) =
          (safeRealloc junk obj (newLen + 1)).take (min newLen a.bytes.length) :=
        take_eq_of_le (Nat.min_le_left _ _) htake'
      rw [hkept, take_safeRealloc junk (by omega) (by omega), ← List.take_take, htake]
    refine ⟨{ s with buf := some obj', len := min newLen a.bytes.length, maxLen := newLen },
      ?_, ?_⟩
    · have hne : s.flags &&& stringAllocated ≠ 0 := by
        rw [hflags, halloc]
        decide
      have hmin : (if s.len > newLen then newLen else s.len) = min newLen a.bytes.length := by
        rw [h.len_eq]
        split <;> omega
      simp only [stringResize, if_neg hne, hbuf, Option.getD_some, hsize, hnul, hmin,
        Option.bind_eq_bind, Option.bind_some, AbsString.resize, halloc, ↓reduceIte]
      rfl
    · simp only [AbsString.resize, halloc, ↓reduceIte]
      refine ⟨by rw [hflags, halloc], hlen.symm, rfl, ?_, hlt, obj', rfl, hobj', ?_⟩
      · rw [hlen]
        exact Nat.min_le_left _ _
      · rw [hlen]
        exact hbytes

/-- Appending the bytes of another string that fit. -/
theorem stringCopy_append (h : StringRepr s a) (ht : StringRepr t b)
    (hfit : a.bytes.length + b.bytes.length ≤ a.maxLen) :
    ∃ str s' ret, t.buf = some str ∧ stringCopy s .a str t.len = some (s', ret) ∧
      StringRepr s' { a with bytes := a.bytes ++ b.bytes } := by
  obtain ⟨str, hbuf, hobj, htake⟩ := ht.buf_eq
  have hle := ht.length_le
  have hlt := ht.maxLen_lt
  have hstr : b.bytes.length ≤ str.length := by omega
  obtain ⟨s', hcopy, hrepr⟩ := h.stringCopy_spec .a (by omega) hstr
  -- everything fits, so nothing is cut
  have happ : (a.copy .a b.bytes).1 = { a with bytes := a.bytes ++ b.bytes } := by
    simp only [AbsString.copy, StringMode.appends, true_or, decide_true, ↓reduceIte,
      if_pos hfit]
  rw [htake, happ] at hrepr
  rw [← ht.len_eq] at hcopy
  exact ⟨str, s', _, hbuf, hcopy, hrepr⟩

/-- The length that `string_merge` computes. -/
theorem mergeTarget_eq (h : StringRepr s a) (ht : StringRepr t b) :
    castSize ((s.len : Int) + t.len) = a.bytes.length + b.bytes.length := by
  have hmax := h.maxLen_lt
  have hmax' := ht.maxLen_lt
  have hle := h.length_le
  have hle' := ht.length_le
  rw [h.len_eq, ht.len_eq]
  exact castSize_eq (by omega) (by omega)

/-- `string_merge` of a string that cannot hold both fails without a change. -/
theorem stringMerge_of_none (h : StringRepr s a) (ht : StringRepr t b) (junk : Nat → UInt8)
    (hm : a.merge b = none) : stringMerge junk s t = some (s, t, -1) := by
  have htotal := h.mergeTarget_eq ht
  by_cases hfit : a.bytes.length + b.bytes.length ≤ a.maxLen
  · simp only [AbsString.merge, if_pos hfit] at hm
    cases hm
  · cases halloc : a.allocated
    · have hflags : s.flags &&& stringAllocated = 0 := by
        rw [h.flags_eq, halloc]
        decide
      simp only [stringMerge, htotal, h.maxLen_eq, if_pos (Nat.lt_of_not_le hfit), stringResize,
        hflags, ↓reduceIte, Option.bind_eq_bind, Option.bind_some]
      rfl
    · simp only [AbsString.merge, if_neg hfit, halloc, ↓reduceIte] at hm
      cases hm

/-- Otherwise it concatenates and destroys the second string. -/
theorem stringMerge_of_some (h : StringRepr s a) (ht : StringRepr t b) (junk : Nat → UInt8)
    {m : AbsString} (hm : a.merge b = some m) (hlt : m.maxLen < 2 ^ 31) :
    ∃ s', stringMerge junk s t = some (s', stringDestroy t, 0) ∧ StringRepr s' m := by
  have htotal := h.mergeTarget_eq ht
  by_cases hfit : a.bytes.length + b.bytes.length ≤ a.maxLen
  · obtain ⟨str, s', ret, hbuf, hcopy, hrepr⟩ := h.stringCopy_append ht hfit
    simp only [AbsString.merge, if_pos hfit, Option.some.injEq] at hm
    subst hm
    refine ⟨s', ?_, hrepr⟩
    simp only [stringMerge, htotal, h.maxLen_eq, Option.bind_eq_bind]
    rw [if_neg (Nat.not_lt.mpr hfit), Option.bind_some, if_neg (fun hne => hne rfl), hbuf,
      Option.bind_some, hcopy]
    rfl
  · cases halloc : a.allocated
    · simp only [AbsString.merge, if_neg hfit, halloc, Bool.false_eq_true, ↓reduceIte] at hm
      cases hm
    · -- the first string grows to the exact length
      simp only [AbsString.merge, if_neg hfit, halloc, ↓reduceIte, Option.some.injEq] at hm
      subst hm
      obtain ⟨s₁, hresize, hrepr₁⟩ := h.stringResize_spec junk hlt
      simp only [AbsString.resize, halloc, ↓reduceIte] at hresize hrepr₁
      rw [List.take_of_length_le (by omega)] at hrepr₁
      obtain ⟨str, s', ret, hbuf, hcopy, hrepr⟩ :=
        hrepr₁.stringCopy_append ht (Nat.le_refl _)
      refine ⟨s', ?_, hrepr⟩
      simp only [stringMerge, htotal, h.maxLen_eq, Option.bind_eq_bind]
      rw [if_pos (Nat.lt_of_not_le hfit), hresize, Option.bind_some, if_neg (fun hne => hne rfl), hbuf,
        Option.bind_some, hcopy]
      rfl

/-- `str_flush` empties the string. -/
theorem strFlush_spec (h : StringRepr s a) :
    ∃ s', strFlush s = some s' ∧ StringRepr s' { a with bytes := [] } := by
  obtain ⟨obj, hbuf, hobj, _⟩ := h.buf_eq
  obtain ⟨obj', hnul, hobj', _⟩ := writeAt_nul hobj (Nat.zero_le a.maxLen)
  refine ⟨{ s with buf := some obj', len := 0 }, ?_,
    ⟨h.flags_eq, rfl, h.maxLen_eq, Nat.zero_le _, h.maxLen_lt, obj', rfl, hobj', rfl⟩⟩
  simp only [strFlush, hbuf, hnul, Option.bind_eq_bind, Option.bind_some]
  rfl

end StringRepr

theorem stringDef_repr {length : Nat} (hlt : length < 2 ^ 31) :
    StringRepr (stringDef length) ⟨[], length, false⟩ :=
  ⟨rfl, rfl, rfl, Nat.zero_le _, hlt, _, rfl, List.length_replicate, rfl⟩

/-- `string_create` holds a copy of its source. -/
theorem stringCreate_spec (junk : Nat → UInt8) {buf : Option (List UInt8)} {len : Nat}
    (hlt : len < 2 ^ 31) (hbuf : ∀ src ∈ buf, len ≤ src.length) :
    ∃ s, stringCreate junk buf len = some s ∧
      StringRepr s ⟨(buf.getD []).take len, len, true⟩ := by
  have hsize : castSize ((len : Int) + 1) = len + 1 := castSize_eq (by omega) (by omega)
  cases buf with
  | none =>
    obtain ⟨obj, hnul, hobj, _⟩ :=
      writeAt_nul (length_safeMalloc junk (len + 1)) (Nat.le_refl len)
    refine ⟨⟨stringAllocated, some obj, 0, len⟩, ?_, ⟨rfl, ?_, rfl, ?_, hlt, obj, rfl, hobj, ?_⟩⟩
    · simp only [stringCreate, hsize, hnul, Option.bind_eq_bind, Option.bind_some]
      rfl
    · rw [Option.getD_none, List.take_nil, List.length_nil]
    · rw [Option.getD_none, List.take_nil]
      exact Nat.zero_le _
    · rw [Option.getD_none, List.take_nil]
      rfl
  | some src =>
    have hsrc : (src.take len).length = len := List.length_take_of_le (hbuf src rfl)
    have hin : 0 + (src.take len).length ≤ (safeMalloc junk (len + 1)).length := by
      rw [hsrc, length_safeMalloc]
      omega
    have hcopy : memcpy (safeMalloc junk (len + 1)) 0 src len =
        some (splice (safeMalloc junk (len + 1)) 0 (src.take len)) :=
      memcpy_of_le (hbuf src rfl) (by rwa [hsrc] at hin)
    obtain ⟨obj, hnul, hobj, htake⟩ :=
      writeAt_nul ((length_splice hin).trans (length_safeMalloc junk (len + 1))) (Nat.le_refl len)
    -- the terminator is behind the copy
    have hbytes : obj.take len = src.take len := by
      have hsplice := take_splice hin
      rw [hsrc, Nat.zero_add, List.take_zero, List.nil_append] at hsplice
      rw [htake, hsplice]
    refine ⟨⟨stringAllocated, some obj, len, len⟩, ?_,
      ⟨rfl, hsrc.symm, rfl, Nat.le_of_eq hsrc, hlt, obj, rfl, hobj, ?_⟩⟩
    · simp only [stringCreate, hsize, hcopy, hnul, Option.bind_eq_bind, Option.bind_some]
      rfl
    · rw [Option.getD_some, hsrc]
      exact hbytes

/-- `string_clone` copies exactly the bytes. -/
theorem StringRepr.stringClone_spec {s : StringT} {a : AbsString} (h : StringRepr s a)
    (junk : Nat → UInt8) :
    ∃ d, stringClone junk s = some d ∧ StringRepr d ⟨a.bytes, a.bytes.length, true⟩ := by
  obtain ⟨obj, hbuf, hobj, htake⟩ := h.buf_eq
  have hle := h.length_le
  have hlt := h.maxLen_lt
  have hlen : a.bytes.length < 2 ^ 31 := by omega
  have hsrc : ∀ src ∈ some obj, a.bytes.length ≤ src.length := by
    intro src hsrc
    obtain rfl := Option.some.inj hsrc
    omega
  obtain ⟨d, hcreate, hrepr⟩ := stringCreate_spec junk hlen hsrc
  rw [Option.getD_some, htake] at hrepr
  refine ⟨d, ?_, hrepr⟩
  rw [stringClone, hbuf, h.len_eq, hcreate]

/-! ## Refinement -/

/-- A variable without a string is undefined or destroyed. -/
def SlotRepr (slot : Option StringT) : Option AbsString → Prop
  | some a => ∃ s, slot = some s ∧ StringRepr s a
  | none => ∀ s ∈ slot, s.buf = none

theorem SlotRepr.live {s : StringT} {a : AbsString} (h : StringRepr s a) :
    SlotRepr (some s) (some a) := ⟨s, rfl, h⟩

/-- Every variable stands for its byte sequence. -/
def VarsRepr (vars : Nat → Option StringT) (abs : Nat → Option AbsString) : Prop :=
  ∀ var, SlotRepr (vars var) (abs var)

namespace VarsRepr

variable {vars : Nat → Option StringT} {abs abs' : Nat → Option AbsString}

theorem nil : VarsRepr (fun _ => none) (fun _ => none) := by
  intro var s hs
  cases hs

theorem update (h : VarsRepr vars abs) (var : Nat) {slot : Option StringT}
    {x : Option AbsString} (hx : SlotRepr slot x) :
    VarsRepr (Function.update vars var slot) (Function.update abs var x) := by
  intro v
  by_cases hv : v = var
  · rw [hv, Function.update_self, Function.update_self]
    exact hx
  · rw [Function.update_of_ne hv, Function.update_of_ne hv]
    exact h v

/-- The string of a variable that has one. -/
theorem live (h : VarsRepr vars abs) {var : Nat} {a : AbsString} (ha : abs var = some a) :
    ∃ s, vars var = some s ∧ StringRepr s a := by
  have hslot := h var
  rw [ha] at hslot
  exact hslot

/-- Every accepted call keeps the representation and returns the same. -/
theorem strStep_refines (h : VarsRepr vars abs) {op : StrOp} {ret : Int}
    (hop : absStep abs op = some (abs', ret)) :
    ∃ vars', strStep vars op = some (vars', ret) ∧ VarsRepr vars' abs' := by
  cases op with
  | define var length =>
    obtain ⟨_, hlt, hop⟩ := Option.bind_eq_some_iff.mp hop
    simp only [Option.pure_def, Option.some.injEq, Prod.mk.injEq] at hop
    obtain ⟨rfl, rfl⟩ := hop
    exact ⟨_, rfl, h.update var (SlotRepr.live (stringDef_repr (of_cAssert hlt)))⟩
  | create var buf len junk =>
    obtain ⟨_, hassert, hop⟩ := Option.bind_eq_some_iff.mp hop
    simp only [Option.pure_def, Option.some.injEq, Prod.mk.injEq] at hop
    obtain ⟨rfl, rfl⟩ := hop
    obtain ⟨hlt, hsrc⟩ := of_cAssert hassert
    obtain ⟨s, hcreate, hrepr⟩ := stringCreate_spec junk hlt hsrc
    refine ⟨Function.update vars var (some s), ?_, h.update var (SlotRepr.live hrepr)⟩
    rw [strStep, hcreate]
    rfl
  | clone dest src junk =>
    obtain ⟨a, ha, hop⟩ := Option.bind_eq_some_iff.mp hop
    simp only [Option.pure_def, Option.some.injEq, Prod.mk.injEq] at hop
    obtain ⟨rfl, rfl⟩ := hop
    obtain ⟨s, hs, hrepr⟩ := h.live ha
    obtain ⟨d, hclone, hd⟩ := hrepr.stringClone_spec junk
    refine ⟨Function.update vars dest (some d), ?_, h.update dest (SlotRepr.live hd)⟩
    rw [strStep, hs, Option.bind_eq_bind, Option.bind_some, hclone]
    rfl
  | copy var mode str len =>
    obtain ⟨_, hassert, hop⟩ := Option.bind_eq_some_iff.mp hop
    obtain ⟨a, ha, hop⟩ := Option.bind_eq_some_iff.mp hop
    simp only [Option.pure_def, Option.some.injEq, Prod.mk.injEq] at hop
    obtain ⟨rfl, rfl⟩ := hop
    obtain ⟨hlt, hstr⟩ := of_cAssert hassert
    obtain ⟨s, hs, hrepr⟩ := h.live ha
    obtain ⟨s', hcopy, hrepr'⟩ := hrepr.stringCopy_spec mode hlt hstr
    refine ⟨Function.update vars var (some s'), ?_, h.update var (SlotRepr.live hrepr')⟩
    rw [strStep, hs, Option.bind_eq_bind, Option.bind_some, hcopy]
    rfl
  | resize var newLen junk =>
    obtain ⟨_, hassert, hop⟩ := Option.bind_eq_some_iff.mp hop
    obtain ⟨a, ha, hop⟩ := Option.bind_eq_some_iff.mp hop
    simp only [Option.pure_def, Option.some.injEq, Prod.mk.injEq] at hop
    obtain ⟨rfl, rfl⟩ := hop
    obtain ⟨s, hs, hrepr⟩ := h.live ha
    obtain ⟨s', hresize, hrepr'⟩ := hrepr.stringResize_spec junk (of_cAssert hassert)
    refine ⟨Function.update vars var (some s'), ?_, h.update var (SlotRepr.live hrepr')⟩
    rw [strStep, hs, Option.bind_eq_bind, Option.bind_some, hresize]
    rfl
  | merge primary secondary junk =>
    obtain ⟨_, _, hop⟩ := Option.bind_eq_some_iff.mp hop
    obtain ⟨a, ha, hop⟩ := Option.bind_eq_some_iff.mp hop
    obtain ⟨b, hb, hop⟩ := Option.bind_eq_some_iff.mp hop
    obtain ⟨s, hs, hrepr⟩ := h.live ha
    obtain ⟨t, ht, hrepr_t⟩ := h.live hb
    cases hm : a.merge b with
    -- the second string is destroyed
    | some m =>
      rw [hm] at hop
      obtain ⟨_, hlt, hop⟩ := Option.bind_eq_some_iff.mp hop
      simp only [Option.pure_def, Option.some.injEq, Prod.mk.injEq] at hop
      obtain ⟨rfl, rfl⟩ := hop
      obtain ⟨s', hmerge, hrepr'⟩ :=
        hrepr.stringMerge_of_some hrepr_t junk hm (of_cAssert hlt)
      refine ⟨Function.update (Function.update vars primary (some s')) secondary
        (some (stringDestroy t)), ?_, (h.update primary (SlotRepr.live hrepr')).update secondary ?_⟩
      · rw [strStep, hs, Option.bind_eq_bind, Option.bind_some, ht, Option.bind_eq_bind,
          Option.bind_some, hmerge]
        rfl
      · intro s hs
        obtain rfl := Option.some.inj hs
        rfl
    | none =>
      rw [hm] at hop
      simp only [Option.pure_def, Option.some.injEq, Prod.mk.injEq] at hop
      obtain ⟨rfl, rfl⟩ := hop
      -- neither string has changed
      have hsame : Function.update (Function.update vars primary (some s)) secondary (some t) =
          vars := by
        rw [← hs, Function.update_eq_self, ← ht, Function.update_eq_self]
      refine ⟨vars, ?_, h⟩
      rw [strStep, hs, Option.bind_eq_bind, Option.bind_some, ht, Option.bind_eq_bind,
        Option.bind_some, hrepr.stringMerge_of_none hrepr_t junk hm, Option.bind_some]
      exact congrArg (fun v => some (v, (-1 : Int))) hsame
  | flush var =>
    obtain ⟨a, ha, hop⟩ := Option.bind_eq_some_iff.mp hop
    simp only [Option.pure_def, Option.some.injEq, Prod.mk.injEq] at hop
    obtain ⟨rfl, rfl⟩ := hop
    obtain ⟨s, hs, hrepr⟩ := h.live ha
    obtain ⟨s', hflush, hrepr'⟩ := hrepr.strFlush_spec
    refine ⟨Function.update vars var (some s'), ?_, h.update var (SlotRepr.live hrepr')⟩
    rw [strStep, hs, Option.bind_eq_bind, Option.bind_some, hflush]
    rfl

/-- The run lemma, from any state. -/
theorem runOut_refines (h : VarsRepr vars abs) {ops : List StrOp} {rets : List Int}
    (hops : runOut absStep abs ops = some (abs', rets)) :
    ∃ vars', runOut strStep vars ops = some (vars', rets) ∧ VarsRepr vars' abs' := by
  have hsim : ∀ vars abs op abs' ret, VarsRepr vars abs → absStep abs op = some (abs', ret) →
      ∃ vars', strStep vars op = some (vars', ret) ∧ VarsRepr vars' abs' :=
    fun vars abs op abs' ret hR hop => hR.strStep_refines hop
  exact runOut_simulation hsim h hops

end VarsRepr

/-- Every program whose calls are accepted runs without leaving a buffer, its calls
    return what those on byte sequences return, and its strings stand for these. -/
theorem strlib_refines {ops : List StrOp} {abs : Nat → Option AbsString} {rets : List Int}
    (h : runOut absStep (fun _ => none) ops = some (abs, rets)) :
    ∃ vars, runOut strStep (fun _ => none) ops = some (vars, rets) ∧ VarsRepr vars abs :=
  VarsRepr.nil.runOut_refines h

/-- Two strings of four and two bytes: appending four bytes behind two fails, filling
    keeps two of them, and the merge needs a string that can grow. -/
theorem strlib_refines_program : ∃ vars abs,
    runOut strStep (fun _ => none)
      [.define 0 4, .copy 0 .c [97, 98] 2, .copy 0 .a [99, 100, 101, 102] 4,
        .copy 0 .af [99, 100, 101, 102] 4, .create 1 (some [49, 50]) 2 (fun _ => 7),
        .merge 0 1 (fun _ => 7), .merge 1 0 (fun _ => 7), .resize 1 5 (fun _ => 7),
        .clone 2 1 (fun _ => 7), .flush 1] =
      some (vars, [0, 2, -1, 2, 0, -1, 0, 0, 0, 0]) ∧
    VarsRepr vars abs ∧ abs 0 = none ∧ abs 1 = some ⟨[], 5, true⟩ ∧
      abs 2 = some ⟨[49, 50, 97, 98, 99], 5, true⟩ := by
  obtain ⟨vars, hrun, hrepr⟩ := strlib_refines
    (rfl : runOut absStep (fun _ => none)
      [.define 0 4, .copy 0 .c [97, 98] 2, .copy 0 .a [99, 100, 101, 102] 4,
        .copy 0 .af [99, 100, 101, 102] 4, .create 1 (some [49, 50]) 2 (fun _ => 7),
        .merge 0 1 (fun _ => 7), .merge 1 0 (fun _ => 7), .resize 1 5 (fun _ => 7),
        .clone 2 1 (fun _ => 7), .flush 1] =
      some (_, [0, 2, -1, 2, 0, -1, 0, 0, 0, 0]))
  exact ⟨vars, _, hrun, hrepr, rfl, rfl, rfl⟩

end CUtils
