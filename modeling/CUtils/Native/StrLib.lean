import CUtils.Native.Utils
import Mathlib.Logic.Function.Basic

/-!
# String library

The strings of `strlib.c`.  A `string_t` is modelled with the object its `buf` points
to, so two strings never share a buffer.  A result `none` means that the C code would
leave an object, follow NULL or overflow an `int`.
-/

namespace CUtils

/-- `STRING_ALLOCATED`. -/
def stringAllocated : UInt32 := 1

/-- `string_t`; a NULL `buf` is `none`. -/
structure StringT where
  flags : UInt32
  buf : Option (List UInt8)
  len : Nat
  maxLen : Nat
deriving DecidableEq

/-- The modes of `string_copy`. -/
inductive StringMode
  | c
  | a
  | cf
  | af
deriving DecidableEq

/-- The characters of a mode before the terminator. -/
def StringMode.chars : StringMode → List Char
  | .c => ['c']
  | .a => ['a']
  | .cf => ['c', 'f']
  | .af => ['a', 'f']

/-- `STRING_DEF(str, length)`. -/
def stringDef (length : Nat) : StringT where
  flags := 0
  buf := some (List.replicate (length + 1) 0)
  len := 0
  maxLen := length

/-- `string_create(s, buf, len)`. -/
def stringCreate (junk : Nat → UInt8) (buf : Option (List UInt8)) (len : Nat) :
    Option StringT := do
  let obj := safeMalloc junk (castSize (len + 1))
  match buf with
  | none =>
    let obj ← writeAt obj len [0]
    return { flags := stringAllocated, buf := some obj, len := 0, maxLen := len }
  | some buf =>
    let obj ← memcpy obj 0 buf len
    let obj ← writeAt obj len [0]
    return { flags := stringAllocated, buf := some obj, len, maxLen := len }

/-- `string_clone(dest, src)`. -/
def stringClone (junk : Nat → UInt8) (src : StringT) : Option StringT :=
  stringCreate junk src.buf src.len

/-- `string_resize(s, new_len)`. -/
def stringResize (junk : Nat → UInt8) (s : StringT) (newLen : Nat) : Option (StringT × Int) :=
  if s.flags &&& stringAllocated = 0 then
    some (s, -1)
  else do
    let obj := safeRealloc junk (s.buf.getD []) (castSize (newLen + 1))
    let len := if s.len > newLen then newLen else s.len
    let obj ← writeAt obj newLen [0]
    return ({ s with buf := some obj, len, maxLen := newLen }, 0)

/-- `string_destroy(s)`; the freed object is dropped. -/
def stringDestroy (_s : StringT) : StringT where
  flags := 0
  buf := none
  len := 0
  maxLen := 0

/-- `(mode[0] == 'a') ? s->len : 0`, stored in an `int`. -/
def stringStart (s : StringT) (mode : StringMode) : Int :=
  if mode.chars[0]? = some 'a' then castInt s.len else 0

/-- The end of `string_copy`: copy the bytes and terminate the string. -/
def stringCopyAt (s : StringT) (start : Int) (str : List UInt8) (len : Nat) :
    Option (StringT × Int) := do
  let obj ← s.buf
  let off ← cOffset start
  let obj ← memcpy obj off str len
  let newLen := castSize (start + len)
  let obj ← writeAt obj newLen [0]
  return ({ s with buf := some obj, len := newLen }, castInt len)

/-- `string_copy(s, mode, str, len)`. -/
def stringCopy (s : StringT) (mode : StringMode) (str : List UInt8) (len : Nat) :
    Option (StringT × Int) :=
  let start := stringStart s mode
  if castSize (start + len) > s.maxLen then
    if mode.chars[1]? ≠ some 'f' then
      some (s, -1)
    else
      stringCopyAt s start str (castSize (s.maxLen - start))
  else
    stringCopyAt s start str len

/-- `string_merge(primary, secondary)`. -/
def stringMerge (junk : Nat → UInt8) (primary secondary : StringT) :
    Option (StringT × StringT × Int) := do
  let target := castSize (primary.len + secondary.len)
  let (primary, rc) ←
    if target > primary.maxLen then stringResize junk primary target else some (primary, 0)
  if rc ≠ 0 then
    return (primary, secondary, -1)
  else
    let str ← secondary.buf
    let (primary, _) ← stringCopy primary .a str secondary.len
    return (primary, stringDestroy secondary, 0)

/-- `str_flush(s)`. -/
def strFlush (s : StringT) : Option StringT := do
  let obj ← s.buf
  let obj ← writeAt obj 0 [0]
  return { s with buf := some obj, len := 0 }

/-! ## Texts that are measured -/

/-- `strlen` of the bytes at a pointer; there has to be a terminator. -/
def strlenBytes (obj : List UInt8) : Option Nat :=
  if 0 ∈ obj then some (cstring obj).length else none

/-- The bytes of a `string_t` in memory: `flags`, and the other fields in `rest`. -/
def stringBytes (s : StringT) (rest : List UInt8) : List UInt8 :=
  leBytes 4 s.flags.toNat ++ rest

/-- `str_const_append(s, str)`. -/
def strConstAppend (s : StringT) (str : List UInt8) : Option (StringT × Int) := do
  let len ← strlenBytes str
  stringCopy s .a str len

/-- `str_const_copy(s, str)`: the length is `strlen(s)`. -/
def strConstCopy (s : StringT) (rest str : List UInt8) : Option (StringT × Int) := do
  let len ← strlenBytes (stringBytes s rest)
  stringCopy s .c str len

/-! ## Formatted printing -/

/-- What `vsnprintf` makes of its format and arguments: a text, or an encoding error,
    a negative result that may come after some bytes were stored. -/
inductive VsnprintfOutcome
  | text (t : List UInt8)
  | error (ret : Int) (neg : -intMax - 1 ≤ ret ∧ ret < 0) (stored : List UInt8)

/-- The value returned: the length of the whole text, also when it was cut. -/
def VsnprintfOutcome.ret : VsnprintfOutcome → Int
  | .text t => t.length
  | .error ret _ _ => ret

/-- The bytes stored in a buffer of `size > 0` bytes. -/
def VsnprintfOutcome.stored (size : Nat) : VsnprintfOutcome → List UInt8
  | .text t => t.take (size - 1) ++ [0]
  | .error _ _ stored => stored.take size

/-- `vsnprintf(buf + start, size, fmt, args)`.  Nothing is stored when `size` is 0, and
    a result that is not an `int` faults. -/
def vsnprintf (buf : Option (List UInt8)) (start : Int) (size : Nat) (out : VsnprintfOutcome) :
    Option (Option (List UInt8) × Int) := do
  let ret ← cInt out.ret
  if size = 0 then
    return (buf, ret)
  else
    let obj ← buf
    let off ← cOffset start
    let obj ← writeAt obj off (out.stored size)
    return (some obj, ret)

/-- `string_printf(s, mode, fmt, ...)`. -/
def stringPrintf (s : StringT) (mode : StringMode) (out : VsnprintfOutcome) :
    Option (StringT × Int) := do
  let start := stringStart s mode
  let (buf, ret) ← vsnprintf s.buf start (castSize (s.maxLen - start)) out
  let newLen ← cInt (start + ret)
  if newLen ≥ castInt s.maxLen then
    return ({ s with buf }, -1)
  else
    let obj ← buf
    let obj ← writeAt obj (castSize newLen) [0]
    return ({ s with buf := some obj, len := castSize newLen }, ret)

/-! ## Programs with string variables -/

/-- The calls of a program; `junk` is what fresh memory holds. -/
inductive StrOp
  | define (var length : Nat)
  | create (var : Nat) (buf : Option (List UInt8)) (len : Nat) (junk : Nat → UInt8)
  | clone (dest src : Nat) (junk : Nat → UInt8)
  | copy (var : Nat) (mode : StringMode) (str : List UInt8) (len : Nat)
  | resize (var newLen : Nat) (junk : Nat → UInt8)
  | merge (primary secondary : Nat) (junk : Nat → UInt8)
  | flush (var : Nat)

/-- One call, with its return value (0 for `void`).  The variables that have not been
    defined are `none`. -/
def strStep (vars : Nat → Option StringT) : StrOp → Option ((Nat → Option StringT) × Int)
  | .define var length => some (Function.update vars var (some (stringDef length)), 0)
  | .create var buf len junk => do
    let s ← stringCreate junk buf len
    return (Function.update vars var (some s), 0)
  | .clone dest src junk => do
    let s ← vars src
    let d ← stringClone junk s
    return (Function.update vars dest (some d), 0)
  | .copy var mode str len => do
    let s ← vars var
    let (s, ret) ← stringCopy s mode str len
    return (Function.update vars var (some s), ret)
  | .resize var newLen junk => do
    let s ← vars var
    let (s, ret) ← stringResize junk s newLen
    return (Function.update vars var (some s), ret)
  | .merge primary secondary junk => do
    let p ← vars primary
    let q ← vars secondary
    let (p, q, ret) ← stringMerge junk p q
    return (Function.update (Function.update vars primary (some p)) secondary (some q), ret)
  | .flush var => do
    let s ← vars var
    let s ← strFlush s
    return (Function.update vars var (some s), 0)

end CUtils
