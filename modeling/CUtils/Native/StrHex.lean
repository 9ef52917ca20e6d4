import CUtils.Native.StrUtils
import CUtils.Native.Utils

/-!
# Hexadecimal strings

`atohstr` and `hstrtoa` of `strutils.c`.  An access outside of an array and an overflow of
an `int` fault (`none`).
-/

namespace CUtils

/-- `hex2int(ch)`. -/
def hex2int (ch : Int8) : Int32 :=
  if ch ≥ 48 ∧ ch ≤ 57 then ch.toInt32 - 48
  else
    let ch := ch &&& ~~~0x20
    if ch ≥ 65 ∧ ch ≤ 70 then ch.toInt32 - 65 + 10
    else -1

/-- `int2hex(v)`. -/
def int2hex (v : Int32) : Int8 :=
  let v := v &&& 0x0f
  if v ≥ 0 ∧ v ≤ 9 then (48 + v).toInt8 else (65 + (v - 10)).toInt8

/-- A byte in an expression is promoted to `int`. -/
def byteToInt (b : UInt8) : Int32 := b.toUInt32.toInt32

/-- The body of the loop of `atohstr`. -/
def atohstrBody (arr : List UInt8) (hstr : List Int8) (i : Nat) : Option (List Int8) := do
  let b ← arr[i]?
  let j ← cInt (i * 2 + 0)
  let hstr ← writeAt hstr j.toNat [int2hex (byteToInt b >>> 4)]
  let j ← cInt (i * 2 + 1)
  writeAt hstr j.toNat [int2hex (byteToInt b)]

/-- `atohstr(hstr, arr, arr_len)`. -/
def atohstr (hstr : List Int8) (arr : List UInt8) (arrLen : Int) : Option (List Int8 × Int) := do
  let hstr ← (List.range arrLen.toNat).foldlM (atohstrBody arr) hstr
  let j ← cInt (arrLen.toNat * 2)
  let hstr ← writeAt hstr j.toNat [0]
  return (hstr, 0)

/-- `nib1 << 4 | nib2`, stored in a byte. -/
def nibbles (nib1 nib2 : Int32) : UInt8 := (nib1 <<< 4 ||| nib2).toUInt32.toUInt8

/-- The loop of `hstrtoa` from `i` on, `n` iterations before its end. -/
def hstrtoaLoop (hstr : List Int8) (len : Int) : Nat → Nat → List UInt8 →
    Option (List UInt8 × Int)
  | 0, _, arr => some (arr, len)
  | n + 1, i, arr => do
    let nib1 := hex2int (← hstr[i * 2 + 0]?)
    let nib2 := hex2int (← hstr[i * 2 + 1]?)
    if nib1 = -1 ∨ nib2 = -1 then
      return (arr, -1)
    else
      let arr ← writeAt arr i [nibbles nib1 nib2]
      hstrtoaLoop hstr len n (i + 1) arr

/-- `hstrtoa(arr, hstr)`.  The length is converted to an `int`, which may be negative. -/
def hstrtoa (arr : List UInt8) (hstr : CString) : Option (List UInt8 × Int) :=
  let len := castInt hstr.chars.length
  if len % 2 = 1 ∨ len = 0 then
    -- must have an even number of characters
    some (arr, -1)
  else
    let len := len.tdiv 2
    hstrtoaLoop (hstr.chars ++ [0]) len len.toNat 0 arr

end CUtils
