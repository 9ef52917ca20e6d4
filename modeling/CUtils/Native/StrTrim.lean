import CUtils.Native.Tokens

/-!
# Trimming strings in place

`trim_suffix`, `rstrip`, `lstrip` and `strip` of `strutils.c`.  A pointer to a string is the
buffer that starts there.  A read or a store outside of a buffer and an overflow of an
`int` fault (`none`).
-/

namespace CUtils

/-! ## trim_suffix -/

/-- The loop of `trim_suffix`, with the value of `j` where that is not negative: the last
    value of `i`. -/
def trimSuffixLoop (str suffix : List Int8) : Nat → Int → Option Int
  | 0, i => some i
  | j + 1, i => do
    let k ← cOffset (i - 1)
    let c ← str[k]?
    let d ← suffix[j]?
    if c = d then trimSuffixLoop str suffix j (i - 1) else return i

/-- `trim_suffix(str, suffix)`: the buffer of `str` and the result. -/
def trimSuffix (str suffix : Option (List Int8)) : Option (Option (List Int8) × Int) :=
  match str, suffix with
  | some str, some suffix => do
    let i := castInt (← strlen str)
    let j := castInt (← strlen suffix)
    if j > i then
      return (some str, -1)
    else
      let i ← trimSuffixLoop str suffix j.toNat i
      let k ← cOffset i
      let str ← writeAt str k [0]
      return (some str, 0)
  | str, _ => some (str, -1)

/-! ## rstrip, lstrip and strip -/

/-- The loop of `rstrip`: the buffer and the last value of `i`. -/
def rstripLoop : Nat → List Int8 → Option (List Int8 × Nat)
  | 0, str => some (str, 0)
  | i + 1, str => do
    let c ← str[i]?
    if c = 32 then
      let str ← writeAt str i [0]
      rstripLoop i str
    else return (str, i + 1)

/-- `rstrip(str)`. -/
def rstrip (str : List Int8) : Option (List Int8 × Int) := do
  let i := castInt (← strlen str)
  if i > 0 then
    let (str, i) ← rstripLoop i.toNat str
    return (str, i)
  else
    return (str, i)

/-- The second loop of `lstrip`, when `n` characters of the buffer are left from `str[i]`
    on: the buffer and the last value of `j`. -/
def lstripLoop : Nat → List Int8 → Nat → Nat → Option (List Int8 × Nat)
  | 0, _, _, _ => none
  | n + 1, str, i, j => do
    let c ← str[i]?
    if c ≠ 0 then
      let str ← writeAt str j [c]
      let i ← cInt (i + 1)
      let j ← cInt (j + 1)
      lstripLoop n str i.toNat j.toNat
    else return (str, j)

/-- `lstrip(str)`. -/
def lstrip (str : List Int8) : Option (List Int8 × Int) := do
  let i ← cInt (← strSpan (fun c => c = 32) str)
  if i = 0 then
    return (str, -1)
  else
    let (str, j) ← lstripLoop (str.length - i.toNat) str i.toNat 0
    let str ← writeAt str j [0]
    return (str, if j > 0 then (j : Int) - 1 else 0)

/-- `strip(str)`. -/
def strip (str : List Int8) : Option (List Int8 × Int) := do
  let (str, rsLen) ← rstrip str
  let (str, lsLen) ← lstrip str
  return (str, if lsLen > 0 then lsLen else rsLen)

end CUtils
