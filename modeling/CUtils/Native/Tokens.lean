import CUtils.ForStd.Runs
import CUtils.Native.StrUtils
import CUtils.Native.Utils

/-!
# Tokenizers

`str_sep`, `split_string` and `str_sep_count` of `strutils.c`.  A buffer is the list of
its characters and a pointer into it an index; a read or a store outside of it faults
(`none`).  The loops over a string take fuel.
-/

namespace CUtils

/-- `strchr(s, c)`: the index of `c`; the terminator is part of the string. -/
def strchr (s : CString) (c : Int8) : Option Nat :=
  if c = 0 then some s.chars.length else s.chars.idxOf? c

/-- `strchr(sep, c)` as a condition. -/
def isSep (sep : CString) (c : Int8) : Bool := (strchr sep c).isSome

/-- How far `while (*p && cond(*p)) p++` moves. -/
def strSpan (cond : Int8 → Bool) : List Int8 → Option Nat
  | [] => none
  | c :: cs => if c ≠ 0 ∧ cond c then (strSpan cond cs).map (· + 1) else some 0

/-- `strlen(str)`; there has to be a terminator. -/
def strlen (str : List Int8) : Option Nat := strSpan (fun _ => true) str

/-- The string at a pointer, without its terminator. -/
def cstrAt (buf : List Int8) (p : Nat) : Option (List Int8) :=
  (strSpan (fun _ => true) (buf.drop p)).map fun n => (buf.drop p).take n

/-! ## str_sep -/

/-- `str_sep(str, sep)`: the buffer, `*str` and the result. -/
def strSep (buf : List Int8) (str : Option Nat) (sep : CString) :
    Option (List Int8 × Option Nat × Option Nat) :=
  match str with
  | none => some (buf, none, none)
  | some p => do
    let c ← buf[p]?
    if c = 0 then
      return (buf, some p, some p)
    else
      let n ← strSpan (isSep sep) (buf.drop p)
      let start := p + n
      let m ← strSpan (fun c => !isSep sep c) (buf.drop start)
      let stop := start + m
      let c ← buf[stop]?
      if c ≠ 0 then
        return (buf.set stop 0, some (stop + 1), some start)
      else
        return (buf, some stop, some start)

/-- `while (p && *p) { tok = str_sep(&p, sep); ... }`: the strings returned. -/
def strSepAll (sep : CString) : Nat → List Int8 → Option Nat → Option (List (List Int8))
  | 0, _, _ => none
  | _ + 1, _, none => some []
  | fuel + 1, buf, some p => do
    let c ← buf[p]?
    if c = 0 then
      return []
    else
      let (buf, str, tok) ← strSep buf (some p) sep
      let t ← tok.bind (cstrAt buf)
      let ts ← strSepAll sep fuel buf str
      return t :: ts

/-- The call number `n` of `str_sep(&p, sep)`, counted from 0. -/
def strSepCall (sep : CString) :
    Nat → List Int8 → Option Nat → Option (List Int8 × Option Nat × Option Nat)
  | 0, buf, str => strSep buf str sep
  | n + 1, buf, str => do
    let (buf, str, _) ← strSep buf str sep
    strSepCall sep n buf str

/-- `while ((tok = str_sep(&p, sep)) != NULL) { ... }`: the strings returned. -/
def strSepWhile (sep : CString) : Nat → List Int8 → Option Nat → Option (List (List Int8))
  | 0, _, _ => none
  | fuel + 1, buf, str => do
    let (buf, str, tok) ← strSep buf str sep
    match tok with
    | none => return []
    | some p =>
      let t ← cstrAt buf p
      let ts ← strSepWhile sep fuel buf str
      return t :: ts

/-! ## split_string -/

/-- `strtok_r(str, sep, &save)` from the C library: the buffer, `save` and the token. -/
def strtokR (buf : List Int8) (str : Option Nat) (sep : CString) (save : Option Nat) :
    Option (List Int8 × Option Nat × Option Nat) := do
  let p ← str <|> save
  let n ← strSpan (isSep sep) (buf.drop p)
  let start := p + n
  let c ← buf[start]?
  if c = 0 then
    return (buf, some start, none)
  else
    let m ← strSpan (fun c => !isSep sep c) (buf.drop start)
    let stop := start + m
    let c ← buf[stop]?
    if c ≠ 0 then
      return (buf.set stop 0, some (stop + 1), some start)
    else
      return (buf, some stop, some start)

/-- An entry of a token array: NULL, or a pointer to a copy of a string. -/
abbrev TokenCell := Option (List Int8)

/-- A successful `safe_realloc(toks, n)`.  An entry takes 8 bytes. -/
def reallocToks (junk : Nat → TokenCell) (toks : Option (List TokenCell)) (n : Nat) :
    List TokenCell :=
  (toks.getD []).take (n / 8) ++ ((List.range (n / 8)).map junk).drop (toks.getD []).length

/-- The local variables of `split_string`. -/
structure SplitState where
  toks : Option (List TokenCell)
  length : Nat
  size : Nat
  chunk : Int

/-- `if (length >= size) { ... }`.  The left shift of the `int` drops the bits that do
    not fit, as gcc defines it. -/
def splitGrow (junk : Nat → TokenCell) (st : SplitState) : SplitState :=
  if st.length ≥ st.size then
    let size := castSize (st.size + st.chunk)
    { st with
      toks := some (reallocToks junk st.toks (castSize (8 * size)))
      size
      chunk := castInt (st.chunk * 4) }
  else st

/-- `toks[length] = x`. -/
def splitStore (st : SplitState) (x : TokenCell) : Option (List TokenCell) :=
  st.toks.bind fun toks => writeAt toks st.length [x]

/-- The loop of `split_string`. -/
def splitLoop (junk : Nat → TokenCell) (sep : CString) :
    Nat → List Int8 → Option Nat → Option Nat → SplitState → Option (List Int8 × SplitState)
  | 0, _, _, _, _ => none
  | _ + 1, buf, none, _, st => some (buf, st)
  | fuel + 1, buf, some tok, rest, st => do
    let st := splitGrow junk st
    let t ← cstrAt buf tok
    let toks ← splitStore st (some t)
    let (buf, rest, tok) ← strtokR buf none sep rest
    splitLoop junk sep fuel buf tok rest { st with toks := some toks, length := st.length + 1 }

/-- `split_string(buf, sep, tokens)`: the buffer, the result and `*tokens`, which is only
    stored on success. -/
def splitString (junk : Nat → TokenCell) (fuel : Nat) (buf : List Int8) (sep : CString) :
    Option (List Int8 × Int × Option (List TokenCell)) := do
  let (buf, rest, tok) ← strtokR buf (some 0) sep none
  let (buf, st) ← splitLoop junk sep fuel buf tok rest
    { toks := none, length := 0, size := 0, chunk := 16 }
  if st.toks.isNone then
    return (buf, -1, none)
  else
    let toks := reallocToks junk st.toks (castSize (8 * (st.length + 1)))
    let toks ← splitStore { st with toks := some toks } none
    return (buf, 0, some toks)

/-! ## str_sep_count -/

/-- The outer loop of `str_sep_count`.  The empty list is the terminating NUL. -/
def strSepCountLoop (sep : CString) (p : List Int8) (count : Nat) : Nat :=
  match h : p.dropWhile (isSep sep) with
  | [] => count
  | c :: cs =>
    strSepCountLoop sep ((c :: cs).dropWhile fun c => !isSep sep c) (count + 1)
termination_by p.length
decreasing_by
  -- the separators were skipped, so the inner loop moves past `c`
  have hc : isSep sep c = false := List.of_dropWhile_eq_cons h
  have hle : (c :: cs).length ≤ p.length := h ▸ List.length_dropWhile_le _ p
  have hcs := List.length_dropWhile_le (fun c => !isSep sep c) cs
  rw [List.length_cons] at hle
  rw [List.dropWhile_cons, hc]
  exact Nat.lt_of_le_of_lt hcs hle

/-- `str_sep_count(str, sep)`. -/
def strSepCount (str : Option CString) (sep : Option CString) : Nat :=
  match str with
  | none => 0
  | some str =>
    if str.chars = [] then 0
    else
      match sep with
      | none => 1
      | some sep => strSepCountLoop sep str.chars 0

end CUtils
