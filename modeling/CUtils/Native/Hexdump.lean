import Mathlib.Data.List.Basic

/-!
# Dumps of bytes

`hexdump` of `utils.c`.  The calls of `printf` append to one text.
-/

namespace CUtils

/-- The character that ends a string. -/
def nulChar : Char := Char.ofNat 0

/-- The text of `"%02x "`. -/
def hexdumpByte (b : UInt8) : List Char :=
  [Nat.digitChar (b.toNat / 16), Nat.digitChar (b.toNat % 16), ' ']

/-- The text of `"%04zu"`. -/
def hexdumpOffset (i : Nat) : List Char := List.leftpad 4 '0' (Nat.toDigits 10 i)

/-- The text of `" |%16s|"`. -/
def hexdumpText (str : List Char) : List Char :=
  [' ', '|'] ++ List.leftpad 16 ' ' (str.takeWhile (· ≠ nulChar)) ++ ['|']

/-- `isprint(b) ? b : '.'`. -/
def printable (b : UInt8) : Char := if 32 ≤ b ∧ b ≤ 126 then Char.ofNat b.toNat else '.'

/-- The body of the loop of `hexdump`, on `str` and the text so far. -/
def hexdumpBody (data : List UInt8) (i : Nat) (s : List Char × List Char) :
    Option (List Char × List Char) := do
  let (str, out) := s
  let out :=
    if i % 16 = 0 then
      out ++ hexdumpText str ++ ("\n    ".toList ++ hexdumpOffset i ++ "  ".toList)
    else if i % 8 = 0 then out ++ [' ']
    else out
  let b ← data[i]?
  return (str.set (i % 16) (printable b), out ++ hexdumpByte b)

/-- That many rounds of the loop, from the index `i` on. -/
def hexdumpLoop (data : List UInt8) : Nat → Nat → List Char × List Char →
    Option (List Char × List Char)
  | 0, _, s => some s
  | n + 1, i, s => (hexdumpBody data i s).bind (hexdumpLoop data n (i + 1))

/-- That many rounds of the loop that fills the last line. -/
def hexdumpPad : Nat → Nat → List Char × List Char → List Char × List Char
  | 0, _, s => s
  | n + 1, i, (str, out) => hexdumpPad n (i + 1) (str.set i ' ', out ++ "   ".toList)

/-- The end of `hexdump`, with `i` after the loop. -/
def hexdumpEnd (i : Nat) (s : List Char × List Char) : List Char :=
  let (str, out) := s
  let i := i % 16
  if i ≠ 0 then
    let out := if i ≤ 8 then out ++ [' '] else out
    let (str, out) := hexdumpPad (16 - i) i (str, out)
    out ++ hexdumpText str ++ ['\n']
  else
    out ++ hexdumpText str ++ ['\n']

/-- `hexdump(p, len, fmt, ..)`, where `text` is what the caller's format prints.  The first byte
    is read in any case. -/
def hexdump (p : List UInt8) (len : Nat) (text : List Char) : Option (List Char) := do
  let b ← p[0]?
  let out := text ++ (" [".toList ++ Nat.toDigits 10 len ++ "] =>".toList) ++
    "\n    0000  ".toList ++ hexdumpByte b
  let str := (List.replicate 17 nulChar).set 0 (printable b)
  let s ← hexdumpLoop p (len - 1) 1 (str, out)
  return hexdumpEnd (1 + (len - 1)) s

end CUtils
