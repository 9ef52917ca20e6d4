import CUtils.Native.Utils

/-!
# C strings

`char` is signed, as on the Linux targets the library is built for.  A NUL-terminated
string is the list of its characters before the terminator, none of which is zero.
-/

namespace CUtils

/-- A NUL-terminated string: the characters before the terminator. -/
structure CString where
  chars : List Int8
  nul_free : 0 ∉ chars
deriving DecidableEq

/-- `strcmp` on the characters of two strings; an exhausted list is the terminator. -/
def strcmpChars : List Int8 → List Int8 → Int
  | [], [] => 0
  | [], d :: _ => 0 - d.toUInt8.toNat
  | c :: _, [] => c.toUInt8.toNat
  | c :: cs, d :: ds => if c = d then strcmpChars cs ds else c.toUInt8.toNat - d.toUInt8.toNat

/-- `strcmp(a, b)` from the C library; a NULL second argument faults. -/
def strcmp (a : CString) (b : Option CString) : Option Int :=
  b.map fun b => strcmpChars a.chars b.chars

/-- The number that the decimal digits in front of a text stand for. -/
def decimalValue (cs : List Int8) : Int :=
  (cs.takeWhile fun c => 48 ≤ c ∧ c ≤ 57).foldl (fun n c => n * 10 + (c.toInt - 48)) 0

/-- `atoi(a)` from the C library: white space, a sign and decimal digits, each optional.  A
    number that is not an `int` faults. -/
def atoi (a : CString) : Option Int :=
  match a.chars.dropWhile fun c => c = 32 ∨ 9 ≤ c ∧ c ≤ 13 with
  | [] => some 0
  | c :: cs =>
    if c = 45 then cInt (-decimalValue cs)
    else if c = 43 then cInt (decimalValue cs)
    else cInt (decimalValue (c :: cs))

/-- `safe_atoi(a, i)`: the result, and `*i` after the call. -/
def safeAtoi (a : Option CString) (i : Int) : Option (Int × Int) :=
  match a with
  | none => some (-1, i)
  | some a => do
    let val ← atoi a
    -- `a[0]` is the terminator of an empty string
    if val = 0 ∧ a.chars.headD 0 ≠ 48 then
      return (-1, i)
    else
      return (0, val)

/-- The loop of `hash32_djb2`.  The empty list is the terminating NUL; `len` is an `int` that
    counts down.  The hash map hashes its keys with a `len` of -1, so only a key of 2 ^ 31
    characters brings the decrement to the end of the range; there it is taken to wrap. -/
def hash32Djb2Loop : List Int8 → Int32 → UInt32 → UInt32
  | [], _, hash => hash
  | c :: str, len, hash =>
    if len ≠ 0 then
      hash32Djb2Loop str (len - 1) (((hash <<< 5) + hash) + c.toInt32.toUInt32)
    else hash

/-- `hash32_djb2(str, len)`. -/
def hash32Djb2 (str : CString) (len : Int32) : UInt32 :=
  hash32Djb2Loop str.chars len 5381

/-- The loop of `hash32_fnv`, over unsigned characters, with the same decrement. -/
def hash32FnvLoop : List Int8 → Int32 → UInt32 → UInt32
  | [], _, hval => hval
  | c :: str, len, hval =>
    if len ≠ 0 then
      -- multiply by the 32 bit FNV magic prime mod 2^32
      let hval := hval +
        ((hval <<< 1) + (hval <<< 4) + (hval <<< 7) + (hval <<< 8) + (hval <<< 24))
      hash32FnvLoop str (len - 1) (hval ^^^ c.toUInt8.toUInt32)
    else hval

/-- `hash32_fnv(str, len)`. -/
def hash32Fnv (str : CString) (len : Int32) : UInt32 :=
  hash32FnvLoop str.chars len 0

/-- The loop of `poly_hash`, until the terminating NUL or until `len` is zero; here a decrement
    that leaves the range of `int` has no result. -/
def polyHashLoop : List Int8 → Int → UInt64 → UInt64 → Option UInt64
  | [], _, hash, _ => some hash
  | c :: str, len, hash, pPow => do
    let next ← cInt (len - 1)
    if len ≠ 0 then
      -- the coefficient is an `int`, and converted to `uint64_t` for the product
      let hash := (hash + UInt64.ofNat (castSize (c.toInt - 97 + 1)) * pPow) % 1000000009
      let pPow := (pPow * 31) % 1000000009
      polyHashLoop str next hash pPow
    else return hash

/-- `poly_hash(str, len)`. -/
def polyHash (str : CString) (len : Int) : Option UInt64 :=
  polyHashLoop str.chars len 0 1

private theorem toUInt8_toNat_ne {c d : Int8} (h : c ≠ d) :
    (c.toUInt8.toNat : Int) ≠ d.toUInt8.toNat := by
  intro heq
  have h8 : c.toUInt8 = d.toUInt8 := UInt8.toNat_inj.mp (Int.ofNat_inj.mp heq)
  exact h (congrArg UInt8.toInt8 h8)

private theorem strcmpChars_eq_zero_iff (cs ds : List Int8) (hc : 0 ∉ cs) (hd : 0 ∉ ds) :
    strcmpChars cs ds = 0 ↔ cs = ds := by
  induction cs generalizing ds with
  | nil =>
    cases ds with
    | nil => simp [strcmpChars]
    | cons d ds =>
      have hd0 : d ≠ 0 := fun h => hd (h ▸ List.mem_cons_self)
      have hne := toUInt8_toNat_ne hd0
      rw [show (0 : Int8).toUInt8.toNat = 0 from rfl] at hne
      simp only [strcmpChars]
      exact ⟨fun h => absurd h (by omega), fun h => nomatch h⟩
  | cons c cs ih =>
    cases ds with
    | nil =>
      have hc0 : c ≠ 0 := fun h => hc (h ▸ List.mem_cons_self)
      have hne := toUInt8_toNat_ne hc0
      rw [show (0 : Int8).toUInt8.toNat = 0 from rfl] at hne
      simp only [strcmpChars]
      exact ⟨fun h => absurd h (by omega), fun h => nomatch h⟩
    | cons d ds =>
      simp only [strcmpChars, List.cons.injEq]
      split
      · rename_i hcd
        rw [ih ds (fun h => hc (List.mem_cons_of_mem c h))
          (fun h => hd (List.mem_cons_of_mem d h))]
        exact ⟨fun h => ⟨hcd, h⟩, fun h => h.2⟩
      · rename_i hcd
        have hne := toUInt8_toNat_ne hcd
        exact ⟨fun h => absurd h (by omega), fun h => absurd h.1 hcd⟩

/-- `strcmp` returns zero exactly on equal strings. -/
theorem strcmp_some_eq_zero_iff (a b : CString) : strcmp a (some b) = some 0 ↔ a = b := by
  simp only [strcmp, Option.map_some, Option.some.injEq]
  rw [strcmpChars_eq_zero_iff _ _ a.nul_free b.nul_free]
  cases a
  cases b
  simp

end CUtils
