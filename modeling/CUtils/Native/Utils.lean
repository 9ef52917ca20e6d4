import CUtils.ForStd.Bytes

/-!
# Integers, memory functions and helpers of `utils.c`

The targets have a 32-bit `int` and a 64-bit `size_t`.
-/

namespace CUtils

/-- `INT_MAX`. -/
def intMax : Int := 2147483647

/-- The result of an operation on `int`s; an overflow faults. -/
def cInt (x : Int) : Option Int := if -intMax - 1 ≤ x ∧ x ≤ intMax then some x else none

/-- `a % b` on `int`s; a zero divisor faults. -/
def cMod (a b : Int) : Option Int := if b = 0 then none else some (a.tmod b)

/-- `a / b` on `int`s; a zero divisor or an overflow faults. -/
def cDiv (a b : Int) : Option Int := if b = 0 then none else cInt (a.tdiv b)

/-- `(int)x`. -/
def castInt (x : Int) : Int := Int.bmod x (2 ^ 32)

/-- `(size_t)x`. -/
def castSize (x : Int) : Nat := (x % (2 ^ 64 : Nat)).toNat

/-- The index of `p + x` in the object that starts at `p`; a pointer in front of the
    object faults. -/
def cOffset (x : Int) : Option Nat := if 0 ≤ x then some x.toNat else none

/-- `assert(p)`: a false assertion faults. -/
def cAssert (p : Prop) [Decidable p] : Option Unit := if p then some () else none

@[simp] theorem cAssert_true : cAssert True = some () := if_pos trivial

theorem of_cAssert {p : Prop} [Decidable p] {u : Unit} (h : cAssert p = some u) : p := by
  unfold cAssert at h
  split at h
  · assumption
  · cases h

theorem cInt_eq_some {x : Int} (hlo : -intMax - 1 ≤ x) (hhi : x ≤ intMax) : cInt x = some x :=
  if_pos ⟨hlo, hhi⟩

/-- A quotient of natural numbers is exact. -/
theorem cDiv_eq_some {a b : Int} (ha : 0 ≤ a) (hmax : a ≤ intMax) (hb : 0 < b) :
    cDiv a b = some (a / b) := by
  have hnonneg : 0 ≤ a / b := Int.ediv_nonneg ha (Int.le_of_lt hb)
  have hle : a / b ≤ a := Int.ediv_le_self b ha
  rw [cDiv, if_neg (by omega), Int.tdiv_eq_ediv_of_nonneg ha]
  exact cInt_eq_some (by unfold intMax at *; omega) (by omega)

theorem cInt_eq_natCast {x : Int} {n : Nat} (hx : x = n) (hn : n < 2 ^ 31) :
    cInt x = some (n : Int) := by
  unfold cInt intMax
  rw [hx, if_pos (by omega)]

/-- An operation on `int`s that does not fault has the exact result, which is an `int`. -/
theorem of_cInt {x y : Int} (h : cInt x = some y) : y = x ∧ -intMax - 1 ≤ x ∧ x ≤ intMax := by
  unfold cInt at h
  split at h
  · rename_i hx
    exact ⟨(Option.some.inj h).symm, hx⟩
  · cases h

/-- `round_up_pow2(v)`. -/
def roundUpPow2 (v : UInt32) : UInt32 :=
  let v := v - 1
  let v := v ||| v >>> 1
  let v := v ||| v >>> 2
  let v := v ||| v >>> 4
  let v := v ||| v >>> 8
  let v := v ||| v >>> 16
  v + 1

/-! ## Random numbers

`RAND_MAX` is a parameter, and the results of the calls of `rand` are a list.  A result `none`
is a fault, or that the list is used up. -/

/-- The divisor of `randint`. -/
def randDivisor (randMax limit : Int) : Option Int := do
  let n ← cInt (limit + 1)
  cDiv randMax n

/-- The loop of `randint`: the value, and the results of `rand` that are left. -/
def randintLoop (divisor limit : Int) : List Int → Option (Int × List Int)
  | [] => none
  | x :: rand => do
    let r ← cDiv x divisor
    if r > limit then randintLoop divisor limit rand else return (r, rand)

/-- `randint(limit)`. -/
def randint (randMax limit : Int) (rand : List Int) : Option (Int × List Int) := do
  let divisor ← randDivisor randMax limit
  randintLoop divisor limit rand

/-! ## Decimal digits -/

/-- `ABS(x)` of an `int`. -/
def cAbs (x : Int) : Option Int := if x ≥ 0 then some x else cInt (-x)

/-- The loop of `num_digits_in_number`; its condition is tested `fuel` times at most. -/
def numDigitsLoop : Nat → Int → Int → Option Int
  | 0, _, _ => none
  | fuel + 1, n, digits =>
    if n > 0 then do
      let digits ← cInt (digits + 1)
      let n ← cDiv n 10
      numDigitsLoop fuel n digits
    else some digits

/-- `num_digits_in_number(num)`. -/
def numDigitsInNumber (fuel : Nat) (num : Int) : Option Int := do
  let n ← cAbs num
  numDigitsLoop fuel n 0

/-! ## Conversions that keep the value -/

theorem castInt_of_lt {x : Int} (hlo : 0 ≤ x) (hhi : x < (2 ^ 31 : Nat)) : castInt x = x := by
  simp only [castInt, Int.bmod]
  split <;> omega

/-- A conversion to `int` never increases a length. -/
theorem castInt_natCast_le (n : Nat) : castInt n ≤ n := by
  simp only [castInt, Int.bmod]
  split <;> omega

theorem castInt_bounds (x : Int) : -intMax - 1 ≤ castInt x ∧ castInt x ≤ intMax := by
  simp only [castInt, Int.bmod, intMax]
  split <;> omega

theorem castSize_of_lt {x : Int} (hlo : 0 ≤ x) (hhi : x < (2 ^ 64 : Nat)) :
    castSize x = x.toNat := by
  rw [castSize, Int.emod_eq_of_lt hlo hhi]

theorem castSize_eq {x : Int} {n : Nat} (hx : x = n) (hn : n < 2 ^ 64) : castSize x = n := by
  unfold castSize
  omega

/-- A negative `int` becomes a large length. -/
theorem castSize_of_neg {x : Int} (hlo : -(2 ^ 32 : Nat) ≤ x) (hhi : x < 0) :
    (castSize x : Int) = x + (2 ^ 64 : Nat) := by
  unfold castSize
  omega

theorem cOffset_of_nonneg {x : Int} (h : 0 ≤ x) : cOffset x = some x.toNat := if_pos h

/-! ## Memory functions -/

/-- `memset(p, c, n)` for a pointer to the offset `off` of an object. -/
def memset (obj : List UInt8) (off : Nat) (c : UInt8) (n : Nat) : Option (List UInt8) :=
  writeAt obj off (List.replicate n c)

/-- `memcpy(p, src, n)` for a pointer to the offset `off` of an object. -/
def memcpy (obj : List UInt8) (off : Nat) (src : List UInt8) (n : Nat) : Option (List UInt8) :=
  (readAt src 0 n).bind (writeAt obj off)

/-- A successful `safe_malloc(n)`; the contents of the new object are arbitrary. -/
def safeMalloc (junk : Nat → UInt8) (n : Nat) : List UInt8 := (List.range n).map junk

/-- A successful `safe_realloc(p, n)`: what fits is kept. -/
def safeRealloc (junk : Nat → UInt8) (obj : List UInt8) (n : Nat) : List UInt8 :=
  obj.take n ++ (safeMalloc junk n).drop obj.length

theorem memcpy_of_le {obj src : List UInt8} {off n : Nat} (hsrc : n ≤ src.length)
    (hobj : off + n ≤ obj.length) : memcpy obj off src n = some (splice obj off (src.take n)) := by
  have hlen : (src.take n).length = n := List.length_take_of_le hsrc
  rw [memcpy, readAt_of_le (by omega), List.drop_zero, Option.bind_some,
    writeAt_of_le (by rwa [hlen])]

/-- A copy that does not fault stays inside of both objects. -/
theorem memcpy_eq_some {obj obj' src : List UInt8} {off n : Nat}
    (h : memcpy obj off src n = some obj') :
    n ≤ src.length ∧ off + n ≤ obj.length ∧ obj'.length = obj.length := by
  obtain ⟨xs, hread, hwrite⟩ := Option.bind_eq_some_iff.mp h
  obtain ⟨hsrc, hlen⟩ := readAt_eq_some hread
  obtain ⟨hin, rfl⟩ := writeAt_eq_some hwrite
  exact ⟨by omega, by omega, length_splice hin⟩

theorem memcpy_length {obj src : List UInt8} {off : Nat} (hobj : off + src.length ≤ obj.length) :
    memcpy obj off src src.length = some (splice obj off src) := by
  rw [memcpy_of_le (Nat.le_refl _) hobj, List.take_length]

/-- A copy past the end of the object faults. -/
theorem memcpy_of_gt {obj src : List UInt8} {off n : Nat} (hsrc : n ≤ src.length)
    (hobj : obj.length < off + n) : memcpy obj off src n = none := by
  have hlen : (src.take n).length = n := List.length_take_of_le hsrc
  rw [memcpy, readAt_of_le (by omega), List.drop_zero, Option.bind_some, writeAt,
    if_neg (by omega)]

@[simp] theorem length_safeMalloc (junk : Nat → UInt8) (n : Nat) :
    (safeMalloc junk n).length = n := by
  rw [safeMalloc, List.length_map, List.length_range]

@[simp] theorem length_safeRealloc (junk : Nat → UInt8) (obj : List UInt8) (n : Nat) :
    (safeRealloc junk obj n).length = n := by
  rw [safeRealloc, List.length_append, List.length_take, List.length_drop, length_safeMalloc]
  omega

/-- A prefix that fits survives. -/
theorem take_safeRealloc (junk : Nat → UInt8) {obj : List UInt8} {n k : Nat} (hn : k ≤ n)
    (hobj : k ≤ obj.length) : (safeRealloc junk obj n).take k = obj.take k := by
  have hlen : k ≤ (obj.take n).length := by
    rw [List.length_take]
    omega
  rw [safeRealloc, List.take_append_of_le_length hlen, List.take_take, Nat.min_eq_left hn]

end CUtils
