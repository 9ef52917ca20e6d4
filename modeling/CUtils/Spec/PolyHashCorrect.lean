import Mathlib.Algebra.BigOperators.Group.Finset.Basic
import Mathlib.Algebra.BigOperators.Intervals
import CUtils.Native.StrUtils

/-!
# The polynomial hash

`poly_hash` computes modulo 10^9 + 9, but a character before the letters has a negative
coefficient, and the unsigned sum wraps where its term exceeds the hash so far.

- `countedLoop_eq`: the loop that the string hashes share, as a fold.
- `polyHash_eq_iff`: for which strings the result is the residue of the polynomial.
-/

namespace CUtils

/-! ## The loop of the string hashes -/

/-- `while ((c = *str++) && len-- != 0)` around a step, with the decrement of `len` checked. -/
def countedLoop {σ : Type} (step : σ → Int8 → σ) : List Int8 → Int → σ → Option σ
  | [], _, s => some s
  | c :: str, len, s => do
    let next ← cInt (len - 1)
    if len ≠ 0 then countedLoop step str next (step s c) else return s

/-- How many characters `len` selects; all of them if it is negative. -/
def hashedLen (length : Nat) (len : Int) : Nat := if len < 0 then length else min len.toNat length

/-- No decrement of `len` leaves the range of `int`: it is not negative, or far enough from
    `INT_MIN` for the characters. -/
def DecrementsFit (length : Nat) (len : Int) : Prop := 0 ≤ len ∨ -intMax - 1 ≤ len - length

instance (length : Nat) (len : Int) : Decidable (DecrementsFit length len) :=
  inferInstanceAs (Decidable (_ ∨ _))

/-- The loop folds the characters that `len` selects, if its decrements stay in range. -/
theorem countedLoop_eq {σ : Type} (step : σ → Int8 → σ) (str : List Int8) {len : Int} (s : σ)
    (hmin : -intMax - 1 ≤ len) (hmax : len ≤ intMax) :
    countedLoop step str len s = if DecrementsFit str.length len then
      some ((str.take (hashedLen str.length len)).foldl step s) else none := by
  induction str generalizing len s with
  | nil =>
    have hfit : DecrementsFit ([] : List Int8).length len := by
      rw [List.length_nil]
      exact .inr (by omega)
    rw [if_pos hfit, List.take_nil]
    rfl
  | cons c str ih =>
    by_cases hlast : len = -intMax - 1
    · -- the decrement overflows, and `len` was negative
      have hnext : cInt (len - 1) = none := if_neg (by omega)
      have hfit : ¬ DecrementsFit (c :: str).length len := by
        unfold DecrementsFit intMax at *
        rw [List.length_cons]
        omega
      rw [countedLoop, hnext, if_neg hfit]
      rfl
    · have hnext : cInt (len - 1) = some (len - 1) :=
        cInt_eq_some (by omega) (by omega)
      rw [countedLoop, hnext, Option.bind_eq_bind, Option.bind_some]
      by_cases hzero : len = 0
      · subst hzero
        rw [if_neg (by decide), if_pos (.inl (Int.le_refl 0))]
        rfl
      · have hfit : DecrementsFit (c :: str).length len ↔ DecrementsFit str.length (len - 1) := by
          unfold DecrementsFit intMax at *
          rw [List.length_cons]
          omega
        have hcount : hashedLen (c :: str).length len = hashedLen str.length (len - 1) + 1 := by
          rw [List.length_cons]
          unfold hashedLen
          split <;> split <;> omega
        rw [if_pos hzero, ih (step s c) (by omega) (by omega), hcount, List.take_succ_cons,
          List.foldl_cons, if_congr hfit rfl rfl]

/-! ## The polynomial -/

/-- The modulus `m`. -/
def polyMod : Nat := 1000000009

/-- The coefficient of the character at the index `i`. -/
def polyCoeff (str : CString) (i : Nat) : Int := (str.chars.getD i 0).toInt - 97 + 1

/-- The polynomial of the first `n` characters, at 31. -/
def polySum (str : CString) (n : Nat) : Int :=
  ∑ i ∈ Finset.range n, polyCoeff str i * ((31 ^ i : Nat) : Int)

/-- The term of the character at the index `i`, with the reduced power. -/
def polyTerm (str : CString) (i : Nat) : Int := polyCoeff str i * ((31 ^ i % polyMod : Nat) : Int)

/-- How many of the first `n` terms are below zero together with the residue of what is
    before them; each of these adds 2 ^ 64. -/
def polyWraps (str : CString) : Nat → Nat
  | 0 => 0
  | n + 1 =>
    if (polySum str n + ((2 ^ 64 * polyWraps str n : Nat) : Int)) % polyMod + polyTerm str n < 0
    then
      polyWraps str n + 1
    else polyWraps str n

theorem polySum_succ (str : CString) (n : Nat) :
    polySum str (n + 1) = polySum str n + polyCoeff str n * ((31 ^ n : Nat) : Int) :=
  Finset.sum_range_succ ..

theorem polyCoeff_bounds (str : CString) (i : Nat) :
    -224 ≤ polyCoeff str i ∧ polyCoeff str i ≤ 31 := by
  have hlo := (str.chars.getD i 0).le_toInt
  have hhi := (str.chars.getD i 0).toInt_lt
  unfold polyCoeff
  omega

/-- The reduced power does not change the residue. -/
theorem add_polyTerm_emod (str : CString) (n : Nat) (x : Int) :
    (x + polyTerm str n) % polyMod =
      (x + polyCoeff str n * ((31 ^ n : Nat) : Int)) % polyMod := by
  rw [polyTerm, Int.natCast_emod, Int.add_emod, Int.mul_emod, Int.emod_emod, ← Int.mul_emod,
    ← Int.add_emod]

theorem polyTerm_bounds (str : CString) (n : Nat) :
    -224 * (polyMod : Int) ≤ polyTerm str n ∧ polyTerm str n ≤ 31 * (polyMod : Int) := by
  obtain ⟨hlo, hhi⟩ := polyCoeff_bounds str n
  have hlt : 31 ^ n % polyMod < polyMod := Nat.mod_lt _ (by decide)
  have hq : (0 : Int) ≤ (31 ^ n % polyMod : Nat) := Int.natCast_nonneg _
  have hleft := Int.mul_le_mul_of_nonneg_right hlo hq
  have hright := Int.mul_le_mul_of_nonneg_right hhi hq
  unfold polyTerm
  constructor <;> omega

/-! ## The rounds -/

/-- The unsigned sum is the exact one, or 2 ^ 64 more if that is negative. -/
theorem polyHash_step {hash pPow : UInt64} {a : Int} (hhash : hash.toNat < polyMod)
    (hlo : -224 * (polyMod : Int) ≤ a * pPow.toNat) (hhi : a * pPow.toNat ≤ 31 * (polyMod : Int)) :
    (((hash + UInt64.ofNat (castSize a) * pPow) % 1000000009).toNat : Int) =
      (hash.toNat + a * pPow.toNat +
        if hash.toNat + a * pPow.toNat < 0 then ((2 ^ 64 : Nat) : Int) else 0) % polyMod := by
  have hcast : castSize a < 2 ^ 64 := by
    unfold castSize
    omega
  -- the product wraps to the exact one modulo 2 ^ 64
  have hprod : ((castSize a * pPow.toNat % 2 ^ 64 : Nat) : Int) =
      a * pPow.toNat % ((2 ^ 64 : Nat) : Int) := by
    have hsize : ((castSize a : Nat) : Int) = a % ((2 ^ 64 : Nat) : Int) := by
      unfold castSize
      omega
    rw [Int.natCast_emod, Int.natCast_mul, hsize, Int.mul_emod, Int.emod_emod, ← Int.mul_emod]
  have hmod : (1000000009 : UInt64).toNat = polyMod := rfl
  rw [UInt64.toNat_mod, UInt64.toNat_add, UInt64.toNat_mul, UInt64.toNat_ofNat_of_lt' hcast, hmod]
  unfold polyMod at *
  split <;> omega

/-- The state of the loop in front of the character at the index `n`. -/
structure PolyState (str : CString) (n : Nat) (hash pPow : UInt64) : Prop where
  hash_eq : (hash.toNat : Int) =
    (polySum str n + ((2 ^ 64 * polyWraps str n : Nat) : Int)) % polyMod
  pPow_eq : pPow.toNat = 31 ^ n % polyMod

theorem PolyState.init (str : CString) : PolyState str 0 0 1 := ⟨rfl, rfl⟩

/-- The residue with one more term, for either carry. -/
theorem PolyState.add_emod {str : CString} {n : Nat} {hash pPow : UInt64}
    (h : PolyState str n hash pPow) (carry : Int) :
    (hash.toNat + polyTerm str n + carry) % polyMod =
      (polySum str (n + 1) + (((2 ^ 64 * polyWraps str n : Nat) : Int) + carry)) % polyMod := by
  rw [h.hash_eq, Int.add_assoc, Int.emod_add_emod, Int.add_comm (polyTerm str n), ← Int.add_assoc,
    add_polyTerm_emod, polySum_succ]
  congr 1
  omega

/-- One round of the loop. -/
theorem PolyState.step {str : CString} {n : Nat} {hash pPow : UInt64}
    (h : PolyState str n hash pPow) :
    PolyState str (n + 1)
      ((hash + UInt64.ofNat (castSize (polyCoeff str n)) * pPow) % 1000000009)
      ((pPow * 31) % 1000000009) := by
  obtain ⟨hlo, hhi⟩ := polyTerm_bounds str n
  have hhash : hash.toNat < polyMod := by
    have hlt := Int.emod_lt_of_pos (polySum str n + ((2 ^ 64 * polyWraps str n : Nat) : Int))
      (show (0 : Int) < polyMod by decide)
    rw [← h.hash_eq] at hlt
    exact Int.ofNat_lt.mp hlt
  have hprod : polyCoeff str n * pPow.toNat = polyTerm str n := by rw [h.pPow_eq, polyTerm]
  constructor
  · rw [polyHash_step hhash (hprod ▸ hlo) (hprod ▸ hhi), hprod, polyWraps, ← h.hash_eq]
    -- either the term exceeds the hash so far and the sum wraps, or it is exact
    by_cases hneg : hash.toNat + polyTerm str n < 0
    · rw [if_pos hneg, if_pos hneg, h.add_emod, Nat.mul_succ, Int.natCast_add]
    · rw [if_neg hneg, if_neg hneg, h.add_emod, Int.add_zero]
  · have hmod : (1000000009 : UInt64).toNat = polyMod := rfl
    have hbase : (31 : UInt64).toNat = 31 := rfl
    have hlt : 31 ^ n % polyMod < polyMod := Nat.mod_lt _ (by decide)
    have hsmall : 31 ^ n % polyMod * 31 < 2 ^ 64 := by
      unfold polyMod at *
      omega
    rw [UInt64.toNat_mod, UInt64.toNat_mul, hmod, hbase, h.pPow_eq, Nat.mod_eq_of_lt hsmall,
      Nat.mod_mul_mod, pow_succ]

/-- The step of `poly_hash`, on the hash and the power. -/
def polyStep (s : UInt64 × UInt64) (c : Int8) : UInt64 × UInt64 :=
  ((s.1 + UInt64.ofNat (castSize (c.toInt - 97 + 1)) * s.2) % 1000000009, (s.2 * 31) % 1000000009)

theorem polyHashLoop_eq (str : List Int8) (len : Int) (hash pPow : UInt64) :
    polyHashLoop str len hash pPow = (countedLoop polyStep str len (hash, pPow)).map Prod.fst := by
  induction str generalizing len hash pPow with
  | nil => rfl
  | cons c str ih =>
    rw [polyHashLoop, countedLoop]
    cases cInt (len - 1) with
    | none => rfl
    | some next =>
      rw [Option.bind_eq_bind, Option.bind_some, Option.bind_eq_bind, Option.bind_some]
      by_cases hzero : len = 0
      · rw [if_neg (not_not.mpr hzero), if_neg (not_not.mpr hzero)]
        rfl
      · rw [if_pos hzero, if_pos hzero]
        exact ih next _ _

/-- The first rounds over what is left of the string from the index `n` on. -/
theorem PolyState.foldl {str : CString} {cs : List Int8} {n : Nat} {s : UInt64 × UInt64}
    (hcs : str.chars.drop n = cs) (h : PolyState str n s.1 s.2) {k : Nat} (hk : k ≤ cs.length) :
    PolyState str (n + k) ((cs.take k).foldl polyStep s).1 ((cs.take k).foldl polyStep s).2 := by
  induction cs generalizing n s k with
  | nil =>
    obtain rfl := Nat.le_zero.mp hk
    exact h
  | cons c cs ih =>
    cases k with
    | zero => exact h
    | succ k =>
      -- the character at the index `n` is the head of what is left
      have hget : str.chars[n]? = some c := by rw [← List.head?_drop, hcs, List.head?_cons]
      have hcoeff : polyCoeff str n = c.toInt - 97 + 1 := by
        rw [polyCoeff, List.getD_eq_getElem?_getD, hget, Option.getD_some]
      have hrest : str.chars.drop (n + 1) = cs := by
        rw [← List.drop_drop, hcs, List.drop_one, List.tail_cons]
      have hstep : PolyState str (n + 1) (polyStep s c).1 (polyStep s c).2 := by
        have hround := h.step
        rw [hcoeff] at hround
        exact hround
      have hlast := ih hrest hstep (Nat.le_of_succ_le_succ hk)
      rw [show n + 1 + k = n + (k + 1) by omega] at hlast
      exact hlast

/-- The hash of the characters that `len` selects, if its decrements stay in range. -/
theorem polyHash_spec (str : CString) {len : Int} (hmin : -intMax - 1 ≤ len)
    (hmax : len ≤ intMax) (hfit : DecrementsFit str.chars.length len) :
    ∃ hash pPow, polyHash str len = some hash ∧
      PolyState str (hashedLen str.chars.length len) hash pPow := by
  have hcount : hashedLen str.chars.length len ≤ str.chars.length := by
    unfold hashedLen
    split <;> omega
  have hstate := PolyState.foldl (s := (0, 1)) List.drop_zero (PolyState.init str) hcount
  rw [Nat.zero_add] at hstate
  refine ⟨_, _, ?_, hstate⟩
  rw [polyHash, polyHashLoop_eq, countedLoop_eq polyStep _ _ hmin hmax, if_pos hfit]
  rfl

/-- Otherwise a decrement of `len` overflows. -/
theorem polyHash_overflow (str : CString) {len : Int} (hmin : -intMax - 1 ≤ len)
    (hmax : len ≤ intMax) (hfit : ¬ DecrementsFit str.chars.length len) :
    polyHash str len = none := by
  rw [polyHash, polyHashLoop_eq, countedLoop_eq polyStep _ _ hmin hmax, if_neg hfit]
  rfl

/-! ## The residue -/

/-- A multiple of 2 ^ 64 is only harmless if the factor is a multiple of the modulus. -/
theorem add_wraps_emod_iff (x : Int) (w : Nat) :
    (x + ((2 ^ 64 * w : Nat) : Int)) % polyMod = x % polyMod ↔ polyMod ∣ w := by
  have hcoprime : Nat.Coprime polyMod (2 ^ 64) := Nat.Coprime.pow_right 64 (by decide)
  rw [Int.emod_eq_emod_iff_emod_sub_eq_zero, add_sub_cancel_left, ← Int.dvd_iff_emod_eq_zero,
    Int.natCast_dvd_natCast]
  exact ⟨hcoprime.dvd_of_dvd_mul_left, fun h => Nat.dvd_mul_left_of_dvd h _⟩

/-- No more terms than there are characters wrap. -/
theorem polyWraps_le (str : CString) (n : Nat) : polyWraps str n ≤ n := by
  induction n with
  | zero => exact Nat.le_refl 0
  | succ n ih =>
    rw [polyWraps]
    split <;> omega

/-- As long as none has wrapped, only the residue of the sum itself counts. -/
theorem polyWraps_eq_zero_iff (str : CString) (n : Nat) :
    polyWraps str n = 0 ↔ ∀ i < n, 0 ≤ polySum str i % polyMod + polyTerm str i := by
  induction n with
  | zero => exact ⟨fun _ i hi => absurd hi (Nat.not_lt_zero i), fun _ => rfl⟩
  | succ n ih =>
    rw [Nat.forall_lt_succ_right, ← ih, polyWraps]
    constructor
    · intro hzero
      split at hzero
      · omega
      · rename_i hnonneg
        rw [hzero, Nat.mul_zero, Int.natCast_zero, Int.add_zero] at hnonneg
        exact ⟨hzero, by omega⟩
    · intro ⟨hzero, hnonneg⟩
      rw [hzero, Nat.mul_zero, Int.natCast_zero, Int.add_zero, if_neg (by omega)]

/-- `poly_hash` yields the residue of the polynomial exactly if the decrements of `len` stay
    in range and the number of terms that wrap is a multiple of the modulus.  For a string
    that is shorter than the modulus that means that no term is below zero together with
    the residue of the sum before it. -/
theorem polyHash_eq_iff (str : CString) {len : Int} (hmin : -intMax - 1 ≤ len)
    (hmax : len ≤ intMax) :
    ((∃ hash, polyHash str len = some hash ∧
        (hash.toNat : Int) = polySum str (hashedLen str.chars.length len) % polyMod) ↔
      (0 ≤ len ∨ -intMax - 1 ≤ len - str.chars.length) ∧
        polyMod ∣ polyWraps str (hashedLen str.chars.length len)) ∧
    (str.chars.length < polyMod →
      (polyMod ∣ polyWraps str (hashedLen str.chars.length len) ↔
        ∀ i < hashedLen str.chars.length len, 0 ≤ polySum str i % polyMod + polyTerm str i)) := by
  constructor
  · by_cases hlen : 0 ≤ len ∨ -intMax - 1 ≤ len - str.chars.length
    · obtain ⟨hash, pPow, hrun, hstate⟩ := polyHash_spec str hmin hmax hlen
      rw [and_iff_right hlen, ← add_wraps_emod_iff (polySum str _), ← hstate.hash_eq]
      constructor
      · intro ⟨hash', hrun', hval⟩
        obtain rfl := Option.some.inj (hrun.symm.trans hrun')
        exact hval
      · intro hval
        exact ⟨hash, hrun, hval⟩
    · refine iff_of_false ?_ (fun h => hlen h.1)
      intro ⟨hash, hrun, _⟩
      rw [polyHash_overflow str hmin hmax hlen] at hrun
      cases hrun
  · intro hshort
    -- no more terms can wrap than there are characters
    have hle := polyWraps_le str (hashedLen str.chars.length len)
    have hcount : hashedLen str.chars.length len ≤ str.chars.length := by
      unfold hashedLen
      split <;> omega
    rw [← polyWraps_eq_zero_iff]
    constructor
    · intro hdvd
      exact Nat.eq_zero_of_dvd_of_lt hdvd (by omega)
    · intro hzero
      rw [hzero]
      exact Nat.dvd_zero _

/-- `polyHash_eq_iff` for "abc", whose characters are all letters. -/
theorem polyHash_eq_iff_abc :
    ∃ hash, polyHash ⟨[97, 98, 99], by decide⟩ (-1) = some hash ∧
      (hash.toNat : Int) = polySum ⟨[97, 98, 99], by decide⟩ 3 % polyMod :=
  (polyHash_eq_iff ⟨[97, 98, 99], by decide⟩ (by decide) (by decide)).1.mpr
    ⟨by decide, by decide +kernel⟩

/-- The coefficient of "A" is -31, and the hash of "A" is not its residue. -/
theorem polyHash_capital :
    polyHash ⟨[65], by decide⟩ (-1) = some 688856422 ∧
      ((688856422 : UInt64).toNat : Int) ≠ polySum ⟨[65], by decide⟩ 1 % polyMod := by
  decide +kernel

end CUtils
