import Mathlib.Algebra.Group.Embedding
import Mathlib.Data.Finset.Card
import CUtils.Native.Utils

/-!
# The helpers of `utils.c`

- `randint_unbiased`: every value is the quotient of equally many results of `rand`, and
  the other results are retried.
- `numDigitsInNumber_iff`: for which numbers `num_digits_in_number` counts the digits.
-/

namespace CUtils

/-! ## Random numbers -/

/-- How many of the results 0 to `RAND_MAX` of `rand` give the value `v` at once. -/
def randCount (randMax limit v : Int) : Nat :=
  ((Finset.range (randMax.toNat + 1)).filter fun x : Nat =>
    randint randMax limit [(x : Int)] = some (v, [])).card

section

variable {randMax limit : Int}

/-- The divisor is the exact quotient, and at least 1. -/
theorem randDivisor_spec (hmax : randMax ≤ intMax) (hlo : 0 ≤ limit) (hlt : limit < randMax) :
    randDivisor randMax limit = some (randMax / (limit + 1)) ∧ 0 < randMax / (limit + 1) := by
  have hn : cInt (limit + 1) = some (limit + 1) :=
    cInt_eq_some (by unfold intMax; omega) (by omega)
  have hdiv : cDiv randMax (limit + 1) = some (randMax / (limit + 1)) :=
    cDiv_eq_some (by omega) hmax (by omega)
  refine ⟨?_, ?_⟩
  · rw [randDivisor, hn, Option.bind_eq_bind, Option.bind_some, hdiv]
  · show 0 + 1 ≤ randMax / (limit + 1)
    rw [Int.le_ediv_iff_mul_le (by omega)]
    omega

/-- One round of `randint` looks at the quotient of one result of `rand`. -/
theorem randint_cons (hmax : randMax ≤ intMax) (hlo : 0 ≤ limit) (hlt : limit < randMax) {x : Int}
    (hx : 0 ≤ x) (hxmax : x ≤ randMax) (rand : List Int) :
    randint randMax limit (x :: rand) =
      if x / (randMax / (limit + 1)) ≤ limit then some (x / (randMax / (limit + 1)), rand)
      else randint randMax limit rand := by
  obtain ⟨hdiv, hpos⟩ := randDivisor_spec hmax hlo hlt
  have hquot := cDiv_eq_some hx (show x ≤ intMax by omega) hpos
  simp only [randint, hdiv, randintLoop, hquot, Option.bind_eq_bind, Option.bind_some,
    Option.pure_def]
  by_cases hle : x / (randMax / (limit + 1)) ≤ limit
  · rw [if_pos hle, if_neg (by omega)]
  · rw [if_neg hle, if_pos (by omega)]

/-- A single result of `rand` gives the value `v` if `v` is its quotient. -/
theorem randint_singleton_iff (hmax : randMax ≤ intMax) (hlo : 0 ≤ limit) (hlt : limit < randMax)
    {x v : Int} (hx : 0 ≤ x) (hxmax : x ≤ randMax) :
    randint randMax limit [x] = some (v, []) ↔ v ≤ limit ∧ x / (randMax / (limit + 1)) = v := by
  have hnil : randint randMax limit [] = none := by
    rw [randint, (randDivisor_spec hmax hlo hlt).1]
    rfl
  rw [randint_cons hmax hlo hlt hx hxmax, hnil, Option.ite_none_right_eq_some,
    Option.some.injEq, Prod.mk.injEq, and_iff_left rfl]
  constructor
  · rintro ⟨hle, rfl⟩
    exact ⟨hle, rfl⟩
  · rintro ⟨hle, rfl⟩
    exact ⟨hle, rfl⟩

/-- The results of `rand` with one quotient are as many as the divisor, all of them below
    `RAND_MAX`. -/
theorem randCount_eq (hmax : randMax ≤ intMax) (hlo : 0 ≤ limit) (hlt : limit < randMax)
    {v : Int} (hv : 0 ≤ v) (hle : v ≤ limit) :
    (randCount randMax limit v : Int) = randMax / (limit + 1) := by
  obtain ⟨d, hd⟩ : ∃ d, d = randMax / (limit + 1) := ⟨_, rfl⟩
  have hpos : 0 < d := hd ▸ (randDivisor_spec hmax hlo hlt).2
  have hmul : v * d + d ≤ randMax := by
    calc v * d + d = (v + 1) * d := by rw [Int.add_mul, Int.one_mul]
      _ ≤ (limit + 1) * d := Int.mul_le_mul_of_nonneg_right (by omega) (by omega)
      _ ≤ randMax := by rw [hd, Int.mul_comm]; exact Int.ediv_mul_le randMax (by omega)
  have hprod : 0 ≤ v * d := Int.mul_nonneg hv (by omega)
  -- they are the numbers from `v * d` on
  have hset : ((Finset.range (randMax.toNat + 1)).filter fun x : Nat =>
      randint randMax limit [(x : Int)] = some (v, [])) =
      (Finset.range d.toNat).map (addLeftEmbedding (v * d).toNat) := by
    ext x
    simp only [Finset.mem_filter, Finset.mem_range, Finset.mem_map, addLeftEmbedding_apply]
    constructor
    · intro ⟨hx, hval⟩
      have hquot := ((randint_singleton_iff hmax hlo hlt (by omega) (by omega)).mp hval).2
      rw [← hd, Int.ediv_eq_iff_of_pos hpos] at hquot
      exact ⟨x - (v * d).toNat, by omega, by omega⟩
    · intro ⟨i, hi, heq⟩
      have hquot : (x : Int) / d = v := by
        rw [Int.ediv_eq_iff_of_pos hpos]
        omega
      refine ⟨by omega, (randint_singleton_iff hmax hlo hlt (by omega) (by omega)).mpr ?_⟩
      exact ⟨hle, hd ▸ hquot⟩
  rw [randCount, hset, Finset.card_map, Finset.card_range, ← hd]
  omega

/-- The run lemma: `randint` passes over results of `rand` that give no value. -/
theorem randint_append (hmax : randMax ≤ intMax) (hlo : 0 ≤ limit) (hlt : limit < randMax)
    {pre : List Int} (hpre : ∀ y ∈ pre, 0 ≤ y ∧ y ≤ randMax ∧ randint randMax limit [y] = none)
    (rand : List Int) : randint randMax limit (pre ++ rand) = randint randMax limit rand := by
  induction pre with
  | nil => rfl
  | cons y pre ih =>
    obtain ⟨hy, hymax, hnone⟩ := hpre y List.mem_cons_self
    rw [randint_cons hmax hlo hlt hy hymax] at hnone
    have hgt : ¬ y / (randMax / (limit + 1)) ≤ limit := by
      intro hle
      rw [if_pos hle] at hnone
      cases hnone
    rw [List.cons_append, randint_cons hmax hlo hlt hy hymax, if_neg hgt]
    exact ih fun z hz => hpre z (List.mem_cons_of_mem y hz)

/-- `randint` is unbiased: its divisor is not zero; every value up to the limit comes from
    equally many results of `rand`, and there is at least one such result; the results that
    give no such value give none at all and are passed over, however many there are. -/
theorem randint_unbiased {randMax limit : Int} (hmax : randMax ≤ intMax) (hlo : 0 ≤ limit)
    (hlt : limit < randMax) :
    (∃ d, randDivisor randMax limit = some d ∧ d ≠ 0) ∧
    (∀ v, 0 ≤ v → v ≤ limit → (randCount randMax limit v : Int) = randMax / (limit + 1)) ∧
    (∀ x, 0 ≤ x → x ≤ randMax → randint randMax limit [x] = none ∨
      ∃ v, 0 ≤ v ∧ v ≤ limit ∧ randint randMax limit [x] = some (v, [])) ∧
    (∃ x, 0 ≤ x ∧ x ≤ randMax ∧ randint randMax limit [x] ≠ none) ∧
    ∀ pre x v rest,
      (∀ y ∈ pre, 0 ≤ y ∧ y ≤ randMax ∧ randint randMax limit [y] = none) →
      0 ≤ x → x ≤ randMax → randint randMax limit [x] = some (v, []) →
      randint randMax limit (pre ++ x :: rest) = some (v, rest) := by
  obtain ⟨hdiv, hpos⟩ := randDivisor_spec hmax hlo hlt
  refine ⟨⟨_, hdiv, by omega⟩, fun v hv hle => randCount_eq hmax hlo hlt hv hle, ?_, ?_, ?_⟩
  · intro x hx hxmax
    by_cases hle : x / (randMax / (limit + 1)) ≤ limit
    · exact .inr ⟨_, Int.ediv_nonneg hx (by omega), hle,
        (randint_singleton_iff hmax hlo hlt hx hxmax).mpr ⟨hle, rfl⟩⟩
    · left
      rw [randint_cons hmax hlo hlt hx hxmax, if_neg hle, randint, hdiv]
      rfl
  · -- 0 gives the value 0
    have hzero := (randint_singleton_iff hmax hlo hlt (x := 0) (Int.le_refl 0) (by omega)).mpr
      ⟨hlo, Int.zero_ediv _⟩
    refine ⟨0, Int.le_refl 0, by omega, ?_⟩
    rw [hzero]
    exact Option.some_ne_none _
  · intro pre x v rest hpre hx hxmax hval
    obtain ⟨hle, hquot⟩ := (randint_singleton_iff hmax hlo hlt hx hxmax).mp hval
    rw [randint_append hmax hlo hlt hpre, randint_cons hmax hlo hlt hx hxmax, hquot, if_pos hle]

end

/-- `randint_unbiased` for the digit 7, with the largest possible `RAND_MAX`. -/
theorem randint_unbiased_digits : (randCount intMax 9 7 : Int) = 214748364 :=
  (@randint_unbiased intMax 9 (by decide) (by decide) (by decide)).2.1 7 (by decide) (by decide)

/-! ## Decimal digits -/

/-- How often a number is divided by ten until it is zero. -/
def digitCount (n : Nat) : Nat := if n = 0 then 0 else n.repr.length

/-- Every division takes the last digit off. -/
theorem digitCount_of_pos {n : Nat} (hn : 0 < n) : digitCount n = digitCount (n / 10) + 1 := by
  rw [digitCount, if_neg (by omega)]
  by_cases hlt : n < 10
  · have hzero : n / 10 = 0 := Nat.div_eq_of_lt hlt
    rw [Nat.repr_of_lt hlt, String.length_singleton, hzero]
    rfl
  · have hpos : n / 10 ≠ 0 := by omega
    rw [Nat.repr_of_ge (Nat.le_of_not_lt hlt), String.length_append, String.length_singleton,
      digitCount, if_neg hpos]

/-- The loop counts the divisions; there are no more than `k` for a number below `10 ^ k`. -/
theorem numDigitsLoop_spec {fuel n k digits : Nat} (hn : n < 10 ^ k) (hmax : (n : Int) ≤ intMax)
    (hfuel : k < fuel) (hdigits : (digits : Int) + k ≤ intMax) :
    numDigitsLoop fuel n digits = some ((digits + digitCount n : Nat) : Int) := by
  induction k generalizing fuel n digits with
  | zero =>
    obtain ⟨fuel, rfl⟩ : ∃ f, fuel = f + 1 := ⟨fuel - 1, by omega⟩
    obtain rfl : n = 0 := Nat.lt_one_iff.mp hn
    rfl
  | succ k ih =>
    obtain ⟨fuel, rfl⟩ : ∃ f, fuel = f + 1 := ⟨fuel - 1, by omega⟩
    by_cases hzero : n = 0
    · subst hzero
      rfl
    · -- one round counts a digit and divides
      have hnext : cInt ((digits : Int) + 1) = some ((digits + 1 : Nat) : Int) :=
        cInt_eq_some (by unfold intMax; omega) (by omega)
      have hquot : cDiv (n : Int) 10 = some ((n / 10 : Nat) : Int) :=
        cDiv_eq_some (Int.natCast_nonneg n) hmax (by decide)
      have hless : n / 10 < 10 ^ k := by
        rw [Nat.pow_succ] at hn
        omega
      have hrest := ih hless (by omega) (show k < fuel by omega)
        (show ((digits + 1 : Nat) : Int) + k ≤ intMax by omega)
      rw [numDigitsLoop, if_pos (by omega), hnext, Option.bind_eq_bind, Option.bind_some, hquot,
        Option.bind_some, hrest, digitCount_of_pos (Nat.pos_of_ne_zero hzero), Nat.add_assoc,
        Nat.add_comm 1]

/-- The absolute value of every `int` but the least one is an `int`. -/
theorem cAbs_eq {num : Int} (hmin : -intMax - 1 ≤ num) (hmax : num ≤ intMax) :
    cAbs num = if num = -intMax - 1 then none else some (num.natAbs : Int) := by
  unfold cAbs
  split
  · next hpos =>
    rw [if_neg (by unfold intMax; omega), Int.natAbs_of_nonneg hpos]
  · next hneg =>
    split
    · next hleast =>
      subst hleast
      rfl
    · have habs : (num.natAbs : Int) = -num := by omega
      rw [habs]
      exact cInt_eq_some (by unfold intMax at *; omega) (by omega)

/-- `num_digits_in_number` returns the number of decimal digits, except for 0, which has one
    digit, and for `INT_MIN`, which has no absolute value; an `int` has ten digits at most. -/
theorem numDigitsInNumber_iff {num : Int} (hmin : -intMax - 1 ≤ num) (hmax : num ≤ intMax)
    {fuel : Nat} (hfuel : 10 < fuel) :
    numDigitsInNumber fuel num = some (num.natAbs.repr.length : Int) ↔
      num ≠ 0 ∧ num ≠ -intMax - 1 := by
  rw [numDigitsInNumber, cAbs_eq hmin hmax]
  by_cases hleast : num = -intMax - 1
  · rw [if_pos hleast]
    exact iff_of_false (fun hrun => by cases hrun) fun hcond => hcond.2 hleast
  · -- ten divisions are enough for an `int`
    have hn : num.natAbs < 10 ^ 10 := by
      unfold intMax at *
      omega
    have hloop : numDigitsLoop fuel num.natAbs 0 = some (digitCount num.natAbs : Int) := by
      have hcount := @numDigitsLoop_spec fuel num.natAbs 10 0 hn (by unfold intMax at *; omega)
        hfuel (by decide)
      rwa [Nat.zero_add] at hcount
    rw [if_neg hleast, Option.bind_eq_bind, Option.bind_some, hloop, Option.some.injEq,
      Int.natCast_inj, digitCount, and_iff_left hleast, ← Int.natAbs_ne_zero]
    constructor
    · -- no number has no digits
      intro hcount hzero
      rw [if_pos hzero] at hcount
      have hpos : 0 < num.natAbs.repr.length := Nat.length_repr_pos
      omega
    · intro hne
      rw [if_neg hne]

/-- `numDigitsInNumber_iff` for -1000. -/
theorem numDigitsInNumber_iff_thousand : numDigitsInNumber 11 (-1000) = some 4 :=
  (numDigitsInNumber_iff (by decide) (by decide) (by decide)).mpr (by decide)

/-- No digits are counted for 0, whose representation has one, and `INT_MIN` overflows. -/
theorem numDigitsInNumber_zero_min :
    numDigitsInNumber 11 0 = some 0 ∧ (Nat.repr 0).length = 1 ∧
      numDigitsInNumber 11 (-intMax - 1) = none := by
  decide

end CUtils
