import Mathlib.Algebra.Group.Nat.Defs

/-!
# Filling the bits below the highest one

A number that is or-ed with itself, shifted to the right by 1, 2, 4 and so on, gets runs of
ones below each of its bits, and every step doubles their length.

- `Fills.double`: one step.
- `Fills.isLeastTwoPow`: runs that are long enough lead from `n - 1` to the least power of
  two that is not below `n`.
-/

/-- `p` is the least power of two that is not below `n`. -/
structure IsLeastTwoPow (n p : ℕ) : Prop where
  pow : ∃ k, p = 2 ^ k
  ge : n ≤ p
  least : ∀ k, n ≤ 2 ^ k → p ≤ 2 ^ k

/-- The ones of `m` are the ones of `n` and the `w - 1` positions below each of them. -/
def Fills (w n m : ℕ) : Prop :=
  ∀ i, m.testBit i = true ↔ ∃ j, i ≤ j ∧ j < i + w ∧ n.testBit j = true

namespace Fills

variable {w n m : ℕ}

/-- Runs of length one are the number itself. -/
theorem refl (n : ℕ) : Fills 1 n n := by
  intro i
  constructor
  · intro hi
    exact ⟨i, Nat.le_refl i, Nat.lt_succ_self i, hi⟩
  · intro ⟨j, hle, hlt, hj⟩
    obtain rfl : i = j := by omega
    exact hj

/-- A shift by the length of the runs doubles them. -/
theorem double (h : Fills w n m) : Fills (2 * w) n (m ||| m >>> w) := by
  intro i
  rw [Nat.testBit_or, Bool.or_eq_true, Nat.testBit_shiftRight, h i, h (w + i)]
  constructor
  · intro hbit
    cases hbit with
    | inl hnear =>
      obtain ⟨j, hle, hlt, hj⟩ := hnear
      exact ⟨j, hle, by omega, hj⟩
    | inr hfar =>
      obtain ⟨j, hle, hlt, hj⟩ := hfar
      exact ⟨j, by omega, by omega, hj⟩
  · intro ⟨j, hle, hlt, hj⟩
    -- the bit is in the near or in the far half of the run
    by_cases hnear : j < i + w
    · exact .inl ⟨j, hle, hnear, hj⟩
    · exact .inr ⟨j, by omega, by omega, hj⟩

/-- Runs as long as the number fill everything below its highest bit. -/
theorem eq_two_pow_sub_one (h : Fills w n m) (hn : n ≠ 0) (hw : n < 2 ^ w) :
    m = 2 ^ (n.log2 + 1) - 1 := by
  have hlog : n.log2 < w := (Nat.log2_lt hn).mpr hw
  apply Nat.eq_of_testBit_eq
  intro i
  rw [Nat.testBit_two_pow_sub_one, Bool.eq_iff_iff, h i, decide_eq_true_iff]
  constructor
  · intro ⟨j, hle, _, hj⟩
    have hlog_le : j ≤ n.log2 := (Nat.le_log2 hn).mpr (Nat.ge_two_pow_of_testBit hj)
    omega
  · intro hi
    exact ⟨n.log2, by omega, by omega, Nat.testBit_log2 hn⟩

theorem eq_zero (h : Fills w 0 m) : m = 0 := by
  apply Nat.eq_of_testBit_eq
  intro i
  rw [Nat.zero_testBit, Bool.eq_false_iff]
  intro hi
  obtain ⟨j, _, _, hj⟩ := (h i).mp hi
  rw [Nat.zero_testBit] at hj
  cases hj

/-- The decrement in front keeps a power of two, and the increment behind turns the mask
    into one. -/
theorem isLeastTwoPow (h : Fills w (n - 1) m) (hn : 0 < n) (hw : n ≤ 2 ^ w) :
    IsLeastTwoPow n (m + 1) := by
  by_cases hone : n = 1
  · subst hone
    rw [eq_zero h]
    exact ⟨⟨0, rfl⟩, Nat.le_refl 1, fun k _ => Nat.two_pow_pos k⟩
  · have hne : n - 1 ≠ 0 := by omega
    have hmask := h.eq_two_pow_sub_one hne (by omega)
    have hpow : m + 1 = 2 ^ ((n - 1).log2 + 1) := by
      have hpos := Nat.two_pow_pos ((n - 1).log2 + 1)
      omega
    rw [hpow]
    refine ⟨⟨_, rfl⟩, ?_, ?_⟩
    · have hlt : n - 1 < 2 ^ ((n - 1).log2 + 1) := Nat.lt_log2_self
      omega
    · intro k hk
      have hlog : (n - 1).log2 < k := (Nat.log2_lt hne).mpr (by omega)
      exact Nat.pow_le_pow_right (by decide) hlog

end Fills
