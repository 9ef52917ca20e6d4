import Mathlib.Data.Nat.Bitwise

/-!
# Permuting the bits of a word by masks and shifts

A stage exchanges the blocks of `2 ^ j` bits that are next to each other, which is a step
from index `i` to `i ^^^ 2 ^ j`.  Stages compose by `^^^` of what they do to the indices.

- `Flips.then_stage`: a stage with masks.
- `Flips.then_halves`: the last stage, where the shifts need no masks.
- `Flips.eq_reverse`: all stages together reverse the word.
-/

/-- Bit `i` of `y` is bit `i ^^^ m` of `x`. -/
def Flips {w : Nat} (m : Nat) (x y : BitVec w) : Prop :=
  ∀ i < w, y.getLsbD i = x.getLsbD (i ^^^ m)

/-- The masks of a stage with blocks of `2 ^ j` bits: `hi` has the bits that move down, `lo`
    those that move up. -/
def BlockMasks {w : Nat} (j : Nat) (hi lo : BitVec w) : Prop :=
  ∀ i < w, hi.getLsbD i = i.testBit j ∧ lo.getLsbD i = !i.testBit j

instance {w : Nat} (j : Nat) (hi lo : BitVec w) : Decidable (BlockMasks j hi lo) :=
  inferInstanceAs (Decidable (∀ i < w, hi.getLsbD i = i.testBit j ∧ lo.getLsbD i = !i.testBit j))

namespace Flips

/-- The index of the bit with which a bit is exchanged. -/
theorem xor_two_pow (i j : Nat) :
    i ^^^ 2 ^ j = if i.testBit j then i - 2 ^ j else i + 2 ^ j := by
  have hdiv : (i ^^^ 2 ^ j) / 2 ^ j = i / 2 ^ j ^^^ 1 := by
    rw [Nat.xor_div_two_pow, Nat.div_self (Nat.two_pow_pos j)]
  have hmod : (i ^^^ 2 ^ j) % 2 ^ j = i % 2 ^ j := by
    rw [Nat.xor_mod_two_pow, Nat.mod_self, Nat.xor_zero]
  have hhalf : (i / 2 ^ j ^^^ 1) / 2 = i / 2 ^ j / 2 := by
    rw [Nat.xor_div_two]
    exact Nat.xor_zero _
  have hlow : (i / 2 ^ j ^^^ 1) % 2 = (i / 2 ^ j + 1) % 2 := Nat.xor_mod_two_eq
  have hsplit := Nat.div_add_mod i (2 ^ j)
  have hsplit' := Nat.div_add_mod (i ^^^ 2 ^ j) (2 ^ j)
  rw [hdiv, hmod] at hsplit'
  rw [Nat.testBit_eq_decide_div_mod_eq]
  by_cases hodd : i / 2 ^ j % 2 = 1
  · rw [if_pos (decide_eq_true hodd)]
    have hquot : i / 2 ^ j = (i / 2 ^ j ^^^ 1) + 1 := by omega
    rw [hquot, Nat.mul_add] at hsplit
    omega
  · rw [if_neg (by simpa using hodd)]
    have hquot : (i / 2 ^ j ^^^ 1) = i / 2 ^ j + 1 := by omega
    rw [hquot, Nat.mul_add] at hsplit'
    omega

variable {w k m : Nat} {x y z : BitVec w}

theorem refl (x : BitVec w) : Flips 0 x x := by
  intro i _
  rw [Nat.xor_zero]

/-- What stages do to the indices composes. -/
theorem trans {n : Nat} (hxy : Flips m x y) (hyz : Flips n y z) (hw : w = 2 ^ k)
    (hn : n < 2 ^ k) : Flips (n ^^^ m) x z := by
  intro i hlt
  rw [hyz i hlt, hxy _ (hw ▸ Nat.xor_lt_two_pow (hw ▸ hlt) hn), Nat.xor_assoc]

/-- A stage, whose blocks are smaller than the word. -/
theorem stage {j : Nat} {hi lo : BitVec w} (hmasks : BlockMasks j hi lo) (hw : w = 2 ^ k)
    (hj : j < k) (x : BitVec w) :
    Flips (2 ^ j) x (((x &&& hi) >>> 2 ^ j) ||| ((x &&& lo) <<< 2 ^ j)) := by
  intro i hlt
  have hbound : i ^^^ 2 ^ j < w :=
    hw ▸ Nat.xor_lt_two_pow (hw ▸ hlt) (Nat.pow_lt_pow_right Nat.one_lt_two hj)
  have hup := Nat.testBit_two_pow_add_eq i j
  rw [xor_two_pow] at hbound ⊢
  rw [BitVec.getLsbD_or, BitVec.getLsbD_ushiftRight, BitVec.getLsbD_shiftLeft, BitVec.getLsbD_and,
    BitVec.getLsbD_and]
  cases hbit : i.testBit j with
  | false =>
    -- the bit comes from the block above
    rw [hbit, if_neg Bool.false_ne_true, Nat.add_comm] at hbound
    have hlow : (decide (i < w) && !decide (i < 2 ^ j) &&
        (x.getLsbD (i - 2 ^ j) && lo.getLsbD (i - 2 ^ j))) = false := by
      by_cases hfirst : i < 2 ^ j
      · simp [hfirst]
      · have hdown := Nat.testBit_two_pow_add_eq (i - 2 ^ j) j
        rw [Nat.add_sub_cancel' (Nat.le_of_not_lt hfirst), hbit] at hdown
        have hle : i - 2 ^ j ≤ i := Nat.sub_le i (2 ^ j)
        rw [(hmasks (i - 2 ^ j) (by omega)).2, ← hdown, Bool.and_false, Bool.and_false]
    rw [hlow, Bool.or_false, (hmasks _ hbound).1, hup, hbit, if_neg Bool.false_ne_true,
      Bool.not_false, Bool.and_true, Nat.add_comm]
  | true =>
    -- the bit comes from the block below
    have hle : 2 ^ j ≤ i := Nat.ge_two_pow_of_testBit hbit
    have hdown := Nat.testBit_two_pow_add_eq (i - 2 ^ j) j
    rw [Nat.add_sub_cancel' hle, hbit] at hdown
    rw [hbit, if_pos rfl] at hbound
    have hhigh : (x.getLsbD (2 ^ j + i) && hi.getLsbD (2 ^ j + i)) = false := by
      by_cases hlast : 2 ^ j + i < w
      · rw [(hmasks _ hlast).1, hup, hbit, Bool.not_true, Bool.and_false]
      · rw [BitVec.getLsbD_of_ge x _ (Nat.le_of_not_lt hlast), Bool.false_and]
    rw [hhigh, Bool.false_or, (hmasks _ hbound).2, ← hdown, Bool.and_true, if_pos rfl]
    simp [hlt, hle]

/-- The halves of a word. -/
theorem halves (hw : w = 2 ^ (k + 1)) (x : BitVec w) :
    Flips (2 ^ k) x ((x >>> 2 ^ k) ||| (x <<< 2 ^ k)) := by
  intro i hlt
  have hdouble : w = 2 ^ k + 2 ^ k := by rw [hw, Nat.pow_succ, Nat.mul_two]
  rw [xor_two_pow, BitVec.getLsbD_or, BitVec.getLsbD_ushiftRight, BitVec.getLsbD_shiftLeft]
  cases hbit : i.testBit k with
  | false =>
    have hlow : i < 2 ^ k := by
      apply Nat.lt_of_not_le
      intro hle
      have hdown := Nat.testBit_two_pow_add_eq (i - 2 ^ k) k
      rw [Nat.add_sub_cancel' hle, hbit, Nat.testBit_lt_two_pow (by omega)] at hdown
      cases hdown
    simp [hlow, Nat.add_comm]
  | true =>
    have hle : 2 ^ k ≤ i := Nat.ge_two_pow_of_testBit hbit
    rw [BitVec.getLsbD_of_ge x (2 ^ k + i) (by omega)]
    simp [hlt, hle]

theorem then_stage {j : Nat} {hi lo : BitVec w} (h : Flips m x y) (hmasks : BlockMasks j hi lo)
    (hw : w = 2 ^ k) (hj : j < k) :
    Flips (2 ^ j ^^^ m) x (((y &&& hi) >>> 2 ^ j) ||| ((y &&& lo) <<< 2 ^ j)) :=
  h.trans (stage hmasks hw hj y) hw (Nat.pow_lt_pow_right Nat.one_lt_two hj)

theorem then_halves (h : Flips m x y) (hw : w = 2 ^ (k + 1)) :
    Flips (2 ^ k ^^^ m) x ((y >>> 2 ^ k) ||| (y <<< 2 ^ k)) :=
  h.trans (halves hw y) hw (Nat.pow_lt_pow_right Nat.one_lt_two (Nat.lt_succ_self k))

/-- The stages together. -/
theorem eq_reverse (h : Flips (2 ^ k - 1) x y) (hw : w = 2 ^ k) : y = x.reverse := by
  apply BitVec.eq_of_getLsbD_eq
  intro i hlt
  have hmirror : i ^^^ (2 ^ k - 1) = w - 1 - i := by
    apply Nat.eq_of_testBit_eq
    intro n
    have hsub : w - 1 - i = 2 ^ k - (i + 1) := by omega
    rw [hsub, Nat.testBit_two_pow_sub_succ (hw ▸ hlt), Nat.testBit_xor,
      Nat.testBit_two_pow_sub_one]
    by_cases hn : n < k
    · simp [hn]
    · have hpow : 2 ^ k ≤ 2 ^ n := Nat.pow_le_pow_right Nat.two_pos (Nat.le_of_not_lt hn)
      rw [Nat.testBit_lt_two_pow (by omega)]
      simp [hn]
  rw [h i hlt, hmirror, BitVec.getLsbD_reverse, BitVec.getMsbD_eq_getLsbD, decide_eq_true hlt,
    Bool.true_and]

end Flips
