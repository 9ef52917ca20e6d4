import CUtils.ForStd.Crc
import Mathlib.Logic.Function.Iterate

/-!
# Reflected checks and their tables

A check whose register is kept in reverse order shifts to the right, and an input bit enters
at the lowest position.  A register that only shifts is additive, so the shifts of a word are
those of its low bits and, later, those of the rest: this is what lookup tables use.

- `shiftBits_reverse`: the reflected register is the register of `Crc.bits` in reverse.
- `shiftBits_lsbFirst`: a word of input enters at once.
- `shifts_low`: the low bits of a word and the rest shift independently.
- `shifts_xor_shiftLeft`: input behind `k` shifts enters at position `k` before them.
-/

namespace Crc

variable {w : Nat}

/-- One shift of a reflected register without input. -/
def shiftStep (poly reg : BitVec w) : BitVec w :=
  if reg.getLsbD 0 then reg >>> 1 ^^^ poly else reg >>> 1

/-- A reflected register after `n` shifts. -/
def shifts (poly : BitVec w) (n : Nat) (reg : BitVec w) : BitVec w := (shiftStep poly)^[n] reg

/-- A bit at the lowest position. -/
def lowBit (w : Nat) (b : Bool) : BitVec w := if b then 1#w else 0#w

/-- The reflected register after the input bits, the first one first. -/
def shiftBits (poly reg : BitVec w) (input : List Bool) : BitVec w :=
  input.foldl (fun reg b => shiftStep poly (reg ^^^ lowBit w b)) reg

/-- The bits of a word, the least significant one first. -/
def lsbFirst {n : Nat} (x : BitVec n) : List Bool := (List.range n).map x.getLsbD

variable (poly : BitVec w)

@[simp] theorem shiftBits_nil (reg : BitVec w) : shiftBits poly reg [] = reg := rfl

@[simp] theorem shiftBits_cons (reg : BitVec w) (b : Bool) (input : List Bool) :
    shiftBits poly reg (b :: input) =
      shiftBits poly (shiftStep poly (reg ^^^ lowBit w b)) input := rfl

theorem shiftBits_append (reg : BitVec w) (input rest : List Bool) :
    shiftBits poly reg (input ++ rest) = shiftBits poly (shiftBits poly reg input) rest :=
  List.foldl_append

@[simp] theorem shifts_zero (reg : BitVec w) : shifts poly 0 reg = reg := rfl

theorem shifts_succ (n : Nat) (reg : BitVec w) :
    shifts poly (n + 1) reg = shifts poly n (shiftStep poly reg) :=
  Function.iterate_succ_apply (shiftStep poly) n reg

theorem shifts_add (m n : Nat) (reg : BitVec w) :
    shifts poly (m + n) reg = shifts poly m (shifts poly n reg) :=
  Function.iterate_add_apply (shiftStep poly) m n reg

/-! ## The reversed register -/

theorem getLsbD_lowBit (w : Nat) (b : Bool) (i : Nat) :
    (lowBit w b).getLsbD i = (decide (i < w) && decide (i = 0) && b) := by
  unfold lowBit
  cases b
  · simp
  · cases w with
    | zero => simp
    | succ w => cases i <;> simp [BitVec.getLsbD_one]

/-- The bit that leaves the register of `bitStep` is the lowest one of the reversed register. -/
theorem reverse_bitStep (reg : BitVec w) (b : Bool) :
    (bitStep poly reg b).reverse = shiftStep poly.reverse (reg.reverse ^^^ lowBit w b) := by
  apply BitVec.eq_of_getLsbD_eq
  intro i hi
  have hlow : (reg.reverse ^^^ lowBit w b).getLsbD 0 = (reg.msb ^^ b) := by
    rw [BitVec.getLsbD_xor, BitVec.getLsbD_reverse, getLsbD_lowBit, BitVec.msb_eq_getMsbD_zero]
    simp [show 0 < w by omega]
  have hshift : (reg <<< 1).reverse = (reg.reverse ^^^ lowBit w b) >>> 1 := by
    apply BitVec.eq_of_getLsbD_eq
    intro j hj
    rw [BitVec.getLsbD_ushiftRight, BitVec.getLsbD_xor, getLsbD_lowBit, BitVec.getLsbD_reverse,
      BitVec.getLsbD_reverse, BitVec.getMsbD_shiftLeft]
    simp [Nat.add_comm 1 j]
  have hxor : (reg <<< 1 ^^^ poly).reverse = (reg <<< 1).reverse ^^^ poly.reverse := by
    apply BitVec.eq_of_getLsbD_eq
    intro j hj
    simp only [BitVec.getLsbD_reverse, BitVec.getLsbD_xor, BitVec.getMsbD_xor]
  unfold bitStep shiftStep
  rw [hlow]
  split
  · rw [hxor, hshift]
  · rw [hshift]

/-- The reflected register is the register of `bits` in reverse. -/
theorem shiftBits_reverse (reg : BitVec w) (input : List Bool) :
    shiftBits poly.reverse reg.reverse input = (bits poly reg input).reverse := by
  induction input generalizing reg with
  | nil => rfl
  | cons b input ih => rw [shiftBits_cons, bits_cons, ← reverse_bitStep, ih]

/-! ## Additivity -/

theorem additive_shiftStep : Additive (shiftStep poly) := by
  intro r s
  unfold shiftStep
  rw [BitVec.getLsbD_xor, BitVec.ushiftRight_xor_distrib]
  cases r.getLsbD 0 <;> cases s.getLsbD 0 <;> simp only [Bool.xor_false, Bool.xor_true,
    Bool.not_true, Bool.not_false, if_true, Bool.false_eq_true, if_false]
  · ac_rfl
  · ac_rfl
  · rw [BitVec.xor_assoc, ← BitVec.xor_assoc poly, BitVec.xor_comm poly, BitVec.xor_assoc,
      BitVec.xor_self, BitVec.xor_zero]

theorem additive_shifts (n : Nat) : Additive (shifts poly n) := by
  induction n with
  | zero => exact Additive.id
  | succ n ih =>
    intro r s
    rw [shifts_succ, shifts_succ, shifts_succ, additive_shiftStep, ih]

/-! ## Words -/

/-- A register whose lowest bits are clear only moves. -/
theorem shifts_of_low_clear {reg : BitVec w} {n : Nat} (h : ∀ i < n, reg.getLsbD i = false) :
    shifts poly n reg = reg >>> n := by
  induction n generalizing reg with
  | zero => rw [shifts_zero, BitVec.ushiftRight_zero]
  | succ n ih =>
    have hstep : shiftStep poly reg = reg >>> 1 := by
      unfold shiftStep
      rw [h 0 (by omega), if_neg Bool.false_ne_true]
    have hclear : ∀ i < n, (reg >>> 1).getLsbD i = false := by
      intro i hi
      rw [BitVec.getLsbD_ushiftRight]
      exact h (1 + i) (by omega)
    rw [shifts_succ, hstep, ih hclear, ← BitVec.shiftRight_add, Nat.add_comm]

/-- The low `k` bits of a word. -/
def lowPart (k : Nat) (x : BitVec w) : BitVec w := (x.setWidth k).setWidth w

theorem getLsbD_lowPart (k : Nat) (x : BitVec w) (i : Nat) :
    (lowPart k x).getLsbD i = (decide (i < k) && x.getLsbD i) := by
  rw [lowPart, BitVec.getLsbD_setWidth, BitVec.getLsbD_setWidth]
  by_cases hi : i < w
  · simp [hi]
  · simp [hi, BitVec.getLsbD_of_ge x i (by omega)]

/-- The shifts of a word are those of its low bits, and those of the rest that remain when
    the low bits have left. -/
theorem shifts_low {k n : Nat} (hk : k ≤ n) (x : BitVec w) :
    shifts poly n x = shifts poly n (lowPart k x) ^^^ shifts poly (n - k) (x >>> k) := by
  have hsplit : x = lowPart k x ^^^ (x >>> k) <<< k := by
    apply BitVec.eq_of_getLsbD_eq
    intro i hi
    rw [BitVec.getLsbD_xor, getLsbD_lowPart, BitVec.getLsbD_shiftLeft, BitVec.getLsbD_ushiftRight]
    by_cases hik : i < k
    · simp [hik]
    · simp [hik, hi, show k + (i - k) = i by omega]
  have hrest : shifts poly k ((x >>> k) <<< k) = x >>> k := by
    rw [shifts_of_low_clear]
    · apply BitVec.eq_of_getLsbD_eq
      intro i hi
      simp only [BitVec.getLsbD_ushiftRight, BitVec.getLsbD_shiftLeft]
      by_cases hki : k + i < w
      · simp [hki]
      · simp [hki, BitVec.getLsbD_of_ge x (k + i) (by omega)]
    · intro i hi
      simp [hi]
  have hadd := additive_shifts poly n (lowPart k x) ((x >>> k) <<< k)
  rw [← hsplit] at hadd
  rw [hadd]
  congr 1
  conv => lhs; rw [show n = n - k + k by omega, shifts_add, hrest]

/-- What enters after `k` shifts may as well enter `k` positions higher before them. -/
theorem shifts_xor_shiftLeft (n : Nat) {k : Nat} (reg : BitVec w) {x : BitVec w}
    (hx : (x <<< k) >>> k = x) :
    shifts poly n (shifts poly k reg ^^^ x) = shifts poly (n + k) (reg ^^^ x <<< k) := by
  have hclear : ∀ i < k, (x <<< k).getLsbD i = false := by
    intro i hi
    simp [hi]
  rw [shifts_add, additive_shifts poly k reg, shifts_of_low_clear poly hclear, hx]

/-- A word of input that is not wider than the register enters at once. -/
theorem shiftBits_lowPart (reg x : BitVec w) {n : Nat} (hn : n ≤ w) :
    shiftBits poly reg ((List.range n).map x.getLsbD) =
      shifts poly n (reg ^^^ lowPart n x) := by
  induction n generalizing reg x with
  | zero =>
    have hnone : lowPart 0 x = 0#w := by
      apply BitVec.eq_of_getLsbD_eq
      intro i hi
      simp [getLsbD_lowPart]
    rw [hnone, BitVec.xor_zero]
    rfl
  | succ n ih =>
    have hrange : (List.range (n + 1)).map x.getLsbD =
        x.getLsbD 0 :: (List.range n).map (x >>> 1).getLsbD := by
      rw [List.range_succ_eq_map, List.map_cons, List.map_map]
      congr 1
      apply List.map_congr_left
      intro i _
      show x.getLsbD (i + 1) = (x >>> 1).getLsbD i
      rw [BitVec.getLsbD_ushiftRight, Nat.add_comm]
    -- the first bit leaves the low part, the others move by one position
    have hlow : lowPart (n + 1) x = lowBit w (x.getLsbD 0) ^^^ lowPart n (x >>> 1) <<< 1 := by
      apply BitVec.eq_of_getLsbD_eq
      intro i hi
      rw [BitVec.getLsbD_xor, getLsbD_lowPart, getLsbD_lowBit, BitVec.getLsbD_shiftLeft,
        getLsbD_lowPart, BitVec.getLsbD_ushiftRight]
      cases i with
      | zero => simp [hi]
      | succ i => simp [hi, Nat.add_comm 1 i]
    have hmove : shiftStep poly (lowPart n (x >>> 1) <<< 1) = lowPart n (x >>> 1) := by
      have hclear : (lowPart n (x >>> 1) <<< 1).getLsbD 0 = false := by simp
      unfold shiftStep
      rw [hclear, if_neg Bool.false_ne_true]
      apply BitVec.eq_of_getLsbD_eq
      intro i hi
      rw [BitVec.getLsbD_ushiftRight, BitVec.getLsbD_shiftLeft, getLsbD_lowPart]
      by_cases hin : i < n
      · simp [hin, show 1 + i < w by omega, getLsbD_lowPart]
      · simp [hin, getLsbD_lowPart]
    rw [hrange, shiftBits_cons, ih _ _ (by omega), shifts_succ, hlow, ← BitVec.xor_assoc,
      additive_shiftStep poly (reg ^^^ _), hmove]

theorem shiftBits_lsbFirst {n : Nat} (hn : n ≤ w) (reg : BitVec w) (x : BitVec n) :
    shiftBits poly reg (lsbFirst x) = shifts poly n (reg ^^^ x.setWidth w) := by
  have hbits : lsbFirst x = (List.range n).map (x.setWidth w).getLsbD := by
    apply List.map_congr_left
    intro i hi
    have hlt := List.mem_range.mp hi
    rw [BitVec.getLsbD_setWidth]
    simp [show i < w by omega]
  have hlow : lowPart n (x.setWidth w) = x.setWidth w := by
    apply BitVec.eq_of_getLsbD_eq
    intro i hi
    rw [getLsbD_lowPart, BitVec.getLsbD_setWidth]
    by_cases hin : i < n
    · simp [hin]
    · simp [hin, BitVec.getLsbD_of_ge x i (by omega)]
  rw [hbits, shiftBits_lowPart poly reg _ hn, hlow]

end Crc
