import Mathlib.Data.List.Basic

/-!
# Bit-serial cyclic redundancy checks

The register of a check of width `w` is a bit vector; `poly` are the coefficients of the
generator below `x ^ w`.  Both the division and an input are additive for `^^^`, so an
implementation that is additive too only has to be compared on single bits.

- `bits_eq_xor`: the register and the input contribute independently.
- `Additive.ext`: additive functions that agree on single bits are equal.
-/

namespace Crc

variable {w : Nat} (poly : BitVec w)

/-- One step of the division.  The register moves by one position, and the generator is
    subtracted when the bit that leaves it is not the input bit. -/
def bitStep (reg : BitVec w) (b : Bool) : BitVec w :=
  if reg.msb ^^ b then reg <<< 1 ^^^ poly else reg <<< 1

/-- The register after the input bits, the first one first. -/
def bits (reg : BitVec w) (input : List Bool) : BitVec w := input.foldl (bitStep poly) reg

/-- The bits of a word, the most significant one first. -/
def msbFirst {n : Nat} (x : BitVec n) : List Bool := List.ofFn fun i : Fin n => x.getMsbD i

@[simp] theorem bits_nil (reg : BitVec w) : bits poly reg [] = reg := rfl

@[simp] theorem bits_cons (reg : BitVec w) (b : Bool) (input : List Bool) :
    bits poly reg (b :: input) = bits poly (bitStep poly reg b) input := rfl

theorem bits_append (reg : BitVec w) (input rest : List Bool) :
    bits poly reg (input ++ rest) = bits poly (bits poly reg input) rest := List.foldl_append

/-! ## Additivity -/

theorem bitStep_eq (reg : BitVec w) (b : Bool) :
    bitStep poly reg b = reg <<< 1 ^^^ if reg.msb ^^ b then poly else 0#w := by
  unfold bitStep
  split
  · rfl
  · rw [BitVec.xor_zero]

/-- The generator is subtracted for a sum exactly if it is for one of the two parts. -/
private theorem ite_xor (p q : Bool) :
    (if p ^^ q then poly else 0#w) = (if p then poly else 0#w) ^^^ if q then poly else 0#w := by
  cases p <;> cases q <;> simp

theorem bitStep_xor (r s : BitVec w) (b c : Bool) :
    bitStep poly (r ^^^ s) (b ^^ c) = bitStep poly r b ^^^ bitStep poly s c := by
  have hmsb : ((r ^^^ s).msb ^^ (b ^^ c)) = ((r.msb ^^ b) ^^ (s.msb ^^ c)) := by
    rw [BitVec.msb_xor, Bool.xor_assoc, Bool.xor_assoc, Bool.xor_left_comm s.msb]
  rw [bitStep_eq, bitStep_eq, bitStep_eq, hmsb, ite_xor, BitVec.shiftLeft_xor_distrib]
  ac_rfl

theorem bits_xor (r s : BitVec w) {bs cs : List Bool} (hlen : bs.length = cs.length) :
    bits poly (r ^^^ s) (List.zipWith (· ^^ ·) bs cs) = bits poly r bs ^^^ bits poly s cs := by
  induction bs generalizing cs r s with
  | nil =>
    obtain rfl := List.eq_nil_of_length_eq_zero hlen.symm
    rfl
  | cons b bs ih =>
    cases cs with
    | nil => cases hlen
    | cons c cs =>
      rw [List.zipWith_cons_cons, bits_cons, bits_cons, bits_cons, bitStep_xor]
      exact ih _ _ (Nat.succ.inj hlen)

/-- The register and the input contribute independently. -/
theorem bits_eq_xor (reg : BitVec w) (input : List Bool) :
    bits poly reg input =
      bits poly reg (List.replicate input.length false) ^^^ bits poly 0#w input := by
  have hzip : List.zipWith (· ^^ ·) (List.replicate input.length false) input = input := by
    induction input with
    | nil => rfl
    | cons b input ih =>
      rw [List.length_cons, List.replicate_succ, List.zipWith_cons_cons, ih, Bool.false_xor]
  have hxor := bits_xor poly reg 0#w (List.length_replicate (n := input.length) (a := false))
  rwa [hzip, BitVec.xor_zero] at hxor

theorem length_msbFirst {n : Nat} (x : BitVec n) : (msbFirst x).length = n := List.length_ofFn

theorem msbFirst_xor {n : Nat} (x y : BitVec n) :
    msbFirst (x ^^^ y) = List.zipWith (· ^^ ·) (msbFirst x) (msbFirst y) := by
  apply List.ext_getElem
  · rw [List.length_zipWith, length_msbFirst, length_msbFirst, length_msbFirst, Nat.min_self]
  · intro i hi hi'
    simp [msbFirst]

/-! ## Additive functions -/

/-- A function of words that is additive for `^^^`. -/
def Additive {m n : Nat} (f : BitVec m → BitVec n) : Prop := ∀ x y, f (x ^^^ y) = f x ^^^ f y

namespace Additive

variable {m n k : Nat} {f g : BitVec m → BitVec n}

theorem zero (hf : Additive f) : f 0#m = 0#n := by
  have hself := hf 0#m 0#m
  rwa [BitVec.xor_self, BitVec.xor_self] at hself

theorem id : Additive fun x : BitVec m => x := fun _ _ => rfl

theorem comp {e : BitVec n → BitVec k} (he : Additive e) (hf : Additive f) :
    Additive fun x => e (f x) := by
  intro x y
  show e (f (x ^^^ y)) = _
  rw [hf, he]

theorem xor (hf : Additive f) (hg : Additive g) : Additive fun x => f x ^^^ g x := by
  intro x y
  show f (x ^^^ y) ^^^ g (x ^^^ y) = (f x ^^^ g x) ^^^ (f y ^^^ g y)
  rw [hf, hg]
  ac_rfl

theorem shiftLeft (hf : Additive f) (i : Nat) : Additive fun x => f x <<< i := by
  intro x y
  show f (x ^^^ y) <<< i = _
  rw [hf, BitVec.shiftLeft_xor_distrib]

theorem ushiftRight (hf : Additive f) (i : Nat) : Additive fun x => f x >>> i := by
  intro x y
  show f (x ^^^ y) >>> i = _
  rw [hf, BitVec.ushiftRight_xor_distrib]

theorem and (hf : Additive f) (mask : BitVec n) : Additive fun x => f x &&& mask := by
  intro x y
  show f (x ^^^ y) &&& mask = _
  rw [hf]
  apply BitVec.eq_of_getLsbD_eq
  intro i hi
  simp only [BitVec.getLsbD_and, BitVec.getLsbD_xor, Bool.and_xor_distrib_right]

theorem setWidth (n : Nat) : Additive fun x : BitVec m => x.setWidth n :=
  fun _ _ => BitVec.setWidth_xor

end Additive

theorem additive_bits_zeros (n : Nat) :
    Additive fun reg => bits poly reg (List.replicate n false) := by
  intro r s
  have hxor := bits_xor poly r s (Eq.refl (List.replicate n false).length)
  rwa [List.zipWith_replicate, Nat.min_self, Bool.xor_self] at hxor

/-- The contribution of an input word is additive. -/
theorem additive_bits_msbFirst (n : Nat) :
    Additive fun x : BitVec n => bits poly 0#w (msbFirst x) := by
  intro x y
  have hlen : (msbFirst x).length = (msbFirst y).length := by
    rw [length_msbFirst, length_msbFirst]
  show bits poly 0#w (msbFirst (x ^^^ y)) = _
  rw [msbFirst_xor, ← bits_xor poly _ _ hlen, BitVec.xor_zero]

/-! ## Comparison on single bits -/

/-- The bits of a word below a position. -/
private theorem low_bits_succ {n : Nat} (x : BitVec n) (k : Nat) :
    (x.setWidth (k + 1)).setWidth n =
      (x.setWidth k).setWidth n ^^^ if x.getLsbD k then BitVec.twoPow n k else 0#n := by
  have hbit : ∀ i, (if x.getLsbD k then BitVec.twoPow n k else 0#n).getLsbD i =
      (decide (k < n) && decide (k = i) && x.getLsbD k) := by
    intro i
    cases x.getLsbD k <;> simp [BitVec.getLsbD_twoPow]
  apply BitVec.eq_of_getLsbD_eq
  intro i hi
  rw [BitVec.getLsbD_xor, hbit]
  by_cases hik : k = i
  · subst hik
    simp [hi]
  · have hlt : i < k + 1 ↔ i < k := by omega
    simp [hi, hik, hlt]

/-- Additive functions of a word that agree on single bits are equal. -/
theorem Additive.ext {n : Nat} {f g : BitVec n → BitVec w} (hf : Additive f) (hg : Additive g)
    (h : ∀ k < n, f (BitVec.twoPow n k) = g (BitVec.twoPow n k)) (x : BitVec n) : f x = g x := by
  -- the two functions agree on the lowest `k` bits
  have hlow : ∀ k ≤ n, f ((x.setWidth k).setWidth n) = g ((x.setWidth k).setWidth n) := by
    intro k hk
    induction k with
    | zero =>
      have hnone : (x.setWidth 0).setWidth n = 0#n := by
        rw [BitVec.eq_nil (x.setWidth 0)]
        simp
      rw [hnone, hf.zero, hg.zero]
    | succ k ih =>
      rw [low_bits_succ, hf, hg, ih (by omega)]
      congr 1
      split
      · exact h k hk
      · rw [hf.zero, hg.zero]
  simpa using hlow n (Nat.le_refl n)

end Crc
