import CUtils.ForStd.Crc

/-!
# Burst errors

If the generator has the term `1`, every bit of the register that a step produces tells what
the step has subtracted.  A step can then be undone, and a window of at most `w` input bits
can be read off the register behind it.

- `bits_injective`: the register before an input is known from the one behind it.
- `eq_of_bits_burst`: inputs that differ in a window of at most `w` bits are told apart.
-/

namespace Crc

variable {w : Nat} {poly : BitVec w}

/-- The lowest bit that a step produces is set if the generator was subtracted. -/
theorem getLsbD_bitStep_zero (hpoly : poly.getLsbD 0) (reg : BitVec w) (b : Bool) :
    (bitStep poly reg b).getLsbD 0 = (reg.msb ^^ b) := by
  rw [bitStep_eq, BitVec.getLsbD_xor, BitVec.getLsbD_shiftLeft]
  cases reg.msb ^^ b <;> simp [hpoly]

theorem getLsbD_bitStep_succ (reg : BitVec w) (b : Bool) {i : Nat} (hi : i + 1 < w) :
    (bitStep poly reg b).getLsbD (i + 1) =
      (reg.getLsbD i ^^ ((reg.msb ^^ b) && poly.getLsbD (i + 1))) := by
  rw [bitStep_eq, BitVec.getLsbD_xor, BitVec.getLsbD_shiftLeft]
  cases reg.msb ^^ b <;> simp [hi]

theorem bitStep_injective (hpoly : poly.getLsbD 0) (b : Bool) :
    Function.Injective fun reg => bitStep poly reg b := by
  intro r s h
  have hmsb : r.msb = s.msb := by
    have hlow := congrArg (fun reg => reg.getLsbD 0) h
    simp only [getLsbD_bitStep_zero hpoly] at hlow
    cases b <;> simpa using hlow
  apply BitVec.eq_of_getLsbD_eq
  intro i hi
  by_cases htop : i + 1 < w
  · have hbit := congrArg (fun reg => reg.getLsbD (i + 1)) h
    simp only [getLsbD_bitStep_succ _ _ htop, hmsb] at hbit
    simpa using hbit
  · -- the highest bit has left the register, but decides what is subtracted
    rw [BitVec.msb_eq_getLsbD_last, BitVec.msb_eq_getLsbD_last] at hmsb
    rwa [show i = w - 1 by omega]

/-- The register before an input is known from the one behind it. -/
theorem bits_injective (hpoly : poly.getLsbD 0) (input : List Bool) :
    Function.Injective fun reg => bits poly reg input := by
  induction input with
  | nil => exact fun _ _ h => h
  | cons b input ih => exact ih.comp (bitStep_injective hpoly b)

/-- Behind two inputs of at most `w` bits the registers are equal only if they were equal in
    the bits that have not left; and if they were equal at all, so are the inputs. -/
theorem of_bits_eq (hpoly : poly.getLsbD 0) {u v : List Bool} (hlen : u.length = v.length)
    (hw : u.length ≤ w) {r s : BitVec w} (h : bits poly r u = bits poly s v) :
    (∀ i < w - u.length, r.getLsbD i = s.getLsbD i) ∧ (r = s → u = v) := by
  induction u generalizing v r s with
  | nil =>
    obtain rfl := List.eq_nil_of_length_eq_zero hlen.symm
    have hrs : r = s := h
    exact ⟨fun i _ => by rw [hrs], fun _ => rfl⟩
  | cons b u ih =>
    cases v with
    | nil => cases hlen
    | cons c v =>
      rw [List.length_cons] at hw
      obtain ⟨hlow, hinput⟩ := ih (Nat.succ.inj hlen) (by omega) h
      -- both steps have subtracted the same
      have hfeed : (r.msb ^^ b) = (s.msb ^^ c) := by
        have hzero := hlow 0 (by omega)
        rwa [getLsbD_bitStep_zero hpoly, getLsbD_bitStep_zero hpoly] at hzero
      constructor
      · intro i hi
        rw [List.length_cons] at hi
        have hsucc := hlow (i + 1) (by omega)
        rw [getLsbD_bitStep_succ r b (by omega), getLsbD_bitStep_succ s c (by omega),
          hfeed] at hsucc
        exact Bool.xor_left_inj.mp hsucc
      · intro hrs
        subst hrs
        have hbc : b = c := Bool.xor_right_inj.mp hfeed
        subst hbc
        rw [hinput rfl]

/-- Inputs that differ in a window of at most `w` bits are told apart. -/
theorem eq_of_bits_burst (hpoly : poly.getLsbD 0) {reg : BitVec w} {start u v rest : List Bool}
    (hlen : u.length = v.length) (hw : u.length ≤ w)
    (h : bits poly reg (start ++ u ++ rest) = bits poly reg (start ++ v ++ rest)) : u = v := by
  rw [bits_append, bits_append, bits_append, bits_append] at h
  have hwindow := bits_injective hpoly rest h
  exact (of_bits_eq hpoly hlen hw hwindow).2 rfl

end Crc
