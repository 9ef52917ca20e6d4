import CUtils.ForStd.Crc
import CUtils.Native.Crc16

/-!
# The shifts and xors of `crc16_itu_t` divide by a polynomial

The body of the loop is additive in the register and in the byte, as is the division of
eight bits, so the two are compared on the single bits of both.

- `crc16Byte_eq_bits`: one byte.
- `crc16ItuT_eq_bits`: every byte string.
-/

namespace CUtils

/-- The generator `x ^ 16 + x ^ 12 + x ^ 5 + 1`, without its first term. -/
def crc16Poly : BitVec 16 := BitVec.twoPow 16 12 ||| BitVec.twoPow 16 5 ||| BitVec.twoPow 16 0

/-- The bits of a byte string, the most significant one of each byte first. -/
def msbFirstBits (bytes : List UInt8) : List Bool := bytes.flatMap fun b => Crc.msbFirst b.toBitVec

/-- The end of the body of the loop, on 16 bits. -/
def crc16Mix (seed : BitVec 16) : BitVec 16 :=
  let seed := seed ^^^ (seed &&& 0xff#16) >>> 4
  let seed := seed ^^^ seed <<< 12
  seed ^^^ (seed &&& 0xff#16) <<< 5

/-- The body of the loop on 16 bits. -/
def crc16Shift (seed : BitVec 16) (b : BitVec 8) : BitVec 16 :=
  crc16Mix ((seed >>> 8 ^^^ seed <<< 8) ^^^ b.setWidth 16)

/-! ## Sixteen bits -/

/-- A shift to the right in 32 bits brings in no new bit. -/
theorem setWidth_ushiftRight_setWidth (x : BitVec 16) (k : Nat) :
    (x.setWidth 32 >>> k).setWidth 16 = x >>> k := by
  rw [← BitVec.setWidth_ushiftRight (by decide), BitVec.setWidth_setWidth_of_le _ (by decide),
    BitVec.setWidth_eq]

/-- The two bytes that are exchanged do not overlap. -/
theorem ushiftRight_or_shiftLeft (x : BitVec 16) : x >>> 8 ||| x <<< 8 = x >>> 8 ^^^ x <<< 8 := by
  apply BitVec.eq_of_getLsbD_eq
  intro i hi
  rw [BitVec.getLsbD_or, BitVec.getLsbD_xor, BitVec.getLsbD_ushiftRight, BitVec.getLsbD_shiftLeft]
  by_cases hlow : i < 8
  · simp [hlow]
  · rw [BitVec.getLsbD_of_ge x (8 + i) (by omega), Bool.false_or, Bool.false_xor]

/-- The computation in 32 bits gives the one in 16 bits. -/
theorem crc16Byte_toBitVec (seed : UInt16) (b : UInt8) :
    (crc16Byte seed b).toBitVec = crc16Shift seed.toBitVec b.toBitVec := by
  -- each assignment of the C code on 16 bits
  have hswap : ∀ x : UInt16, ((x.toUInt32 >>> 8) ||| (x.toUInt32 <<< 8)).toUInt16.toBitVec =
      x.toBitVec >>> 8 ^^^ x.toBitVec <<< 8 := by
    intro x
    rw [← ushiftRight_or_shiftLeft, ← setWidth_ushiftRight_setWidth]
    simp
  have hbyte : ∀ x : UInt16, (x.toUInt32 ^^^ b.toUInt32).toUInt16.toBitVec =
      x.toBitVec ^^^ b.toBitVec.setWidth 16 := by
    intro x
    simp
  have hhalf : ∀ x : UInt16, (x.toUInt32 ^^^ ((x.toUInt32 &&& 0xff) >>> 4)).toUInt16.toBitVec =
      x.toBitVec ^^^ (x.toBitVec &&& 0xff#16) >>> 4 := by
    intro x
    rw [← setWidth_ushiftRight_setWidth, BitVec.setWidth_and]
    simp
  have hhigh : ∀ x : UInt16, (x.toUInt32 ^^^ (x.toUInt32 <<< 12)).toUInt16.toBitVec =
      x.toBitVec ^^^ x.toBitVec <<< 12 := by
    intro x
    simp
  have hlow : ∀ x : UInt16, (x.toUInt32 ^^^ ((x.toUInt32 &&& 0xff) <<< 5)).toUInt16.toBitVec =
      x.toBitVec ^^^ (x.toBitVec &&& 0xff#16) <<< 5 := by
    intro x
    simp
  rw [crc16Byte, crc16Shift, crc16Mix, hlow, hhigh, hhalf, hbyte, hswap]

/-! ## One byte -/

open Crc Crc.Additive in
theorem additive_crc16Mix : Additive crc16Mix :=
  have hhalf : Additive fun x : BitVec 16 => x ^^^ (x &&& 0xff#16) >>> 4 :=
    id.xor ((id.and 0xff#16).ushiftRight 4)
  have hhigh : Additive fun x : BitVec 16 => x ^^^ x <<< 12 := id.xor (id.shiftLeft 12)
  have hlow : Additive fun x : BitVec 16 => x ^^^ (x &&& 0xff#16) <<< 5 :=
    id.xor ((id.and 0xff#16).shiftLeft 5)
  hlow.comp (hhigh.comp hhalf)

open Crc.Additive in
/-- The register and the byte contribute independently. -/
theorem crc16Shift_xor (r s : BitVec 16) (b c : BitVec 8) :
    crc16Shift (r ^^^ s) (b ^^^ c) = crc16Shift r b ^^^ crc16Shift s c := by
  have hswap := (id.ushiftRight 8).xor (id.shiftLeft 8) r s
  simp only [crc16Shift, ← additive_crc16Mix _ _, hswap, BitVec.setWidth_xor]
  ac_rfl

/-- Eight steps of the division on a byte. -/
theorem crc16Shift_eq_bits (seed : BitVec 16) (b : BitVec 8) :
    crc16Shift seed b = Crc.bits crc16Poly seed (Crc.msbFirst b) := by
  have hseed : crc16Shift seed 0#8 = Crc.bits crc16Poly seed (List.replicate 8 false) := by
    have hadd : Crc.Additive fun r => crc16Shift r 0#8 := fun r s => crc16Shift_xor r s 0#8 0#8
    exact hadd.ext (Crc.additive_bits_zeros crc16Poly 8) (by decide) seed
  have hbyte : crc16Shift 0#16 b = Crc.bits crc16Poly 0#16 (Crc.msbFirst b) := by
    have hadd : Crc.Additive (crc16Shift 0#16) := fun x y => crc16Shift_xor 0#16 0#16 x y
    exact hadd.ext (Crc.additive_bits_msbFirst crc16Poly 8) (by decide) b
  have hsplit := crc16Shift_xor seed 0#16 0#8 b
  rw [BitVec.xor_zero, BitVec.zero_xor] at hsplit
  rw [hsplit, hseed, hbyte, Crc.bits_eq_xor _ seed (Crc.msbFirst b), Crc.length_msbFirst]

theorem crc16Byte_eq_bits (seed : UInt16) (b : UInt8) :
    (crc16Byte seed b).toBitVec = Crc.bits crc16Poly seed.toBitVec (Crc.msbFirst b.toBitVec) := by
  rw [crc16Byte_toBitVec, crc16Shift_eq_bits]

/-! ## Byte strings -/

theorem crc16ItuT_eq_bits (seed : UInt16) (src : List UInt8) :
    crc16ItuT seed src src.length =
      some (UInt16.ofBitVec (Crc.bits crc16Poly seed.toBitVec (msbFirstBits src))) := by
  induction src generalizing seed with
  | nil => rfl
  | cons b src ih =>
    have hbits : msbFirstBits (b :: src) = Crc.msbFirst b.toBitVec ++ msbFirstBits src := by
      rw [msbFirstBits, List.flatMap_cons, msbFirstBits]
    rw [hbits, Crc.bits_append, ← crc16Byte_eq_bits, ← ih]
    rfl

/-- `crc16_itu_t` is the bit-serial CRC started from `seed`, for every byte string, and goes
    on where a call on a first part has ended. -/
theorem crc16ItuT_correct (seed : UInt16) :
    (∀ src : List UInt8, crc16ItuT seed src src.length =
      some (UInt16.ofBitVec (Crc.bits crc16Poly seed.toBitVec (msbFirstBits src)))) ∧
    ∀ a b : List UInt8, crc16ItuT seed (a ++ b) (a ++ b).length =
      (crc16ItuT seed a a.length).bind fun seed' => crc16ItuT seed' b b.length := by
  refine ⟨crc16ItuT_eq_bits seed, fun a b => ?_⟩
  rw [crc16ItuT_eq_bits, crc16ItuT_eq_bits, Option.bind_some, crc16ItuT_eq_bits, msbFirstBits,
    List.flatMap_append, Crc.bits_append]
  rfl

example : crc16ItuT 0xffff [49, 50, 51, 52, 53, 54, 55, 56, 57] 9 = some 0x29b1 := by
  decide +kernel

end CUtils
