import CUtils.ForStd.BitSwap
import CUtils.Native.BitReverse
import CUtils.Spec.Crc16Correct
import CUtils.Spec.Crc32Correct

/-!
# Bit reversal, and checks in the other bit order

- `u8BitReverse_toBitVec`, `u16BitReverse_toBitVec`, `u32BitReverse_toBitVec`: the helpers
  reverse every word.
- `crc_reflected`: with them, each of the two checks is one of the other bit order.
-/

namespace CUtils

/-! ## The helpers -/

theorem u8BitReverse_toBitVec (b : UInt8) : (u8BitReverse b).toBitVec = b.toBitVec.reverse := by
  have hw : 8 = 2 ^ 3 := rfl
  have h1 : BlockMasks 0 0xaa#8 0x55#8 := by decide
  have h2 : BlockMasks 1 0xcc#8 0x33#8 := by decide
  have hpairs := (Flips.refl b.toBitVec).then_stage h1 hw (by decide)
  have hnibbles := hpairs.then_stage h2 hw (by decide)
  exact (hnibbles.then_halves hw).eq_reverse hw

theorem u16BitReverse_toBitVec (x : UInt16) : (u16BitReverse x).toBitVec = x.toBitVec.reverse := by
  have hw : 16 = 2 ^ 4 := rfl
  have h1 : BlockMasks 0 0xaaaa#16 0x5555#16 := by decide
  have h2 : BlockMasks 1 0xcccc#16 0x3333#16 := by decide
  have h4 : BlockMasks 2 0xf0f0#16 0x0f0f#16 := by decide
  have hpairs := (Flips.refl x.toBitVec).then_stage h1 hw (by decide)
  have hnibbles := hpairs.then_stage h2 hw (by decide)
  have hbytes := hnibbles.then_stage h4 hw (by decide)
  exact (hbytes.then_halves hw).eq_reverse hw

theorem u32BitReverse_toBitVec (x : UInt32) : (u32BitReverse x).toBitVec = x.toBitVec.reverse := by
  have hw : 32 = 2 ^ 5 := rfl
  have h1 : BlockMasks 0 0xaaaaaaaa#32 0x55555555#32 := by decide
  have h2 : BlockMasks 1 0xcccccccc#32 0x33333333#32 := by decide
  have h4 : BlockMasks 2 0xf0f0f0f0#32 0x0f0f0f0f#32 := by decide
  have h8 : BlockMasks 3 0xff00ff00#32 0x00ff00ff#32 := by decide
  have hpairs := (Flips.refl x.toBitVec).then_stage h1 hw (by decide)
  have hnibbles := hpairs.then_stage h2 hw (by decide)
  have hbytes := hnibbles.then_stage h4 hw (by decide)
  have hwords := hbytes.then_stage h8 hw (by decide)
  exact (hwords.then_halves hw).eq_reverse hw

/-! ## The other bit order -/

theorem lsbFirst_eq_msbFirst_reverse {n : Nat} (x : BitVec n) :
    Crc.lsbFirst x = Crc.msbFirst x.reverse := by
  apply List.ext_getElem
  · rw [Crc.length_msbFirst, Crc.lsbFirst, List.length_map, List.length_range]
  · intro i _ _
    simp only [Crc.lsbFirst, Crc.msbFirst, List.getElem_map, List.getElem_range,
      List.getElem_ofFn, BitVec.getMsbD_reverse]

/-- The bytes reversed one by one, read in the other order. -/
theorem msbFirstBits_map_u8BitReverse (bytes : List UInt8) :
    msbFirstBits (bytes.map u8BitReverse) = lsbFirstBits bytes := by
  rw [msbFirstBits, lsbFirstBits, List.flatMap_map]
  congr 1
  funext b
  rw [u8BitReverse_toBitVec, ← lsbFirst_eq_msbFirst_reverse]

/-- The 32-bit check takes its bits least significant first, and is the division with the most
    significant bit first on reversed words; the 16-bit check is the other way round, and
    becomes the shift register with the reflected generator `0x8408`. -/
theorem crc_reflected :
    (∀ (bigEndian : Bool) (seed : UInt32) (p : CrcPtr), p.bytes.length < 2 ^ 32 →
      computeCrc32 bigEndian seed p p.bytes.length =
        some (u32BitReverse (UInt32.ofBitVec (Crc.bits crc32cPoly (u32BitReverse seed).toBitVec
          (msbFirstBits (p.bytes.map u8BitReverse)))))) ∧
    ∀ (seed : UInt16) (src : List UInt8),
      (crc16ItuT (u16BitReverse seed) (src.map u8BitReverse) src.length).map u16BitReverse =
        some (UInt16.ofBitVec (Crc.shiftBits 0x8408#16 seed.toBitVec (lsbFirstBits src))) := by
  apply And.intro
  · intro bigEndian seed p hlen
    rw [computeCrc32_of_lt bigEndian seed hlen, msbFirstBits_map_u8BitReverse,
      u32BitReverse_toBitVec]
    congr 1
    apply UInt32.toBitVec_inj.mp
    rw [u32BitReverse_toBitVec]
    rfl
  · intro seed src
    have hpoly : crc16Poly.reverse = 0x8408#16 := by decide
    have hlen : (src.map u8BitReverse).length = src.length := List.length_map u8BitReverse
    rw [← hlen, crc16ItuT_eq_bits, Option.map_some, msbFirstBits_map_u8BitReverse,
      u16BitReverse_toBitVec, ← hpoly]
    congr 1
    apply UInt16.toBitVec_inj.mp
    rw [u16BitReverse_toBitVec]
    have hseed : seed.toBitVec.reverse.reverse = seed.toBitVec := BitVec.reverse_reverse_eq
    have hrev := Crc.shiftBits_reverse crc16Poly seed.toBitVec.reverse (lsbFirstBits src)
    rw [hseed] at hrev
    exact hrev.symm

/-- "123456789": the check value of CRC-16/KERMIT. -/
theorem crc_reflected_digits :
    (crc16ItuT (u16BitReverse 0) ([49, 50, 51, 52, 53, 54, 55, 56, 57].map u8BitReverse) 9).map
        u16BitReverse =
      some (UInt16.ofBitVec (Crc.shiftBits 0x8408#16 0#16
        (lsbFirstBits [49, 50, 51, 52, 53, 54, 55, 56, 57]))) ∧
    computeCrc32 false 0 ⟨1, [49, 50, 51]⟩ 3 =
      some (u32BitReverse (UInt32.ofBitVec (Crc.bits crc32cPoly (u32BitReverse 0).toBitVec
        (msbFirstBits ([49, 50, 51].map u8BitReverse))))) :=
  ⟨crc_reflected.2 0 [49, 50, 51, 52, 53, 54, 55, 56, 57],
    crc_reflected.1 false 0 ⟨1, [49, 50, 51]⟩ (by decide)⟩

example : (crc16ItuT (u16BitReverse 0) ([49, 50, 51, 52, 53, 54, 55, 56, 57].map u8BitReverse)
    9).map u16BitReverse = some 0x2189 := by decide +kernel

end CUtils
