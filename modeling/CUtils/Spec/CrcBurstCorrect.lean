import CUtils.ForStd.CrcBurst
import CUtils.Spec.Crc16Correct
import CUtils.Spec.Crc32Correct

/-!
# Which errors the checks of `crc16.c` and `crc32.c` detect

The generators have the term `1`, so two messages that differ in a window no wider than the
register have different checks.

- `crc16ItuT_burst`, `computeCrc32_burst`: bursts of 16 and of 32 bits.
-/

namespace CUtils

/-- `crc16_itu_t` tells apart any two messages whose bits, most significant first, differ
    only in 16 consecutive places. -/
theorem crc16ItuT_burst (seed : UInt16) {a b : List UInt8} {start u v rest : List Bool}
    (ha : msbFirstBits a = start ++ u ++ rest) (hb : msbFirstBits b = start ++ v ++ rest)
    (hlen : u.length = v.length) (hw : u.length ≤ 16) (hne : u ≠ v) :
    crc16ItuT seed a a.length ≠ crc16ItuT seed b b.length := by
  intro h
  rw [crc16ItuT_eq_bits, crc16ItuT_eq_bits, ha, hb] at h
  have hbits := congrArg UInt16.toBitVec (Option.some.inj h)
  exact hne (Crc.eq_of_bits_burst (by decide) hlen hw hbits)

theorem crc16ItuT_burst_two : crc16ItuT 0xffff [1, 128, 7] 3 ≠ crc16ItuT 0xffff [0, 0, 7] 3 :=
  crc16ItuT_burst 0xffff
    (show msbFirstBits [1, 128, 7] = List.replicate 7 false ++ [true, true] ++
      (List.replicate 12 false ++ [true, true, true]) by decide)
    (show msbFirstBits [0, 0, 7] = List.replicate 7 false ++ [false, false] ++
      (List.replicate 12 false ++ [true, true, true]) by decide)
    rfl (by decide) (by decide)

/-- `compute_crc32` tells apart any two messages whose bits, least significant first, differ
    only in 32 consecutive places, wherever the two are stored. -/
theorem computeCrc32_burst (bigEndian bigEndian' : Bool) (seed : UInt32) {p q : CrcPtr}
    {start u v rest : List Bool} (hp : lsbFirstBits p.bytes = start ++ u ++ rest)
    (hq : lsbFirstBits q.bytes = start ++ v ++ rest) (hlen : u.length = v.length)
    (hw : u.length ≤ 32) (hne : u ≠ v) (hplen : p.bytes.length < 2 ^ 32)
    (hqlen : q.bytes.length < 2 ^ 32) :
    computeCrc32 bigEndian seed p p.bytes.length ≠
      computeCrc32 bigEndian' seed q q.bytes.length := by
  intro h
  rw [computeCrc32_of_lt _ _ hplen, computeCrc32_of_lt _ _ hqlen, crc32cBits, crc32cBits, hp,
    hq] at h
  have hrev := congrArg UInt32.toBitVec (Option.some.inj h)
  have hbits := congrArg BitVec.reverse hrev
  simp only [BitVec.reverse_reverse_eq] at hbits
  exact hne (Crc.eq_of_bits_burst (by decide) hlen hw hbits)

theorem computeCrc32_burst_two :
    computeCrc32 false 0 ⟨0, [128, 1]⟩ 2 ≠ computeCrc32 true 0 ⟨7, [0, 0]⟩ 2 :=
  computeCrc32_burst false true 0
    (show lsbFirstBits [128, 1] = List.replicate 7 false ++ [true, true] ++
      List.replicate 7 false by decide)
    (show lsbFirstBits [0, 0] = List.replicate 7 false ++ [false, false] ++
      List.replicate 7 false by decide)
    rfl (by decide) (by decide) (by decide) (by decide)

end CUtils
