import Mathlib.Data.List.Basic

/-!
# CRC-16

`crc16_itu_t` of `crc16.c`.  An operation on a `uint16_t` is computed in 32 bits, and the
assignment keeps the low 16 of them.
-/

namespace CUtils

/-- The body of the loop of `crc16_itu_t` with `*src`. -/
def crc16Byte (seed : UInt16) (b : UInt8) : UInt16 :=
  let seed := ((seed.toUInt32 >>> 8) ||| (seed.toUInt32 <<< 8)).toUInt16
  let seed := (seed.toUInt32 ^^^ b.toUInt32).toUInt16
  let seed := (seed.toUInt32 ^^^ ((seed.toUInt32 &&& 0xff) >>> 4)).toUInt16
  let seed := (seed.toUInt32 ^^^ (seed.toUInt32 <<< 12)).toUInt16
  (seed.toUInt32 ^^^ ((seed.toUInt32 &&& 0xff) <<< 5)).toUInt16

/-- `crc16_itu_t(seed, src, len)`; a read behind the last byte faults. -/
def crc16ItuT (seed : UInt16) (src : List UInt8) : Nat → Option UInt16
  | 0 => some seed
  | len + 1 => do
    let b ← src[0]?
    crc16ItuT (crc16Byte seed b) (src.drop 1) len

end CUtils
