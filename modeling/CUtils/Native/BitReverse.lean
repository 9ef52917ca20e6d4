import Mathlib.Data.List.Basic

/-!
# Reversing the bits of a word

The helpers of `utils.h`.  A `uint8_t` or a `uint16_t` is computed on as an `int`; what the
masks let through does not leave the narrow type, and the last line keeps its low bits.
-/

namespace CUtils

/-- `u8_bit_reverse(b)`. -/
def u8BitReverse (b : UInt8) : UInt8 :=
  let b := ((b &&& 0xaa) >>> 1) ||| ((b &&& 0x55) <<< 1)
  let b := ((b &&& 0xcc) >>> 2) ||| ((b &&& 0x33) <<< 2)
  (b >>> 4) ||| (b <<< 4)

/-- `u16_bit_reverse(x)`. -/
def u16BitReverse (x : UInt16) : UInt16 :=
  let x := ((x &&& 0xaaaa) >>> 1) ||| ((x &&& 0x5555) <<< 1)
  let x := ((x &&& 0xcccc) >>> 2) ||| ((x &&& 0x3333) <<< 2)
  let x := ((x &&& 0xf0f0) >>> 4) ||| ((x &&& 0x0f0f) <<< 4)
  (x >>> 8) ||| (x <<< 8)

/-- `u32_bit_reverse(x)`. -/
def u32BitReverse (x : UInt32) : UInt32 :=
  let x := ((x &&& 0xaaaaaaaa) >>> 1) ||| ((x &&& 0x55555555) <<< 1)
  let x := ((x &&& 0xcccccccc) >>> 2) ||| ((x &&& 0x33333333) <<< 2)
  let x := ((x &&& 0xf0f0f0f0) >>> 4) ||| ((x &&& 0x0f0f0f0f) <<< 4)
  let x := ((x &&& 0xff00ff00) >>> 8) ||| ((x &&& 0x00ff00ff) <<< 8)
  (x >>> 16) ||| (x <<< 16)

end CUtils
