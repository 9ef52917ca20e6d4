import CUtils.ForStd.Ring
import CUtils.Native.Utils

/-!
# Circular buffers

The circular buffers of `circbuf.c`, called from one thread.  A result `none` means
that the C code would overflow an `int`, divide by zero or leave the data array.
The buffer is built without `CRICBUF_CLEAN_ON_POP`, as in the header.
-/

namespace CUtils

/-- `circbuf_t`; only the first `size * element_size` bytes of `buffer` exist. -/
structure Circbuf where
  buffer : Nat → UInt8
  pushCount : Int
  popCount : Int
  size : Int
  elementSize : Int

/-- The number of stored elements, as the three functions compute it. -/
def circbufTotal (circBuf : Circbuf) : Option Int := do
  let total ← cInt (circBuf.pushCount - circBuf.popCount)
  if total < 0 then
    let wrap ← cInt (2 * circBuf.size)
    cInt (total + wrap)
  else
    return total

/-- The byte offset `(count % size) * element_size` of a slot; a slot outside of the
    data array faults. -/
def circbufSlot (circBuf : Circbuf) (count : Int) : Option Nat := do
  let index ← cMod count circBuf.size
  let offset ← cInt (index * circBuf.elementSize)
  if 0 ≤ offset ∧ offset + circBuf.elementSize ≤ circBuf.size * circBuf.elementSize then
    return offset.toNat
  else
    none

/-- `count++`, followed by the wrap at `2 * size`. -/
def circbufAdvance (circBuf : Circbuf) (count : Int) : Option Int := do
  let count ← cInt (count + 1)
  let wrap ← cInt (2 * circBuf.size)
  return if count ≥ wrap then 0 else count

/-- `__circbuf_pop(circ_buf, elem, read_only)`.  `elem` tells whether the pointer is
    non-NULL; the result has the return value and the bytes copied to `*elem`. -/
def circbufPop (circBuf : Circbuf) (elem readOnly : Bool) :
    Option (Circbuf × Int × Option (List UInt8)) := do
  let total ← circbufTotal circBuf
  if total = 0 then
    return (circBuf, -1, none) -- empty
  else
    let tail ← circbufSlot circBuf circBuf.popCount
    let copied :=
      if elem then some (loadBytes circBuf.buffer tail circBuf.elementSize.toNat) else none
    if readOnly then
      return (circBuf, 0, copied)
    else
      let popCount ← circbufAdvance circBuf circBuf.popCount
      return ({ circBuf with popCount }, 0, copied)

/-- `memcpy(head, elem, element_size)`; a source that is too short faults. -/
def circbufStore (circBuf : Circbuf) (head : Nat) (elem : List UInt8) : Option (Nat → UInt8) :=
  if elem.length < circBuf.elementSize then none
  else some (storeBytes circBuf.buffer head (elem.take circBuf.elementSize.toNat))

/-- `__circbuf_push(circ_buf, elem)`, with the bytes that `elem` points to. -/
def circbufPush (circBuf : Circbuf) (elem : List UInt8) : Option (Circbuf × Int) := do
  let total ← circbufTotal circBuf
  if total ≥ circBuf.size then
    return (circBuf, -1) -- full
  else
    let head ← circbufSlot circBuf circBuf.pushCount
    let buffer ← circbufStore circBuf head elem
    let pushCount ← circbufAdvance circBuf circBuf.pushCount
    return ({ circBuf with buffer, pushCount }, 0)

/-- `__circbuf_free_space(circ_buf)`. -/
def circbufFreeSpace (circBuf : Circbuf) : Option Int := do
  let total ← circbufTotal circBuf
  cInt (circBuf.size - total)

/-- `CIRCBUF_FLUSH(buf)`. -/
def circbufFlush (circBuf : Circbuf) : Circbuf := { circBuf with pushCount := 0, popCount := 0 }

end CUtils
