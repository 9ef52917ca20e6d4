import CUtils.Native.Utils

/-!
# Stacks of elements

The stacks of `filo.c`.  A result `none` means that the C code would leave the block that
`buffer` points to.
-/

namespace CUtils

/-- `filo_t`, with the block that `buffer` points to. -/
structure Filo where
  buffer : List UInt8
  top : UInt64
  elemSize : UInt64
  maxSize : UInt64
deriving DecidableEq

/-- `filo_init(pfilo, buffer, elem_size, max_size)`. -/
def filoInit (buffer : List UInt8) (elemSize maxSize : UInt64) : Filo where
  buffer := buffer
  top := 0
  elemSize := elemSize
  maxSize := maxSize

/-- `filo_reset(pfilo)`. -/
def filoReset (pfilo : Filo) : Filo := { pfilo with top := 0 }

/-- `filo_alloc(elem_size, max_size)`, if it returns. -/
def filoAlloc (junk : Nat → UInt8) (elemSize maxSize : UInt64) : Filo :=
  filoInit (safeMalloc junk (elemSize * maxSize).toNat) elemSize maxSize

/-- `filo_push(pfilo, elem)`, with the bytes that `elem` points to. -/
def filoPush (pfilo : Filo) (elem : List UInt8) : Option (Filo × Int) :=
  if pfilo.top ≥ pfilo.maxSize then
    some (pfilo, -1)
  else do
    let off := pfilo.elemSize * pfilo.top
    let buffer ← memcpy pfilo.buffer off.toNat elem pfilo.elemSize.toNat
    return ({ pfilo with buffer, top := pfilo.top + 1 }, 0)

/-- `filo_pop(pfilo, elem, remove)`; the result has the bytes that are copied to `*elem`. -/
def filoPop (pfilo : Filo) (remove : Bool) : Option (Filo × Int × Option (List UInt8)) :=
  if pfilo.top = 0 then
    some (pfilo, -1, none)
  else do
    let off := pfilo.elemSize * (pfilo.top - 1)
    let elem ← readAt pfilo.buffer off.toNat pfilo.elemSize.toNat
    return (if remove then { pfilo with top := pfilo.top - 1 } else pfilo, 0, some elem)

/-- `filo_get_count(pfilo)`. -/
def filoGetCount (pfilo : Filo) : UInt64 := pfilo.top

/-- `filo_get_free_space(pfilo)`. -/
def filoGetFreeSpace (pfilo : Filo) : UInt64 := pfilo.maxSize - pfilo.top

end CUtils
