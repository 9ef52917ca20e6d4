import CUtils.Native.Utils

/-!
# Slab allocator

The pool of `slab.c`.  The memory is the list of its bytes, so an address is an index
and an access behind the end faults.  The blob, the unit headers and the data of the
client share this memory.
-/

namespace CUtils

/-- `slab_t`; `blob` is an address, `size` and `count` have the type `size_t`. -/
structure Slab where
  blob : Nat
  size : UInt64
  count : UInt64
deriving DecidableEq

/-- `ROUND_UP(x, y)` on `size_t`. -/
def roundUp (x y : UInt64) : UInt64 := (x + y - 1) &&& ~~~(y - 1)

/-- `sizeof(void *)`. -/
def sizeofPointer : UInt64 := 8

/-- `sizeof(struct slab_unit)`: the words `leased` and `canary`. -/
def sizeofSlabUnit : UInt64 := 8

/-- `a / b` on `size_t`; a zero divisor faults. -/
def sizeDiv (a b : UInt64) : Option UInt64 := if b = 0 then none else some (a / b)

/-- `slab_init(slab, slab_size, blob, blob_size)`. -/
def slabInit (mem : List UInt8) (slab : Slab) (slabSize : UInt64) (blob : Nat)
    (blobSize : UInt64) : Option (List UInt8 × Slab × Int32) := do
  let slab := { slab with size := roundUp slabSize sizeofPointer + sizeofSlabUnit }
  if slab.size > blobSize then
    return (mem, slab, -1)
  else
    let count ← sizeDiv blobSize slab.size
    let slab := { slab with count }
    let mem ← memset mem blob 0 blobSize.toNat
    let slab := { slab with blob }
    return (mem, slab, slab.count.toUInt32.toInt32)

/-- `slab->blob + (i * slab->size)`. -/
def slabUnit (slab : Slab) (i : Nat) : Nat := slab.blob + (UInt64.ofNat i * slab.size).toNat

/-- `p->data`. -/
def slabData (p : Nat) : Nat := p + 8

/-- The loop of `slab_alloc` with `n` units left from the unit `i` on; without a block
    the function returns -1. -/
def slabAllocLoop (slab : Slab) (mem : List UInt8) (i : Nat) :
    Nat → Option (List UInt8 × Option Nat)
  | 0 => some (mem, none)
  | n + 1 => do
    let p := slabUnit slab i
    let leased ← load32 mem p
    if leased = 0 then
      let mem ← store32 mem p 1
      let mem ← store32 mem (p + 4) 0xdeadbeaf
      return (mem, some (slabData p))
    else
      slabAllocLoop slab mem (i + 1) n

/-- `slab_alloc(slab, block)`. -/
def slabAlloc (slab : Slab) (mem : List UInt8) : Option (List UInt8 × Option Nat) :=
  slabAllocLoop slab mem 0 slab.count.toNat

/-- `slab_free(slab, block)`; the header is the eight bytes before the block. -/
def slabFree (mem : List UInt8) (block : Nat) : Option (List UInt8 × Int32) :=
  if block < 8 then none
  else do
    let p := block - 8
    let canary ← load32 mem (p + 4)
    if canary ≠ 0xdeadbeaf then
      return (mem, -1)
    else
      let mem ← store32 mem p 0
      return (mem, 0)

/-! ## The pool and its client -/

/-- The memory and the blocks that the client has leased and not given back. -/
structure SlabClient where
  mem : List UInt8
  leased : List Nat
deriving DecidableEq

/-- What a client does: it frees and writes only what it has leased. -/
inductive SlabOp
  | alloc
  | free (block : Nat)
  | write (block off : Nat) (bs : List UInt8)

/-- One operation of a client of blocks of `slabSize` bytes. -/
def slabStep (slab : Slab) (slabSize : UInt64) (s : SlabClient) : SlabOp → Option SlabClient
  | .alloc => do
    let (mem, block) ← slabAlloc slab s.mem
    return { mem, leased := block.toList ++ s.leased }
  | .free block => do
    cAssert (block ∈ s.leased)
    let (mem, ret) ← slabFree s.mem block
    return { mem, leased := if ret = 0 then s.leased.erase block else s.leased }
  | .write block off bs => do
    cAssert (block ∈ s.leased ∧ off + bs.length ≤ slabSize.toNat)
    let mem ← writeAt s.mem (block + off) bs
    return { s with mem }

/-! ## Rounding -/

private theorem and_not_seven (x : BitVec 64) : x &&& ~~~7#64 = (x >>> 3) <<< 3 := by
  have hmask : ~~~7#64 = BitVec.allOnes 64 <<< 3 := by decide
  rw [hmask]
  ext i hi
  simp only [BitVec.getElem_and, BitVec.getElem_shiftLeft, BitVec.getElem_allOnes]
  by_cases h3 : i < 3
  · simp [h3]
  · have hadd : 3 + (i - 3) = i := by omega
    simp [h3, hadd, BitVec.getLsbD_eq_getElem hi]

/-- The rounding is exact as long as the addition does not wrap. -/
theorem toNat_roundUp_eight {x : UInt64} (h : x.toNat + 7 < 2 ^ 64) :
    (roundUp x 8).toNat = (x.toNat + 7) / 8 * 8 := by
  have hadd : x + 8 - 1 = x + 7 := by
    rw [UInt64.sub_eq_add_neg, UInt64.add_assoc]
    rfl
  have hnat : (x + 7).toNat = x.toNat + 7 := by
    rw [UInt64.toNat_add]
    exact Nat.mod_eq_of_lt h
  have hbits : ((x + 7) &&& ~~~(8 - 1)).toBitVec = ((x + 7).toBitVec >>> 3) <<< 3 :=
    and_not_seven _
  rw [roundUp, hadd, ← UInt64.toNat_toBitVec, hbits, BitVec.toNat_shiftLeft,
    BitVec.toNat_ushiftRight, UInt64.toNat_toBitVec, hnat, Nat.shiftLeft_eq,
    Nat.shiftRight_eq_div_pow]
  exact Nat.mod_eq_of_lt (by omega)

end CUtils
