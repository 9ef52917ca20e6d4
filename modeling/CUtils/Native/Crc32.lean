import CUtils.ForStd.Bytes
import CUtils.Native.Crc32Tables

/-!
# CRC-32C

`compute_crc32` of `crc32.c`: one byte at a time for short buffers, else eight bytes at a
time with a table for each of them.  A result `none` means that the C code would read behind
the buffer or load a word from an address that is not aligned.
-/

namespace CUtils

/-- A pointer into the buffer: its address, and the bytes from there on. -/
structure CrcPtr where
  addr : Nat
  bytes : List UInt8

/-- `*p++`. -/
def CrcPtr.next (p : CrcPtr) : Option (UInt8 × CrcPtr) := do
  let b ← p.bytes[0]?
  return (b, ⟨p.addr + 1, p.bytes.drop 1⟩)

/-- `*(const uint32_t *) p` and `p += 4`, in little-endian order. -/
def CrcPtr.word (p : CrcPtr) : Option (UInt32 × CrcPtr) :=
  if p.addr % 4 ≠ 0 then none
  else do
    let v ← load32 p.bytes 0
    return (UInt32.ofNat v, ⟨p.addr + 4, p.bytes.drop 4⟩)

/-- `table[x & 0xff]`. -/
def crcLookup (table : List UInt32) (x : UInt32) : Option UInt32 := table[(x &&& 0xff).toNat]?

/-! ## One byte at a time -/

/-- `table[(crc ^ b) & 0xff] ^ (crc >> 8)`. -/
def crcTableByte (table : List UInt32) (crc : UInt32) (b : UInt8) : Option UInt32 := do
  let term ← crcLookup table (crc ^^^ b.toUInt32)
  return term ^^^ (crc >>> 8)

/-- A loop over `n` bytes; the C code has it once with `crc32Table` and twice with
    `sctp_crc_tableil8_o32`. -/
def crcTableBytes (table : List UInt32) : Nat → UInt32 → CrcPtr → Option (UInt32 × CrcPtr)
  | 0, crc, p => some (crc, p)
  | n + 1, crc, p => do
    let (b, p) ← p.next
    let crc ← crcTableByte table crc b
    crcTableBytes table n crc p

/-- `singletable_crc32c(crc, buf, size)`. -/
def singletableCrc32c (crc : UInt32) (buf : CrcPtr) (size : Nat) : Option UInt32 :=
  (crcTableBytes crc32Table size crc buf).map (·.1)

/-! ## Eight bytes at a time -/

/-- The lookups for the register with the first four bytes in it. -/
def crcFirstTerms (crc : UInt32) : Option UInt32 := do
  let t88 ← crcLookup sctpCrcTableil8O88 crc
  let t80 ← crcLookup sctpCrcTableil8O80 (crc >>> 8)
  let term1 := t88 ^^^ t80
  let term2 := crc >>> 16
  let t72 ← crcLookup sctpCrcTableil8O72 term2
  let t64 ← crcLookup sctpCrcTableil8O64 (term2 >>> 8)
  return term1 ^^^ t72 ^^^ t64

/-- One block where `BYTE_ORDER` is not `BIG_ENDIAN`. -/
def crcBlockLittle (crc : UInt32) (p : CrcPtr) : Option (UInt32 × CrcPtr) := do
  let (word, p) ← p.word
  let crc := crc ^^^ word
  let crc ← crcFirstTerms crc
  let (word, p) ← p.word
  let t56 ← crcLookup sctpCrcTableil8O56 word
  let t48 ← crcLookup sctpCrcTableil8O48 (word >>> 8)
  let term1 := t56 ^^^ t48
  let term2 := word >>> 16
  let t40 ← crcLookup sctpCrcTableil8O40 term2
  let t32 ← crcLookup sctpCrcTableil8O32 (term2 >>> 8)
  return (crc ^^^ term1 ^^^ t40 ^^^ t32, p)

/-- One block where `BYTE_ORDER` is `BIG_ENDIAN`. -/
def crcBlockBig (crc : UInt32) (p : CrcPtr) : Option (UInt32 × CrcPtr) := do
  let (b, p) ← p.next
  let crc := crc ^^^ b.toUInt32
  let (b, p) ← p.next
  let crc := crc ^^^ b.toUInt32 <<< 8
  let (b, p) ← p.next
  let crc := crc ^^^ b.toUInt32 <<< 16
  let (b, p) ← p.next
  let crc := crc ^^^ b.toUInt32 <<< 24
  let crc ← crcFirstTerms crc
  let (b, p) ← p.next
  let crc := crc ^^^ (← sctpCrcTableil8O56[b.toNat]?)
  let (b, p) ← p.next
  let crc := crc ^^^ (← sctpCrcTableil8O48[b.toNat]?)
  let (b, p) ← p.next
  let crc := crc ^^^ (← sctpCrcTableil8O40[b.toNat]?)
  let (b, p) ← p.next
  let crc := crc ^^^ (← sctpCrcTableil8O32[b.toNat]?)
  return (crc, p)

/-- The loop body of `crc32c_sb8_64_bit`. -/
def crcBlock (bigEndian : Bool) (crc : UInt32) (p : CrcPtr) : Option (UInt32 × CrcPtr) :=
  if bigEndian then crcBlockBig crc p else crcBlockLittle crc p

/-- The loop over `n` blocks of eight bytes. -/
def crcBlocks (bigEndian : Bool) : Nat → UInt32 → CrcPtr → Option (UInt32 × CrcPtr)
  | 0, crc, p => some (crc, p)
  | n + 1, crc, p => do
    let (crc, p) ← crcBlock bigEndian crc p
    crcBlocks bigEndian n crc p

/-- `crc32c_sb8_64_bit(crc, p_buf, length, init_bytes)`. -/
def crc32cSb8 (bigEndian : Bool) (crc : UInt32) (p : CrcPtr) (length initBytes : UInt32) :
    Option UInt32 := do
  let runningLength := ((length - initBytes) / 8) * 8
  let endBytes := length - initBytes - runningLength
  let (crc, p) ← crcTableBytes sctpCrcTableil8O32 initBytes.toNat crc p
  let (crc, p) ← crcBlocks bigEndian (runningLength / 8).toNat crc p
  let (crc, _) ← crcTableBytes sctpCrcTableil8O32 endBytes.toNat crc p
  return crc

/-- `multitable_crc32c(crc32c, buffer, length)`. -/
def multitableCrc32c (bigEndian : Bool) (crc32c : UInt32) (buffer : CrcPtr) (length : UInt32) :
    Option UInt32 :=
  if length = 0 then some crc32c
  else
    let toEvenWord := UInt32.ofNat (4 - (buffer.addr &&& 3))
    crc32cSb8 bigEndian crc32c buffer length toEvenWord

/-- `compute_crc32(seed, buffer, length)`; `length` is converted to `unsigned int` for the
    second function. -/
def computeCrc32 (bigEndian : Bool) (seed : UInt32) (buffer : CrcPtr) (length : Nat) :
    Option UInt32 :=
  if length < 4 then singletableCrc32c seed buffer length
  else multitableCrc32c bigEndian seed buffer (UInt32.ofNat length)

end CUtils
