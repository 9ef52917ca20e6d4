import CUtils.ForStd.CrcReflect
import CUtils.Native.Crc32

/-!
# The tables of `compute_crc32` divide by a polynomial

A table entry is its index after some shifts of the reflected register.  The lookups for a
word are the shifts of its four bytes, so the loops with eight tables and with one table
compute the same, whatever the alignment of the buffer.

- `computeCrc32_covers`: which bytes a call covers, for every length.
- `computeCrc32_chunks`: any sequence of calls.
-/

namespace CUtils

/-- The generator of CRC-32C, without its first term. -/
def crc32cPoly : BitVec 32 := 0x1EDC6F41#32

/-- The bits of a byte string, the least significant one of each byte first. -/
def lsbFirstBits (bytes : List UInt8) : List Bool := bytes.flatMap fun b => Crc.lsbFirst b.toBitVec

/-- The bit-serial CRC-32C with the register in reverse. -/
def crc32cBits (seed : UInt32) (bytes : List UInt8) : UInt32 :=
  UInt32.ofBitVec (Crc.bits crc32cPoly seed.toBitVec.reverse (lsbFirstBits bytes)).reverse

/-- `n` shifts of the reflected register. -/
def crcShifts (n : Nat) (reg : UInt32) : UInt32 :=
  UInt32.ofBitVec (Crc.shifts 0x82F63B78#32 n reg.toBitVec)

/-- The table whose entries are their indices after `n` shifts. -/
def crcTable (n : Nat) : List UInt32 := (List.range 256).map fun i => crcShifts n (UInt32.ofNat i)

/-! ## Tables -/

theorem crcShifts_add (m n : Nat) (reg : UInt32) :
    crcShifts (m + n) reg = crcShifts m (crcShifts n reg) := by
  rw [crcShifts, Crc.shifts_add]
  rfl

/-- The next table goes on from the entries of the one before. -/
theorem crcTable_succ {n : Nat} {table next : List UInt32} (h : table = crcTable n)
    (hnext : next = table.map (crcShifts 8)) : next = crcTable (n + 8) := by
  rw [hnext, h, crcTable, crcTable, List.map_map, Nat.add_comm]
  apply List.map_congr_left
  intro i _
  exact (crcShifts_add 8 n (UInt32.ofNat i)).symm

/-- The tables as they stand in the source: two made directly, and each of the others from the
    one before. -/
theorem crcTables_made :
    crc32Table = crcTable 8 ∧ sctpCrcTableil8O32 = crcTable 8 ∧
    sctpCrcTableil8O40 = sctpCrcTableil8O32.map (crcShifts 8) ∧
    sctpCrcTableil8O48 = sctpCrcTableil8O40.map (crcShifts 8) ∧
    sctpCrcTableil8O56 = sctpCrcTableil8O48.map (crcShifts 8) ∧
    sctpCrcTableil8O64 = sctpCrcTableil8O56.map (crcShifts 8) ∧
    sctpCrcTableil8O72 = sctpCrcTableil8O64.map (crcShifts 8) ∧
    sctpCrcTableil8O80 = sctpCrcTableil8O72.map (crcShifts 8) ∧
    sctpCrcTableil8O88 = sctpCrcTableil8O80.map (crcShifts 8) := by
  decide +kernel

theorem crc32Table_eq : crc32Table = crcTable 8 := crcTables_made.1

theorem sctpCrcTableil8O32_eq : sctpCrcTableil8O32 = crcTable 8 := crcTables_made.2.1

theorem sctpCrcTableil8O40_eq : sctpCrcTableil8O40 = crcTable 16 :=
  crcTable_succ sctpCrcTableil8O32_eq crcTables_made.2.2.1

theorem sctpCrcTableil8O48_eq : sctpCrcTableil8O48 = crcTable 24 :=
  crcTable_succ sctpCrcTableil8O40_eq crcTables_made.2.2.2.1

theorem sctpCrcTableil8O56_eq : sctpCrcTableil8O56 = crcTable 32 :=
  crcTable_succ sctpCrcTableil8O48_eq crcTables_made.2.2.2.2.1

theorem sctpCrcTableil8O64_eq : sctpCrcTableil8O64 = crcTable 40 :=
  crcTable_succ sctpCrcTableil8O56_eq crcTables_made.2.2.2.2.2.1

theorem sctpCrcTableil8O72_eq : sctpCrcTableil8O72 = crcTable 48 :=
  crcTable_succ sctpCrcTableil8O64_eq crcTables_made.2.2.2.2.2.2.1

theorem sctpCrcTableil8O80_eq : sctpCrcTableil8O80 = crcTable 56 :=
  crcTable_succ sctpCrcTableil8O72_eq crcTables_made.2.2.2.2.2.2.2.1

theorem sctpCrcTableil8O88_eq : sctpCrcTableil8O88 = crcTable 64 :=
  crcTable_succ sctpCrcTableil8O80_eq crcTables_made.2.2.2.2.2.2.2.2

/-- The lowest byte of a word. -/
def lowByte (x : UInt32) : UInt32 := x &&& 0xff

theorem toBitVec_lowByte (x : UInt32) : (lowByte x).toBitVec = Crc.lowPart 8 x.toBitVec := by
  apply BitVec.eq_of_getLsbD_eq
  intro i hi
  rw [Crc.getLsbD_lowPart, lowByte, UInt32.toBitVec_and, BitVec.getLsbD_and, Bool.and_comm]
  congr 1
  show (255#32).getLsbD i = decide (i < 8)
  rw [BitVec.getLsbD_ofNat, show (255 : Nat) = 2 ^ 8 - 1 from rfl, Nat.testBit_two_pow_sub_one]
  simp [hi]

/-- A lookup shifts the lowest byte. -/
theorem crcLookup_crcTable (n : Nat) (x : UInt32) :
    crcLookup (crcTable n) x = some (crcShifts n (lowByte x)) := by
  have hlt : (lowByte x).toNat < 256 := by
    rw [lowByte, UInt32.toNat_and]
    exact Nat.lt_of_le_of_lt Nat.and_le_right (by decide)
  show (crcTable n)[(lowByte x).toNat]? = _
  rw [crcTable, List.getElem?_map, List.getElem?_range hlt, Option.map_some, UInt32.ofNat_toNat]

/-! ## Shifts of a word -/

theorem crcShifts_xor (n : Nat) (x y : UInt32) :
    crcShifts n (x ^^^ y) = crcShifts n x ^^^ crcShifts n y := by
  have hadd := Crc.additive_shifts 0x82F63B78#32 n x.toBitVec y.toBitVec
  rw [crcShifts, UInt32.toBitVec_xor, hadd]
  rfl

/-- The lowest byte of a word and the rest shift independently. -/
theorem crcShifts_low (n : Nat) (x : UInt32) :
    crcShifts (n + 8) x = crcShifts (n + 8) (lowByte x) ^^^ crcShifts n (x >>> 8) := by
  have hlow := Crc.shifts_low 0x82F63B78#32 (Nat.le_add_left 8 n) x.toBitVec
  rw [Nat.add_sub_cancel, ← toBitVec_lowByte] at hlow
  rw [crcShifts, hlow]
  rfl

theorem shiftRight_high (x : UInt32) : (x >>> 16) >>> 8 = x >>> 24 :=
  UInt32.toBitVec_inj.mp (BitVec.shiftRight_add x.toBitVec 16 8).symm

/-- The four lookups for a word. -/
theorem crcShifts_word (n : Nat) (x : UInt32) :
    crcShifts (n + 32) x = crcShifts (n + 32) (lowByte x) ^^^ crcShifts (n + 24) (lowByte (x >>> 8))
      ^^^ crcShifts (n + 16) (lowByte (x >>> 16)) ^^^ crcShifts (n + 8) (lowByte (x >>> 24)) := by
  have hmid : (x >>> 8) >>> 8 = x >>> 16 :=
    UInt32.toBitVec_inj.mp (BitVec.shiftRight_add x.toBitVec 8 8).symm
  have hnone : (x >>> 24) >>> 8 = 0 := by
    apply UInt32.toBitVec_inj.mp
    show x.toBitVec >>> 24 >>> 8 = 0#32
    rw [← BitVec.shiftRight_add, BitVec.ushiftRight_eq_zero (by decide)]
  have hzero : crcShifts n 0 = 0 := by
    rw [crcShifts]
    exact UInt32.toBitVec_inj.mp (Crc.additive_shifts _ n).zero
  rw [crcShifts_low (n + 24) x, crcShifts_low (n + 16) (x >>> 8), hmid,
    crcShifts_low (n + 8) (x >>> 16), shiftRight_high, crcShifts_low n (x >>> 24), hnone, hzero,
    UInt32.xor_zero, UInt32.xor_assoc, UInt32.xor_assoc]

/-! ## Bytes -/

/-- The reflected register after the bytes. -/
def crcFeed (crc : UInt32) (bytes : List UInt8) : UInt32 :=
  UInt32.ofBitVec (Crc.shiftBits 0x82F63B78#32 crc.toBitVec (lsbFirstBits bytes))

@[simp] theorem crcFeed_nil (crc : UInt32) : crcFeed crc [] = crc := rfl

theorem crcFeed_append (crc : UInt32) (a b : List UInt8) :
    crcFeed crc (a ++ b) = crcFeed (crcFeed crc a) b := by
  rw [crcFeed, lsbFirstBits, List.flatMap_append, Crc.shiftBits_append]
  rfl

theorem crcFeed_cons (crc : UInt32) (b : UInt8) (bytes : List UInt8) :
    crcFeed crc (b :: bytes) = crcFeed (crcShifts 8 (crc ^^^ b.toUInt32)) bytes := by
  have hbyte : crcFeed crc [b] = crcShifts 8 (crc ^^^ b.toUInt32) := by
    have hword := Crc.shiftBits_lsbFirst 0x82F63B78#32 (show 8 ≤ 32 by decide) crc.toBitVec b.toBitVec
    rw [crcFeed, lsbFirstBits, List.flatMap_singleton, hword]
    rfl
  rw [← List.singleton_append, crcFeed_append, hbyte]

/-- The reflected register is the bit-serial one. -/
theorem crcFeed_eq_crc32cBits (seed : UInt32) (bytes : List UInt8) :
    crcFeed seed bytes = crc32cBits seed bytes := by
  have hpoly : crc32cPoly.reverse = 0x82F63B78#32 := by decide +kernel
  have hseed : seed.toBitVec.reverse.reverse = seed.toBitVec := BitVec.reverse_reverse_eq
  have hrev := Crc.shiftBits_reverse crc32cPoly seed.toBitVec.reverse (lsbFirstBits bytes)
  rw [hpoly, hseed] at hrev
  rw [crcFeed, hrev]
  rfl

/-- A table entry for the lowest byte, and the rest of the register. -/
theorem crcTableByte_eq (crc : UInt32) (b : UInt8) :
    crcTableByte (crcTable 8) crc b = some (crcShifts 8 (crc ^^^ b.toUInt32)) := by
  have hrest : (crc ^^^ b.toUInt32) >>> 8 = crc >>> 8 := by
    apply UInt32.toBitVec_inj.mp
    show (crc.toBitVec ^^^ b.toBitVec.setWidth 32) >>> 8 = crc.toBitVec >>> 8
    apply BitVec.eq_of_getLsbD_eq
    intro i hi
    simp
  have hlow := crcShifts_low 0 (crc ^^^ b.toUInt32)
  rw [hrest] at hlow
  rw [crcTableByte, crcLookup_crcTable]
  exact congrArg some hlow.symm

theorem crcTableBytes_eq {n : Nat} {p : CrcPtr} (h : n ≤ p.bytes.length) (crc : UInt32) :
    crcTableBytes (crcTable 8) n crc p =
      some (crcFeed crc (p.bytes.take n), ⟨p.addr + n, p.bytes.drop n⟩) := by
  induction n generalizing crc p with
  | zero => rfl
  | succ n ih =>
    obtain ⟨addr, bytes⟩ := p
    cases bytes with
    | nil => cases h
    | cons b bytes =>
      have hrest := ih (p := ⟨addr + 1, bytes⟩) (Nat.le_of_succ_le_succ h)
        (crcShifts 8 (crc ^^^ b.toUInt32))
      show ((crcTableByte (crcTable 8) crc b).bind fun crc => crcTableBytes _ n crc ⟨addr + 1, bytes⟩)
        = _
      rw [crcTableByte_eq, Option.bind_some, hrest, List.take_succ_cons, crcFeed_cons,
        List.drop_succ_cons, Nat.add_assoc, Nat.add_comm 1 n]

/-! ## Blocks -/

/-- Four bytes as a word, the first one lowest. -/
def crcWord (b₀ b₁ b₂ b₃ : UInt8) : UInt32 :=
  b₀.toUInt32 ^^^ b₁.toUInt32 <<< 8 ^^^ b₂.toUInt32 <<< 16 ^^^ b₃.toUInt32 <<< 24

/-- A byte behind `k` shifts enters at position `k` before them. -/
theorem crcShifts_enter (n : Nat) {k : Nat} (hk : k ≤ 24) (reg : UInt32) {b : UInt8} {x : UInt32}
    (hx : x.toBitVec = b.toBitVec.setWidth 32 <<< k) :
    crcShifts n (crcShifts k reg ^^^ b.toUInt32) = crcShifts (n + k) (reg ^^^ x) := by
  have hback : (b.toBitVec.setWidth 32 <<< k) >>> k = b.toBitVec.setWidth 32 := by
    apply BitVec.eq_of_getLsbD_eq
    intro i hi
    rw [BitVec.getLsbD_ushiftRight, BitVec.getLsbD_shiftLeft, BitVec.getLsbD_setWidth,
      BitVec.getLsbD_setWidth]
    by_cases hbyte : i < 8
    · simp [show k + i < 32 by omega, hi]
    · simp [BitVec.getLsbD_of_ge b.toBitVec i (by omega)]
  have hshift := Crc.shifts_xor_shiftLeft 0x82F63B78#32 n reg.toBitVec hback
  rw [← hx] at hshift
  exact UInt32.toBitVec_inj.mp hshift

/-- Four bytes enter at once. -/
theorem crcFeed_word (crc : UInt32) (b₀ b₁ b₂ b₃ : UInt8) :
    crcFeed crc [b₀, b₁, b₂, b₃] = crcShifts 32 (crc ^^^ crcWord b₀ b₁ b₂ b₃) := by
  rw [crcFeed_cons, crcFeed_cons, crcFeed_cons, crcFeed_cons, crcFeed_nil,
    crcShifts_enter 8 (k := 8) (by decide) _ (x := b₁.toUInt32 <<< 8) rfl,
    crcShifts_enter 8 (k := 16) (by decide) _ (x := b₂.toUInt32 <<< 16) rfl,
    crcShifts_enter 8 (k := 24) (by decide) _ (x := b₃.toUInt32 <<< 24) rfl]
  simp only [crcWord, UInt32.xor_assoc]

theorem crcFeed_block (crc : UInt32) (b₀ b₁ b₂ b₃ b₄ b₅ b₆ b₇ : UInt8) :
    crcFeed crc [b₀, b₁, b₂, b₃, b₄, b₅, b₆, b₇] =
      crcShifts 64 (crc ^^^ crcWord b₀ b₁ b₂ b₃) ^^^ crcShifts 32 (crcWord b₄ b₅ b₆ b₇) := by
  have happ := crcFeed_append crc [b₀, b₁, b₂, b₃] [b₄, b₅, b₆, b₇]
  rw [crcFeed_word, crcFeed_word, crcShifts_xor, ← crcShifts_add] at happ
  exact happ

theorem crcFirstTerms_eq (crc : UInt32) : crcFirstTerms crc = some (crcShifts 64 crc) := by
  rw [crcFirstTerms, sctpCrcTableil8O88_eq, sctpCrcTableil8O80_eq, sctpCrcTableil8O72_eq,
    sctpCrcTableil8O64_eq]
  simp only [crcLookup_crcTable, shiftRight_high, crcShifts_word 32 crc, Option.pure_def,
    Option.bind_eq_bind, Option.bind_some]

/-! ### Little-endian order -/

/-- A number with one more low byte. -/
theorem ofNat_byte_add (b : UInt8) (v : Nat) :
    BitVec.ofNat 32 (b.toNat + 256 * v) = b.toBitVec.setWidth 32 ^^^ BitVec.ofNat 32 v <<< 8 := by
  apply BitVec.eq_of_getLsbD_eq
  intro i hi
  have hb : b.toNat < 2 ^ 8 := b.toNat_lt
  rw [BitVec.getLsbD_ofNat, BitVec.getLsbD_xor, BitVec.getLsbD_shiftLeft, BitVec.getLsbD_ofNat,
    BitVec.getLsbD_setWidth, Nat.add_comm, show (256 : Nat) = 2 ^ 8 from rfl,
    Nat.testBit_two_pow_mul_add v hb]
  by_cases hlow : i < 8
  · simp [hlow, hi]
    rfl
  · simp [hlow, hi, BitVec.getLsbD_of_ge b.toBitVec i (by omega), show i - 8 < 32 by omega]

theorem ofNat_leValue_four (b₀ b₁ b₂ b₃ : UInt8) :
    UInt32.ofNat (leValue [b₀, b₁, b₂, b₃]) = crcWord b₀ b₁ b₂ b₃ := by
  apply UInt32.toBitVec_inj.mp
  show BitVec.ofNat 32 (leValue [b₀, b₁, b₂, b₃]) = b₀.toBitVec.setWidth 32 ^^^
    b₁.toBitVec.setWidth 32 <<< 8 ^^^ b₂.toBitVec.setWidth 32 <<< 16 ^^^
    b₃.toBitVec.setWidth 32 <<< 24
  have hnone : BitVec.ofNat 32 0 <<< 8 = 0#32 := rfl
  simp only [leValue, ofNat_byte_add, BitVec.shiftLeft_xor_distrib, ← BitVec.shiftLeft_add,
    Nat.reduceAdd, hnone, BitVec.xor_zero, BitVec.xor_assoc]

theorem word_eq {addr : Nat} (haddr : addr % 4 = 0) (b₀ b₁ b₂ b₃ : UInt8) (rest : List UInt8) :
    CrcPtr.word ⟨addr, b₀ :: b₁ :: b₂ :: b₃ :: rest⟩ =
      some (crcWord b₀ b₁ b₂ b₃, ⟨addr + 4, rest⟩) := by
  have hload : load32 (b₀ :: b₁ :: b₂ :: b₃ :: rest) 0 = some (leValue [b₀, b₁, b₂, b₃]) := by
    rw [load32, readAt_of_le (by simp), Option.map_some]
    rfl
  unfold CrcPtr.word
  rw [if_neg (not_not_intro haddr)]
  simp only [hload, ofNat_leValue_four, Option.bind_eq_bind, Option.bind_some, Option.pure_def]
  rfl

theorem crcBlockLittle_eq {addr : Nat} (haddr : addr % 4 = 0) (crc : UInt32)
    (b₀ b₁ b₂ b₃ b₄ b₅ b₆ b₇ : UInt8) (rest : List UInt8) :
    crcBlockLittle crc ⟨addr, b₀ :: b₁ :: b₂ :: b₃ :: b₄ :: b₅ :: b₆ :: b₇ :: rest⟩ =
      some (crcFeed crc [b₀, b₁, b₂, b₃, b₄, b₅, b₆, b₇], ⟨addr + 8, rest⟩) := by
  have haddr' : (addr + 4) % 4 = 0 := by omega
  rw [crcFeed_block, crcBlockLittle, word_eq haddr, sctpCrcTableil8O56_eq, sctpCrcTableil8O48_eq,
    sctpCrcTableil8O40_eq, sctpCrcTableil8O32_eq]
  simp only [word_eq haddr', crcFirstTerms_eq, crcLookup_crcTable, shiftRight_high,
    Option.bind_eq_bind, Option.bind_some, Option.pure_def, crcShifts_word 0 (crcWord b₄ b₅ b₆ b₇),
    Nat.zero_add, UInt32.xor_assoc]

/-! ### Big-endian order -/

/-- A lookup with a byte as the index. -/
theorem getElem?_crcTable (n : Nat) (b : UInt8) :
    (crcTable n)[b.toNat]? = some (crcShifts n b.toUInt32) := by
  have hindex : UInt32.ofNat b.toNat = b.toUInt32 := UInt32.toNat_inj.mp (by simp)
  rw [crcTable, List.getElem?_map, List.getElem?_range b.toNat_lt, Option.map_some, hindex]

theorem crcShifts_crcWord (b₀ b₁ b₂ b₃ : UInt8) :
    crcShifts 32 (crcWord b₀ b₁ b₂ b₃) = crcShifts 32 b₀.toUInt32 ^^^ crcShifts 24 b₁.toUInt32 ^^^
      crcShifts 16 b₂.toUInt32 ^^^ crcShifts 8 b₃.toUInt32 := by
  have hzero : ∀ n, crcShifts n 0 = 0 := fun n =>
    UInt32.toBitVec_inj.mp (Crc.additive_shifts _ n).zero
  -- a byte in its place has to move there first
  have henter : ∀ n k, k ≤ 24 → ∀ (b : UInt8) (x : UInt32),
      x.toBitVec = b.toBitVec.setWidth 32 <<< k → crcShifts (n + k) x = crcShifts n b.toUInt32 := by
    intro n k hk b x hx
    have h := crcShifts_enter n hk 0 hx
    rwa [hzero, UInt32.zero_xor, UInt32.zero_xor, eq_comm] at h
  rw [crcWord, crcShifts_xor, crcShifts_xor, crcShifts_xor,
    henter 24 8 (by decide) b₁ (b₁.toUInt32 <<< 8) rfl,
    henter 16 16 (by decide) b₂ (b₂.toUInt32 <<< 16) rfl,
    henter 8 24 (by decide) b₃ (b₃.toUInt32 <<< 24) rfl]

theorem crcBlockBig_eq (addr : Nat) (crc : UInt32) (b₀ b₁ b₂ b₃ b₄ b₅ b₆ b₇ : UInt8)
    (rest : List UInt8) :
    crcBlockBig crc ⟨addr, b₀ :: b₁ :: b₂ :: b₃ :: b₄ :: b₅ :: b₆ :: b₇ :: rest⟩ =
      some (crcFeed crc [b₀, b₁, b₂, b₃, b₄, b₅, b₆, b₇], ⟨addr + 8, rest⟩) := by
  have hnext : ∀ a (b : UInt8) bs, CrcPtr.next ⟨a, b :: bs⟩ = some (b, ⟨a + 1, bs⟩) :=
    fun _ _ _ => rfl
  rw [crcFeed_block, crcShifts_crcWord, crcBlockBig, sctpCrcTableil8O56_eq, sctpCrcTableil8O48_eq,
    sctpCrcTableil8O40_eq, sctpCrcTableil8O32_eq]
  simp only [hnext, getElem?_crcTable, crcFirstTerms_eq, Option.bind_eq_bind, Option.bind_some,
    Option.pure_def, crcWord, UInt32.xor_assoc, Nat.add_assoc, Nat.reduceAdd]

theorem crcBlock_eq (bigEndian : Bool) {addr : Nat} (haddr : addr % 4 = 0) (crc : UInt32)
    {block : List UInt8} (hblock : block.length = 8) (rest : List UInt8) :
    crcBlock bigEndian crc ⟨addr, block ++ rest⟩ = some (crcFeed crc block, ⟨addr + 8, rest⟩) := by
  match block, hblock with
  | [b₀, b₁, b₂, b₃, b₄, b₅, b₆, b₇], _ =>
    cases bigEndian
    · exact crcBlockLittle_eq haddr crc b₀ b₁ b₂ b₃ b₄ b₅ b₆ b₇ rest
    · exact crcBlockBig_eq addr crc b₀ b₁ b₂ b₃ b₄ b₅ b₆ b₇ rest

/-- The loop over the blocks keeps the alignment. -/
theorem crcBlocks_eq {bigEndian : Bool} {n addr : Nat} {bytes : List UInt8}
    (h : 8 * n ≤ bytes.length) (haddr : addr % 4 = 0) (crc : UInt32) :
    crcBlocks bigEndian n crc ⟨addr, bytes⟩ =
      some (crcFeed crc (bytes.take (8 * n)), ⟨addr + 8 * n, bytes.drop (8 * n)⟩) := by
  induction n generalizing crc addr bytes with
  | zero => rfl
  | succ n ih =>
    obtain ⟨block, rest, rfl, hblock⟩ : ∃ block rest, bytes = block ++ rest ∧ block.length = 8 :=
      ⟨bytes.take 8, bytes.drop 8, (List.take_append_drop 8 bytes).symm,
        List.length_take_of_le (by omega)⟩
    have hlen : 8 * n ≤ rest.length := by
      rw [List.length_append] at h
      omega
    have haddr' : (addr + 8) % 4 = 0 := by omega
    have hrest := ih hlen haddr' (crcFeed crc block)
    rw [crcBlocks, crcBlock_eq bigEndian haddr crc hblock]
    show crcBlocks bigEndian n (crcFeed crc block) ⟨addr + 8, rest⟩ = _
    have hsum : 8 * (n + 1) = block.length + 8 * n := by omega
    rw [hrest, hsum, List.take_length_add_append, List.drop_length_add_append, crcFeed_append,
      hblock, Nat.add_assoc]

/-! ## Buffers -/

/-- The three loops of `crc32c_sb8_64_bit`, for any `length` and `init_bytes`: the difference
    is taken modulo `2 ^ 32`. -/
theorem crc32cSb8_eq (bigEndian : Bool) (crc length initBytes : UInt32) {addr : Nat}
    {bytes : List UInt8} (haddr : (addr + initBytes.toNat) % 4 = 0)
    (h : initBytes.toNat + (length - initBytes).toNat ≤ bytes.length) :
    crc32cSb8 bigEndian crc ⟨addr, bytes⟩ length initBytes =
      some (crcFeed crc (bytes.take (initBytes.toNat + (length - initBytes).toNat))) := by
  have hrunning : ((length - initBytes) / 8 * 8).toNat = 8 * ((length - initBytes).toNat / 8) := by
    have hlt := (length - initBytes).toNat_lt
    rw [UInt32.toNat_mul, UInt32.toNat_div]
    show (length - initBytes).toNat / 8 * 8 % 2 ^ 32 = _
    omega
  have hblocks : ((length - initBytes) / 8 * 8 / 8).toNat = (length - initBytes).toNat / 8 := by
    rw [UInt32.toNat_div, hrunning]
    show 8 * ((length - initBytes).toNat / 8) / 8 = _
    omega
  have hend : (length - initBytes - (length - initBytes) / 8 * 8).toNat =
      (length - initBytes).toNat % 8 := by
    have hle : (length - initBytes) / 8 * 8 ≤ length - initBytes := by
      rw [UInt32.le_iff_toNat_le, hrunning]
      omega
    rw [UInt32.toNat_sub_of_le _ _ hle, hrunning]
    omega
  obtain ⟨first, rest, rfl, hfirst⟩ : ∃ first rest, bytes = first ++ rest ∧
      first.length = initBytes.toNat :=
    ⟨bytes.take initBytes.toNat, bytes.drop initBytes.toNat, (List.take_append_drop _ _).symm,
      List.length_take_of_le (by omega)⟩
  have hrest : (length - initBytes).toNat ≤ rest.length := by
    rw [List.length_append] at h
    omega
  have hstart := crcTableBytes_eq (n := initBytes.toNat) (p := ⟨addr, first ++ rest⟩)
    (by rw [List.length_append]; omega) crc
  rw [← hfirst, List.take_left, List.drop_left, hfirst] at hstart
  have hmid : crcBlocks bigEndian ((length - initBytes).toNat / 8) (crcFeed crc first)
      ⟨addr + initBytes.toNat, rest⟩ = _ :=
    crcBlocks_eq (by omega) haddr (crcFeed crc first)
  have hlast := crcTableBytes_eq (n := (length - initBytes).toNat % 8)
    (p := ⟨addr + initBytes.toNat + 8 * ((length - initBytes).toNat / 8),
      rest.drop (8 * ((length - initBytes).toNat / 8))⟩)
    (by rw [List.length_drop]; omega)
    (crcFeed (crcFeed crc first) (rest.take (8 * ((length - initBytes).toNat / 8))))
  rw [crc32cSb8, hblocks, hend, sctpCrcTableil8O32_eq, hstart]
  simp only [Option.bind_eq_bind, Option.bind_some, hmid, hlast, Option.pure_def]
  rw [← crcFeed_append, ← List.take_add, Nat.div_add_mod, ← hfirst, List.take_length_add_append,
    crcFeed_append]

/-- The bytes that a call covers: `length` in 32 bits, none if that is zero, and `2 ^ 32` more if
    it is less than the bytes in front of the first aligned word (four for an aligned buffer). -/
def crc32Covered (addr length : Nat) : Nat :=
  if length < 4 then length
  else if length % 2 ^ 32 = 0 then 0
  else if length % 2 ^ 32 < 4 - addr % 4 then 2 ^ 32 + length % 2 ^ 32
  else length % 2 ^ 32

/-- `compute_crc32` stays in its buffer and is the bit-serial CRC-32C of the bytes that it
    covers, with either byte order. -/
theorem computeCrc32_eq (bigEndian : Bool) (seed : UInt32) {p : CrcPtr} {length : Nat}
    (h : length ≤ p.bytes.length) :
    computeCrc32 bigEndian seed p length =
      some (crc32cBits seed (p.bytes.take (crc32Covered p.addr length))) := by
  obtain ⟨addr, bytes⟩ := p
  rw [← crcFeed_eq_crc32cBits]
  unfold computeCrc32 crc32Covered
  split
  · rw [singletableCrc32c, crc32Table_eq, crcTableBytes_eq h, Option.map_some]
  · have hlen : (UInt32.ofNat length).toNat = length % 2 ^ 32 := UInt32.toNat_ofNat'
    have hand : addr &&& 3 = addr % 4 := Nat.and_two_pow_sub_one_eq_mod addr 2
    have hinit : (UInt32.ofNat (4 - addr % 4)).toNat = 4 - addr % 4 := by
      rw [UInt32.toNat_ofNat']
      omega
    have hsub : (UInt32.ofNat length - UInt32.ofNat (4 - addr % 4)).toNat =
        (2 ^ 32 - (4 - addr % 4) + length % 2 ^ 32) % 2 ^ 32 := by
      rw [UInt32.toNat_sub, hlen, hinit]
    have hzero : UInt32.ofNat length = 0 ↔ length % 2 ^ 32 = 0 := by
      rw [← UInt32.toNat_inj, hlen]
      rfl
    unfold multitableCrc32c
    simp only [hzero, hand]
    split
    · rfl
    · have haddr : (addr + (UInt32.ofNat (4 - addr % 4)).toNat) % 4 = 0 := by
        rw [hinit]
        omega
      have hsum : (UInt32.ofNat (4 - addr % 4)).toNat +
          (UInt32.ofNat length - UInt32.ofNat (4 - addr % 4)).toNat =
            if length % 2 ^ 32 < 4 - addr % 4 then 2 ^ 32 + length % 2 ^ 32
            else length % 2 ^ 32 := by
        rw [hinit, hsub]
        split <;> omega
      have hin : (UInt32.ofNat (4 - addr % 4)).toNat +
          (UInt32.ofNat length - UInt32.ofNat (4 - addr % 4)).toNat ≤ bytes.length := by
        rw [hsum]
        split
        · -- the length has wrapped, so there are that many bytes
          show 2 ^ 32 + length % 2 ^ 32 ≤ bytes.length
          have hmod := Nat.mod_add_div length (2 ^ 32)
          have hle : length ≤ bytes.length := h
          omega
        · exact Nat.le_trans (Nat.mod_le length (2 ^ 32)) h
      rw [crc32cSb8_eq bigEndian seed _ _ haddr hin, hsum]

/-- A buffer of less than `2 ^ 32` bytes is covered. -/
theorem crc32Covered_of_lt {addr length : Nat} (h : length < 2 ^ 32) :
    crc32Covered addr length = length := by
  unfold crc32Covered
  split <;> (try split) <;> (try split) <;> omega

theorem computeCrc32_of_lt (bigEndian : Bool) (seed : UInt32) {p : CrcPtr}
    (h : p.bytes.length < 2 ^ 32) :
    computeCrc32 bigEndian seed p p.bytes.length = some (crc32cBits seed p.bytes) := by
  rw [computeCrc32_eq bigEndian seed (Nat.le_refl _), crc32Covered_of_lt h, List.take_length]

theorem crc32cBits_append (seed : UInt32) (a b : List UInt8) :
    crc32cBits seed (a ++ b) = crc32cBits (crc32cBits seed a) b := by
  rw [← crcFeed_eq_crc32cBits, ← crcFeed_eq_crc32cBits, ← crcFeed_eq_crc32cBits, crcFeed_append]

/-- Calls that go on where the last one has ended compute the bit-serial CRC-32C of all the
    bytes, wherever the parts are cut and stored. -/
theorem computeCrc32_chunks (bigEndian : Bool) (seed : UInt32) (chunks : List CrcPtr)
    (h : ∀ p ∈ chunks, p.bytes.length < 2 ^ 32) :
    chunks.foldlM (fun crc p => computeCrc32 bigEndian crc p p.bytes.length) seed =
      some (crc32cBits seed (chunks.flatMap CrcPtr.bytes)) := by
  induction chunks generalizing seed with
  | nil => rw [List.flatMap_nil, ← crcFeed_eq_crc32cBits]; rfl
  | cons p chunks ih =>
    rw [List.forall_mem_cons] at h
    rw [List.foldlM_cons, computeCrc32_of_lt bigEndian seed h.1, List.flatMap_cons,
      crc32cBits_append, ← ih _ h.2]
    rfl

theorem computeCrc32_chunks_two :
    [⟨3, [49, 50, 51, 52, 53, 54]⟩, ⟨64, [55, 56, 57]⟩].foldlM
        (fun crc p => computeCrc32 false crc p p.bytes.length) 0xffffffff =
      some (crc32cBits 0xffffffff [49, 50, 51, 52, 53, 54, 55, 56, 57]) :=
  computeCrc32_chunks false 0xffffffff [⟨3, [49, 50, 51, 52, 53, 54]⟩, ⟨64, [55, 56, 57]⟩]
    (by decide)

example : crc32cBits 0xffffffff [49, 50, 51, 52, 53, 54, 55, 56, 57] ^^^ 0xffffffff =
    0xe3069283 := by decide +kernel

/-- A call never leaves its buffer, for any length; it covers all of the bytes exactly if the
    length fits into 32 bits, or has one bit more and wraps to a positive number that is less
    than the bytes in front of the first aligned word, which are four for an aligned buffer. -/
theorem computeCrc32_covers (bigEndian : Bool) (seed : UInt32) (p : CrcPtr) :
    computeCrc32 bigEndian seed p p.bytes.length =
        some (crc32cBits seed (p.bytes.take (crc32Covered p.addr p.bytes.length))) ∧
      (crc32Covered p.addr p.bytes.length = p.bytes.length ↔
        p.bytes.length < 2 ^ 32 ∨ p.bytes.length < 2 ^ 33 ∧
          0 < p.bytes.length % 2 ^ 32 ∧ p.bytes.length % 2 ^ 32 < 4 - p.addr % 4) := by
  refine ⟨computeCrc32_eq bigEndian seed (Nat.le_refl _), ?_⟩
  generalize p.bytes.length = length
  by_cases hlt : length < 2 ^ 32
  · exact iff_of_true (crc32Covered_of_lt hlt) (.inl hlt)
  · have hmod := Nat.mod_add_div length (2 ^ 32)
    have hle := Nat.mod_lt length (show 2 ^ 32 > 0 by decide)
    unfold crc32Covered
    rw [if_neg (by omega)]
    split
    · omega
    · split <;> omega

end CUtils
