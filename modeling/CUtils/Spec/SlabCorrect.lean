import CUtils.ForStd.StepSystem
import CUtils.Native.Slab
import Mathlib.Data.List.Nodup
import Mathlib.Data.List.Perm.Subperm

/-!
# The slab allocator leases disjoint blocks

`SlabRepr` says what the header words of the pool hold while the blocks of a list are
leased.  Only the eight bytes of a header are ever read by the allocator, and no block
overlaps a header, so the client cannot disturb them.

- `slabAlloc_spec`, `slabFree_spec`: the effect of the operations on the leases.
- `slab_leases_disjoint`: what holds after every run of a client.
-/

namespace CUtils

open StepSystem

/-- The block of the unit `i`. -/
def slabBlock (slab : Slab) (i : Nat) : Nat := slabData (slabUnit slab i)

/-- The memory after `slab_alloc` has taken the unit `i`. -/
def leaseUnit (slab : Slab) (mem : List UInt8) (i : Nat) : List UInt8 :=
  set32 (set32 mem (slabUnit slab i) 1) (slabUnit slab i + 4) 0xdeadbeaf

/-- A pool whose leased blocks are those of the list `leased`. -/
structure SlabRepr (slab : Slab) (slabSize : Nat) (mem : List UInt8) (leased : List Nat) :
    Prop where
  size_ge : slabSize + 8 ≤ slab.size.toNat
  size_dvd : 8 ∣ slab.size.toNat
  /-- the units fit into the memory and into `size_t` -/
  units_lt : slab.count.toNat * slab.size.toNat < 2 ^ 64
  units_le : slab.blob + slab.count.toNat * slab.size.toNat ≤ mem.length
  nodup : leased.Nodup
  isUnit : ∀ b ∈ leased, ∃ i < slab.count.toNat, b = slabBlock slab i
  leasedWord : ∀ i < slab.count.toNat,
    load32 mem (slabUnit slab i) = some (if slabBlock slab i ∈ leased then 1 else 0)
  canaryWord : ∀ i < slab.count.toNat, slabBlock slab i ∈ leased →
    load32 mem (slabUnit slab i + 4) = some 0xdeadbeaf

/-! ## Layout of the units -/

/-- The units before the unit `j` end where it starts. -/
theorem mul_size_le (slab : Slab) {i j : Nat} (hij : i < j) :
    i * slab.size.toNat + slab.size.toNat ≤ j * slab.size.toNat := by
  have hmul : (i + 1) * slab.size.toNat ≤ j * slab.size.toNat := Nat.mul_le_mul_right _ hij
  rwa [Nat.succ_mul] at hmul

/-- The offset of a unit does not wrap. -/
theorem slabUnit_eq {slab : Slab} {i : Nat} (hlt : slab.count.toNat * slab.size.toNat < 2 ^ 64)
    (hi : i < slab.count.toNat) : slabUnit slab i = slab.blob + i * slab.size.toNat := by
  have hle := mul_size_le slab hi
  have hc := slab.count.toNat_lt
  have hmod : i % 2 ^ 64 = i := Nat.mod_eq_of_lt (by omega)
  rw [slabUnit, UInt64.toNat_mul, UInt64.toNat_ofNat', hmod, Nat.mod_eq_of_lt (by omega)]

namespace SlabRepr

variable {slab : Slab} {slabSize : Nat} {mem mem' : List UInt8} {leased leased' : List Nat}
variable {i j b : Nat}

/-- Every unit lies inside of the memory. -/
theorem slabUnit_le (h : SlabRepr slab slabSize mem leased) (hi : i < slab.count.toNat) :
    slabUnit slab i + slab.size.toNat ≤ mem.length := by
  have hle := mul_size_le slab hi
  have hin := h.units_le
  rw [slabUnit_eq h.units_lt hi]
  omega

/-- Two units do not overlap. -/
theorem slabUnit_disjoint (h : SlabRepr slab slabSize mem leased) (hi : i < slab.count.toNat)
    (hj : j < slab.count.toNat) (hij : i ≠ j) :
    slabUnit slab i + slab.size.toNat ≤ slabUnit slab j ∨
      slabUnit slab j + slab.size.toNat ≤ slabUnit slab i := by
  rw [slabUnit_eq h.units_lt hi, slabUnit_eq h.units_lt hj]
  rcases Nat.lt_or_gt_of_ne hij with hlt | hlt
  · have hle := mul_size_le slab hlt
    omega
  · have hle := mul_size_le slab hlt
    omega

theorem slabBlock_inj (h : SlabRepr slab slabSize mem leased) (hi : i < slab.count.toNat)
    (hj : j < slab.count.toNat) (heq : slabBlock slab i = slabBlock slab j) : i = j := by
  by_contra hij
  have hsize := h.size_ge
  have hd := h.slabUnit_disjoint hi hj hij
  unfold slabBlock slabData at heq
  omega

/-! ## Frames -/

/-- The pool does not see a write that is apart from all headers. -/
theorem frame (h : SlabRepr slab slabSize mem leased) {off : Nat} {xs : List UInt8}
    (hin : off + xs.length ≤ mem.length)
    (hd : ∀ i < slab.count.toNat, slabUnit slab i + 8 ≤ off ∨ off + xs.length ≤ slabUnit slab i) :
    SlabRepr slab slabSize (splice mem off xs) leased := by
  refine ⟨h.size_ge, h.size_dvd, h.units_lt, ?_, h.nodup, h.isUnit, ?_, ?_⟩
  · rw [length_splice hin]
    exact h.units_le
  · intro i hi
    rw [load32_splice_of_disjoint hin (by have := hd i hi; omega)]
    exact h.leasedWord i hi
  · intro i hi hb
    rw [load32_splice_of_disjoint hin (by have := hd i hi; omega)]
    exact h.canaryWord i hi hb

/-- The header of another unit is apart from the header of the unit `i`. -/
theorem header_disjoint (h : SlabRepr slab slabSize mem leased) (hi : i < slab.count.toNat)
    (hj : j < slab.count.toNat) (hij : j ≠ i) :
    slabUnit slab j + 8 ≤ slabUnit slab i ∨ slabUnit slab i + 8 ≤ slabUnit slab j := by
  have hsize := h.size_ge
  have hd := h.slabUnit_disjoint hj hi hij
  omega

/-- A header lies inside of the memory. -/
theorem header_le (h : SlabRepr slab slabSize mem leased) (hi : i < slab.count.toNat) :
    slabUnit slab i + 4 + 4 ≤ mem.length := by
  have hsize := h.size_ge
  have hin := h.slabUnit_le hi
  omega

/-! ## Leasing a unit -/

theorem length_leaseUnit (h : SlabRepr slab slabSize mem leased) (hi : i < slab.count.toNat) :
    (leaseUnit slab mem i).length = mem.length := by
  have hin := h.header_le hi
  have hlen : (set32 mem (slabUnit slab i) 1).length = mem.length := length_set32 (by omega)
  rw [leaseUnit, length_set32 (by rwa [hlen]), hlen]

theorem load32_leaseUnit_leased (h : SlabRepr slab slabSize mem leased)
    (hi : i < slab.count.toNat) : load32 (leaseUnit slab mem i) (slabUnit slab i) = some 1 := by
  have hin := h.header_le hi
  have hlen : (set32 mem (slabUnit slab i) 1).length = mem.length := length_set32 (by omega)
  rw [leaseUnit, load32_set32_of_disjoint (by rwa [hlen]) (by omega),
    load32_set32 (by omega) (by decide)]

theorem load32_leaseUnit_canary (h : SlabRepr slab slabSize mem leased)
    (hi : i < slab.count.toNat) :
    load32 (leaseUnit slab mem i) (slabUnit slab i + 4) = some 0xdeadbeaf := by
  have hin := h.header_le hi
  have hlen : (set32 mem (slabUnit slab i) 1).length = mem.length := length_set32 (by omega)
  exact load32_set32 (by rwa [hlen]) (by decide)

/-- The words of the other units are apart from both writes. -/
theorem load32_leaseUnit_of_ne (h : SlabRepr slab slabSize mem leased) (hi : i < slab.count.toNat)
    (hj : j < slab.count.toNat) (hji : j ≠ i) {a : Nat} (hlo : slabUnit slab j ≤ a)
    (hhi : a + 4 ≤ slabUnit slab j + 8) : load32 (leaseUnit slab mem i) a = load32 mem a := by
  have hin := h.header_le hi
  have hlen : (set32 mem (slabUnit slab i) 1).length = mem.length := length_set32 (by omega)
  have hd := h.header_disjoint hi hj hji
  rw [leaseUnit, load32_set32_of_disjoint (by rwa [hlen]) (by omega),
    load32_set32_of_disjoint (by omega) (by omega)]

/-- Setting both words of a free unit leases its block. -/
theorem lease (h : SlabRepr slab slabSize mem leased) (hi : i < slab.count.toNat)
    (hfree : slabBlock slab i ∉ leased) :
    SlabRepr slab slabSize (leaseUnit slab mem i) (slabBlock slab i :: leased) := by
  have hmem_iff : ∀ j < slab.count.toNat, j ≠ i →
      (slabBlock slab j ∈ slabBlock slab i :: leased ↔ slabBlock slab j ∈ leased) := by
    intro j hj hji
    have hne : slabBlock slab j ≠ slabBlock slab i := fun heq => hji (h.slabBlock_inj hj hi heq)
    simp only [List.mem_cons, hne, false_or]
  refine ⟨h.size_ge, h.size_dvd, h.units_lt, ?_, List.nodup_cons.mpr ⟨hfree, h.nodup⟩, ?_, ?_, ?_⟩
  · rw [h.length_leaseUnit hi]
    exact h.units_le
  · intro b hb
    rcases List.mem_cons.mp hb with rfl | hb
    · exact ⟨i, hi, rfl⟩
    · exact h.isUnit b hb
  · intro j hj
    by_cases hji : j = i
    · rw [hji, h.load32_leaseUnit_leased hi, if_pos List.mem_cons_self]
    · rw [h.load32_leaseUnit_of_ne hi hj hji (by omega) (by omega), h.leasedWord j hj]
      simp only [hmem_iff j hj hji]
  · intro j hj hb
    by_cases hji : j = i
    · rw [hji]
      exact h.load32_leaseUnit_canary hi
    · rw [h.load32_leaseUnit_of_ne hi hj hji (by omega) (by omega)]
      exact h.canaryWord j hj ((hmem_iff j hj hji).mp hb)

/-- Clearing the `leased` word of a unit gives its block back. -/
theorem release (h : SlabRepr slab slabSize mem leased) (hi : i < slab.count.toNat) :
    SlabRepr slab slabSize (set32 mem (slabUnit slab i) 0)
      (leased.erase (slabBlock slab i)) := by
  have hin : slabUnit slab i + 4 ≤ mem.length := by
    have := h.header_le hi
    omega
  have hmem_iff : ∀ j < slab.count.toNat, j ≠ i →
      (slabBlock slab j ∈ leased.erase (slabBlock slab i) ↔ slabBlock slab j ∈ leased) := by
    intro j hj hji
    exact List.mem_erase_of_ne fun heq => hji (h.slabBlock_inj hj hi heq)
  have hgone : slabBlock slab i ∉ leased.erase (slabBlock slab i) := h.nodup.not_mem_erase
  refine ⟨h.size_ge, h.size_dvd, h.units_lt, ?_, h.nodup.erase _, ?_, ?_, ?_⟩
  · rw [length_set32 hin]
    exact h.units_le
  · intro b hb
    exact h.isUnit b (List.mem_of_mem_erase hb)
  · intro j hj
    by_cases hji : j = i
    · rw [hji, if_neg hgone]
      exact load32_set32 hin (by decide)
    · have hd := h.header_disjoint hi hj hji
      rw [load32_set32_of_disjoint hin (by omega), h.leasedWord j hj]
      simp only [hmem_iff j hj hji]
  · intro j hj hb
    -- the canary of the block itself is kept, but no longer promised
    have hji : j ≠ i := by
      intro heq
      rw [heq] at hb
      exact hgone hb
    have hd := h.header_disjoint hi hj hji
    rw [load32_set32_of_disjoint hin (by omega)]
    exact h.canaryWord j hj ((hmem_iff j hj hji).mp hb)

/-! ## The operations -/

/-- The loop takes the first free unit from `i` on. -/
theorem slabAllocLoop_spec (h : SlabRepr slab slabSize mem leased) {n : Nat}
    (hn : i + n = slab.count.toNat) :
    (slabAllocLoop slab mem i n = some (mem, none) ∧
      ∀ j, i ≤ j → j < slab.count.toNat → slabBlock slab j ∈ leased) ∨
    ∃ j, j < slab.count.toNat ∧ slabBlock slab j ∉ leased ∧
      slabAllocLoop slab mem i n = some (leaseUnit slab mem j, some (slabBlock slab j)) := by
  -- by induction on the number of units that are left
  induction n generalizing i with
  | zero => exact .inl ⟨rfl, fun j hij hj => by omega⟩
  | succ n ih =>
    have hi : i < slab.count.toNat := by omega
    by_cases hb : slabBlock slab i ∈ leased
    · -- the unit is leased, so the loop goes on
      have hrec : slabAllocLoop slab mem i (n + 1) = slabAllocLoop slab mem (i + 1) n := by
        rw [slabAllocLoop, h.leasedWord i hi, if_pos hb]
        rfl
      rw [hrec]
      rcases ih (i := i + 1) (by omega) with ⟨hnone, hall⟩ | hsome
      · refine .inl ⟨hnone, fun j hij hj => ?_⟩
        by_cases hji : j = i
        · rw [hji]
          exact hb
        · exact hall j (by omega) hj
      · exact .inr hsome
    · have hin := h.header_le hi
      have hin₀ : slabUnit slab i + 4 ≤ mem.length := by omega
      refine .inr ⟨i, hi, hb, ?_⟩
      rw [slabAllocLoop, h.leasedWord i hi, if_neg hb]
      simp only [Option.bind_eq_bind, Option.bind_some, ↓reduceIte]
      rw [store32_of_le hin₀, Option.bind_some, store32_of_le (by rwa [length_set32 hin₀])]
      rfl

/-- `slab_alloc` leases a free block, or there is none. -/
theorem slabAlloc_spec (h : SlabRepr slab slabSize mem leased) :
    (slabAlloc slab mem = some (mem, none) ∧
      ∀ j < slab.count.toNat, slabBlock slab j ∈ leased) ∨
    ∃ j, j < slab.count.toNat ∧ slabBlock slab j ∉ leased ∧
      slabAlloc slab mem = some (leaseUnit slab mem j, some (slabBlock slab j)) := by
  have hloop := h.slabAllocLoop_spec (i := 0) (n := slab.count.toNat) (by omega)
  simp only [Nat.zero_le, forall_const] at hloop
  exact hloop

/-- `slab_free` of a leased block succeeds. -/
theorem slabFree_spec (h : SlabRepr slab slabSize mem leased) (hb : b ∈ leased) :
    ∃ i < slab.count.toNat, b = slabBlock slab i ∧
      slabFree mem b = some (set32 mem (slabUnit slab i) 0, 0) := by
  obtain ⟨i, hi, rfl⟩ := h.isUnit b hb
  have hin : slabUnit slab i + 4 ≤ mem.length := by
    have := h.header_le hi
    omega
  refine ⟨i, hi, rfl, ?_⟩
  -- the block follows its header, whose canary was written with the lease
  have hlt : ¬ slabUnit slab i + 8 < 8 := by omega
  simp only [slabFree, slabBlock, slabData, if_neg hlt, Nat.add_sub_cancel,
    h.canaryWord i hi hb, store32_of_le hin, Option.bind_eq_bind, Option.bind_some, ne_eq,
    not_true_eq_false, ↓reduceIte]
  rfl

/-- A client write inside of a leased block is apart from all headers. -/
theorem write_apart (h : SlabRepr slab slabSize mem leased) (hb : b ∈ leased) {off : Nat}
    {bs : List UInt8} (hoff : off + bs.length ≤ slabSize) :
    b + off + bs.length ≤ mem.length ∧ ∀ j < slab.count.toNat,
      slabUnit slab j + 8 ≤ b + off ∨ b + off + bs.length ≤ slabUnit slab j := by
  obtain ⟨i, hi, rfl⟩ := h.isUnit b hb
  have hsize := h.size_ge
  have hle := h.slabUnit_le hi
  unfold slabBlock slabData
  refine ⟨by omega, fun j hj => ?_⟩
  by_cases hij : i = j
  · rw [hij]
    omega
  · have hd := h.slabUnit_disjoint hi hj hij
    omega

/-- There is a free unit as long as fewer blocks than units are leased. -/
theorem length_lt_count (h : SlabRepr slab slabSize mem leased) (hi : i < slab.count.toNat)
    (hfree : slabBlock slab i ∉ leased) : leased.length < slab.count.toNat := by
  have hsub : slabBlock slab i :: leased ⊆ (List.range slab.count.toNat).map (slabBlock slab) := by
    intro b hb
    rcases List.mem_cons.mp hb with rfl | hb
    · exact List.mem_map_of_mem (List.mem_range.mpr hi)
    · obtain ⟨j, hj, rfl⟩ := h.isUnit b hb
      exact List.mem_map_of_mem (List.mem_range.mpr hj)
  -- the leased blocks and the free one are different units
  have hle := (List.subperm_of_subset (List.nodup_cons.mpr ⟨hfree, h.nodup⟩) hsub).length_le
  rw [List.length_map, List.length_range] at hle
  exact hle

theorem count_le_length (h : SlabRepr slab slabSize mem leased)
    (hall : ∀ j < slab.count.toNat, slabBlock slab j ∈ leased) :
    slab.count.toNat ≤ leased.length := by
  have hnodup : ((List.range slab.count.toNat).map (slabBlock slab)).Nodup := by
    apply List.nodup_range.map_on
    intro i hi j hj heq
    exact h.slabBlock_inj (List.mem_range.mp hi) (List.mem_range.mp hj) heq
  have hsub : (List.range slab.count.toNat).map (slabBlock slab) ⊆ leased := by
    intro b hb
    obtain ⟨j, hj, rfl⟩ := List.mem_map.mp hb
    exact hall j (List.mem_range.mp hj)
  -- the blocks of all units are different and leased
  have hle := (List.subperm_of_subset hnodup hsub).length_le
  rwa [List.length_map, List.length_range] at hle

/-- Every step of a client keeps the invariant. -/
theorem slabStep_repr {slabSize : UInt64} {s s' : SlabClient} {op : SlabOp}
    (h : SlabRepr slab slabSize.toNat s.mem s.leased) (hs : slabStep slab slabSize s op = some s') :
    SlabRepr slab slabSize.toNat s'.mem s'.leased := by
  cases op with
  | alloc =>
    rcases h.slabAlloc_spec with ⟨hnone, _⟩ | ⟨j, hj, hfree, hsome⟩
    · simp only [slabStep, hnone, Option.bind_eq_bind, Option.bind_some] at hs
      obtain rfl := Option.some.inj hs
      exact h
    · simp only [slabStep, hsome, Option.bind_eq_bind, Option.bind_some] at hs
      obtain rfl := Option.some.inj hs
      exact h.lease hj hfree
  | free block =>
    simp only [slabStep, Option.bind_eq_bind] at hs
    obtain ⟨_, hassert, hs⟩ := Option.bind_eq_some_iff.mp hs
    obtain ⟨i, hi, rfl, hfree⟩ := h.slabFree_spec (of_cAssert hassert)
    rw [hfree] at hs
    obtain rfl := Option.some.inj hs
    exact h.release hi
  | write block off bs =>
    simp only [slabStep, Option.bind_eq_bind] at hs
    obtain ⟨_, hassert, hs⟩ := Option.bind_eq_some_iff.mp hs
    obtain ⟨hb, hoff⟩ := of_cAssert hassert
    -- a write through a lease touches no list node and no other lease
    obtain ⟨hin, hapart⟩ := h.write_apart hb hoff
    rw [writeAt_of_le hin] at hs
    obtain rfl := Option.some.inj hs
    exact h.frame hin hapart

end SlabRepr

/-! ## Initialisation -/

/-- The unit size of `slab_init`, in wrapping arithmetic. -/
def unitSize (slabSize : UInt64) : UInt64 := roundUp slabSize sizeofPointer + sizeofSlabUnit

theorem toNat_unitSize {slabSize : UInt64} (h : slabSize.toNat + 15 < 2 ^ 64) :
    (unitSize slabSize).toNat = (slabSize.toNat + 7) / 8 * 8 + 8 := by
  have hround : (roundUp slabSize sizeofPointer).toNat = (slabSize.toNat + 7) / 8 * 8 :=
    toNat_roundUp_eight (by omega)
  have hunit : sizeofSlabUnit.toNat = 8 := rfl
  rw [unitSize, UInt64.toNat_add, hround, hunit]
  exact Nat.mod_eq_of_lt (by omega)

/-- A count that fits is returned unchanged. -/
theorem toInt_toInt32_of_lt {n : UInt64} (h : n.toNat < 2 ^ 31) :
    n.toUInt32.toInt32.toInt = n.toNat := by
  have hnat : n.toUInt32.toNat = n.toNat := by
    rw [UInt64.toNat_toUInt32]
    exact Nat.mod_eq_of_lt (by omega)
  have hint : n.toUInt32.toBitVec.toInt = n.toUInt32.toBitVec.toNat := by
    apply BitVec.toInt_eq_toNat_of_lt
    rw [UInt32.toNat_toBitVec]
    omega
  rw [← hnat, ← UInt32.toNat_toBitVec]
  exact hint

/-- A word of the cleared blob is zero. -/
theorem load32_memset {mem : List UInt8} {blob n a : Nat} (hin : blob + n ≤ mem.length)
    (hlo : blob ≤ a) (hhi : a + 4 ≤ blob + n) :
    load32 (splice mem blob (List.replicate n 0)) a = some 0 := by
  obtain ⟨k, rfl⟩ := Nat.exists_eq_add_of_le hlo
  have hlen : (List.replicate n (0 : UInt8)).length = n := List.length_replicate
  have hread : readAt (splice mem blob (List.replicate n 0)) (blob + k) 4 =
      some (((List.replicate n 0).drop k).take 4) :=
    readAt_splice_within (by rwa [hlen]) (by rw [hlen]; omega)
  have hmin : min 4 (n - k) = 4 := by omega
  rw [load32, hread, List.drop_replicate, List.take_replicate, hmin]
  rfl

/-- In a cleared blob no block is leased. -/
theorem slabRepr_cleared {slab : Slab} {slabSize n : Nat} {mem : List UInt8}
    (hge : slabSize + 8 ≤ slab.size.toNat) (hdvd : 8 ∣ slab.size.toNat)
    (hmul : slab.count.toNat * slab.size.toNat ≤ n) (hn : n < 2 ^ 64)
    (hin : slab.blob + n ≤ mem.length) :
    SlabRepr slab slabSize (splice mem slab.blob (List.replicate n 0)) [] := by
  refine ⟨hge, hdvd, by omega, ?_, List.nodup_nil, ?_, ?_, ?_⟩
  · rw [length_splice (by rwa [List.length_replicate])]
    omega
  · intro b hb
    cases hb
  · -- every header lies in the cleared range
    intro i hi
    have hle := mul_size_le slab hi
    rw [slabUnit_eq (by omega) hi, if_neg List.not_mem_nil]
    exact load32_memset hin (by omega) (by omega)
  · intro i _ hb
    cases hb

theorem of_sizeDiv {a b c : UInt64} (h : sizeDiv a b = some c) : c = a / b := by
  unfold sizeDiv at h
  split at h
  · cases h
  · exact (Option.some.inj h).symm

/-- A successful `slab_init` has cleared the blob and divided it into units. -/
theorem slabInit_eq_some {mem mem₀ : List UInt8} {slab₀ slab : Slab} {slabSize blobSize : UInt64}
    {blob : Nat} {ret : Int32}
    (h : slabInit mem slab₀ slabSize blob blobSize = some (mem₀, slab, ret)) (hret : ret ≠ -1) :
    blob + blobSize.toNat ≤ mem.length ∧
      mem₀ = splice mem blob (List.replicate blobSize.toNat 0) ∧
      slab = ⟨blob, unitSize slabSize, blobSize / unitSize slabSize⟩ ∧
      ret = slab.count.toUInt32.toInt32 := by
  simp only [slabInit] at h
  split at h
  · obtain rfl := congrArg (fun r => r.2.2) (Option.some.inj h)
    exact absurd rfl hret
  · obtain ⟨count, hcount, h⟩ := Option.bind_eq_some_iff.mp h
    obtain rfl := of_sizeDiv hcount
    obtain ⟨mem₁, hmem, heq⟩ := Option.bind_eq_some_iff.mp h
    simp only [Option.pure_def, Option.some.injEq, Prod.mk.injEq] at heq
    obtain ⟨rfl, rfl, rfl⟩ := heq
    obtain ⟨hin, rfl⟩ := writeAt_eq_some hmem
    rw [List.length_replicate] at hin
    exact ⟨hin, rfl, rfl, rfl⟩

/-- What a successful `slab_init` leaves behind. -/
theorem slabInit_spec {mem mem₀ : List UInt8} {slab₀ slab : Slab} {slabSize blobSize : UInt64}
    {blob : Nat} {ret : Int32}
    (h : slabInit mem slab₀ slabSize blob blobSize = some (mem₀, slab, ret)) (hret : ret ≠ -1)
    (hsize : slabSize.toNat + 15 < 2 ^ 64) :
    SlabRepr slab slabSize.toNat mem₀ [] ∧ slab.blob = blob ∧
      slab.count.toNat * slab.size.toNat ≤ blobSize.toNat ∧
      ret = slab.count.toUInt32.toInt32 := by
  obtain ⟨hin, rfl, rfl, hcount⟩ := slabInit_eq_some h hret
  have hunit := toNat_unitSize hsize
  -- as many units as fit: the count is a quotient
  have hmul : (blobSize / unitSize slabSize).toNat * (unitSize slabSize).toNat ≤
      blobSize.toNat := by
    rw [UInt64.toNat_div]
    exact Nat.div_mul_le_self _ _
  refine ⟨slabRepr_cleared ?_ ?_ hmul blobSize.toNat_lt hin, rfl, hmul, hcount⟩
  · show slabSize.toNat + 8 ≤ (unitSize slabSize).toNat
    omega
  · show 8 ∣ (unitSize slabSize).toNat
    rw [hunit]
    exact Nat.dvd_add (Nat.dvd_mul_left 8 _) (Nat.dvd_refl 8)

/-! ## Every run of a client -/

/-- What a client may rely on for a leased block `b`. -/
structure SlabLease (slab : Slab) (slabSize blobSize : Nat) (mem : List UInt8)
    (leased : List Nat) (b : Nat) : Prop where
  blob_le : slab.blob ≤ b
  le_blob : b + slabSize ≤ slab.blob + blobSize
  aligned : sizeofPointer.toNat ∣ b - slab.blob
  /-- apart from every unit header -/
  header : ∀ i < slab.count.toNat,
    b + slabSize ≤ slabUnit slab i ∨ slabUnit slab i + sizeofSlabUnit.toNat ≤ b
  /-- apart from every other leased block -/
  disjoint : ∀ b' ∈ leased, b' ≠ b → b + slabSize ≤ b' ∨ b' + slabSize ≤ b
  free : ∃ mem', slabFree mem b = some (mem', 0)

theorem SlabRepr.lease_ok {slab : Slab} {slabSize blobSize : Nat} {mem : List UInt8}
    {leased : List Nat} {b : Nat} (h : SlabRepr slab slabSize mem leased)
    (hblob : slab.count.toNat * slab.size.toNat ≤ blobSize) (hb : b ∈ leased) :
    SlabLease slab slabSize blobSize mem leased b := by
  obtain ⟨i, hi, rfl, hfree⟩ := h.slabFree_spec hb
  have hsize := h.size_ge
  have hunit := slabUnit_eq h.units_lt hi
  have hle := mul_size_le slab hi
  have hdata : slabBlock slab i = slabUnit slab i + 8 := rfl
  refine ⟨by omega, by omega, ?_, ?_, ?_, _, hfree⟩
  · have hsub : slabBlock slab i - slab.blob = i * slab.size.toNat + 8 := by omega
    rw [hsub]
    exact Nat.dvd_add (Nat.dvd_mul_left_of_dvd h.size_dvd i) (Nat.dvd_refl 8)
  · -- the own header is in front of the block, and other units are elsewhere
    intro j hj
    have hhdr : sizeofSlabUnit.toNat = 8 := rfl
    by_cases hij : i = j
    · rw [← hij]
      omega
    · have hd := h.slabUnit_disjoint hi hj hij
      omega
  · intro b' hb' hne
    obtain ⟨j, hj, rfl⟩ := h.isUnit b' hb'
    have hij : i ≠ j := fun heq => hne (by rw [heq])
    have hd := h.slabUnit_disjoint hi hj hij
    unfold slabBlock slabData
    omega

/-- After a successful `slab_init`, whatever the client does with its leases:
    `slab_alloc` finds a block that is not leased as long as there is one, leased blocks
    are apart from each other and from the headers, and they can be freed. -/
theorem slab_leases_disjoint {mem mem₀ : List UInt8} {slab₀ slab : Slab}
    {slabSize blobSize : UInt64} {blob : Nat} {ret : Int32}
    (hinit : slabInit mem slab₀ slabSize blob blobSize = some (mem₀, slab, ret))
    (hret : ret ≠ -1) (hsize : slabSize.toNat + 15 < 2 ^ 64) (hfit : slab.count.toNat < 2 ^ 31)
    {ops : List SlabOp} {s : SlabClient}
    (hrun : run (slabStep slab slabSize) ⟨mem₀, []⟩ ops = some s) :
    slab.blob = blob ∧ ret.toInt = slab.count.toNat ∧ s.leased.Nodup ∧
      (∃ mem' block, slabAlloc slab s.mem = some (mem', block) ∧
        (block.isSome ↔ s.leased.length < slab.count.toNat) ∧ ∀ b ∈ block, b ∉ s.leased) ∧
      ∀ b ∈ s.leased, SlabLease slab slabSize.toNat blobSize.toNat s.mem s.leased b := by
  obtain ⟨hrepr₀, hblob, hmul, hreteq⟩ := slabInit_spec hinit hret hsize
  have hstep : ∀ s op s', SlabRepr slab slabSize.toNat s.mem s.leased →
      slabStep slab slabSize s op = some s' → SlabRepr slab slabSize.toNat s'.mem s'.leased :=
    fun s op s' h hs => h.slabStep_repr hs
  have hrepr := inv_of_run hstep hrepr₀ hrun
  refine ⟨hblob, ?_, hrepr.nodup, ?_, fun b hb => hrepr.lease_ok hmul hb⟩
  · rw [hreteq]
    exact toInt_toInt32_of_lt hfit
  · -- either every block is leased, or a free one is found
    rcases hrepr.slabAlloc_spec with ⟨hnone, hall⟩ | ⟨j, hj, hfree, hsome⟩
    · have hle := hrepr.count_le_length hall
      refine ⟨_, _, hnone, ?_, fun b hb => by cases hb⟩
      simp only [Option.isSome_none, Bool.false_eq_true, false_iff]
      omega
    · refine ⟨_, _, hsome, ⟨fun _ => hrepr.length_lt_count hj hfree, fun _ => rfl⟩, ?_⟩
      intro b hb
      obtain rfl := Option.some.inj hb
      exact hfree

theorem slab_leases_disjoint_two :
    ∃ mem₀ s, slabInit (List.replicate 40 7) ⟨0, 0, 0⟩ 3 4 36 = some (mem₀, ⟨4, 16, 2⟩, 2) ∧
      run (slabStep ⟨4, 16, 2⟩ 3) ⟨mem₀, []⟩
        [.alloc, .alloc, .write 12 0 [1, 2, 3], .free 12, .alloc, .write 28 1 [9]] = some s ∧
      s.leased = [12, 28] ∧
      (∃ mem' block, slabAlloc ⟨4, 16, 2⟩ s.mem = some (mem', block) ∧
        (block.isSome ↔ s.leased.length < 2) ∧ ∀ b ∈ block, b ∉ s.leased) ∧
      ∀ b ∈ s.leased, SlabLease ⟨4, 16, 2⟩ 3 36 s.mem s.leased b := by
  have hinit : slabInit (List.replicate 40 7) ⟨0, 0, 0⟩ 3 4 36 =
      some (List.replicate 4 7 ++ List.replicate 36 0, ⟨4, 16, 2⟩, 2) := by decide +kernel
  have hrun : run (slabStep ⟨4, 16, 2⟩ 3) ⟨List.replicate 4 7 ++ List.replicate 36 0, []⟩
      [.alloc, .alloc, .write 12 0 [1, 2, 3], .free 12, .alloc, .write 28 1 [9]] =
      some ⟨[7, 7, 7, 7, 1, 0, 0, 0, 0xaf, 0xbe, 0xad, 0xde, 1, 2, 3, 0, 0, 0, 0, 0,
        1, 0, 0, 0, 0xaf, 0xbe, 0xad, 0xde, 0, 9, 0, 0, 0, 0, 0, 0, 0, 0, 0, 0], [12, 28]⟩ := by
    decide +kernel
  have hok := slab_leases_disjoint hinit (by decide) (by decide) (by decide) hrun
  exact ⟨_, _, hinit, hrun, rfl, hok.2.2.2.1, hok.2.2.2.2⟩

end CUtils
