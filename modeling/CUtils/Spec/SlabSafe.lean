import CUtils.Spec.SlabCorrect

/-!
# What the slab allocator does not check

`slab_free` looks at the canary in front of a pointer and at nothing else, and the canary
of a unit is never cleared.  `slab_init` computes the size of a unit in wrapping arithmetic
and converts the number of units to an `int`.

- `slabFree_correct_iff`: which pointers `slab_free` judges rightly.
- `slabInit_correct_iff`: for which sizes `slab_init` does.
-/

namespace CUtils

open StepSystem

/-! ## slab_free -/

/-- What is expected of `slab_free(slab, p)`: it succeeds for a leased block only, and for
    every other pointer it fails and changes nothing. -/
def FreeRight (s : SlabClient) (p : Nat) : Prop :=
  ∃ mem' ret, slabFree s.mem p = some (mem', ret) ∧ (ret = 0 → p ∈ s.leased) ∧
    (p ∉ s.leased → ret = -1 ∧ mem' = s.mem)

/-- The canary in front of the pointer decides. -/
theorem slabFree_cases {mem : List UInt8} {p : Nat} (hp : 8 ≤ p) (hread : p ≤ mem.length) :
    (load32 mem (p - 4) ≠ some 0xdeadbeaf ∧ slabFree mem p = some (mem, -1)) ∨
      (load32 mem (p - 4) = some 0xdeadbeaf ∧
        slabFree mem p = some (set32 mem (p - 8) 0, 0)) := by
  have hsub : p - 8 + 4 = p - 4 := by omega
  have hcanary : load32 mem (p - 4) = some (leValue ((mem.drop (p - 4)).take 4)) := by
    rw [load32, readAt_of_le (by omega), Option.map_some]
  simp only [slabFree, if_neg (Nat.not_lt.mpr hp), hsub, hcanary, Option.bind_eq_bind,
    Option.bind_some, Option.pure_def, ne_eq, Option.some_inj, store32_of_le (show p - 8 + 4 ≤
      mem.length by omega)]
  split
  · exact .inl ⟨‹_›, rfl⟩
  · exact .inr ⟨not_not.mp ‹_›, rfl⟩

theorem freeRight_iff {s : SlabClient} {p : Nat} (hp : 8 ≤ p) (hread : p ≤ s.mem.length) :
    FreeRight s p ↔ p ∈ s.leased ∨ load32 s.mem (p - 4) ≠ some 0xdeadbeaf := by
  rcases slabFree_cases hp hread with ⟨hcanary, hrun⟩ | ⟨hcanary, hrun⟩
  · refine ⟨fun _ => .inr hcanary, fun _ => ⟨_, _, hrun, ?_, fun _ => ⟨rfl, rfl⟩⟩⟩
    intro hzero
    exact absurd hzero (by decide)
  · constructor
    · rintro ⟨mem', ret, hrun', hzero, _⟩
      obtain ⟨_, rfl⟩ := Prod.mk.inj (Option.some.inj (hrun.symm.trans hrun'))
      exact .inl (hzero rfl)
    · rintro (hleased | hnot)
      · exact ⟨_, _, hrun, fun _ => hleased, fun hn => absurd hleased hn⟩
      · exact absurd hcanary hnot

/-! ### The canaries during a run -/

/-- A pool in which exactly the blocks `seen` were ever leased. -/
structure SlabHistory (slab : Slab) (slabSize : Nat) (s : SlabClient) (seen : Set Nat) : Prop where
  repr : SlabRepr slab slabSize s.mem s.leased
  leased_seen : ∀ b ∈ s.leased, b ∈ seen
  canary_iff : ∀ i < slab.count.toNat,
    load32 s.mem (slabUnit slab i + 4) = some 0xdeadbeaf ↔ slabBlock slab i ∈ seen

namespace SlabHistory

variable {slab : Slab} {slabSize : UInt64} {s s' : SlabClient} {seen : Set Nat}

/-- A step that leases nothing and writes no canary. -/
theorem of_canary_eq {n : Nat} (h : SlabHistory slab n s seen)
    (hrepr : SlabRepr slab n s'.mem s'.leased) (hleased : ∀ b ∈ s'.leased, b ∈ s.leased)
    (hcanary : ∀ i < slab.count.toNat,
      load32 s'.mem (slabUnit slab i + 4) = load32 s.mem (slabUnit slab i + 4)) :
    SlabHistory slab n s' (seen ∪ {b | b ∈ s'.leased}) := by
  refine ⟨hrepr, fun b hb => .inr hb, fun i hi => ?_⟩
  rw [hcanary i hi, h.canary_iff i hi]
  constructor
  · exact .inl
  · rintro (hseen | hb)
    · exact hseen
    · exact h.leased_seen _ (hleased _ hb)

/-- Every step of a client follows the history. -/
theorem step {op : SlabOp} (h : SlabHistory slab slabSize.toNat s seen)
    (hs : slabStep slab slabSize s op = some s') :
    SlabHistory slab slabSize.toNat s' (seen ∪ {b | b ∈ s'.leased}) := by
  have hrepr := h.repr.slabStep_repr hs
  cases op with
  | alloc =>
    rcases h.repr.slabAlloc_spec with ⟨hnone, _⟩ | ⟨j, hj, hfree, hsome⟩
    · simp only [slabStep, hnone, Option.bind_eq_bind, Option.bind_some] at hs
      obtain rfl := Option.some.inj hs
      exact h.of_canary_eq hrepr (fun _ hb => hb) fun _ _ => rfl
    · simp only [slabStep, hsome, Option.bind_eq_bind, Option.bind_some] at hs
      obtain rfl := Option.some.inj hs
      refine ⟨hrepr, fun b hb => .inr hb, fun i hi => ?_⟩
      by_cases hij : i = j
      · -- the canary is written with the lease
        subst hij
        exact ⟨fun _ => .inr List.mem_cons_self, fun _ => h.repr.load32_leaseUnit_canary hi⟩
      · show load32 (leaseUnit slab s.mem j) _ = _ ↔ _
        rw [h.repr.load32_leaseUnit_of_ne hj hi hij (by omega) (by omega), h.canary_iff i hi]
        constructor
        · exact .inl
        · rintro (hseen | hb)
          · exact hseen
          · rcases List.mem_cons.mp hb with heq | hb
            · exact absurd (h.repr.slabBlock_inj hi hj heq) hij
            · exact h.leased_seen _ hb
  | free block =>
    simp only [slabStep, Option.bind_eq_bind] at hs
    obtain ⟨_, hassert, hs⟩ := Option.bind_eq_some_iff.mp hs
    obtain ⟨j, hj, rfl, hfree⟩ := h.repr.slabFree_spec (of_cAssert hassert)
    rw [hfree] at hs
    obtain rfl := Option.some.inj hs
    refine h.of_canary_eq hrepr (fun b hb => List.mem_of_mem_erase hb) fun i hi => ?_
    -- only the word in front of the canary is written
    have hin := h.repr.header_le hj
    by_cases hij : i = j
    · subst hij
      exact load32_set32_of_disjoint (by omega) (by omega)
    · have hd := h.repr.header_disjoint hj hi hij
      exact load32_set32_of_disjoint (by omega) (by omega)
  | write block off bs =>
    simp only [slabStep, Option.bind_eq_bind] at hs
    obtain ⟨_, hassert, hs⟩ := Option.bind_eq_some_iff.mp hs
    obtain ⟨hb, hoff⟩ := of_cAssert hassert
    obtain ⟨hin, hapart⟩ := h.repr.write_apart hb hoff
    rw [writeAt_of_le hin] at hs
    obtain rfl := Option.some.inj hs
    refine h.of_canary_eq hrepr (fun _ hb => hb) fun i hi => ?_
    have hd := hapart i hi
    exact load32_splice_of_disjoint hin (by omega)

/-- A block that is not leased is judged rightly if it never was. -/
theorem freeRight_block_iff (h : SlabHistory slab slabSize.toNat s seen) {i : Nat}
    (hi : i < slab.count.toNat) (hfree : slabBlock slab i ∉ s.leased) :
    FreeRight s (slabBlock slab i) ↔ slabBlock slab i ∉ seen := by
  have hin := h.repr.header_le hi
  have hblock : slabBlock slab i = slabUnit slab i + 8 := rfl
  have hcanary : slabBlock slab i - 4 = slabUnit slab i + 4 := by omega
  rw [freeRight_iff (by omega) (by omega), hcanary]
  constructor
  · rintro (hleased | hne)
    · exact absurd hleased hfree
    · exact fun hseen => hne ((h.canary_iff i hi).mpr hseen)
  · exact fun hunseen => .inr fun heq => hunseen ((h.canary_iff i hi).mp heq)

end SlabHistory

/-- After `slab_init` no block was ever leased. -/
theorem slabHistory_init {mem mem₀ : List UInt8} {slab₀ slab : Slab} {slabSize blobSize : UInt64}
    {blob : Nat} {ret : Int32}
    (h : slabInit mem slab₀ slabSize blob blobSize = some (mem₀, slab, ret)) (hret : ret ≠ -1)
    (hsize : slabSize.toNat + 15 < 2 ^ 64) :
    SlabHistory slab slabSize.toNat ⟨mem₀, []⟩ {b | b ∈ ([] : List Nat)} := by
  obtain ⟨hrepr, hblob, hmul, _⟩ := slabInit_spec h hret hsize
  obtain ⟨hin, rfl, _, _⟩ := slabInit_eq_some h hret
  refine ⟨hrepr, fun b hb => hb, fun i hi => ?_⟩
  -- the canaries of all units lie in the cleared blob
  have hge := hrepr.size_ge
  have hle := mul_size_le slab hi
  have hunit := slabUnit_eq hrepr.units_lt hi
  have hzero : load32 (splice mem blob (List.replicate blobSize.toNat 0)) (slabUnit slab i + 4) =
      some 0 := load32_memset hin (by omega) (by omega)
  show load32 (splice mem blob (List.replicate blobSize.toNat 0)) _ = _ ↔ _
  rw [hzero]
  simp

/-- `slab_free` judges a pointer rightly if the block is leased or there is no canary in
    front of it, whatever the memory holds.  After `slab_init` and any run of a client, this
    tells a free block that was never leased from one that was freed. -/
theorem slabFree_correct_iff (s : SlabClient) {p : Nat} (hp : 8 ≤ p) (hread : p ≤ s.mem.length) :
    (FreeRight s p ↔ p ∈ s.leased ∨ load32 s.mem (p - 4) ≠ some 0xdeadbeaf) ∧
    ∀ (mem mem₀ : List UInt8) (slab₀ slab : Slab) (slabSize blobSize : UInt64) (blob : Nat)
      (ret : Int32) (ops : List SlabOp),
      slabInit mem slab₀ slabSize blob blobSize = some (mem₀, slab, ret) → ret ≠ -1 →
      slabSize.toNat + 15 < 2 ^ 64 → run (slabStep slab slabSize) ⟨mem₀, []⟩ ops = some s →
      ∀ i < slab.count.toNat, slabBlock slab i = p → p ∉ s.leased →
        (FreeRight s p ↔ ∀ pre m, pre <+: ops →
          run (slabStep slab slabSize) ⟨mem₀, []⟩ pre = some m → p ∉ m.leased) := by
  refine ⟨freeRight_iff hp hread, ?_⟩
  intro mem mem₀ slab₀ slab slabSize blobSize blob ret ops hinit hret hsize hrun i hi hblock hfree
  subst hblock
  have hstep : ∀ s op s' seen, SlabHistory slab slabSize.toNat s seen →
      slabStep slab slabSize s op = some s' →
      SlabHistory slab slabSize.toNat s' (seen ∪ {b | b ∈ s'.leased}) :=
    fun s op s' seen h hs => h.step hs
  have hist := inv_of_run_history hstep (slabHistory_init hinit hret hsize) hrun
  rw [hist.freeRight_block_iff hi hfree]
  constructor
  · intro hunseen pre m hpre hm hb
    exact hunseen ⟨pre, m, hpre, hm, hb⟩
  · rintro hnever ⟨pre, m, hpre, hm, hb⟩
    exact hnever pre m hpre hm hb

theorem slabFree_correct_iff_two :
    ∃ mem₀ s, slabInit (List.replicate 40 7) ⟨0, 0, 0⟩ 3 4 36 = some (mem₀, ⟨4, 16, 2⟩, 2) ∧
      run (slabStep ⟨4, 16, 2⟩ 3) ⟨mem₀, []⟩ [.alloc, .free 12] = some s ∧
      ¬ FreeRight s 12 ∧ FreeRight s 28 ∧
      (FreeRight s (slabBlock ⟨4, 16, 2⟩ 1) ↔ ∀ pre m, pre <+: [.alloc, .free 12] →
        run (slabStep ⟨4, 16, 2⟩ 3) ⟨mem₀, []⟩ pre = some m →
        slabBlock ⟨4, 16, 2⟩ 1 ∉ m.leased) := by
  have hinit : slabInit (List.replicate 40 7) ⟨0, 0, 0⟩ 3 4 36 =
      some (List.replicate 4 7 ++ List.replicate 36 0, ⟨4, 16, 2⟩, 2) := by decide +kernel
  have hrun : run (slabStep ⟨4, 16, 2⟩ 3) ⟨List.replicate 4 7 ++ List.replicate 36 0, []⟩
      [.alloc, .free 12] = some ⟨[7, 7, 7, 7, 0, 0, 0, 0, 0xaf, 0xbe, 0xad, 0xde] ++
        List.replicate 28 0, []⟩ := by
    decide +kernel
  refine ⟨_, _, hinit, hrun, ?_, ?_, ?_⟩
  · rw [(slabFree_correct_iff _ (p := 12) (by decide) (by decide)).1]
    decide +kernel
  · rw [(slabFree_correct_iff _ (p := 28) (by decide) (by decide)).1]
    decide +kernel
  · exact (slabFree_correct_iff _ (by decide) (by decide)).2 _ _ _ _ _ _ _ _ _ hinit (by decide)
      (by decide) hrun 1 (by decide) rfl (by decide)

/-- A block that was freed is freed again, and a canary in the data of a client makes its
    address a block. -/
theorem slabFree_accepts_freed :
    ∃ mem₀ s, slabInit (List.replicate 48 0) ⟨0, 0, 0⟩ 16 0 48 = some (mem₀, ⟨0, 24, 2⟩, 2) ∧
      run (slabStep ⟨0, 24, 2⟩ 16) ⟨mem₀, []⟩
        [.alloc, .alloc, .free 32, .write 8 4 [0xaf, 0xbe, 0xad, 0xde]] = some s ∧
      s.leased = [8] ∧ slabFree s.mem 32 = some (s.mem, 0) ∧
      (∃ mem', slabFree s.mem 16 = some (mem', 0)) ∧ ¬ FreeRight s 32 ∧ ¬ FreeRight s 16 := by
  have hinit : slabInit (List.replicate 48 0) ⟨0, 0, 0⟩ 16 0 48 =
      some (List.replicate 48 0, ⟨0, 24, 2⟩, 2) := by decide +kernel
  have hrun : run (slabStep ⟨0, 24, 2⟩ 16) ⟨List.replicate 48 0, []⟩
      [.alloc, .alloc, .free 32, .write 8 4 [0xaf, 0xbe, 0xad, 0xde]] = some
        ⟨[1, 0, 0, 0, 0xaf, 0xbe, 0xad, 0xde, 0, 0, 0, 0, 0xaf, 0xbe, 0xad, 0xde] ++
          List.replicate 12 0 ++ [0xaf, 0xbe, 0xad, 0xde] ++ List.replicate 16 0, [8]⟩ := by
    decide +kernel
  refine ⟨_, _, hinit, hrun, rfl, by decide +kernel, ⟨_, rfl⟩, ?_, ?_⟩
  · rw [freeRight_iff (by decide) (by decide)]
    decide +kernel
  · rw [freeRight_iff (by decide) (by decide)]
    decide +kernel

/-! ## slab_init -/

/-- What is expected of `slab_init(slab, slab_size, blob, blob_size)`: a non-negative result
    is the stored count, positive, and the number of units that have their place in the
    blob; every other result is -1. -/
def InitRight (mem : List UInt8) (slab : Slab) (slabSize : UInt64) (blob : Nat)
    (blobSize : UInt64) : Prop :=
  ∃ mem' slab' ret, slabInit mem slab slabSize blob blobSize = some (mem', slab', ret) ∧
    (0 ≤ ret.toInt → ret.toInt = slab'.count.toNat ∧ 1 ≤ ret.toInt ∧
      ret.toInt * (8 + slabSize.toNat) ≤ blobSize.toNat) ∧
    (ret.toInt < 0 → ret = -1)

/-- The sizes that `slab_init` can handle: the unit does not wrap and the number of units
    is an `int`.  A number that is cut off to -1 reads as an error. -/
def InitFits (slabSize blobSize : Nat) : Prop :=
  if slabSize + 15 < 2 ^ 64 then
    blobSize / ((slabSize + 7) / 8 * 8 + 8) < 2 ^ 31 ∨
      blobSize / ((slabSize + 7) / 8 * 8 + 8) % 2 ^ 32 = 2 ^ 32 - 1
  else
    2 ^ 64 < slabSize + 8 ∧ (blobSize < 8 ∨ blobSize / 8 % 2 ^ 32 = 2 ^ 32 - 1)

/-- The three ways through `slab_init`. -/
theorem slabInit_eq {mem : List UInt8} (slab : Slab) (slabSize : UInt64) {blobSize : UInt64}
    {blob : Nat} (hin : blob + blobSize.toNat ≤ mem.length) :
    slabInit mem slab slabSize blob blobSize =
      if blobSize < unitSize slabSize then some (mem, { slab with size := unitSize slabSize }, -1)
      else if unitSize slabSize = 0 then none
      else some (splice mem blob (List.replicate blobSize.toNat 0),
        ⟨blob, unitSize slabSize, blobSize / unitSize slabSize⟩,
        (blobSize / unitSize slabSize).toUInt32.toInt32) := by
  have hmem : memset mem blob 0 blobSize.toNat =
      some (splice mem blob (List.replicate blobSize.toNat 0)) :=
    writeAt_of_le (by rwa [List.length_replicate])
  unfold slabInit
  simp only [gt_iff_lt, hmem, Option.bind_eq_bind, Option.bind_some, Option.pure_def]
  show (if blobSize < unitSize slabSize then _ else _) = _
  split
  · rfl
  · show (sizeDiv blobSize (unitSize slabSize)).bind _ = _
    unfold sizeDiv
    split
    · rfl
    · rfl

/-- The conversion of the count to an `int`. -/
theorem toInt_toInt32 (n : UInt64) :
    n.toUInt32.toInt32.toInt =
      if n.toNat % 2 ^ 32 < 2 ^ 31 then ((n.toNat % 2 ^ 32 : Nat) : Int)
      else ((n.toNat % 2 ^ 32 : Nat) : Int) - (2 ^ 32 : Nat) := by
  have hnat : n.toUInt32.toBitVec.toNat = n.toNat % 2 ^ 32 := UInt64.toNat_toUInt32 n
  have hint : n.toUInt32.toInt32.toInt = n.toUInt32.toBitVec.toInt := rfl
  rw [hint, BitVec.toInt_eq_toNat_cond, hnat]
  split <;> split <;> omega

/-- The fifteen largest sizes wrap, and the unit has no room for the data. -/
theorem unitSize_of_wrap (slabSize : UInt64) (h : 2 ^ 64 ≤ slabSize.toNat + 15) :
    unitSize slabSize = if 2 ^ 64 < slabSize.toNat + 8 then 8 else 0 := by
  have hall : ∀ d < 16, 0 < d →
      unitSize (UInt64.ofNat (2 ^ 64 - d)) = if d < 8 then 8 else 0 := by decide
  have hlt := slabSize.toNat_lt
  have hd := hall (2 ^ 64 - slabSize.toNat) (by omega) (by omega)
  have hsub : 2 ^ 64 - (2 ^ 64 - slabSize.toNat) = slabSize.toNat := by omega
  have hiff : 2 ^ 64 - slabSize.toNat < 8 ↔ 2 ^ 64 < slabSize.toNat + 8 := by omega
  rw [hsub, UInt64.ofNat_toNat] at hd
  rw [hd]
  simp only [hiff]

/-- Which counts `c` survive the conversion to the `int` `r`, units of `k` bytes being due. -/
theorem int_count_iff {c k n : Nat} {r : Int} (hc : 1 ≤ c)
    (hr : r = if c % 2 ^ 32 < 2 ^ 31 then ((c % 2 ^ 32 : Nat) : Int)
      else ((c % 2 ^ 32 : Nat) : Int) - (2 ^ 32 : Nat)) :
    ((0 ≤ r → r = c ∧ 1 ≤ r ∧ r * k ≤ n) ∧ (r < 0 → r = -1)) ↔
      c % 2 ^ 32 = 2 ^ 32 - 1 ∨ c < 2 ^ 31 ∧ c * k ≤ n := by
  constructor
  · rintro ⟨hnonneg, hneg⟩
    -- the lower half of the `int` is kept or cut off, the upper half is negative
    by_cases hlt : c % 2 ^ 32 < 2 ^ 31
    · rw [if_pos hlt] at hr
      obtain ⟨heq, _, hle⟩ := hnonneg (by omega)
      rw [heq] at hle
      exact .inr ⟨by omega, by exact_mod_cast hle⟩
    · rw [if_neg hlt] at hr
      exact .inl (by omega)
  · rintro (hones | ⟨hlt, hle⟩)
    · rw [if_neg (by omega)] at hr
      exact ⟨by omega, by omega⟩
    · rw [if_pos (by omega)] at hr
      obtain rfl : r = c := by omega
      exact ⟨fun _ => ⟨rfl, by omega, by exact_mod_cast hle⟩, by omega⟩

/-- A blob that is divided into units. -/
theorem initRight_of_units {mem : List UInt8} {slab : Slab} {slabSize blobSize : UInt64}
    {blob : Nat} (hin : blob + blobSize.toNat ≤ mem.length)
    (hle : unitSize slabSize ≤ blobSize) (hpos : unitSize slabSize ≠ 0) :
    InitRight mem slab slabSize blob blobSize ↔
      blobSize.toNat / (unitSize slabSize).toNat % 2 ^ 32 = 2 ^ 32 - 1 ∨
      blobSize.toNat / (unitSize slabSize).toNat < 2 ^ 31 ∧
        blobSize.toNat / (unitSize slabSize).toNat * (8 + slabSize.toNat) ≤ blobSize.toNat := by
  have hrun := slabInit_eq slab slabSize hin
  rw [if_neg (UInt64.not_lt.mpr hle), if_neg hpos] at hrun
  have hcast := toInt_toInt32 (blobSize / unitSize slabSize)
  have hone : 1 ≤ (blobSize / unitSize slabSize).toNat := by
    rw [UInt64.toNat_div]
    apply Nat.div_pos (UInt64.le_iff_toNat_le.mp hle)
    exact Nat.pos_of_ne_zero fun hzero => hpos (UInt64.toNat_inj.mp hzero)
  have hiff := int_count_iff (k := 8 + slabSize.toNat) (n := blobSize.toNat) hone hcast
  rw [← UInt64.toNat_div, ← hiff, InitRight, hrun]
  -- the count is stored in full, and its conversion is returned
  constructor
  · rintro ⟨mem', slab', ret, heq, hnonneg, hneg⟩
    simp only [Option.some.injEq, Prod.mk.injEq] at heq
    obtain ⟨rfl, rfl, rfl⟩ := heq
    exact ⟨by exact_mod_cast hnonneg, fun hlt => congrArg Int32.toInt (hneg hlt)⟩
  · rintro ⟨hnonneg, hneg⟩
    exact ⟨_, _, _, rfl, by exact_mod_cast hnonneg, fun hlt => Int32.toInt_inj.mp (hneg hlt)⟩

/-- A blob that is smaller than a unit is refused. -/
theorem initRight_of_small {mem : List UInt8} {slab : Slab} {slabSize blobSize : UInt64}
    {blob : Nat} (hin : blob + blobSize.toNat ≤ mem.length) (hlt : blobSize < unitSize slabSize) :
    InitRight mem slab slabSize blob blobSize := by
  have hrun := slabInit_eq slab slabSize hin
  rw [if_pos hlt] at hrun
  exact ⟨_, _, _, hrun, fun h => absurd h (by decide), fun _ => rfl⟩

theorem initFits_of_small {slabSize blobSize : UInt64} (hlt : blobSize < unitSize slabSize) :
    InitFits slabSize.toNat blobSize.toNat := by
  have hnat : blobSize.toNat < (unitSize slabSize).toNat := UInt64.lt_iff_toNat_lt.mp hlt
  unfold InitFits
  by_cases hsize : slabSize.toNat + 15 < 2 ^ 64
  · rw [toNat_unitSize hsize] at hnat
    rw [if_pos hsize, Nat.div_eq_of_lt hnat]
    decide
  · rw [unitSize_of_wrap slabSize (by omega)] at hnat
    rw [if_neg hsize]
    split at hnat
    · exact ⟨‹_›, .inl hnat⟩
    · exact absurd hnat (Nat.not_lt_zero _)

/-- A unit that does not wrap: the number of units decides. -/
theorem initRight_iff_of_unit {mem : List UInt8} {slab : Slab} {slabSize blobSize : UInt64}
    {blob : Nat} (hin : blob + blobSize.toNat ≤ mem.length) (hle : unitSize slabSize ≤ blobSize)
    (hsize : slabSize.toNat + 15 < 2 ^ 64) :
    InitRight mem slab slabSize blob blobSize ↔ InitFits slabSize.toNat blobSize.toNat := by
  have hunit := toNat_unitSize hsize
  have hpos : unitSize slabSize ≠ 0 := by
    intro hzero
    have hnat : (unitSize slabSize).toNat = 0 := congrArg UInt64.toNat hzero
    omega
  -- the units that fit have room for the data
  have hroom : blobSize.toNat / (unitSize slabSize).toNat * (8 + slabSize.toNat) ≤
      blobSize.toNat := by
    apply le_trans _ (Nat.div_mul_le_self blobSize.toNat (unitSize slabSize).toNat)
    exact Nat.mul_le_mul_left _ (by omega)
  rw [initRight_of_units hin hle hpos, InitFits, if_pos hsize, ← hunit]
  omega

/-- A unit that wraps has no room for the data, or it is zero and the division faults. -/
theorem initRight_iff_of_wrap {mem : List UInt8} {slab : Slab} {slabSize blobSize : UInt64}
    {blob : Nat} (hin : blob + blobSize.toNat ≤ mem.length) (hle : unitSize slabSize ≤ blobSize)
    (hsize : ¬ slabSize.toNat + 15 < 2 ^ 64) :
    InitRight mem slab slabSize blob blobSize ↔ InitFits slabSize.toNat blobSize.toNat := by
  have hblob := blobSize.toNat_lt
  have hnat : (unitSize slabSize).toNat ≤ blobSize.toNat := UInt64.le_iff_toNat_le.mp hle
  have hunit := unitSize_of_wrap slabSize (by omega)
  rw [InitFits, if_neg hsize]
  by_cases height : 2 ^ 64 < slabSize.toNat + 8
  · rw [if_pos height] at hunit
    have heq : (unitSize slabSize).toNat = 8 := by
      rw [hunit]
      rfl
    -- not even the first unit has room
    have hroom : ¬ blobSize.toNat / 8 * (8 + slabSize.toNat) ≤ blobSize.toNat := by
      have hone : 1 ≤ blobSize.toNat / 8 := by omega
      have hmul := Nat.mul_le_mul_right (8 + slabSize.toNat) hone
      omega
    rw [initRight_of_units hin hle (by rw [hunit]; decide), heq]
    omega
  · rw [if_neg height] at hunit
    have hrun := slabInit_eq slab slabSize hin
    rw [if_neg (UInt64.not_lt.mpr hle), if_pos hunit] at hrun
    refine iff_of_false ?_ (fun h => height h.1)
    rintro ⟨_, _, _, hsome, _⟩
    rw [hrun] at hsome
    cases hsome

/-- `slab_init` meets its contract for the sizes of `InitFits` and for no others. -/
theorem slabInit_correct_iff {mem : List UInt8} (slab : Slab) (slabSize : UInt64) {blob : Nat}
    {blobSize : UInt64} (hin : blob + blobSize.toNat ≤ mem.length) :
    InitRight mem slab slabSize blob blobSize ↔ InitFits slabSize.toNat blobSize.toNat := by
  by_cases hlt : blobSize < unitSize slabSize
  · exact iff_of_true (initRight_of_small hin hlt) (initFits_of_small hlt)
  · have hle : unitSize slabSize ≤ blobSize := UInt64.not_lt.mp hlt
    by_cases hsize : slabSize.toNat + 15 < 2 ^ 64
    · exact initRight_iff_of_unit hin hle hsize
    · exact initRight_iff_of_wrap hin hle hsize

theorem slabInit_correct_iff_two :
    InitRight (List.replicate 40 7) ⟨0, 0, 0⟩ 3 4 36 ∧
      ¬ InitRight (List.replicate 40 7) ⟨0, 0, 0⟩ 0xfffffffffffffff8 4 36 := by
  have hin : 4 + (36 : UInt64).toNat ≤ (List.replicate 40 (7 : UInt8)).length := by decide
  constructor
  · rw [slabInit_correct_iff _ _ hin, InitFits, if_pos (by decide)]
    exact .inl (by decide)
  · rw [slabInit_correct_iff _ _ hin, InitFits, if_neg (by decide)]
    exact fun h => absurd h.1 (by decide)

/-- Eight units for blocks of almost 2^64 bytes, in a blob of 64 bytes. -/
theorem slabInit_wraps :
    slabInit (List.replicate 64 7) ⟨0, 0, 0⟩ 0xfffffffffffffffc 0 64 =
      some (List.replicate 64 0, ⟨0, 8, 8⟩, 8) ∧
    ¬ InitRight (List.replicate 64 7) ⟨0, 0, 0⟩ 0xfffffffffffffffc 0 64 := by
  have hrun : slabInit (List.replicate 64 7) ⟨0, 0, 0⟩ 0xfffffffffffffffc 0 64 =
      some (List.replicate 64 0, ⟨0, 8, 8⟩, 8) := by decide +kernel
  refine ⟨hrun, ?_⟩
  rintro ⟨mem', slab', ret, heq, hnonneg, _⟩
  simp only [hrun, Option.some.injEq, Prod.mk.injEq] at heq
  obtain ⟨_, _, rfl⟩ := heq
  exact absurd (hnonneg (by decide +kernel)).2.2 (by decide +kernel)

end CUtils
