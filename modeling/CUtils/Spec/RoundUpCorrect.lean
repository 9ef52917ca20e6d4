import Mathlib.Logic.Function.Iterate
import CUtils.ForStd.TwoPow
import CUtils.Spec.HashMapRehash

/-!
# Rounding up, and the mask of the hash map

`round_up_pow2` fills the bits of `v - 1` with five shifts, and the hash map uses the
predecessor of a power of two as the mask of a hash.

- `roundUpPow2_isLeastTwoPow`: the result is the least power of two, and a capacity that it
  is makes a mask, also after doublings.
-/

namespace CUtils

/-! ## The shifts -/

/-- One statement `v |= v >> s`. -/
theorem Fills.or_shiftRight {n : Nat} {v s : UInt32} (h : Fills s.toNat n v.toNat)
    (hs : s.toNat < 32) : Fills (2 * s.toNat) n (v ||| v >>> s).toNat := by
  have hshift : (v ||| v >>> s).toNat = v.toNat ||| v.toNat >>> s.toNat := by
    rw [UInt32.toNat_or, UInt32.toNat_shiftRight, Nat.mod_eq_of_lt hs]
  rw [hshift]
  exact h.double

/-- All five: every bit of `v - 1` has ones below it. -/
theorem roundUpPow2_fills (v : UInt32) :
    ∃ m, roundUpPow2 v = m + 1 ∧ Fills 32 (v - 1).toNat m.toNat := by
  have h1 := Fills.refl (v - 1).toNat
  have h2 := Fills.or_shiftRight (s := 1) h1 (by decide)
  have h4 := Fills.or_shiftRight (s := 2) h2 (by decide)
  have h8 := Fills.or_shiftRight (s := 4) h4 (by decide)
  have h16 := Fills.or_shiftRight (s := 8) h8 (by decide)
  have h32 := Fills.or_shiftRight (s := 16) h16 (by decide)
  exact ⟨_, rfl, h32⟩

theorem isLeastTwoPow_roundUpPow2 {v : UInt32} (hpos : 1 ≤ v.toNat) (hle : v.toNat ≤ 2 ^ 31) :
    IsLeastTwoPow v.toNat (roundUpPow2 v).toNat := by
  obtain ⟨m, heq, hfills⟩ := roundUpPow2_fills v
  have hpred : (v - 1).toNat = v.toNat - 1 := by
    have hone : (1 : UInt32) ≤ v := UInt32.le_iff_toNat_le.mpr hpos
    rw [UInt32.toNat_sub_of_le _ _ hone]
    rfl
  rw [hpred] at hfills
  have hleast := hfills.isLeastTwoPow hpos (by omega)
  -- the increment does not wrap
  have hsucc : m.toNat + 1 ≤ 2 ^ 31 := hleast.least 31 hle
  have hnat : (m + 1).toNat = m.toNat + 1 := by
    rw [UInt32.toNat_add]
    exact Nat.mod_eq_of_lt (show m.toNat + 1 < 2 ^ 32 by omega)
  rwa [heq, hnat]

/-! ## The mask -/

/-- `capacity - 1` is a mask: it takes a hash to its remainder, and the buckets that hashes
    reach are all of 0 to `capacity - 1`, if 32 bits suffice to count them. -/
structure PoolMask (map : HashMap) : Prop where
  capacity_pow : ∃ k, map.capacity = 2 ^ k
  pos_eq : ∀ hash, getPoolPos map hash = hash.toNat % map.capacity
  addresses : map.capacity ≤ 2 ^ 32 →
    ∀ pos, (∃ hash, getPoolPos map hash = pos) ↔ pos < map.capacity

theorem PoolMask.of_pow {map : HashMap} {k : Nat} (hk : map.capacity = 2 ^ k) : PoolMask map where
  capacity_pow := ⟨k, hk⟩
  pos_eq := getPoolPos_eq_mod hk
  addresses hle pos := by
    constructor
    · intro ⟨hash, hpos⟩
      rw [← hpos]
      exact getPoolPos_lt hk hash
    · intro hlt
      -- the bucket is the position of its own number
      refine ⟨UInt32.ofNat pos, ?_⟩
      have hnat : (UInt32.ofNat pos).toNat = pos :=
        UInt32.toNat_ofNat_of_lt' (show pos < 2 ^ 32 by omega)
      rw [getPoolPos_eq_mod hk, hnat, Nat.mod_eq_of_lt hlt]

variable {V : Type}

/-- So many doublings of the capacity. -/
theorem capacity_iterate_hashMapGrow (s : HashMapState V) (n : Nat) :
    (hashMapGrow^[n] s).map.capacity = 2 ^ n * s.map.capacity := by
  induction n with
  | zero => rw [Function.iterate_zero, id, Nat.pow_zero, Nat.one_mul]
  | succ n ih =>
    rw [Function.iterate_succ_apply', capacity_hashMapGrow, ih, Nat.pow_succ', Nat.mul_assoc]

/-- `round_up_pow2` yields the least power of two that is not below `v`.  In a map with that
    capacity the hashes address exactly the buckets 0 to `capacity - 1`, and however often
    the capacity is doubled, `capacity - 1` is a mask. -/
theorem roundUpPow2_isLeastTwoPow {v : UInt32} (hpos : 1 ≤ v.toNat) (hle : v.toNat ≤ 2 ^ 31) :
    IsLeastTwoPow v.toNat (roundUpPow2 v).toNat ∧
    ∀ s : HashMapState V, s.map.capacity = (roundUpPow2 v).toNat →
      (∀ pos, (∃ hash, getPoolPos s.map hash = pos) ↔ pos < s.map.capacity) ∧
      ∀ n, PoolMask (hashMapGrow^[n] s).map := by
  have hleast := isLeastTwoPow_roundUpPow2 hpos hle
  refine ⟨hleast, fun s hcap => ?_⟩
  obtain ⟨k, hk⟩ := hleast.pow
  have hbound : s.map.capacity ≤ 2 ^ 32 := by
    have hlt := (roundUpPow2 v).toNat_lt
    omega
  refine ⟨(PoolMask.of_pow (hcap.trans hk)).addresses hbound, fun n => ?_⟩
  have hgrown : (hashMapGrow^[n] s).map.capacity = 2 ^ (n + k) := by
    rw [capacity_iterate_hashMapGrow, hcap, hk, ← Nat.pow_add]
  exact PoolMask.of_pow hgrown

/-- `roundUpPow2_isLeastTwoPow` for the number 33. -/
theorem roundUpPow2_isLeastTwoPow_33 :
    IsLeastTwoPow 33 64 ∧
    ∀ s : HashMapState Nat, s.map.capacity = 64 →
      (∀ pos, (∃ hash, getPoolPos s.map hash = pos) ↔ pos < s.map.capacity) ∧
      ∀ n, PoolMask (hashMapGrow^[n] s).map := by
  have hval : (roundUpPow2 33).toNat = 64 := by decide
  have hmask := @roundUpPow2_isLeastTwoPow Nat 33 (by decide) (by decide)
  rwa [hval] at hmask

end CUtils
