import Mathlib.Data.List.Perm.Subperm
import CUtils.Spec.HashMapInvariant

/-!
# Rehashing in place

`hash_map_rehash` walks the chains of the old half of the pool and moves every item
whose new bucket differs: it is cut out of the middle of the chain that is being
walked and prepended to another one.

- `hashMapRehashBucket_stay`, `hashMapRehashBucket_move`: the two kinds of an iteration.
- `hashMapRehashBucket_spec`: what one walk does to every chain.
- `hashMapRehash_spec`: after the loop over the old buckets the same items are
  stored, each in the bucket that its hash selects under the doubled capacity.
-/

namespace CUtils

variable {V : Type}

/-- The bucket that the hash of an item selects. -/
def posAt (s : HashMapState V) (p : Ptr) : Option Nat :=
  (payloadAt s.heap p).map fun payload => getPoolPos s.map payload.hash

theorem SameItems.posAt_eq {s s' : HashMapState V} (h : SameItems s s') : posAt s' = posAt s := by
  funext p
  simp only [posAt, getPoolPos, h.payload_eq, h.capacity_eq]

theorem posAt_of_cells {s : HashMapState V} {p : Ptr} {item : HashMapItem V}
    (h : s.heap.cells p = some item) : posAt s p = some (getPoolPos s.map item.hash) := by
  simp only [posAt, payloadAt_of_cells h, Option.map_some, HashMapItem.payload]

/-! ## One bucket -/

/-- An iteration on an item that is in its bucket leaves it there and goes on behind it. -/
theorem hashMapRehashBucket_stay {pivot n : Nat} {s : HashMapState V} {p : Ptr}
    {item : HashMapItem V} (hitem : s.heap.cells p = some item)
    (hpos : getPoolPos s.map item.hash = pivot) (hpivot : pivot < s.map.capacity)
    (last : Option Ptr) :
    hashMapRehashBucket pivot (n + 1) s last (some p) =
      hashMapRehashBucket pivot n s (some p) item.next := by
  simp only [hashMapRehashBucket, hitem, Option.bind_eq_bind, Option.bind_some, hpos, hpivot,
    cAssert_true, ne_eq, not_true_eq_false, ↓reduceIte]

/-- An iteration on an item of another bucket cuts it out, prepends it to the chain of that
    bucket and goes on with the next item. -/
theorem hashMapRehashBucket_move {pivot target : Nat} {s : HashMapState V}
    {chain : Nat → List Ptr} (hB : Buckets s.heap s.map.pool chain)
    (hpool : s.map.pool.length = s.map.capacity) (hpivot : pivot < s.map.capacity)
    {kept rest : List Ptr} {p : Ptr} (hchain : chain pivot = kept ++ p :: rest)
    (htarget : target < s.map.capacity) (hpos : posAt s p = some target) (hne : target ≠ pivot)
    (n : Nat) :
    ∃ s' chain', hashMapRehashBucket pivot (n + 1) s kept.getLast? (some p) =
        hashMapRehashBucket pivot n s' kept.getLast? rest.head? ∧
      SameItems s s' ∧ Buckets s'.heap s'.map.pool chain' ∧ chain' pivot = kept ++ rest ∧
      ∀ q i, q ∈ chain' i ↔ (q = p ∧ i = target) ∨ (q ≠ p ∧ q ∈ chain i) := by
  obtain ⟨item, hitem, hhead⟩ := hB.next_split (hpool ▸ hpivot) hchain
  have hlive : (payloadAt s.heap p).isSome := by
    rw [payloadAt_of_cells hitem]
    rfl
  rw [posAt_of_cells hitem, Option.some_inj] at hpos
  have hnext : itemNext s.heap p = item.next := itemNext_of_cells hitem
  -- the item is cut out
  obtain ⟨s₁, hset, hR, hB₁⟩ := hB.unlink (hpool ▸ hpivot) hchain
  have hmem₁ := hB.mem_update_unlink hchain
  have htarget₁ : target < s₁.map.pool.length := by
    rw [hR.pool_length, hpool]
    exact htarget
  have hlive₁ : (payloadAt s₁.heap p).isSome := by
    rw [hR.payload_eq]
    exact hlive
  have hfresh : ∀ i, p ∉ Function.update chain pivot (kept ++ rest) i :=
    fun i hpi => ((hmem₁ p i).mp hpi).2 rfl
  -- and becomes the first one of the target chain
  obtain ⟨heap₂, hset₂, hpay₂, hnext₂, hB₂⟩ := hB₁.prepend htarget₁ hlive₁ hfresh
  refine ⟨⟨heap₂, { s₁.map with pool := s₁.map.pool.set target (some p) }⟩, _, ?_,
    hR.toSameItems.trans ⟨rfl, rfl, List.length_set, hpay₂⟩, hB₂, ?_, ?_⟩
  · have htemp : (s₁.heap.cells p).map HashMapItem.next = some rest.head? := by
      have hpkept : p ∉ kept := fun h => hB.notMem_split hchain (List.mem_append_left rest h)
      obtain ⟨item₁, hitem₁⟩ :=
        Option.isSome_iff_exists.mp (isSome_cells_of_payloadAt hlive₁)
      rw [hitem₁, Option.map_some, ← itemNext_of_cells hitem₁, hR.next_eq p hpkept, hnext, hhead]
    rw [hnext] at hset
    simp only [hashMapRehashBucket, hitem, Option.bind_eq_bind, Option.bind_some, hpos, htarget,
      cAssert_true, ne_eq, hne.symm, not_false_eq_true, ↓reduceIte, hset, htemp,
      List.getElem?_eq_getElem htarget₁, hset₂]
  · rw [Function.update_of_ne hne.symm, Function.update_self]
  · intro q i
    rw [mem_update_of_mem_iff (fun _ => List.mem_cons), hmem₁]
    by_cases hqp : q = p
    · subst hqp
      simp
    · simp [hqp]

/-- The walk over the rest of the chain of `pivot` moves every item of `rest` to the
    bucket its hash selects and touches no other item. -/
theorem hashMapRehashBucket_spec (pivot : Nat) {rest : List Ptr} {fuel : Nat}
    {s : HashMapState V} {chain : Nat → List Ptr} (hB : Buckets s.heap s.map.pool chain)
    (hpool : s.map.pool.length = s.map.capacity) (hpivot : pivot < s.map.capacity)
    {kept : List Ptr} (hchain : chain pivot = kept ++ rest)
    (hpos : ∀ p ∈ rest, ∃ i, i < s.map.capacity ∧ posAt s p = some i)
    (hfuel : rest.length < fuel) :
    ∃ s' chain', hashMapRehashBucket pivot fuel s kept.getLast? rest.head? = some s' ∧
      SameItems s s' ∧ Buckets s'.heap s'.map.pool chain' ∧
      ∀ q i, q ∈ chain' i ↔ (q ∈ rest ∧ posAt s q = some i) ∨ (q ∉ rest ∧ q ∈ chain i) := by
  -- `kept` are the items in front that were left in place, and `s` changes with every move
  induction rest generalizing fuel s chain kept with
  | nil =>
    obtain ⟨n, rfl⟩ : ∃ n, fuel = n + 1 := ⟨fuel - 1, by simp at hfuel; omega⟩
    exact ⟨s, chain, rfl, SameItems.refl s, hB, by simp⟩
  | cons p rest ih =>
    obtain ⟨n, rfl⟩ : ∃ n, fuel = n + 1 := ⟨fuel - 1, by simp at hfuel; omega⟩
    have hfuel' : rest.length < n := by simpa using hfuel
    have hmem : p ∈ chain pivot := by
      rw [hchain]
      simp
    obtain ⟨item, hitem, hhead⟩ := hB.next_split (hpool ▸ hpivot) hchain
    have hprest : p ∉ rest := fun h => hB.notMem_split hchain (List.mem_append_right kept h)
    obtain ⟨target, htarget, hpos_p⟩ := hpos p List.mem_cons_self
    have hpos_item : getPoolPos s.map item.hash = target := by
      rw [posAt_of_cells hitem] at hpos_p
      exact Option.some.inj hpos_p
    by_cases hne : target = pivot
    · -- the item stays: it becomes the last one left in place
      subst hne
      have hchain' : chain target = (kept ++ [p]) ++ rest := by
        rw [hchain, List.append_assoc, List.singleton_append]
      obtain ⟨s', chain', hrun, hsame, hB', hmem'⟩ := ih hB hpool hpivot hchain'
        (fun q hq => hpos q (List.mem_cons_of_mem p hq)) hfuel'
      refine ⟨s', chain', ?_, hsame, hB', ?_⟩
      · rw [List.head?_cons, hashMapRehashBucket_stay hitem hpos_item hpivot, hhead, ← hrun,
          List.getLast?_concat]
      · intro q i
        rw [hmem' q i]
        by_cases hqp : q = p
        · subst hqp
          have hq : q ∈ chain i ↔ posAt s q = some i := by
            rw [hpos_p, Option.some_inj]
            exact ⟨fun h => hB.disjoint target i q hmem h, fun h => h ▸ hmem⟩
          simp [hprest, hq]
        · simp [hqp]
    · -- the item moves to the front of the target chain
      obtain ⟨s₂, chain₂, hmove, hsame₂, hB₂, hchain₂, hmem₂⟩ :=
        hashMapRehashBucket_move hB hpool hpivot hchain htarget hpos_p hne n
      have hpool₂ : s₂.map.pool.length = s₂.map.capacity := by
        rw [hsame₂.pool_length, hsame₂.capacity_eq, hpool]
      have hpos₂ : ∀ q ∈ rest, ∃ i, i < s₂.map.capacity ∧ posAt s₂ q = some i := by
        intro q hq
        rw [hsame₂.capacity_eq, hsame₂.posAt_eq]
        exact hpos q (List.mem_cons_of_mem p hq)
      obtain ⟨s', chain', hrun, hsame, hB', hmem'⟩ :=
        ih hB₂ hpool₂ (hsame₂.capacity_eq ▸ hpivot) hchain₂ hpos₂ hfuel'
      refine ⟨s', chain', ?_, hsame₂.trans hsame, hB', ?_⟩
      · rw [List.head?_cons, hmove, hrun]
      · intro q i
        rw [hmem' q i, hsame₂.posAt_eq, hmem₂]
        by_cases hqp : q = p
        · subst hqp
          simp [hprest, hpos_p, eq_comm]
        · simp [hqp]

/-! ## All items of a map -/

/-- The items of the first `n` buckets. -/
def members (chain : Nat → List Ptr) (n : Nat) : List Ptr := (List.range n).flatMap chain

theorem members_succ (chain : Nat → List Ptr) (n : Nat) :
    members chain (n + 1) = members chain n ++ chain n := by
  simp only [members, List.range_succ, List.flatMap_append, List.flatMap_singleton]

theorem Buckets.mem_members_iff {heap : Heap (HashMapItem V)} {pool : List (Option Ptr)}
    {chain : Nat → List Ptr} (hB : Buckets heap pool chain) {p : Ptr} :
    p ∈ members chain pool.length ↔ ∃ i, p ∈ chain i := by
  simp only [members, List.mem_flatMap, List.mem_range]
  constructor
  · rintro ⟨i, _, hp⟩
    exact ⟨i, hp⟩
  · rintro ⟨i, hp⟩
    refine ⟨i, ?_, hp⟩
    by_contra hi
    rw [hB.outside i (by omega)] at hp
    exact List.not_mem_nil hp

theorem Buckets.nodup_members {heap : Heap (HashMapItem V)} {pool : List (Option Ptr)}
    {chain : Nat → List Ptr} (hB : Buckets heap pool chain) (n : Nat) :
    (members chain n).Nodup := by
  induction n with
  | zero => exact List.nodup_nil
  | succ n ih =>
    rw [members_succ, List.nodup_append]
    refine ⟨ih, hB.nodup_chain n, ?_⟩
    rintro p hp q hq rfl
    simp only [members, List.mem_flatMap, List.mem_range] at hp
    obtain ⟨i, hi, hpi⟩ := hp
    have hin := hB.disjoint i n p hpi hq
    omega

/-- Two representations of the same set of items have equally many. -/
theorem Buckets.length_members_eq {heap heap' : Heap (HashMapItem V)}
    {pool pool' : List (Option Ptr)} {chain chain' : Nat → List Ptr}
    (hB : Buckets heap pool chain) (hB' : Buckets heap' pool' chain')
    (hmem : ∀ p, (∃ i, p ∈ chain' i) ↔ ∃ i, p ∈ chain i) :
    (members chain' pool'.length).length = (members chain pool.length).length := by
  have hperm : (members chain' pool'.length).Perm (members chain pool.length) := by
    refine (List.perm_ext_iff_of_nodup (hB'.nodup_members _) (hB.nodup_members _)).mpr ?_
    intro p
    rw [hB'.mem_members_iff, hB.mem_members_iff]
    exact hmem p
  exact hperm.length_eq

/-- The chain loops have enough fuel. -/
theorem Buckets.length_lt_chainFuel {heap : Heap (HashMapItem V)} {pool : List (Option Ptr)}
    {chain : Nat → List Ptr} (hB : Buckets heap pool chain) (i : Nat) :
    (chain i).length < chainFuel heap :=
  Nat.lt_succ_of_le (heap.length_le_limit (hB.nodup_chain i)
    fun p hp => isSome_cells_of_payloadAt (hB.live i p hp))

/-! ## Counting -/

private theorem hashMapCountChain_spec {heap : Heap (HashMapItem V)} {xs : List Ptr} {fuel : Nat}
    {head : Option Ptr} (count : Nat) (hseg : IsSeg (itemNext heap) head xs none)
    (hlive : ∀ p ∈ xs, (payloadAt heap p).isSome) (hfuel : xs.length < fuel) :
    hashMapCountChain heap fuel head count = some (count + xs.length) := by
  induction xs generalizing fuel head count with
  | nil =>
    obtain ⟨n, rfl⟩ : ∃ n, fuel = n + 1 := ⟨fuel - 1, by simp at hfuel; omega⟩
    obtain rfl := hseg
    rfl
  | cons p xs ih =>
    obtain ⟨n, rfl⟩ : ∃ n, fuel = n + 1 := ⟨fuel - 1, by simp at hfuel; omega⟩
    obtain ⟨item, rfl, hitem, _, hrest, hlive'⟩ := exists_item_of_isSeg_cons hseg hlive
    have hrun := ih (count + 1) hrest hlive' (by simpa using hfuel)
    simp only [hashMapCountChain, hitem, Option.bind_eq_bind, Option.bind_some, hrun,
      List.length_cons, Option.some.injEq]
    omega

/-- `hash_map_count` returns the number of items in the chains. -/
theorem hashMapCount_spec {s : HashMapState V} {chain : Nat → List Ptr}
    (hB : Buckets s.heap s.map.pool chain) (hpool : s.map.pool.length = s.map.capacity) :
    hashMapCount s = some (members chain s.map.capacity).length := by
  obtain ⟨c, hc, rfl⟩ := List.foldlM_range_inv (n := s.map.capacity) (s := 0)
    (f := fun count i => do
      let head ← s.map.pool[i]?
      hashMapCountChain s.heap (chainFuel s.heap) head count)
    (P := fun k count => count = (members chain k).length) rfl (by
      rintro k count hk rfl
      have hk' : k < s.map.pool.length := by omega
      refine ⟨_, ?_, rfl⟩
      rw [List.getElem?_eq_getElem hk', members_succ, List.length_append]
      exact hashMapCountChain_spec _ (hB.seg k _ (List.getElem?_eq_getElem hk')) (hB.live k)
        (hB.length_lt_chainFuel k))
  exact hc

/-! ## The whole pool -/

/-- A well formed hash map with the bucket chains `chain`. -/
structure HashMapWf (s : HashMapState V) (chain : Nat → List Ptr) : Prop
    extends Buckets s.heap s.map.pool chain where
  pool_length : s.map.pool.length = s.map.capacity
  capacity_pow : ∃ k, 5 ≤ k ∧ s.map.capacity = 2 ^ k
  placed : ∀ i p, p ∈ chain i → posAt s p = some i
  hash_key : ∀ i p payload, p ∈ chain i → payloadAt s.heap p = some payload →
    payload.hash = hash32Djb2 payload.key (-1)
  key_inj : ∀ i j p q payload payload', p ∈ chain i → q ∈ chain j →
    payloadAt s.heap p = some payload → payloadAt s.heap q = some payload' →
    payload.key = payload'.key → p = q
  count_eq : s.map.count = (members chain s.map.capacity).length

theorem HashMapWf.capacity_ge {s : HashMapState V} {chain : Nat → List Ptr}
    (h : HashMapWf s chain) : 32 ≤ s.map.capacity := by
  obtain ⟨k, hk5, hk⟩ := h.capacity_pow
  rw [hk]
  calc 32 = 2 ^ 5 := rfl
    _ ≤ 2 ^ k := Nat.pow_le_pow_right (by omega) hk5

/-- The assertion of `hash_map_lint` holds in a well formed map. -/
theorem hashMapLint_spec {s : HashMapState V} {chain : Nat → List Ptr} (h : HashMapWf s chain) :
    hashMapLint s = some () := by
  simp only [hashMapLint, hashMapCount_spec h.toBuckets h.pool_length, Option.bind_eq_bind,
    Option.bind_some, h.count_eq, cAssert_true]

/-- The mask `capacity - 1` of a power of two is a remainder. -/
theorem getPoolPos_eq_mod {map : HashMap} {k : Nat} (hk : map.capacity = 2 ^ k) (hash : UInt32) :
    getPoolPos map hash = hash.toNat % map.capacity := by
  rw [getPoolPos, hk, Nat.and_two_pow_sub_one_eq_mod]

theorem getPoolPos_lt {map : HashMap} {k : Nat} (hk : map.capacity = 2 ^ k) (hash : UInt32) :
    getPoolPos map hash < map.capacity := by
  rw [getPoolPos_eq_mod hk]
  exact Nat.mod_lt _ (by rw [hk]; exact Nat.two_pow_pos k)

@[simp] theorem capacity_hashMapGrow (s : HashMapState V) :
    (hashMapGrow s).map.capacity = 2 * s.map.capacity := by
  simp only [hashMapGrow, Nat.shiftLeft_eq]
  omega

/-- The new half of the pool is as long as the old one. -/
theorem pool_length_hashMapGrow {s : HashMapState V} (h : s.map.pool.length = s.map.capacity) :
    (hashMapGrow s).map.pool.length = (hashMapGrow s).map.capacity := by
  simp only [hashMapGrow, List.length_append, List.length_replicate, Nat.shiftLeft_eq]
  omega

/-- Doubling the capacity leaves an item where it is or moves it up by the old
    capacity. -/
theorem getPoolPos_hashMapGrow {s : HashMapState V} {k : Nat} (hk : s.map.capacity = 2 ^ k)
    (hash : UInt32) :
    getPoolPos (hashMapGrow s).map hash = getPoolPos s.map hash ∨
    getPoolPos (hashMapGrow s).map hash = getPoolPos s.map hash + s.map.capacity := by
  have hk' : (hashMapGrow s).map.capacity = 2 ^ (k + 1) := by
    rw [capacity_hashMapGrow, hk, Nat.pow_succ, Nat.mul_comm]
  have hmod : hash.toNat % (s.map.capacity * 2) = hash.toNat % s.map.capacity +
      s.map.capacity * (hash.toNat / s.map.capacity % 2) := Nat.mod_mul
  rw [getPoolPos_eq_mod hk, getPoolPos_eq_mod hk', capacity_hashMapGrow, Nat.mul_comm 2, hmod]
  rcases Nat.mod_two_eq_zero_or_one (hash.toNat / s.map.capacity) with h | h
  · left
    rw [h, Nat.mul_zero, Nat.add_zero]
  · right
    rw [h, Nat.mul_one]

/-- Growing the pool keeps the chains. -/
theorem Buckets.grow {s : HashMapState V} {chain : Nat → List Ptr}
    (hB : Buckets s.heap s.map.pool chain) :
    Buckets (hashMapGrow s).heap (hashMapGrow s).map.pool chain := by
  refine ⟨?_, ?_, hB.live, hB.disjoint⟩
  · intro i head hhead
    by_cases hi : i < s.map.pool.length
    · rw [hashMapGrow, List.getElem?_append_left hi] at hhead
      exact hB.seg i head hhead
    · rw [hB.outside i (by omega)]
      rw [hashMapGrow, List.getElem?_append_right (by omega), List.getElem?_replicate] at hhead
      split at hhead
      · exact (Option.some.inj hhead).symm
      · exact nomatch hhead
  · intro i hi
    refine hB.outside i ?_
    simp only [hashMapGrow, List.length_append] at hi
    omega

/-- The state of the outer loop of `hash_map_rehash` before the bucket `pivot`: the
    old buckets from `pivot` on still hold what they held under the old capacity,
    every other bucket is in its final shape. -/
def RehashInv (s : HashMapState V) (chain : Nat → List Ptr) (pivot : Nat) (s' : HashMapState V) :
    Prop :=
  ∃ chain', SameItems (hashMapGrow s) s' ∧ Buckets s'.heap s'.map.pool chain' ∧
    (∀ p, (∃ i, p ∈ chain' i) ↔ ∃ i, p ∈ chain i) ∧
    (∀ p i, p ∈ chain' i → pivot ≤ i → i < s.map.capacity → posAt s p = some i) ∧
    ∀ p i, p ∈ chain' i → i < pivot ∨ s.map.capacity ≤ i → posAt (hashMapGrow s) p = some i

private theorem posAt_grow_of_posAt {s : HashMapState V} {k : Nat} (hk : s.map.capacity = 2 ^ k)
    {p : Ptr} {i : Nat} (h : posAt s p = some i) :
    posAt (hashMapGrow s) p = some i ∨ posAt (hashMapGrow s) p = some (i + s.map.capacity) := by
  simp only [posAt, Option.map_eq_some_iff] at h
  obtain ⟨payload, hpay, rfl⟩ := h
  have hpay' : payloadAt (hashMapGrow s).heap p = some payload := hpay
  simp only [posAt, hpay', Option.map_some, Option.some.injEq]
  exact getPoolPos_hashMapGrow hk payload.hash

/-- A map with the items of the grown one has its size. -/
private theorem HashMapWf.grown {s s' : HashMapState V} {chain : Nat → List Ptr}
    (h : HashMapWf s chain) (hsame : SameItems (hashMapGrow s) s') :
    s'.map.capacity = 2 * s.map.capacity ∧ s'.map.pool.length = s'.map.capacity := by
  have hcap : s'.map.capacity = 2 * s.map.capacity := by
    rw [hsame.capacity_eq, capacity_hashMapGrow]
  refine ⟨hcap, ?_⟩
  rw [hsame.pool_length, hcap, ← capacity_hashMapGrow]
  exact pool_length_hashMapGrow h.pool_length

private theorem hashMapRehashPivot_spec {s s' : HashMapState V} {chain : Nat → List Ptr}
    (h : HashMapWf s chain) {pivot : Nat} (hpivot : pivot < s.map.capacity)
    (hInv : RehashInv s chain pivot s') :
    ∃ s'', hashMapRehashPivot s' pivot = some s'' ∧ RehashInv s chain (pivot + 1) s'' := by
  obtain ⟨chain', hsame, hB, hmem, hold, hnew⟩ := hInv
  obtain ⟨k, _, hk⟩ := h.capacity_pow
  obtain ⟨hcap, hpool⟩ := h.grown hsame
  -- the items of this bucket stay, or move to its partner in the new half
  have hpivot' : pivot < s'.map.pool.length := by omega
  have hmoves : ∀ p ∈ chain' pivot,
      posAt s' p = some pivot ∨ posAt s' p = some (pivot + s.map.capacity) := by
    intro p hp
    rw [hsame.posAt_eq]
    exact posAt_grow_of_posAt hk (hold p pivot hp (Nat.le_refl _) hpivot)
  have hpos : ∀ p ∈ chain' pivot, ∃ i, i < s'.map.capacity ∧ posAt s' p = some i := by
    intro p hp
    rcases hmoves p hp with hi | hi
    · exact ⟨pivot, by omega, hi⟩
    · exact ⟨pivot + s.map.capacity, by omega, hi⟩
  obtain ⟨s'', chain'', hrun, hsame', hB', hmem'⟩ :=
    hashMapRehashBucket_spec pivot hB hpool (by omega) (List.nil_append _).symm hpos
      (hB.length_lt_chainFuel pivot)
  have hhead : s'.map.pool[pivot] = (chain' pivot).head? := by
    rw [(hB.seg pivot _ (List.getElem?_eq_getElem hpivot')).eq_head, Option.or_none]
  refine ⟨s'', ?_, chain'', hsame.trans hsame', hB', ?_, ?_, ?_⟩
  · rw [← hrun, List.getLast?_nil, ← hhead]
    simp only [hashMapRehashPivot, List.getElem?_eq_getElem hpivot', Option.bind_eq_bind,
      Option.bind_some]
  · intro p
    rw [← hmem p]
    constructor
    · rintro ⟨i, hi⟩
      rcases (hmem' p i).mp hi with ⟨hp, _⟩ | ⟨_, hp⟩
      · exact ⟨pivot, hp⟩
      · exact ⟨i, hp⟩
    · rintro ⟨i, hi⟩
      by_cases hp : p ∈ chain' pivot
      · obtain ⟨j, _, hj⟩ := hpos p hp
        exact ⟨j, (hmem' p j).mpr (.inl ⟨hp, hj⟩)⟩
      · exact ⟨i, (hmem' p i).mpr (.inr ⟨hp, hi⟩)⟩
  · intro p i hp hle hlt
    rcases (hmem' p i).mp hp with ⟨hpp, hi⟩ | ⟨_, hpi⟩
    · -- an item of the walked bucket ends in `pivot` or beyond the old capacity
      rcases hmoves p hpp with hj | hj <;>
      · rw [hj, Option.some.injEq] at hi
        omega
    · exact hold p i hpi (by omega) hlt
  · intro p i hp hi
    rcases (hmem' p i).mp hp with ⟨_, hpos_i⟩ | ⟨hpp, hpi⟩
    · rwa [hsame.posAt_eq] at hpos_i
    · have hne : i ≠ pivot := fun heq => hpp (heq ▸ hpi)
      exact hnew p i hpi (by omega)

/-- Rehashing a well formed map succeeds, doubles the capacity and keeps every item
    with its payload. -/
theorem hashMapRehash_spec {s : HashMapState V} {chain : Nat → List Ptr} (h : HashMapWf s chain) :
    ∃ s' chain', hashMapRehash s = some s' ∧ HashMapWf s' chain' ∧
      SameItems (hashMapGrow s) s' ∧ ∀ p, (∃ i, p ∈ chain' i) ↔ ∃ i, p ∈ chain i := by
  obtain ⟨k, hk5, hk⟩ := h.capacity_pow
  have hinit : RehashInv s chain 0 (hashMapGrow s) := by
    refine ⟨chain, SameItems.refl _, h.toBuckets.grow, fun _ => Iff.rfl,
      fun p i hp _ _ => h.placed i p hp, ?_⟩
    -- the new half is empty at first
    intro p i hp hi
    have hpool := h.pool_length
    rw [h.outside i (by omega)] at hp
    exact absurd hp List.not_mem_nil
  obtain ⟨s', hrun, chain', hsame, hB, hmem, hold, hnew⟩ :=
    List.foldlM_range_inv (n := s.map.capacity) (f := hashMapRehashPivot)
      (P := RehashInv s chain) hinit
      (fun pivot s' hpivot hInv => hashMapRehashPivot_spec h hpivot hInv)
  obtain ⟨hcap, hpool⟩ := h.grown hsame
  have hpay : payloadAt s'.heap = payloadAt s.heap := hsame.payload_eq
  have hwf : HashMapWf s' chain' := by
    refine ⟨hB, hpool, ⟨k + 1, by omega, ?_⟩, ?_, ?_, ?_, ?_⟩
    · rw [hcap, hk, Nat.pow_succ, Nat.mul_comm]
    · intro i p hp
      rw [hsame.posAt_eq]
      exact hnew p i hp (Nat.lt_or_ge i s.map.capacity)
    · intro i p payload hp hpl
      obtain ⟨j, hj⟩ := (hmem p).mp ⟨i, hp⟩
      exact h.hash_key j p payload hj (hpay ▸ hpl)
    · intro i j p q pl pl' hp hq hpl hpl' hkey
      obtain ⟨i', hp'⟩ := (hmem p).mp ⟨i, hp⟩
      obtain ⟨j', hq'⟩ := (hmem q).mp ⟨j, hq⟩
      exact h.key_inj i' j' p q pl pl' hp' hq' (hpay ▸ hpl) (hpay ▸ hpl') hkey
    · rw [hsame.count_eq, ← hpool, Buckets.length_members_eq h.toBuckets hB hmem, h.pool_length]
      exact h.count_eq
  refine ⟨s', chain', ?_, hwf, hsame, hmem⟩
  -- the assertion that the capacity has changed
  have hne : s.map.capacity ≠ 2 * s.map.capacity := by
    have htwo := Nat.two_pow_pos k
    omega
  simp only [hashMapRehash, capacity_hashMapGrow, ne_eq, hne, not_false_eq_true, cAssert_true,
    Option.pure_def, Option.bind_eq_bind, Option.bind_some, hrun, hashMapLint_spec hwf]

end CUtils
