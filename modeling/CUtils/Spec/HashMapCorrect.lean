import CUtils.ForStd.StepSystem
import CUtils.Spec.HashMapOps

/-!
# The hash map is a dictionary

Runs of the hash map from `hash_map_init`, over any sequence of inserts, gets and
deletes.

- `hashMap_refines_dict`: every run succeeds and returns what the dictionary
  returns, whatever the density test decides and whichever addresses `malloc`
  returns.
- `hashMap_reachable_shape`: the shape of the chains, the item count and the load
  of every reachable map.
-/

namespace CUtils

open StepSystem

variable {V : Type}

/-- A call of the map's interface. -/
inductive HashMapOp (V : Type) where
  | insert (key : CString) (val : Option V)
  | get (key : CString) (keyHash : UInt32)
  | delete (key : CString) (keyHash : UInt32)

/-- What a call returns. -/
inductive HashMapOut (V : Type) where
  | hash (hash : UInt32)
  | val (val : Option V)
deriving DecidableEq

/-- Perform a call on the map. -/
def hashMapStep (dense : DensityTest) (alloc : Allocator (HashMapItem V)) (s : HashMapState V) :
    HashMapOp V → Option (HashMapState V × HashMapOut V)
  | .insert key val => (hashMapInsert dense alloc s key val).map fun r => (r.1, .hash r.2)
  | .get key keyHash => (hashMapGet s (some key) keyHash).map fun r => (s, .val r)
  | .delete key keyHash => (hashMapDelete s (some key) keyHash).map fun r => (r.1, .val r.2)

/-- Perform a call on a dictionary. -/
def dictStep (d : Dict V) : HashMapOp V → Dict V × HashMapOut V
  | .insert key val => (Function.update d key (some val), .hash (hash32Djb2 key (-1)))
  | .get key _ => (d, .val (d key).join)
  | .delete key _ => (Function.update d key none, .val (d key).join)

/-- The value of the last insert of `key` in `ops` that no later delete of `key`
    undoes. -/
def lastBinding (key : CString) (ops : List (HashMapOp V)) : Option (Option V) :=
  ops.foldl (fun binding op =>
    match op with
    | .insert k val => if k = key then some val else binding
    | .get _ _ => binding
    | .delete k _ => if k = key then none else binding) none

/-! ## One call -/

/-- The load bound: the density test, read exactly, lets the count exceed `0.8` of the
    capacity by one item at most. -/
def LoadBounded (s : HashMapState V) : Prop := 5 * s.map.count ≤ 4 * s.map.capacity + 5

/-- Every call acts on the map as on the dictionary it represents. -/
theorem hashMapStep_spec (dense : DensityTest) (alloc : Allocator (HashMapItem V))
    {s : HashMapState V} {d : Dict V} (h : HashMapRepr s d) (op : HashMapOp V) :
    ∃ s', hashMapStep dense alloc s op = some (s', (dictStep d op).2) ∧
      HashMapRepr s' (dictStep d op).1 ∧ s.map.capacity ≤ s'.map.capacity ∧
      (dense = mapDensityExceeds → LoadBounded s → LoadBounded s') := by
  -- only an insert can rehash
  cases op with
  | insert key val =>
    obtain ⟨s', hrun, hrepr, hcap, hcount⟩ := hashMapInsert_spec dense alloc h key val
    refine ⟨s', by simp only [hashMapStep, hrun, Option.map_some, dictStep], hrepr, ?_, ?_⟩
    · rw [hcap]
      split <;> omega
    · rintro rfl hload
      have hpos : 32 ≤ s.map.capacity := by
        obtain ⟨_, hwf, _⟩ := h
        exact hwf.capacity_ge
      simp only [LoadBounded] at hload ⊢
      by_cases hdense : 5 * s.map.count > 4 * s.map.capacity
      · rw [if_pos (by simpa [mapDensityExceeds] using hdense)] at hcap
        omega
      · rw [if_neg (by simpa [mapDensityExceeds] using hdense)] at hcap
        omega
  | get key keyHash =>
    refine ⟨s, ?_, h, Nat.le_refl _, fun _ hload => hload⟩
    simp only [hashMapStep, hashMapGet_spec h, Option.map_some, dictStep]
  | delete key keyHash =>
    obtain ⟨s', hrun, hrepr, hcap, hcount⟩ := hashMapDelete_spec h key keyHash
    refine ⟨s', by simp only [hashMapStep, hrun, Option.map_some, dictStep], hrepr,
      Nat.le_of_eq hcap.symm, ?_⟩
    intro _ hload
    simp only [LoadBounded] at hload ⊢
    omega

theorem toNat_roundUpPow2_base : (roundUpPow2 32).toNat = 2 ^ 5 := by decide

/-- The initial map has empty chains. -/
theorem hashMapInit_wf : HashMapWf (hashMapInit : HashMapState V) fun _ => [] := by
  refine ⟨⟨?_, fun _ _ => rfl, ?_, ?_⟩, ?_, ⟨5, Nat.le_refl _, toNat_roundUpPow2_base⟩,
    ?_, ?_, ?_, ?_⟩
  · intro i head hhead
    simp only [hashMapInit, List.getElem?_replicate] at hhead
    split at hhead
    · exact (Option.some.inj hhead).symm
    · exact nomatch hhead
  · exact fun _ _ hp => absurd hp List.not_mem_nil
  · exact fun _ _ _ hp => absurd hp List.not_mem_nil
  · exact List.length_replicate
  · exact fun _ _ hp => absurd hp List.not_mem_nil
  · exact fun _ _ _ hp => absurd hp List.not_mem_nil
  · exact fun _ _ _ _ _ _ hp => absurd hp List.not_mem_nil
  · simp [hashMapInit, members]

/-- The initial map represents the empty dictionary. -/
theorem hashMapInit_repr : HashMapRepr (hashMapInit : HashMapState V) fun _ => none := by
  refine ⟨_, hashMapInit_wf, fun k v => ?_⟩
  constructor
  · intro hv
    exact nomatch hv
  · rintro ⟨p, _, ⟨_, hp⟩, _⟩
    exact absurd hp List.not_mem_nil

/-! ## Runs -/

/-- The run lemma: what a run of the map has in common with the run of the
    dictionary. -/
theorem hashMap_run_spec (dense : DensityTest) (alloc : Allocator (HashMapItem V))
    {s : HashMapState V} {d : Dict V} (h : HashMapRepr s d) (ops : List (HashMapOp V)) :
    ∃ s' d' outs, runOut (hashMapStep dense alloc) s ops = some (s', outs) ∧
      runOut (fun d op => some (dictStep d op)) d ops = some (d', outs) ∧
      HashMapRepr s' d' ∧ s.map.capacity ≤ s'.map.capacity ∧
      (dense = mapDensityExceeds → LoadBounded s → LoadBounded s') := by
  let R : HashMapState V → Dict V → Prop := fun s' d' =>
    HashMapRepr s' d' ∧ s.map.capacity ≤ s'.map.capacity ∧
      (dense = mapDensityExceeds → LoadBounded s → LoadBounded s')
  have hsim : ∀ t e op, R t e →
      ∃ t', hashMapStep dense alloc t op = some (t', (dictStep e op).2) ∧
        R t' (dictStep e op).1 := by
    rintro t e op ⟨hrepr, hcap, hload⟩
    obtain ⟨t', hstep, hrepr', hcap', hload'⟩ := hashMapStep_spec dense alloc hrepr op
    exact ⟨t', hstep, hrepr', Nat.le_trans hcap hcap', fun hd hs => hload' hd (hload hd hs)⟩
  exact runOut_simulation_total (R := R) hsim ops ⟨h, Nat.le_refl _, fun _ hs => hs⟩

/-- The dictionary after a run binds every key to its last binding. -/
theorem runOut_dictStep_eq_lastBinding (ops : List (HashMapOp V)) {d : Dict V}
    {outs : List (HashMapOut V)}
    (h : runOut (fun d op => some (dictStep d op)) (fun _ => none) ops = some (d, outs)) :
    d = fun key => lastBinding key ops := by
  -- the fold from any dictionary, one key at a time
  have hgen : ∀ (ops : List (HashMapOp V)) (d₀ : Dict V) outs,
      runOut (fun d op => some (dictStep d op)) d₀ ops = some (d, outs) →
      d = fun key => ops.foldl (fun binding op =>
        match op with
        | .insert k val => if k = key then some val else binding
        | .get _ _ => binding
        | .delete k _ => if k = key then none else binding) (d₀ key) := by
    intro ops
    induction ops with
    | nil =>
      intro d₀ outs h
      simp only [runOut, Option.some.injEq, Prod.mk.injEq] at h
      exact h.1.symm
    | cons op ops ih =>
      intro d₀ outs h
      simp only [runOut, Option.bind_some, Option.map_eq_some_iff, Prod.mk.injEq] at h
      obtain ⟨⟨d', outs'⟩, hrest, rfl, _⟩ := h
      rw [ih _ _ hrest]
      funext key
      cases op with
      | insert k val => simp only [dictStep, List.foldl_cons, Function.update_apply, eq_comm]
      | get k kh => rfl
      | delete k kh => simp only [dictStep, List.foldl_cons, Function.update_apply, eq_comm]
  exact hgen ops _ outs h

/-- Every run of the map from `hash_map_init` succeeds, returns exactly what the
    dictionary returns call by call, and afterwards `hash_map_get` of any key
    returns the value of its last insert that was not followed by a delete. -/
theorem hashMap_refines_dict (dense : DensityTest) (alloc : Allocator (HashMapItem V))
    (ops : List (HashMapOp V)) :
    ∃ s outs, runOut (hashMapStep dense alloc) hashMapInit ops = some (s, outs) ∧
      runOut (fun d op => some (dictStep d op)) (fun _ => none) ops =
        some (fun key => lastBinding key ops, outs) ∧
      ∀ key keyHash, hashMapGet s (some key) keyHash = some (lastBinding key ops).join := by
  obtain ⟨s, d, outs, hrun, hspec, hrepr, _, _⟩ :=
    hashMap_run_spec dense alloc hashMapInit_repr ops
  have hd := runOut_dictStep_eq_lastBinding ops hspec
  refine ⟨s, outs, hrun, hd ▸ hspec, fun key keyHash => ?_⟩
  rw [hashMapGet_spec hrepr, hd]

/-- Two keys with the same 32-bit hash do not disturb each other. -/
example :
    let k₁ : CString := ⟨[97, 98], by decide⟩
    let k₂ : CString := ⟨[98, 65], by decide⟩
    hash32Djb2 k₁ (-1) = hash32Djb2 k₂ (-1) ∧
    (runOut (hashMapStep mapDensityExceeds (Allocator.bump (HashMapItem Nat))) hashMapInit
      [.insert k₁ (some 1), .insert k₂ (some 2), .delete k₁ 0, .get k₁ 0, .get k₂ 0]).map Prod.snd =
    some [.hash 5863208, .hash 5863208, .val (some 1), .val none, .val (some 2)] := by
  decide

/-! ## The shape of reachable maps -/

/-- The pool of a map and its chains, in the terms of the C structures. -/
structure HashMapShape (s : HashMapState V) (chain : Nat → List Ptr) : Prop where
  /-- the capacity is a power of two, and at least the initial one -/
  capacity_pow : ∃ k, s.map.capacity = 2 ^ k
  capacity_ge : 32 ≤ s.map.capacity
  /-- following `next` from every bucket head ends at NULL without visiting an item twice -/
  acyclic : ∀ i, i < s.map.capacity → ∃ head, s.map.pool[i]? = some head ∧
    IsSeg (itemNext s.heap) head (chain i) none ∧ (chain i).Nodup
  /-- every item is live, stores the hash of its key, and is in the bucket of its hash -/
  placed : ∀ i, i < s.map.capacity → ∀ p ∈ chain i, ∃ item, s.heap.cells p = some item ∧
    item.hash = hash32Djb2 item.key (-1) ∧ item.hash.toNat &&& (s.map.capacity - 1) = i
  /-- different items have different keys -/
  keys_distinct : ∀ i j p q item item', i < s.map.capacity → j < s.map.capacity →
    p ∈ chain i → q ∈ chain j → s.heap.cells p = some item → s.heap.cells q = some item' →
    item.key = item'.key → p = q ∧ i = j
  /-- the item count -/
  count_eq : s.map.count = (members chain s.map.capacity).length

/-- A well formed map has the shape that the C structures promise. -/
theorem HashMapWf.shape {s : HashMapState V} {chain : Nat → List Ptr} (h : HashMapWf s chain) :
    HashMapShape s chain := by
  obtain ⟨k, hk5, hk⟩ := h.capacity_pow
  refine ⟨⟨k, hk⟩, h.capacity_ge, ?_, ?_, ?_, h.count_eq⟩
  · intro i hi
    rw [← h.pool_length] at hi
    have hhead := List.getElem?_eq_getElem hi
    exact ⟨_, hhead, h.seg i _ hhead, h.nodup_chain i⟩
  · intro i _ p hp
    obtain ⟨item, hitem⟩ := Option.isSome_iff_exists.mp
      (isSome_cells_of_payloadAt (h.live i p hp))
    have hpos := h.placed i p hp
    rw [posAt_of_cells hitem] at hpos
    exact ⟨item, hitem, h.hash_key i p item.payload hp (payloadAt_of_cells hitem),
      Option.some.inj hpos⟩
  · intro i j p q item item' _ _ hp hq hitem hitem' hkey
    have hpq : p = q := h.key_inj i j p q _ _ hp hq (payloadAt_of_cells hitem)
      (payloadAt_of_cells hitem') hkey
    exact ⟨hpq, h.disjoint i j p hp (hpq ▸ hq)⟩

/-- Every map reached from `hash_map_init`, with the density test read exactly: the
    run never faults (so no assertion of `hash_map_lint` fires), the chains have the
    shape above, the load is bounded, and no continuation lowers the capacity. -/
theorem hashMap_reachable_shape (alloc : Allocator (HashMapItem V)) (ops : List (HashMapOp V)) :
    ∃ s outs, runOut (hashMapStep mapDensityExceeds alloc) hashMapInit ops = some (s, outs) ∧
      (∃ chain, HashMapShape s chain) ∧ hashMapLint s = some () ∧
      5 * s.map.count ≤ 4 * s.map.capacity + 5 ∧
      ∀ ops' s' outs', runOut (hashMapStep mapDensityExceeds alloc) s ops' = some (s', outs') →
        s.map.capacity ≤ s'.map.capacity := by
  obtain ⟨s, d, outs, hrun, _, hrepr, _, hload⟩ :=
    hashMap_run_spec mapDensityExceeds alloc hashMapInit_repr ops
  obtain ⟨chain, hwf, _⟩ := id hrepr
  refine ⟨s, outs, hrun, ⟨chain, hwf.shape⟩, hashMapLint_spec hwf, hload rfl ?_, ?_⟩
  · simp [LoadBounded, hashMapInit]
  · intro ops' s' outs' hrun'
    obtain ⟨s'', _, _, hrun'', _, _, hcap, _⟩ :=
      hashMap_run_spec mapDensityExceeds alloc hrepr ops'
    rw [hrun'] at hrun''
    obtain ⟨rfl, _⟩ := Prod.mk.inj (Option.some.inj hrun'')
    exact hcap

end CUtils
