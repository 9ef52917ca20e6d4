import CUtils.Spec.HashMapCorrect

/-!
# Iterating over a hash map

An iterator holds the index of the next bucket and the rest of the chain of the bucket
before it.  `ItAt` says which items are still in front of it, and `hashMapItNext_end` and
`hashMapItNext_yields` what one call does.

- `hashMapIt_visits_all`: without changes in between, the iterator returns every binding
  once and then -1 forever.
- `hashMapFind_null_spec`: what a search by hash alone does.
-/

namespace CUtils

open StepSystem

variable {V : Type}

/-- The items of the buckets from `pos` on. -/
def bucketsFrom (chain : Nat → List Ptr) (pos capacity : Nat) : List Ptr :=
  (List.range' pos (capacity - pos)).flatMap chain

/-- Past the last bucket there are no items. -/
theorem bucketsFrom_of_le (chain : Nat → List Ptr) {pos capacity : Nat} (h : capacity ≤ pos) :
    bucketsFrom chain pos capacity = [] := by
  have hzero : capacity - pos = 0 := by omega
  rw [bucketsFrom, hzero]
  rfl

theorem bucketsFrom_succ (chain : Nat → List Ptr) {pos capacity : Nat} (h : pos < capacity) :
    bucketsFrom chain pos capacity = chain pos ++ bucketsFrom chain (pos + 1) capacity := by
  have hsucc : capacity - pos = (capacity - (pos + 1)) + 1 := by omega
  rw [bucketsFrom, hsucc, List.range'_succ, List.flatMap_cons]
  rfl

theorem bucketsFrom_zero (chain : Nat → List Ptr) (capacity : Nat) :
    bucketsFrom chain 0 capacity = members chain capacity := by
  rw [bucketsFrom, members, Nat.sub_zero, List.range_eq_range']

/-- The cached pointer of the iterator is at the live items `cur`; in front of it are
    these and then the buckets from `pos` on. -/
structure ItAt (s : HashMapState V) (it : HashMapIterator) (cur : List Ptr) : Prop where
  seg : IsSeg (itemNext s.heap) it.item cur none
  live : ∀ p ∈ cur, (payloadAt s.heap p).isSome

/-- A fresh iterator has all buckets in front of it. -/
theorem hashMapItInit_at (s : HashMapState V) : ItAt s hashMapItInit [] :=
  ⟨rfl, fun _ hp => absurd hp List.not_mem_nil⟩

/-- The loop over empty buckets stops at the first bucket that is not empty, or past the
    last one, and reads no bucket outside of the pool. -/
theorem hashMapItSkip_spec {heap : Heap (HashMapItem V)} {pool : List (Option Ptr)}
    {chain : Nat → List Ptr} (hB : Buckets heap pool chain) {n pos : Nat}
    (hn : n = pool.length - pos) :
    ∃ pos', hashMapItSkip pool n pos = some pos' ∧ pos ≤ pos' ∧
      (∀ i, pos ≤ i → i < pos' → chain i = []) ∧
      (pool.length ≤ pos' ∨ ∃ p, pool[pos']? = some (some p)) := by
  -- `n` is the number of buckets from `pos` on, so a read is always inside of the pool
  induction n generalizing pos with
  | zero => exact ⟨pos, rfl, Nat.le_refl _, by omega, .inl (by omega)⟩
  | succ n ih =>
    have hlt : pos < pool.length := by omega
    have hget : pool[pos]? = some pool[pos] := List.getElem?_eq_getElem hlt
    cases hhead : pool[pos] with
    | some p =>
      refine ⟨pos, ?_, Nat.le_refl _, by omega, .inr ⟨p, by rw [hget, hhead]⟩⟩
      simp only [hashMapItSkip, hget, hhead, Option.bind_eq_bind, Option.bind_some,
        Option.pure_def]
    | none =>
      obtain ⟨pos', hskip, hle, hempty, hstop⟩ := ih (show n = pool.length - (pos + 1) by omega)
      refine ⟨pos', ?_, by omega, ?_, hstop⟩
      · simp only [hashMapItSkip, hget, hhead, Option.bind_eq_bind, Option.bind_some]
        exact hskip
      · intro i hi hi'
        by_cases hpos : i = pos
        · subst hpos
          have hseg := hB.seg i _ hget
          rw [hhead] at hseg
          exact hseg.eq_nil_of_none
        · exact hempty i (by omega) hi'

/-- Skipping empty buckets. -/
theorem bucketsFrom_skip {chain : Nat → List Ptr} {pos pos' capacity : Nat} (hle : pos ≤ pos')
    (hempty : ∀ i, pos ≤ i → i < pos' → chain i = []) :
    bucketsFrom chain pos capacity = bucketsFrom chain pos' capacity := by
  induction hle with
  | refl => rfl
  | step hle ih =>
    rename_i m
    rw [ih fun i hi hi' => hempty i hi (by omega)]
    by_cases hm : m < capacity
    · rw [bucketsFrom_succ chain hm, hempty m hle (by omega), List.nil_append]
    · rw [bucketsFrom_of_le chain (by omega), bucketsFrom_of_le chain (by omega)]

section Next

variable {s : HashMapState V} {chain : Nat → List Ptr} {it : HashMapIterator} {cur : List Ptr}

/-- With nothing in front of it `hash_map_it_next` returns -1, and stays there. -/
theorem hashMapItNext_end (h : HashMapWf s chain) (hit : ItAt s it cur)
    (hrest : cur ++ bucketsFrom chain it.pos s.map.capacity = []) :
    ∃ it', hashMapItNext s it = some (it', ⟨-1, none⟩) ∧ ItAt s it' [] ∧
      bucketsFrom chain it'.pos s.map.capacity = [] := by
  obtain ⟨rfl, hbuckets⟩ := List.append_eq_nil_iff.mp hrest
  have hitem : it.item = none := hit.seg
  obtain ⟨pos', hskip, hle, hempty, hstop⟩ :=
    hashMapItSkip_spec h.toBuckets (n := s.map.capacity - it.pos) (by rw [h.pool_length])
  rw [bucketsFrom_skip hle hempty] at hbuckets
  refine ⟨{ it with pos := pos' }, ?_, ⟨hitem, hit.live⟩, hbuckets⟩
  have hge : s.map.capacity ≤ pos' := by
    rcases hstop with hstop | ⟨p, hp⟩
    · rwa [h.pool_length] at hstop
    · -- a bucket head is an item in front of the iterator
      by_contra hlt
      rw [bucketsFrom_succ chain (by omega)] at hbuckets
      have hseg := h.seg pos' _ hp
      rw [(List.append_eq_nil_iff.mp hbuckets).1] at hseg
      cases hseg
  simp only [hashMapItNext, hitem, hskip, Option.bind_eq_bind, Option.bind_some, ge_iff_le, hge,
    ↓reduceIte, Option.pure_def]

/-- Otherwise it returns the first item `p` in front of it, which is the head of the
    cached chain or the head of the next bucket that is not empty. -/
theorem hashMapItNext_yields (h : HashMapWf s chain) (hit : ItAt s it cur) {p : Ptr}
    {rest : List Ptr} (hrest : cur ++ bucketsFrom chain it.pos s.map.capacity = p :: rest) :
    ∃ it' cur' payload, payloadAt s.heap p = some payload ∧
      hashMapItNext s it = some (it', ⟨0, some (payload.key, payload.val)⟩) ∧
      ItAt s it' cur' ∧ rest = cur' ++ bucketsFrom chain it'.pos s.map.capacity ∧
      ((it'.pos = it.pos ∧ cur = p :: cur') ∨
        (cur = [] ∧ it.pos < it'.pos ∧ chain (it'.pos - 1) = p :: cur' ∧
          ∀ i, it.pos ≤ i → i + 1 < it'.pos → chain i = [])) := by
  cases cur with
  | cons q cur' =>
    -- the cached chain
    obtain ⟨rfl, rfl⟩ := List.cons_eq_cons.mp hrest
    obtain ⟨item, hitem, hcell, hpay, hseg, hlive⟩ := exists_item_of_isSeg_cons hit.seg hit.live
    refine ⟨{ it with item := item.next }, cur', item.payload, hpay, ?_, ⟨hseg, hlive⟩, rfl,
      .inl ⟨rfl, rfl⟩⟩
    simp only [hashMapItNext, hitem, hcell, Option.bind_eq_bind, Option.bind_some,
      Option.pure_def, HashMapItem.payload]
  | nil =>
    -- the next bucket
    have hitem : it.item = none := hit.seg
    obtain ⟨pos', hskip, hle, hempty, hstop⟩ :=
      hashMapItSkip_spec h.toBuckets (n := s.map.capacity - it.pos) (by rw [h.pool_length])
    rw [List.nil_append, bucketsFrom_skip hle hempty] at hrest
    have hlt : pos' < s.map.capacity := by
      by_contra hge
      rw [bucketsFrom_of_le chain (by omega)] at hrest
      cases hrest
    obtain ⟨q, hq⟩ : ∃ q, s.map.pool[pos']? = some (some q) := by
      apply hstop.resolve_left
      rw [h.pool_length]
      omega
    have hseg := h.seg pos' _ hq
    cases hchain : chain pos' with
    | nil =>
      rw [hchain] at hseg
      cases hseg
    | cons x cur' =>
      have hlive := h.live pos'
      rw [hchain] at hseg hlive
      obtain ⟨item, hqx, hcell, hpay, hseg', hlive'⟩ := exists_item_of_isSeg_cons hseg hlive
      obtain rfl := Option.some.inj hqx
      rw [bucketsFrom_succ chain hlt, hchain, List.cons_append] at hrest
      obtain ⟨rfl, rfl⟩ := List.cons_eq_cons.mp hrest
      refine ⟨⟨pos' + 1, item.next⟩, cur', item.payload, hpay, ?_, ⟨hseg', hlive'⟩, rfl,
        .inr ⟨rfl, Nat.lt_succ_of_le hle, hchain,
          fun i hi hi' => hempty i hi (Nat.lt_of_succ_lt_succ hi')⟩⟩
      have hnge : ¬ pos' ≥ s.map.capacity := by omega
      simp only [hashMapItNext, hitem, hskip, Option.bind_eq_bind, Option.bind_some, hnge,
        ↓reduceIte, hq, hcell, Option.pure_def, HashMapItem.payload]

end Next

/-! ## The bindings in iteration order -/

/-- The key and the value of the item at an address. -/
def itemEntry (heap : Heap (HashMapItem V)) (p : Ptr) : Option (CString × Option V) :=
  (payloadAt heap p).map fun payload => (payload.key, payload.val)

/-- The items of a map, bucket by bucket, bind every key of the dictionary once. -/
theorem HashMapWf.entries {s : HashMapState V} {chain : Nat → List Ptr} (h : HashMapWf s chain)
    {d : Dict V} (hd : ∀ k v, d k = some v ↔ Binds s.heap chain k v) :
    ∃ entries : List (CString × Option V),
      (members chain s.map.capacity).map (itemEntry s.heap) = entries.map some ∧
      entries.length = s.map.count ∧ (entries.map Prod.fst).Nodup ∧
      ∀ k v, (k, v) ∈ entries ↔ d k = some v := by
  have hmem : ∀ p, p ∈ members chain s.map.capacity ↔ ∃ i, p ∈ chain i := by
    intro p
    rw [← h.pool_length]
    exact h.mem_members_iff
  have hlive : ∀ p ∈ members chain s.map.capacity, (itemEntry s.heap p).isSome := by
    intro p hp
    obtain ⟨i, hi⟩ := (hmem p).mp hp
    rw [itemEntry, Option.isSome_map]
    exact h.live i p hi
  obtain ⟨entries, hentries⟩ := List.exists_map_eq_map_some hlive
  refine ⟨entries, hentries, ?_, ?_, ?_⟩
  · have hlen := congrArg List.length hentries
    rw [List.length_map, List.length_map] at hlen
    rw [h.count_eq, hlen]
  · -- different items have different keys
    have hkeys : (entries.map Prod.fst).map some =
        (members chain s.map.capacity).map fun p => (payloadAt s.heap p).map Payload.key := by
      calc (entries.map Prod.fst).map some = (entries.map some).map (Option.map Prod.fst) := by
            simp only [List.map_map, Function.comp_def, Option.map_some]
        _ = _ := by
            rw [← hentries, List.map_map]
            simp only [Function.comp_def, itemEntry, Option.map_map]
    apply List.Nodup.of_map some
    rw [hkeys]
    have hnodup : (members chain s.map.capacity).Nodup := h.nodup_members _
    apply List.Nodup.map_on _ hnodup
    intro p hp q hq heq
    obtain ⟨i, hi⟩ := (hmem p).mp hp
    obtain ⟨j, hj⟩ := (hmem q).mp hq
    obtain ⟨payload, hpay⟩ := Option.isSome_iff_exists.mp (h.live i p hi)
    obtain ⟨payload', hpay'⟩ := Option.isSome_iff_exists.mp (h.live j q hj)
    rw [hpay, hpay', Option.map_some, Option.map_some] at heq
    exact h.key_inj i j p q payload payload' hi hj hpay hpay' (Option.some.inj heq)
  · intro k v
    have hsome : (k, v) ∈ entries ↔ some (k, v) ∈ entries.map some := by simp
    rw [hsome, ← hentries, hd k v]
    simp only [List.mem_map, hmem, itemEntry, Option.map_eq_some_iff, Prod.mk.injEq, Binds]
    constructor
    · rintro ⟨p, hp, payload, hpay, hkey, hval⟩
      exact ⟨p, payload, hp, hpay, hkey, hval⟩
    · rintro ⟨p, payload, hp, hpay, hkey, hval⟩
      exact ⟨p, hp, payload, hpay, hkey, hval⟩

/-! ## Iteration without changes -/

/-- An iterator over an unchanged map drains the list of the items in front of it. -/
theorem hashMapItNext_drain {s : HashMapState V} {chain : Nat → List Ptr} (h : HashMapWf s chain)
    (n : Nat) :
    ∃ it, runOut (fun it (_ : Unit) => hashMapItNext s it) hashMapItInit (List.replicate n ()) =
      some (it, ((members chain s.map.capacity).take n).map
          (fun p => (⟨0, itemEntry s.heap p⟩ : ItResult V)) ++
        List.replicate (n - (members chain s.map.capacity).length) ⟨-1, none⟩) := by
  -- the iterator is at `cur`, and `rest` is what it has not yet returned
  let R : HashMapIterator → List Ptr → Prop := fun it rest =>
    ∃ cur, ItAt s it cur ∧ rest = cur ++ bucketsFrom chain it.pos s.map.capacity
  have hsim : ∀ it rest (u : Unit), R it rest → ∃ it', hashMapItNext s it =
      some (it', (drainStep (fun p => (⟨0, itemEntry s.heap p⟩ : ItResult V)) ⟨-1, none⟩
        rest u).2) ∧
      R it' (drainStep (fun p => (⟨0, itemEntry s.heap p⟩ : ItResult V)) ⟨-1, none⟩
        rest u).1 := by
    rintro it rest u ⟨cur, hit, hrest⟩
    cases rest with
    | nil =>
      obtain ⟨it', hnext, hit', hend⟩ := hashMapItNext_end h hit hrest.symm
      exact ⟨it', hnext, [], hit', by rw [drainStep_nil, hend, List.append_nil]⟩
    | cons p rest =>
      obtain ⟨it', cur', payload, hpay, hnext, hit', hrest', _⟩ :=
        hashMapItNext_yields h hit hrest.symm
      refine ⟨it', ?_, cur', hit', hrest'⟩
      rw [hnext, drainStep_cons, itemEntry, hpay, Option.map_some]
  have hinit : R hashMapItInit (members chain s.map.capacity) :=
    ⟨[], hashMapItInit_at s, by rw [List.nil_append]; exact (bucketsFrom_zero chain _).symm⟩
  -- the results are those of draining the list of all items
  obtain ⟨it, rest, outs, hrun, hspec, _⟩ :=
    runOut_simulation_total hsim (List.replicate n ()) hinit
  rw [runOut_drainStep] at hspec
  obtain ⟨_, rfl⟩ := Prod.mk.inj (Option.some.inj hspec)
  exact ⟨it, hrun⟩

/-- Every map reached from `hash_map_init`, iterated without changes: `n` calls of
    `hash_map_it_next` read no bucket outside of the pool, return 0 with the next binding
    as long as there is one, which yields each binding of the map once, and -1 from then
    on. -/
theorem hashMapIt_visits_all (dense : DensityTest) (alloc : Allocator (HashMapItem V))
    (ops : List (HashMapOp V)) :
    ∃ s outs, runOut (hashMapStep dense alloc) hashMapInit ops = some (s, outs) ∧
      s.map.pool.length = s.map.capacity ∧
      ∃ entries : List (CString × Option V), entries.length = s.map.count ∧
        (entries.map Prod.fst).Nodup ∧
        (∀ k v, (k, v) ∈ entries ↔ lastBinding k ops = some v) ∧
        ∀ n, ∃ it, runOut (fun it (_ : Unit) => hashMapItNext s it) hashMapItInit
            (List.replicate n ()) =
          some (it, (entries.take n).map (fun e => ⟨0, some e⟩) ++
            List.replicate (n - s.map.count) ⟨-1, none⟩) := by
  obtain ⟨s, d, outs, hrun, hspec, ⟨chain, hwf, hd⟩, _⟩ :=
    hashMap_run_spec dense alloc hashMapInit_repr ops
  obtain rfl := runOut_dictStep_eq_lastBinding ops hspec
  obtain ⟨entries, hmap, hlen, hnodup, hmem⟩ := hwf.entries hd
  refine ⟨s, outs, hrun, hwf.pool_length, entries, hlen, hnodup, hmem, ?_⟩
  intro n
  obtain ⟨it, hit⟩ := hashMapItNext_drain hwf n
  refine ⟨it, ?_⟩
  -- the items that were returned are the entries, in this order
  have htake : ((members chain s.map.capacity).take n).map (itemEntry s.heap) =
      (entries.take n).map some := by
    rw [List.map_take, hmap, List.map_take]
  have hresults : ((members chain s.map.capacity).take n).map
      (fun p => (⟨0, itemEntry s.heap p⟩ : ItResult V)) =
      (entries.take n).map fun e => ⟨0, some e⟩ := by
    have hwrap := congrArg (List.map fun e => (⟨0, e⟩ : ItResult V)) htake
    simpa only [List.map_map, Function.comp_def] using hwrap
  rw [hit, hresults, hwf.count_eq]

/-! ## Lookup by hash -/

/-- The item at `p` has the hash `hash`. -/
def HasHash (heap : Heap (HashMapItem V)) (hash : UInt32) (p : Ptr) : Prop :=
  ∃ payload, payloadAt heap p = some payload ∧ payload.hash = hash

/-- Without a key the search faults at the first item with the hash, and finds nothing
    when there is none. -/
theorem hashMapFind_null_spec {heap : Heap (HashMapItem V)} (hash : UInt32) {xs : List Ptr}
    {fuel : Nat} {head : Option Ptr} (prev : Option Ptr)
    (hseg : IsSeg (itemNext heap) head xs none) (hlive : ∀ p ∈ xs, (payloadAt heap p).isSome)
    (hfuel : xs.length < fuel) :
    ((∃ p ∈ xs, HasHash heap hash p) ∧ hashMapFind heap hash none fuel prev head = none) ∨
    ((∀ p ∈ xs, ¬ HasHash heap hash p) ∧
      hashMapFind heap hash none fuel prev head = some (xs.getLast?.or prev, none)) := by
  induction xs generalizing fuel head prev with
  | nil =>
    obtain ⟨n, rfl⟩ : ∃ n, fuel = n + 1 := ⟨fuel - 1, by simp at hfuel; omega⟩
    obtain rfl := hseg
    exact .inr ⟨fun p hp => absurd hp List.not_mem_nil, rfl⟩
  | cons p xs ih =>
    obtain ⟨n, rfl⟩ : ∃ n, fuel = n + 1 := ⟨fuel - 1, by simp at hfuel; omega⟩
    obtain ⟨item, rfl, hitem, hpay, hrest, hlive'⟩ := exists_item_of_isSeg_cons hseg hlive
    by_cases hhash : item.hash = hash
    · -- `strcmp` gets the NULL key
      refine .inl ⟨⟨p, List.mem_cons_self, item.payload, hpay, hhash⟩, ?_⟩
      simp only [hashMapFind, hitem, Option.bind_eq_bind, Option.bind_some, hhash, ↓reduceIte,
        strcmp, Option.map_none, Option.bind_none]
    · have hstep : hashMapFind heap hash none (n + 1) prev (some p) =
          hashMapFind heap hash none n (some p) item.next := by
        simp only [hashMapFind, hitem, Option.bind_eq_bind, Option.bind_some, hhash, ↓reduceIte]
      rw [hstep]
      rcases ih (some p) hrest hlive' (by simpa using hfuel) with
        ⟨⟨q, hq, hqhash⟩, hrun⟩ | ⟨hnone, hrun⟩
      · exact .inl ⟨⟨q, List.mem_cons_of_mem p hq, hqhash⟩, hrun⟩
      · refine .inr ⟨?_, by rw [hrun, List.getLast?_cons_or]⟩
        intro q hq
        rcases List.mem_cons.mp hq with rfl | hq
        · rintro ⟨payload, hpay', hhash'⟩
          rw [hpay] at hpay'
          obtain rfl := Option.some.inj hpay'
          exact hhash hhash'
        · exact hnone q hq

/-- What the parameter `key_hash` promises of a map that stores `d`: a NULL key with the
    hash of exactly one stored key stands for that key, with the hash of no stored key
    for a missing one, and no lookup faults. -/
structure LookupByHash (s : HashMapState V) (d : Dict V) (hash : UInt32) : Prop where
  found : ∀ k v, d k = some v → hash32Djb2 k (-1) = hash →
    (∀ k' v', d k' = some v' → hash32Djb2 k' (-1) = hash → k' = k) →
    hashMapGet s none hash = some v ∧
      ∃ s', hashMapDelete s none hash = some (s', v) ∧ HashMapRepr s' (Function.update d k none)
  missing : (∀ k v, d k = some v → hash32Djb2 k (-1) ≠ hash) →
    hashMapGet s none hash = some none ∧ hashMapDelete s none hash = some (s, none)
  no_fault : (hashMapGet s none hash).isSome ∧ (hashMapDelete s none hash).isSome

/-- A lookup by hash faults exactly when some stored key has the hash. -/
theorem HashMapRepr.get_null {s : HashMapState V} {d : Dict V} (h : HashMapRepr s d)
    (hash : UInt32) :
    ((∃ k v, d k = some v ∧ hash32Djb2 k (-1) = hash) ∧ hashMapGet s none hash = none ∧
        hashMapDelete s none hash = none) ∨
    ((∀ k v, d k = some v → hash32Djb2 k (-1) ≠ hash) ∧ hashMapGet s none hash = some none ∧
        hashMapDelete s none hash = some (s, none)) := by
  obtain ⟨chain, hwf, hd⟩ := h
  obtain ⟨k, _, hk⟩ := hwf.capacity_pow
  have hpos : getPoolPos s.map hash < s.map.pool.length := by
    rw [hwf.pool_length]
    exact getPoolPos_lt hk _
  have hhead := List.getElem?_eq_getElem hpos
  -- the search reaches `strcmp` exactly at an item with the hash
  rcases hashMapFind_null_spec hash none (hwf.seg _ _ hhead) (hwf.live _)
    (hwf.length_lt_chainFuel _) with ⟨⟨p, hp, payload, hpay, hhash⟩, hrun⟩ | ⟨hnone, hrun⟩
  · refine .inl ⟨⟨payload.key, payload.val, ?_, ?_⟩, ?_, ?_⟩
    · exact (hd _ _).mpr ⟨p, payload, ⟨_, hp⟩, hpay, rfl, rfl⟩
    · rw [← hwf.hash_key _ p payload hp hpay, hhash]
    · simp only [hashMapGet, hhead, hrun, Option.bind_eq_bind, Option.bind_some, Option.bind_none]
    · simp only [hashMapDelete, hhead, hrun, Option.bind_eq_bind, Option.bind_some,
        Option.bind_none]
  · refine .inr ⟨?_, ?_, ?_⟩
    · rintro k v hkv rfl
      obtain ⟨p, payload, ⟨i, hp⟩, hpay, rfl, _⟩ := (hd k v).mp hkv
      obtain ⟨hbucket, _⟩ := hwf.mem_bucket hp hpay
      exact hnone p hbucket ⟨payload, hpay, hwf.hash_key i p payload hp hpay⟩
    · simp only [hashMapGet, hhead, hrun, Option.bind_eq_bind, Option.bind_some, Option.pure_def]
    · simp only [hashMapDelete, hhead, hrun, Option.bind_eq_bind, Option.bind_some,
        Option.pure_def]

/-- In every map reached from `hash_map_init` a lookup by hash does what it promises
    exactly for the hashes that no stored key has: where a stored key has the hash,
    `strcmp` gets the NULL key. -/
theorem hashMap_lookupByHash_iff (dense : DensityTest) (alloc : Allocator (HashMapItem V))
    (ops : List (HashMapOp V)) :
    ∃ s outs, runOut (hashMapStep dense alloc) hashMapInit ops = some (s, outs) ∧
      ∀ hash, LookupByHash s (fun key => lastBinding key ops) hash ↔
        ∀ k v, lastBinding k ops = some v → hash32Djb2 k (-1) ≠ hash := by
  obtain ⟨s, d, outs, hrun, hspec, hrepr, _⟩ := hashMap_run_spec dense alloc hashMapInit_repr ops
  obtain rfl := runOut_dictStep_eq_lastBinding ops hspec
  refine ⟨s, outs, hrun, ?_⟩
  intro hash
  rcases hrepr.get_null hash with ⟨⟨k, v, hkv, hhash⟩, hget, _⟩ | ⟨hnone, hget, hdelete⟩
  · constructor
    · intro hspec
      have hsome := hspec.no_fault.1
      rw [hget] at hsome
      cases hsome
    · intro hno
      exact absurd hhash (hno k v hkv)
  · constructor
    · intro _
      exact hnone
    · intro _
      refine ⟨?_, fun _ => ⟨hget, hdelete⟩, by rw [hget]; rfl, by rw [hdelete]; rfl⟩
      intro k v hkv hhash _
      exact absurd hhash (hnone k v hkv)

/-- One key is stored, and looking it up by its hash faults. -/
theorem hashMap_lookupByHash_faults :
    ∃ s outs, runOut (hashMapStep mapDensityExceeds (Allocator.bump (HashMapItem Nat)))
        hashMapInit [.insert ⟨[97], by decide⟩ (some 1)] = some (s, outs) ∧
      outs = [.hash 177670] ∧ hashMapGet s none 177670 = none ∧
      ¬LookupByHash s (fun key => lastBinding key [.insert ⟨[97], by decide⟩ (some 1)]) 177670 := by
  refine ⟨_, _, rfl, by decide, by decide, ?_⟩
  intro h
  have hsome := h.no_fault.1
  revert hsome
  decide

end CUtils
