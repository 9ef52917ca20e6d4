import CUtils.Spec.HashMapRehash

/-!
# Insert, get and delete

The effect of every operation of the hash map on the dictionary it represents.

- `hashMapFind_spec`: the search loop finds the item with a given hash and key.
- `hashMapInsert_spec`, `hashMapGet_spec`, `hashMapDelete_spec`: the operations
  succeed on a map that represents `d` and act on `d` as update, lookup and erase.
-/

namespace CUtils

variable {V : Type}

/-- What a map is for: a partial function from keys to value pointers. -/
abbrev Dict (V : Type) := CString → Option (Option V)

/-- A well formed map whose items are exactly the bindings of `d`. -/
def HashMapRepr (s : HashMapState V) (d : Dict V) : Prop :=
  ∃ chain, HashMapWf s chain ∧ ∀ k v, d k = some v ↔ ∃ p payload,
    (∃ i, p ∈ chain i) ∧ payloadAt s.heap p = some payload ∧ payload.key = k ∧ payload.val = v

/-! ## Bindings -/

/-- Some item of the chains binds the key to the value. -/
def Binds (heap : Heap (HashMapItem V)) (chain : Nat → List Ptr) (k : CString) (v : Option V) :
    Prop :=
  ∃ p payload, (∃ i, p ∈ chain i) ∧ payloadAt heap p = some payload ∧ payload.key = k ∧
    payload.val = v

/-- The bindings of a key depend on the items with that key only. -/
theorem binds_congr {heap heap' : Heap (HashMapItem V)} {chain chain' : Nat → List Ptr}
    {k : CString} (h : ∀ p payload, payload.key = k →
      ((∃ i, p ∈ chain' i) ∧ payloadAt heap' p = some payload ↔
        (∃ i, p ∈ chain i) ∧ payloadAt heap p = some payload)) (v : Option V) :
    Binds heap' chain' k v ↔ Binds heap chain k v := by
  constructor
  · rintro ⟨p, payload, hp, hpay, hkey, hval⟩
    obtain ⟨hold, hpay⟩ := (h p payload hkey).mp ⟨hp, hpay⟩
    exact ⟨p, payload, hold, hpay, hkey, hval⟩
  · rintro ⟨p, payload, hp, hpay, hkey, hval⟩
    obtain ⟨hnew, hpay⟩ := (h p payload hkey).mpr ⟨hp, hpay⟩
    exact ⟨p, payload, hnew, hpay, hkey, hval⟩

/-- Binding a key changes the dictionary at that key. -/
theorem dict_bind {d : Dict V} {B B' : CString → Option V → Prop}
    (hd : ∀ k v, d k = some v ↔ B k v) {key : CString} {val : Option V}
    (hself : ∀ v, B' key v ↔ v = val) (hother : ∀ k, k ≠ key → ∀ v, B' k v ↔ B k v)
    (k : CString) (v : Option V) : Function.update d key (some val) k = some v ↔ B' k v := by
  by_cases hk : k = key
  · rw [hk, Function.update_self, hself, Option.some.injEq]
    exact eq_comm
  · rw [Function.update_of_ne hk, hd, hother k hk]

/-- Removing a binding changes the dictionary at its key. -/
theorem dict_unbind {d : Dict V} {B B' : CString → Option V → Prop}
    (hd : ∀ k v, d k = some v ↔ B k v) {key : CString} (hself : ∀ v, ¬ B' key v)
    (hother : ∀ k, k ≠ key → ∀ v, B' k v ↔ B k v) (k : CString) (v : Option V) :
    Function.update d key none k = some v ↔ B' k v := by
  by_cases hk : k = key
  · rw [hk, Function.update_self]
    constructor
    · intro hv
      cases hv
    · exact fun hv => absurd hv (hself v)
  · rw [Function.update_of_ne hk, hd, hother k hk]

/-! ## The search loop -/

/-- The item at `p` has the hash and the key that are searched for. -/
def Matches (heap : Heap (HashMapItem V)) (hash : UInt32) (key : CString) (p : Ptr) : Prop :=
  ∃ payload, payloadAt heap p = some payload ∧ payload.hash = hash ∧ payload.key = key

/-- The search stops at the first match, with the item before it, or runs to the end
    of the chain. -/
theorem hashMapFind_spec {heap : Heap (HashMapItem V)} (hash : UInt32) (key : CString)
    {xs : List Ptr} {fuel : Nat} {head : Option Ptr} (prev : Option Ptr)
    (hseg : IsSeg (itemNext heap) head xs none) (hlive : ∀ p ∈ xs, (payloadAt heap p).isSome)
    (hfuel : xs.length < fuel) :
    (∃ pre p post, xs = pre ++ p :: post ∧ Matches heap hash key p ∧
      hashMapFind heap hash (some key) fuel prev head = some (pre.getLast?.or prev, some p)) ∨
    ((∀ p ∈ xs, ¬ Matches heap hash key p) ∧
      hashMapFind heap hash (some key) fuel prev head = some (xs.getLast?.or prev, none)) := by
  induction xs generalizing fuel head prev with
  | nil =>
    obtain ⟨n, rfl⟩ : ∃ n, fuel = n + 1 := ⟨fuel - 1, by simp at hfuel; omega⟩
    obtain rfl := hseg
    exact .inr ⟨fun p hp => absurd hp List.not_mem_nil, rfl⟩
  | cons p xs ih =>
    obtain ⟨n, rfl⟩ : ∃ n, fuel = n + 1 := ⟨fuel - 1, by simp at hfuel; omega⟩
    obtain ⟨item, rfl, hitem, hpay, hrest, hlive'⟩ := exists_item_of_isSeg_cons hseg hlive
    by_cases hmatch : item.hash = hash ∧ item.key = key
    · -- the loop returns at this item
      have hcmp : strcmp item.key (some key) = some 0 :=
        (strcmp_some_eq_zero_iff _ _).mpr hmatch.2
      refine .inl ⟨[], p, xs, rfl, ⟨item.payload, hpay, hmatch⟩, ?_⟩
      simp only [hashMapFind, hitem, Option.bind_eq_bind, Option.bind_some, hmatch.1, hcmp,
        ↓reduceIte, Option.pure_def, List.getLast?_nil, Option.none_or]
    · have hno : ¬ Matches heap hash key p := by
        rintro ⟨payload, hpl, hhash, hkey⟩
        rw [hpay] at hpl
        obtain rfl := Option.some.inj hpl
        exact hmatch ⟨hhash, hkey⟩
      -- the keys are only compared when the hashes agree
      have hstep : hashMapFind heap hash (some key) (n + 1) prev (some p) =
          hashMapFind heap hash (some key) n (some p) item.next := by
        by_cases hhash : item.hash = hash
        · have hkey : item.key ≠ key := fun hk => hmatch ⟨hhash, hk⟩
          obtain ⟨c, hc⟩ : ∃ c, strcmp item.key (some key) = some c := ⟨_, rfl⟩
          have hc0 : c ≠ 0 := by
            rintro rfl
            exact hkey ((strcmp_some_eq_zero_iff _ _).mp hc)
          simp only [hashMapFind, hitem, Option.bind_eq_bind, Option.bind_some, hhash, hc,
            ↓reduceIte, hc0]
        · simp only [hashMapFind, hitem, Option.bind_eq_bind, Option.bind_some, hhash,
            ↓reduceIte]
      rcases ih (some p) hrest hlive' (by simpa using hfuel) with
        ⟨pre, q, post, rfl, hq, hrun⟩ | ⟨hnone, hrun⟩
      · refine .inl ⟨p :: pre, q, post, rfl, hq, ?_⟩
        rw [hstep, hrun, List.getLast?_cons_or]
      · refine .inr ⟨?_, ?_⟩
        · intro q hq
          rcases List.mem_cons.mp hq with rfl | hq
          · exact hno
          · exact hnone q hq
        · rw [hstep, hrun, List.getLast?_cons_or]

/-- In a well formed map the items with a given key are found in the bucket of its
    hash. -/
theorem HashMapWf.mem_bucket {s : HashMapState V} {chain : Nat → List Ptr}
    (h : HashMapWf s chain) {p : Ptr} {payload : Payload V} {i : Nat} (hp : p ∈ chain i)
    (hpay : payloadAt s.heap p = some payload) :
    p ∈ chain (getPoolPos s.map (hash32Djb2 payload.key (-1))) ∧
      Matches s.heap (hash32Djb2 payload.key (-1)) payload.key p := by
  have hhash := h.hash_key i p payload hp hpay
  have hpos := h.placed i p hp
  simp only [posAt, hpay, Option.map_some, Option.some.injEq, hhash] at hpos
  exact ⟨hpos ▸ hp, payload, hpay, hhash, rfl⟩

/-- The search of a key in a well formed map. -/
theorem HashMapWf.find {s : HashMapState V} {chain : Nat → List Ptr} (h : HashMapWf s chain)
    (key : CString) (prev : Option Ptr) :
    ∃ pos head, pos = getPoolPos s.map (hash32Djb2 key (-1)) ∧ pos < s.map.pool.length ∧
      s.map.pool[pos]? = some head ∧ head = (chain pos).head? ∧
      ((∃ pre p post payload, chain pos = pre ++ p :: post ∧
          payloadAt s.heap p = some payload ∧ payload.key = key ∧
          hashMapFind s.heap (hash32Djb2 key (-1)) (some key) (chainFuel s.heap) prev head =
            some (pre.getLast?.or prev, some p)) ∨
        ((∀ i p payload, p ∈ chain i → payloadAt s.heap p = some payload → payload.key ≠ key) ∧
          hashMapFind s.heap (hash32Djb2 key (-1)) (some key) (chainFuel s.heap) prev head =
            some ((chain pos).getLast?.or prev, none))) := by
  obtain ⟨k, _, hk⟩ := h.capacity_pow
  have hpos : getPoolPos s.map (hash32Djb2 key (-1)) < s.map.pool.length := by
    rw [h.pool_length]
    exact getPoolPos_lt hk _
  have hhead := List.getElem?_eq_getElem hpos
  have hseg := h.seg _ _ hhead
  refine ⟨_, _, rfl, hpos, hhead, ?_, ?_⟩
  · rw [← Option.or_none (o := (chain _).head?)]
    exact hseg.eq_head
  rcases hashMapFind_spec (hash32Djb2 key (-1)) key prev hseg (h.live _)
    (h.length_lt_chainFuel _) with ⟨pre, p, post, hchain, ⟨payload, hpay, _, hkey⟩, hrun⟩ |
      ⟨hnone, hrun⟩
  · exact .inl ⟨pre, p, post, payload, hchain, hpay, hkey, hrun⟩
  · refine .inr ⟨?_, hrun⟩
    -- an item with the key would be in this bucket
    rintro i p payload hp hpay rfl
    obtain ⟨hbucket, hmatch⟩ := h.mem_bucket hp hpay
    exact hnone p hbucket hmatch

/-- A key that no item has is not bound. -/
theorem dict_eq_none {heap : Heap (HashMapItem V)} {chain : Nat → List Ptr} {d : Dict V}
    {key : CString} (hd : ∀ k v, d k = some v ↔ Binds heap chain k v)
    (hnone : ∀ i p payload, p ∈ chain i → payloadAt heap p = some payload → payload.key ≠ key) :
    d key = none := by
  by_contra hne
  obtain ⟨v, hv⟩ := Option.ne_none_iff_exists'.mp hne
  obtain ⟨p, payload, ⟨i, hp⟩, hpay, hkey, _⟩ := (hd key v).mp hv
  exact hnone i p payload hp hpay hkey

/-! ## Get -/

/-- `hash_map_get` returns the value bound to the key, and NULL when there is none. -/
theorem hashMapGet_spec {s : HashMapState V} {d : Dict V} (h : HashMapRepr s d) (key : CString)
    (keyHash : UInt32) : hashMapGet s (some key) keyHash = some (d key).join := by
  obtain ⟨chain, hwf, hd⟩ := h
  obtain ⟨pos, head, rfl, _, hhead, _, ⟨pre, p, post, payload, hchain, hpay, hkey, hrun⟩ |
    ⟨hnone, hrun⟩⟩ := hwf.find key none
  · obtain ⟨item, hitem⟩ := Option.isSome_iff_exists.mp
      (isSome_cells_of_payloadAt (p := p) (by rw [hpay]; rfl))
    have hdk : d key = some item.val := by
      rw [payloadAt_of_cells hitem] at hpay
      obtain rfl := Option.some.inj hpay
      exact (hd key _).mpr ⟨p, item.payload, ⟨_, by rw [hchain]; simp⟩,
        payloadAt_of_cells hitem, hkey, rfl⟩
    simp only [hashMapGet, hhead, hrun, Option.bind_eq_bind, Option.bind_some, hitem, hdk,
      Option.pure_def, Option.join_some]
  · have hdk : d key = none := dict_eq_none hd hnone
    simp only [hashMapGet, hhead, hrun, Option.bind_eq_bind, Option.bind_some, hdk,
      Option.pure_def, Option.join_none]

/-! ## Heap updates under the chains -/

/-- Chains survive a change of the heap that keeps the links and the items alive. -/
theorem Buckets.of_next_eq {heap heap' : Heap (HashMapItem V)} {pool : List (Option Ptr)}
    {chain : Nat → List Ptr} (hB : Buckets heap pool chain)
    (hnext : ∀ i, ∀ p ∈ chain i, itemNext heap' p = itemNext heap p)
    (hlive : ∀ i, ∀ p ∈ chain i, (payloadAt heap' p).isSome) : Buckets heap' pool chain :=
  ⟨fun i head hhead => (hB.seg i head hhead).congr (hnext i), hB.outside, hlive, hB.disjoint⟩

/-- Chains survive a change of the heap at an address that they do not contain. -/
theorem Buckets.of_cells_eq {heap heap' : Heap (HashMapItem V)} {pool : List (Option Ptr)}
    {chain : Nat → List Ptr} (hB : Buckets heap pool chain)
    (hcells : ∀ i, ∀ p ∈ chain i, heap'.cells p = heap.cells p) : Buckets heap' pool chain := by
  refine hB.of_next_eq ?_ ?_
  · intro i p hp
    simp only [itemNext, hcells i p hp]
  · intro i p hp
    simp only [payloadAt, hcells i p hp]
    exact hB.live i p hp

/-- One item more in the chains is one item more in the count. -/
theorem Buckets.length_members_succ {heap heap' : Heap (HashMapItem V)}
    {pool pool' : List (Option Ptr)} {chain chain' : Nat → List Ptr}
    (hB : Buckets heap pool chain) (hB' : Buckets heap' pool' chain') {p : Ptr}
    (hfresh : ∀ i, p ∉ chain i)
    (hmem : ∀ q, (∃ i, q ∈ chain' i) ↔ q = p ∨ ∃ i, q ∈ chain i) :
    (members chain' pool'.length).length = (members chain pool.length).length + 1 := by
  have hnot : p ∉ members chain pool.length := by
    rw [hB.mem_members_iff]
    rintro ⟨i, hi⟩
    exact hfresh i hi
  have hperm : (members chain' pool'.length).Perm (p :: members chain pool.length) := by
    refine (List.perm_ext_iff_of_nodup (hB'.nodup_members _)
      (List.nodup_cons.mpr ⟨hnot, hB.nodup_members _⟩)).mpr ?_
    intro q
    rw [hB'.mem_members_iff, hmem q, List.mem_cons, hB.mem_members_iff]
  exact hperm.length_eq

/-! ## Insert -/

/-- Overwriting the value of the item with key `key`. -/
private theorem hashMap_setVal {s : HashMapState V} {d : Dict V} {chain : Nat → List Ptr}
    (h : HashMapWf s chain) (hd : ∀ k v, d k = some v ↔ Binds s.heap chain k v)
    {i : Nat} {p : Ptr} (hp : p ∈ chain i) {item : HashMapItem V}
    (hitem : s.heap.cells p = some item) (val : Option V) :
    HashMapRepr { s with heap := s.heap.set p { item with val := val } }
      (Function.update d item.key (some val)) := by
  have hpay := payloadAt_of_cells hitem
  have hnext : itemNext (s.heap.set p { item with val := val }) = itemNext s.heap := by
    rw [itemNext_set]
    exact Function.update_eq_self_iff.mpr (itemNext_of_cells hitem).symm
  have hpay' : payloadAt (s.heap.set p { item with val := val }) =
      Function.update (payloadAt s.heap) p (some ⟨item.hash, item.key, val⟩) :=
    payloadAt_set _ _ _
  -- an item keeps its hash and its key
  have hold : ∀ q pl, payloadAt (s.heap.set p { item with val := val }) q = some pl →
      ∃ pl', payloadAt s.heap q = some pl' ∧ pl'.hash = pl.hash ∧ pl'.key = pl.key := by
    intro q pl hq
    rw [hpay'] at hq
    by_cases hqp : q = p
    · subst hqp
      rw [Function.update_self] at hq
      obtain rfl := Option.some.inj hq
      exact ⟨item.payload, hpay, rfl, rfl⟩
    · rw [Function.update_of_ne hqp] at hq
      exact ⟨pl, hq, rfl, rfl⟩
  -- the links, the places, the hashes, the keys, and the bindings
  refine ⟨chain, ⟨?_, h.pool_length, h.capacity_pow, ?_, ?_, ?_, h.count_eq⟩, ?_⟩
  · refine h.toBuckets.of_next_eq (fun j q _ => congrFun hnext q) ?_
    intro j q hq
    rw [hpay']
    by_cases hqp : q = p
    · subst hqp
      rw [Function.update_self]
      rfl
    · rw [Function.update_of_ne hqp]
      exact h.live j q hq
  · intro j q hq
    obtain ⟨pl, hpl⟩ := Option.isSome_iff_exists.mp (h.live j q hq)
    rw [← h.placed j q hq]
    simp only [posAt, hpay', getPoolPos]
    by_cases hqp : q = p
    · subst hqp
      rw [Function.update_self, hpay]
      rfl
    · rw [Function.update_of_ne hqp]
  · intro j q pl hq hpl
    obtain ⟨pl', hpl', hhash, hkey⟩ := hold q pl hpl
    rw [← hhash, ← hkey]
    exact h.hash_key j q pl' hq hpl'
  · intro j j' q q' pl pl' hq hq' hpl hpl' hkey
    obtain ⟨pl₁, hpl₁, _, hkey₁⟩ := hold q pl hpl
    obtain ⟨pl₂, hpl₂, _, hkey₂⟩ := hold q' pl' hpl'
    exact h.key_inj j j' q q' pl₁ pl₂ hq hq' hpl₁ hpl₂ (by rw [hkey₁, hkey₂, hkey])
  · refine dict_bind hd (fun v => ⟨?_, ?_⟩) fun k hk => binds_congr fun q pl hkey => ?_
    · rintro ⟨q, pl, ⟨j, hq⟩, hpl, hkey, rfl⟩
      obtain ⟨pl', hpl', _, hkey'⟩ := hold q pl hpl
      have hqp : q = p :=
        h.key_inj j i q p pl' item.payload hq hp hpl' hpay (hkey'.trans hkey)
      rw [hpay', hqp, Function.update_self] at hpl
      rw [← Option.some.inj hpl]
    · rintro rfl
      exact ⟨p, _, ⟨i, hp⟩, by rw [hpay', Function.update_self], rfl, rfl⟩
    · have hne : payloadAt s.heap q = some pl ↔
          payloadAt (s.heap.set p { item with val := val }) q = some pl := by
        rw [hpay']
        by_cases hqp : q = p
        · rw [hqp, Function.update_self, hpay]
          constructor
          · exact fun hpl => absurd (hkey ▸ Option.some.inj hpl ▸ rfl) hk
          · exact fun hpl => absurd (hkey ▸ Option.some.inj hpl ▸ rfl) hk
        · rw [Function.update_of_ne hqp]
      rw [hne]

/-- Appending an item at an unused address to the chain of a bucket. -/
theorem Buckets.append {s : HashMapState V} {chain : Nat → List Ptr}
    (hB : Buckets s.heap s.map.pool chain) {pos : Nat} (hpos : pos < s.map.pool.length) {p : Ptr}
    (hfresh : ∀ i, p ∉ chain i) {item : HashMapItem V} (hnext : item.next = none) :
    ∃ s', setLink { s with heap := s.heap.set p item } (chain pos).getLast? pos (some p) =
        some s' ∧
      SameItems { s with heap := s.heap.set p item } s' ∧
      Buckets s'.heap s'.map.pool (Function.update chain pos (chain pos ++ [p])) := by
  let s₁ : HashMapState V := { s with heap := s.heap.set p item }
  have hB₁ : Buckets s₁.heap s₁.map.pool chain := hB.of_cells_eq fun i q hq => by
    have hne : q ≠ p := fun heq => hfresh i (heq ▸ hq)
    rw [Heap.cells_set, Function.update_of_ne hne]
  obtain ⟨s', hset, hR⟩ :=
    setLink_spec hB₁ hpos (List.append_nil (chain pos)).symm (some p)
  refine ⟨s', hset, hR.toSameItems,
    hB₁.relink hpos (List.append_nil (chain pos)).symm hR ⟨rfl, ?_⟩ ?_ ?_⟩
  · rw [itemNext_set, Function.update_self, hnext]
    rfl
  · intro q hq
    rw [List.mem_singleton.mp hq, payloadAt_set, Function.update_self]
    rfl
  · intro q hq
    rw [List.mem_singleton.mp hq]
    exact ⟨hfresh pos, fun i _ => hfresh i⟩

/-- Appending a fresh item for a key without binding to the chain of its bucket. -/
private theorem hashMap_append {s : HashMapState V} {d : Dict V} {chain : Nat → List Ptr}
    (h : HashMapWf s chain) (hd : ∀ k v, d k = some v ↔ Binds s.heap chain k v)
    {key : CString} (val : Option V)
    (hnone : ∀ i p payload, p ∈ chain i → payloadAt s.heap p = some payload → payload.key ≠ key)
    {p : Ptr} (hp : s.heap.cells p = none) :
    ∃ s', setLink { s with heap := s.heap.set p ⟨none, hash32Djb2 key (-1), key, val⟩ }
        (chain (getPoolPos s.map (hash32Djb2 key (-1)))).getLast?
        (getPoolPos s.map (hash32Djb2 key (-1))) (some p) = some s' ∧
      s'.map.capacity = s.map.capacity ∧ s'.map.count = s.map.count ∧
      HashMapRepr { s' with map := { s'.map with count := s'.map.count + 1 } }
        (Function.update d key (some val)) := by
  let item : HashMapItem V := ⟨none, hash32Djb2 key (-1), key, val⟩
  let pos := getPoolPos s.map (hash32Djb2 key (-1))
  obtain ⟨k, hk5, hk⟩ := h.capacity_pow
  have hpos : pos < s.map.pool.length := by
    rw [h.pool_length]
    exact getPoolPos_lt hk _
  have hfresh : ∀ i, p ∉ chain i := by
    intro i hpi
    have hlive := h.live i p hpi
    rw [payloadAt, hp] at hlive
    cases hlive
  obtain ⟨s', hset, hsame, hB'⟩ := h.toBuckets.append hpos hfresh (rfl : item.next = none)
  have hmem : ∀ q i, q ∈ Function.update chain pos (chain pos ++ [p]) i ↔
      (q = p ∧ i = pos) ∨ q ∈ chain i :=
    mem_update_of_mem_iff fun q => by rw [List.mem_append, List.mem_singleton, or_comm]
  have hcap : s'.map.capacity = s.map.capacity := hsame.capacity_eq
  have hcnt : s'.map.count = s.map.count := hsame.count_eq
  have hlen : s'.map.pool.length = s.map.pool.length := hsame.pool_length
  have hpay' : payloadAt s'.heap = Function.update (payloadAt s.heap) p (some item.payload) :=
    hsame.payload_eq.trans (payloadAt_set _ _ _)
  have hold : ∀ q i, q ∈ chain i → payloadAt s'.heap q = payloadAt s.heap q := by
    intro q i hq
    have hne : q ≠ p := fun heq => hfresh i (heq ▸ hq)
    rw [hpay', Function.update_of_ne hne]
  have hself : payloadAt s'.heap p = some item.payload := by
    rw [hpay', Function.update_self]
  -- the pool, the capacity, the places, the hashes, the keys, the count, and the bindings
  refine ⟨s', hset, hcap, hcnt, _, ⟨hB', ?_, ?_, ?_, ?_, ?_, ?_⟩, ?_⟩
  · exact (hlen.trans h.pool_length).trans hcap.symm
  · exact ⟨k, hk5, hcap.trans hk⟩
  · intro i q hq
    rcases (hmem q i).mp hq with ⟨rfl, rfl⟩ | hq
    · simp only [posAt, hself, Option.map_some, getPoolPos, hcap]
      rfl
    · rw [← h.placed i q hq]
      simp only [posAt, hold q i hq, getPoolPos, hcap]
  · intro i q pl hq hpl
    rcases (hmem q i).mp hq with ⟨rfl, rfl⟩ | hq
    · rw [hself] at hpl
      obtain rfl := Option.some.inj hpl
      rfl
    · exact h.hash_key i q pl hq (hold q i hq ▸ hpl)
  · intro i j q q' pl pl' hq hq' hpl hpl' hkey
    rcases (hmem q i).mp hq with ⟨hqp, _⟩ | hqi <;>
      rcases (hmem q' j).mp hq' with ⟨hqp', _⟩ | hqj
    · rw [hqp, hqp']
    · rw [hqp, hself] at hpl
      obtain rfl := Option.some.inj hpl
      exact absurd hkey.symm (hnone j q' pl' hqj (hold q' j hqj ▸ hpl'))
    · rw [hqp', hself] at hpl'
      obtain rfl := Option.some.inj hpl'
      exact absurd hkey (hnone i q pl hqi (hold q i hqi ▸ hpl))
    · exact h.key_inj i j q q' pl pl' hqi hqj (hold q i hqi ▸ hpl) (hold q' j hqj ▸ hpl') hkey
  · have hone : ∀ q, (∃ i, q ∈ Function.update chain pos (chain pos ++ [p]) i) ↔
        q = p ∨ ∃ i, q ∈ chain i := by
      intro q
      simp only [hmem, exists_or, exists_and_left, exists_eq, and_true]
    have hcount := h.toBuckets.length_members_succ hB' hfresh hone
    rw [hlen, h.pool_length, ← h.count_eq, ← hcnt] at hcount
    show s'.map.count + 1 = (members _ s'.map.capacity).length
    rw [hcap]
    exact hcount.symm
  · refine dict_bind hd (fun v => ⟨?_, ?_⟩) fun k' hk' => binds_congr fun q pl hkey => ⟨?_, ?_⟩
    · rintro ⟨q, pl, ⟨i, hq⟩, hpl, hkey, rfl⟩
      rcases (hmem q i).mp hq with ⟨rfl, _⟩ | hq
      · rw [hself] at hpl
        obtain rfl := Option.some.inj hpl
        rfl
      · exact absurd hkey (hnone i q pl hq (hold q i hq ▸ hpl))
    · rintro rfl
      exact ⟨p, item.payload, ⟨pos, (hmem p pos).mpr (.inl ⟨rfl, rfl⟩)⟩, hself, rfl, rfl⟩
    · rintro ⟨⟨i, hq⟩, hpl⟩
      rcases (hmem q i).mp hq with ⟨rfl, _⟩ | hq
      · rw [hself] at hpl
        obtain rfl := Option.some.inj hpl
        exact absurd hkey.symm hk'
      · exact ⟨⟨i, hq⟩, hold q i hq ▸ hpl⟩
    · rintro ⟨⟨i, hq⟩, hpl⟩
      exact ⟨⟨i, (hmem q i).mpr (.inr hq)⟩, (hold q i hq).trans hpl⟩

/-- Rehashing keeps the dictionary. -/
theorem hashMapRehash_repr {s : HashMapState V} {d : Dict V} (h : HashMapRepr s d) :
    ∃ s', hashMapRehash s = some s' ∧ HashMapRepr s' d ∧
      s'.map.capacity = 2 * s.map.capacity ∧ s'.map.count = s.map.count := by
  obtain ⟨chain, hwf, hd⟩ := h
  obtain ⟨s', chain', hrun, hwf', hsame, hmem⟩ := hashMapRehash_spec hwf
  refine ⟨s', hrun, ⟨chain', hwf', ?_⟩, ?_, hsame.count_eq⟩
  · intro k v
    have hpay : payloadAt s'.heap = payloadAt s.heap := hsame.payload_eq
    simp only [hd k v, hmem, hpay]
  · rw [hsame.capacity_eq, capacity_hashMapGrow]

/-- `hash_map_insert` binds the key to the value.  It doubles the capacity exactly
    when the density test says so. -/
theorem hashMapInsert_spec (dense : DensityTest) (alloc : Allocator (HashMapItem V))
    {s : HashMapState V} {d : Dict V} (h : HashMapRepr s d) (key : CString) (val : Option V) :
    ∃ s', hashMapInsert dense alloc s key val = some (s', hash32Djb2 key (-1)) ∧
      HashMapRepr s' (Function.update d key (some val)) ∧
      s'.map.capacity =
        (if dense s.map.count s.map.capacity then 2 * s.map.capacity else s.map.capacity) ∧
      s'.map.count ≤ s.map.count + 1 := by
  obtain ⟨s₁, hgrow, ⟨chain, hwf, hd⟩, hcap, hcount⟩ : ∃ s₁,
      hashMapRehashIfDense dense s = some s₁ ∧ HashMapRepr s₁ d ∧ s₁.map.capacity =
        (if dense s.map.count s.map.capacity then 2 * s.map.capacity else s.map.capacity) ∧
      s₁.map.count = s.map.count := by
    simp only [hashMapRehashIfDense]
    split
    · exact hashMapRehash_repr h
    · exact ⟨s, rfl, h, rfl, rfl⟩
  -- the search starts with `item = prev = map->pool[pos]`
  obtain ⟨pos, head, rfl, _, hhead, hfirst, hfind⟩ :=
    hwf.find key (s₁.map.pool[getPoolPos s₁.map (hash32Djb2 key (-1))]?).join
  have hprev : (s₁.map.pool[getPoolPos s₁.map (hash32Djb2 key (-1))]?).join = head := by
    rw [hhead, Option.join_some]
  rw [hprev] at hfind
  rcases hfind with ⟨pre, p, post, payload, hchain, hpay, rfl, hrun⟩ | ⟨hnone, hrun⟩
  · -- the key is there: its value is overwritten
    obtain ⟨item, hitem⟩ := Option.isSome_iff_exists.mp
      (isSome_cells_of_payloadAt (p := p) (by rw [hpay]; rfl))
    have hitem_pay : item.payload = payload := by
      rw [payloadAt_of_cells hitem] at hpay
      exact Option.some.inj hpay
    have hp : p ∈ chain (getPoolPos s₁.map (hash32Djb2 payload.key (-1))) := by
      rw [hchain]
      simp
    have hkey : item.key = payload.key := congrArg Payload.key hitem_pay
    have hhash : item.hash = hash32Djb2 payload.key (-1) :=
      (congrArg Payload.hash hitem_pay).trans (hwf.hash_key _ p payload hp hpay)
    refine ⟨{ s₁ with heap := s₁.heap.set p { item with val := val } }, ?_, ?_, hcap, ?_⟩
    · simp only [hashMapInsert, hgrow, Option.bind_eq_bind, Option.bind_some, hhead, hrun, hitem,
        Option.pure_def, hhash]
    · rw [← hkey]
      exact hashMap_setVal hwf hd hp hitem val
    · change s₁.map.count ≤ _
      omega
  · -- a new item is appended; `prev` is the last item, or NULL in an empty bucket
    have hlast : (chain (getPoolPos s₁.map (hash32Djb2 key (-1)))).getLast?.or head =
        (chain (getPoolPos s₁.map (hash32Djb2 key (-1)))).getLast? := by
      rw [hfirst]
      cases chain (getPoolPos s₁.map (hash32Djb2 key (-1))) with
      | nil => rfl
      | cons x xs => rw [List.getLast?_cons, Option.some_or]
    rw [hlast] at hrun
    obtain ⟨s', hset, hcap', hcount', hrepr⟩ :=
      hashMap_append hwf hd val hnone (alloc.malloc_fresh s₁.heap)
    refine ⟨_, ?_, hrepr, hcap'.trans hcap, ?_⟩
    · simp only [hashMapInsert, hgrow, Option.bind_eq_bind, Option.bind_some, hhead, hrun, hset,
        Option.pure_def]
    · change s'.map.count + 1 ≤ _
      omega

/-! ## Delete -/

/-- `t` is `s` without the item `p`, which is freed; only the links of the items `pre`
    in front of it may differ otherwise. -/
structure Unlinked (s t : HashMapState V) (pre : List Ptr) (p : Ptr) : Prop where
  capacity_eq : t.map.capacity = s.map.capacity
  count_eq : t.map.count = s.map.count - 1
  payload_eq : ∀ q, q ≠ p → payloadAt t.heap q = payloadAt s.heap q
  next_eq : ∀ q, q ∉ pre → q ≠ p → itemNext t.heap q = itemNext s.heap q
  freed : t.heap.cells p = none

/-- Unlinking and freeing an item leaves a well formed map. -/
theorem HashMapWf.unlink {s : HashMapState V} {chain : Nat → List Ptr} (h : HashMapWf s chain)
    {pos : Nat} (hpos : pos < s.map.pool.length) {pre post : List Ptr} {p : Ptr}
    (hchain : chain pos = pre ++ p :: post) {item : HashMapItem V}
    (hitem : s.heap.cells p = some item) :
    ∃ s' t, setLink s pre.getLast? pos item.next = some s' ∧
      t = { heap := s'.heap.free p, map := { s'.map with count := s'.map.count - 1 } } ∧
      0 < s.map.count ∧ Unlinked s t pre p ∧
      HashMapWf t (Function.update chain pos (pre ++ post)) := by
  obtain ⟨s', hset, hR, hB⟩ := h.toBuckets.unlink hpos hchain
  rw [itemNext_of_cells hitem] at hset
  have hpmem : p ∈ chain pos := by
    rw [hchain]
    simp
  have hmem := h.toBuckets.mem_update_unlink hchain
  have hB' : Buckets (s'.heap.free p) s'.map.pool (Function.update chain pos (pre ++ post)) := by
    refine hB.of_cells_eq fun i q hq => ?_
    rw [Heap.cells_free, Function.update_of_ne ((hmem q i).mp hq).2]
  have hpay' : ∀ q, q ≠ p → payloadAt (s'.heap.free p) q = payloadAt s.heap q := by
    intro q hq
    rw [← hR.payload_eq]
    simp only [payloadAt, Heap.cells_free, Function.update_of_ne hq]
  have hnext' : ∀ q, q ∉ pre → q ≠ p → itemNext (s'.heap.free p) q = itemNext s.heap q := by
    intro q hqpre hq
    rw [← hR.next_eq q hqpre]
    simp only [itemNext, Heap.cells_free, Function.update_of_ne hq]
  have hfreed : (s'.heap.free p).cells p = none := by
    rw [Heap.cells_free, Function.update_self]
  -- the chains before the delete hold one item more than those after it
  have hcount := hB'.length_members_succ h.toBuckets (p := p)
    (fun i hpi => ((hmem p i).mp hpi).2 rfl) (by
      intro q
      constructor
      · rintro ⟨i, hi⟩
        by_cases hqp : q = p
        · exact .inl hqp
        · exact .inr ⟨i, (hmem q i).mpr ⟨hi, hqp⟩⟩
      · rintro (rfl | ⟨i, hi⟩)
        · exact ⟨pos, hpmem⟩
        · exact ⟨i, ((hmem q i).mp hi).1⟩)
  rw [h.pool_length, ← h.count_eq, hR.pool_length, h.pool_length] at hcount
  have hcnt : s'.map.count - 1 = s.map.count - 1 := by rw [hR.count_eq]
  -- the pool, the capacity, the places, the hashes, the keys, and the count
  refine ⟨s', _, hset, rfl, by omega, ⟨hR.capacity_eq, hcnt, hpay', hnext', hfreed⟩,
    ⟨hB', ?_, ?_, ?_, ?_, ?_, ?_⟩⟩
  · exact (hR.pool_length.trans h.pool_length).trans hR.capacity_eq.symm
  · obtain ⟨k, hk5, hk⟩ := h.capacity_pow
    exact ⟨k, hk5, hR.capacity_eq.trans hk⟩
  · intro i q hq
    obtain ⟨hqi, hqp⟩ := (hmem q i).mp hq
    rw [← h.placed i q hqi]
    simp only [posAt, hpay' q hqp, getPoolPos, hR.capacity_eq]
  · intro i q pl hq hpl
    obtain ⟨hqi, hqp⟩ := (hmem q i).mp hq
    exact h.hash_key i q pl hqi (hpay' q hqp ▸ hpl)
  · intro i j q q' pl pl' hq hq' hpl hpl' hkey
    obtain ⟨hqi, hqp⟩ := (hmem q i).mp hq
    obtain ⟨hqj, hqp'⟩ := (hmem q' j).mp hq'
    exact h.key_inj i j q q' pl pl' hqi hqj (hpay' q hqp ▸ hpl) (hpay' q' hqp' ▸ hpl') hkey
  · change s'.map.count - 1 = (members _ s'.map.capacity).length
    rw [hR.count_eq, hR.capacity_eq]
    omega

/-- A map without the item of a key has all bindings but that one. -/
theorem Unlinked.unbind {s t : HashMapState V} {d : Dict V} {chain : Nat → List Ptr}
    {pre post : List Ptr} {p : Ptr} {pos : Nat} (hU : Unlinked s t pre p) (h : HashMapWf s chain)
    (hd : ∀ k v, d k = some v ↔ Binds s.heap chain k v) (hchain : chain pos = pre ++ p :: post)
    {payload : Payload V} (hpay : payloadAt s.heap p = some payload) (k : CString) (v : Option V) :
    Function.update d payload.key none k = some v ↔
      Binds t.heap (Function.update chain pos (pre ++ post)) k v := by
  have hpmem : p ∈ chain pos := by
    rw [hchain]
    simp
  have hmem := h.toBuckets.mem_update_unlink hchain
  -- no remaining item has the key, and the items with other keys are the same
  refine dict_unbind hd (fun v => ?_) (fun k hk => binds_congr fun q pl hkey => ⟨?_, ?_⟩) k v
  · rintro ⟨q, pl, ⟨i, hq⟩, hpl, hkey, _⟩
    obtain ⟨hqi, hqp⟩ := (hmem q i).mp hq
    exact hqp (h.key_inj i pos q p pl payload hqi hpmem (hU.payload_eq q hqp ▸ hpl) hpay hkey)
  · rintro ⟨⟨i, hq⟩, hpl⟩
    obtain ⟨hqi, hqp⟩ := (hmem q i).mp hq
    exact ⟨⟨i, hqi⟩, hU.payload_eq q hqp ▸ hpl⟩
  · rintro ⟨⟨i, hq⟩, hpl⟩
    have hqp : q ≠ p := by
      rintro rfl
      rw [hpay] at hpl
      exact hk (hkey ▸ Option.some.inj hpl ▸ rfl)
    exact ⟨⟨i, (hmem q i).mpr ⟨hq, hqp⟩⟩, (hU.payload_eq q hqp).trans hpl⟩

/-- `hash_map_delete` of the key of an item unlinks and frees that item. -/
theorem HashMapWf.delete {s : HashMapState V} {chain : Nat → List Ptr} (h : HashMapWf s chain)
    {pos : Nat} {pre post : List Ptr} {p : Ptr} (hchain : chain pos = pre ++ p :: post)
    {payload : Payload V} (hpay : payloadAt s.heap p = some payload) (keyHash : UInt32) :
    ∃ t, hashMapDelete s (some payload.key) keyHash = some (t, payload.val) ∧ 0 < s.map.count ∧
      Unlinked s t pre p ∧ HashMapWf t (Function.update chain pos (pre ++ post)) := by
  have hpmem : p ∈ chain pos := by
    rw [hchain]
    simp
  obtain ⟨item, hitem⟩ := Option.isSome_iff_exists.mp
    (isSome_cells_of_payloadAt (p := p) (by rw [hpay]; rfl))
  obtain rfl : item.payload = payload := by
    rw [payloadAt_of_cells hitem] at hpay
    exact Option.some.inj hpay
  obtain ⟨pos', head, hpos', hlt, hhead, _, ⟨pre', p', post', payload', hchain', hpay', hkey, hrun⟩ |
    ⟨hnone, _⟩⟩ := h.find item.key none
  · -- the search finds the item itself
    have hpmem' : p' ∈ chain pos' := by
      rw [hchain']
      simp
    obtain rfl : p' = p := h.key_inj pos' pos p' p payload' _ hpmem' hpmem hpay' hpay hkey
    obtain rfl : pos' = pos := h.disjoint pos' pos p' hpmem' hpmem
    have hp := h.notMem_split hchain
    rw [List.mem_append, not_or] at hp
    rw [hchain] at hchain'
    obtain ⟨rfl, _, rfl⟩ := (List.append_cons_inj_of_notMem hp.1 hp.2).mp hchain'
    obtain ⟨s', t, hset, rfl, hcount, hU, hwf⟩ := h.unlink hlt hchain hitem
    refine ⟨_, ?_, hcount, hU, hwf⟩
    change hashMapDelete s (some item.key) keyHash = some (_, item.val)
    subst hpos'
    simp only [hashMapDelete, hhead, hrun, Option.bind_eq_bind, Option.bind_some, hitem,
      Option.or_none, hset, Option.pure_def]
  · exact absurd rfl (hnone pos p item.payload hpmem hpay)

/-- `hash_map_delete` removes the binding of the key and returns its value, NULL when
    there is none. -/
theorem hashMapDelete_spec {s : HashMapState V} {d : Dict V} (h : HashMapRepr s d)
    (key : CString) (keyHash : UInt32) :
    ∃ s', hashMapDelete s (some key) keyHash = some (s', (d key).join) ∧
      HashMapRepr s' (Function.update d key none) ∧ s'.map.capacity = s.map.capacity ∧
      s'.map.count ≤ s.map.count := by
  obtain ⟨chain, hwf, hd⟩ := h
  obtain ⟨pos, head, hpos, _, hhead, _, ⟨pre, p, post, payload, hchain, hpay, rfl, _⟩ |
    ⟨hnone, hrun⟩⟩ := hwf.find key none
  · have hdk : d payload.key = some payload.val :=
      (hd payload.key _).mpr ⟨p, payload, ⟨pos, by rw [hchain]; simp⟩, hpay, rfl, rfl⟩
    obtain ⟨t, hrun, _, hU, hwf'⟩ := hwf.delete hchain hpay keyHash
    refine ⟨t, ?_, ⟨_, hwf', hU.unbind hwf hd hchain hpay⟩, hU.capacity_eq, ?_⟩
    · rw [hrun, hdk, Option.join_some]
    · rw [hU.count_eq]
      omega
  · have hdk : d key = none := dict_eq_none hd hnone
    have hsame : Function.update d key none = d := Function.update_eq_self_iff.mpr hdk.symm
    refine ⟨s, ?_, ⟨chain, hwf, by rw [hsame]; exact hd⟩, rfl, Nat.le_refl _⟩
    subst hpos
    simp only [hashMapDelete, hhead, hrun, Option.bind_eq_bind, Option.bind_some, hdk,
      Option.pure_def, Option.join_none]

/-! ## The number of keys -/

/-- The item count of a map is the number of keys that its dictionary binds. -/
theorem HashMapRepr.count_eq {s : HashMapState V} {d : Dict V} (h : HashMapRepr s d)
    {keys : List CString} (hnodup : keys.Nodup) (hkeys : ∀ k, (d k).isSome ↔ k ∈ keys) :
    hashMapCount s = some keys.length ∧ s.map.count = keys.length := by
  obtain ⟨chain, hwf, hd⟩ := h
  let keyAt : Ptr → Option CString := fun p => (payloadAt s.heap p).map Payload.key
  have hmem : ∀ p, p ∈ members chain s.map.capacity ↔ ∃ i, p ∈ chain i := by
    intro p
    rw [← hwf.pool_length]
    exact hwf.mem_members_iff
  -- every key is in one item
  have hinj : ∀ p ∈ members chain s.map.capacity, ∀ q ∈ members chain s.map.capacity,
      keyAt p = keyAt q → p = q := by
    intro p hp q hq heq
    obtain ⟨i, hi⟩ := (hmem p).mp hp
    obtain ⟨j, hj⟩ := (hmem q).mp hq
    obtain ⟨payload, hpay⟩ := Option.isSome_iff_exists.mp (hwf.live i p hi)
    obtain ⟨payload', hpay'⟩ := Option.isSome_iff_exists.mp (hwf.live j q hj)
    simp only [keyAt, hpay, hpay', Option.map_some, Option.some.injEq] at heq
    exact hwf.key_inj i j p q payload payload' hi hj hpay hpay' heq
  -- so the keys of the items are the keys of the dictionary
  have hperm : ((members chain s.map.capacity).map keyAt).Perm (keys.map some) := by
    have hleft : ((members chain s.map.capacity).map keyAt).Nodup := by
      exact List.Nodup.map_on hinj (hwf.nodup_members _)
    refine (List.perm_ext_iff_of_nodup hleft (hnodup.map fun _ _ => Option.some.inj)).mpr ?_
    intro k
    simp only [List.mem_map, hmem]
    constructor
    · rintro ⟨p, ⟨i, hi⟩, rfl⟩
      obtain ⟨payload, hpay⟩ := Option.isSome_iff_exists.mp (hwf.live i p hi)
      have hbind : d payload.key = some payload.val :=
        (hd _ _).mpr ⟨p, payload, ⟨i, hi⟩, hpay, rfl, rfl⟩
      refine ⟨payload.key, (hkeys _).mp (by rw [hbind]; rfl), ?_⟩
      simp only [keyAt, hpay, Option.map_some]
    · rintro ⟨key, hkey, rfl⟩
      obtain ⟨v, hv⟩ := Option.isSome_iff_exists.mp ((hkeys key).mpr hkey)
      obtain ⟨p, payload, hp, hpay, rfl, _⟩ := (hd key v).mp hv
      refine ⟨p, hp, ?_⟩
      simp only [keyAt, hpay, Option.map_some]
  have hlen : (members chain s.map.capacity).length = keys.length := by
    simpa only [List.length_map] using hperm.length_eq
  rw [hashMapCount_spec hwf.toBuckets hwf.pool_length, hwf.count_eq, hlen]
  exact ⟨rfl, rfl⟩

/-! ## A NULL key -/

/-- With a NULL key the search compares no key, so it finds nothing unless it faults. -/
theorem hashMapFind_null {heap : Heap (HashMapItem V)} {hash : UInt32} {fuel : Nat}
    {prev head : Option Ptr} {r : Option Ptr × Option Ptr}
    (h : hashMapFind heap hash none fuel prev head = some r) : r.2 = none := by
  induction fuel generalizing prev head with
  | zero => cases h
  | succ fuel ih =>
    cases head with
    | none =>
      obtain rfl := Option.some.inj h
      rfl
    | some p =>
      simp only [hashMapFind, strcmp, Option.map_none, Option.bind_eq_bind, Option.bind_none,
        Option.bind_eq_some_iff] at h
      obtain ⟨item, _, h⟩ := h
      split at h
      · cases h
      · exact ih h

/-- `hash_map_get` with a NULL key returns NULL unless it faults. -/
theorem hashMapGet_null {s : HashMapState V} {keyHash : UInt32} {r : Option V}
    (h : hashMapGet s none keyHash = some r) : r = none := by
  simp only [hashMapGet, Option.bind_eq_bind, Option.bind_eq_some_iff] at h
  obtain ⟨head, _, ⟨prev, found⟩, hfind, h⟩ := h
  obtain rfl : found = none := hashMapFind_null hfind
  exact (Option.some.inj h).symm

end CUtils
