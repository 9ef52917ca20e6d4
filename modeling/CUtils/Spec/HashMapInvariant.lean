import Mathlib.Algebra.Group.Nat.Defs
import Mathlib.Data.List.Nodup
import CUtils.ForStd.Segment
import CUtils.ForStd.List
import CUtils.Native.HashMap

/-!
# Bucket chains

The representation of a hash map: a function `chain` that gives for every bucket
the items of its chain.  `Buckets` ties it to the pool and the `next` pointers.
The two ways in which the code rearranges chains, `setLink` (cut a chain after a
prefix and continue it elsewhere) and prepending an item, are described once here;
insert, delete and rehash use these descriptions.

The data of an item apart from its `next` pointer is its payload; no
rearrangement changes a payload.
-/

namespace CUtils

variable {V : Type}

/-- The `next` pointers of the items of a heap. -/
def itemNext (heap : Heap (HashMapItem V)) (p : Ptr) : Option Ptr :=
  (heap.cells p).bind HashMapItem.next

/-- What an item holds apart from its link. -/
structure Payload (V : Type) where
  hash : UInt32
  key : CString
  val : Option V

/-- The payload of an item. -/
def HashMapItem.payload (item : HashMapItem V) : Payload V := ⟨item.hash, item.key, item.val⟩

/-- The payload of the item at an address. -/
def payloadAt (heap : Heap (HashMapItem V)) (p : Ptr) : Option (Payload V) :=
  (heap.cells p).map HashMapItem.payload

/-- The pool and the links of a heap store the chains `chain`. -/
structure Buckets (heap : Heap (HashMapItem V)) (pool : List (Option Ptr))
    (chain : Nat → List Ptr) : Prop where
  seg : ∀ i head, pool[i]? = some head → IsSeg (itemNext heap) head (chain i) none
  outside : ∀ i, pool.length ≤ i → chain i = []
  live : ∀ i, ∀ p ∈ chain i, (payloadAt heap p).isSome
  disjoint : ∀ i j p, p ∈ chain i → p ∈ chain j → i = j

/-! ## Heap lemmas -/

theorem isSome_cells_of_payloadAt {heap : Heap (HashMapItem V)} {p : Ptr}
    (h : (payloadAt heap p).isSome) : (heap.cells p).isSome := by
  simpa only [payloadAt, Option.isSome_map] using h

theorem itemNext_of_cells {heap : Heap (HashMapItem V)} {p : Ptr} {item : HashMapItem V}
    (h : heap.cells p = some item) : itemNext heap p = item.next := by
  simp only [itemNext, h, Option.bind_some]

theorem payloadAt_of_cells {heap : Heap (HashMapItem V)} {p : Ptr} {item : HashMapItem V}
    (h : heap.cells p = some item) : payloadAt heap p = some item.payload := by
  simp only [payloadAt, h, Option.map_some]

/-- The first item of a chain and the chain behind it. -/
theorem exists_item_of_isSeg_cons {heap : Heap (HashMapItem V)} {head : Option Ptr} {p : Ptr}
    {xs : List Ptr} (hseg : IsSeg (itemNext heap) head (p :: xs) none)
    (hlive : ∀ q ∈ p :: xs, (payloadAt heap q).isSome) :
    ∃ item, head = some p ∧ heap.cells p = some item ∧
      payloadAt heap p = some item.payload ∧ IsSeg (itemNext heap) item.next xs none ∧
      ∀ q ∈ xs, (payloadAt heap q).isSome := by
  obtain ⟨rfl, hrest⟩ := hseg
  obtain ⟨item, hitem⟩ := Option.isSome_iff_exists.mp
    (isSome_cells_of_payloadAt (hlive p List.mem_cons_self))
  rw [itemNext_of_cells hitem] at hrest
  exact ⟨item, rfl, hitem, payloadAt_of_cells hitem, hrest,
    fun q hq => hlive q (List.mem_cons_of_mem p hq)⟩

theorem itemNext_set (heap : Heap (HashMapItem V)) (p : Ptr) (item : HashMapItem V) :
    itemNext (heap.set p item) = Function.update (itemNext heap) p item.next := by
  funext q
  by_cases hq : q = p
  · subst hq
    simp only [itemNext, Heap.cells_set, Function.update_self, Option.bind_some]
  · simp only [itemNext, Heap.cells_set, Function.update_of_ne hq]

theorem payloadAt_set (heap : Heap (HashMapItem V)) (p : Ptr) (item : HashMapItem V) :
    payloadAt (heap.set p item) = Function.update (payloadAt heap) p (some item.payload) := by
  funext q
  by_cases hq : q = p
  · subst hq
    simp only [payloadAt, Heap.cells_set, Function.update_self, Option.map_some]
  · simp only [payloadAt, Heap.cells_set, Function.update_of_ne hq]

/-- `setNext` succeeds on a live item, redirects its link and nothing else. -/
theorem setNext_spec {heap : Heap (HashMapItem V)} {p : Ptr} (q : Option Ptr)
    (hp : (payloadAt heap p).isSome) :
    ∃ heap', setNext heap p q = some heap' ∧
      itemNext heap' = Function.update (itemNext heap) p q ∧
      payloadAt heap' = payloadAt heap := by
  obtain ⟨item, hitem⟩ := Option.isSome_iff_exists.mp (isSome_cells_of_payloadAt hp)
  refine ⟨heap.set p { item with next := q }, ?_, itemNext_set _ _ _, ?_⟩
  · simp only [setNext, hitem, Option.map_some]
  · rw [payloadAt_set]
    have hself : payloadAt heap p = some item.payload := payloadAt_of_cells hitem
    exact Function.update_eq_self_iff.mpr hself.symm

/-! ## Cutting a chain -/

/-- Two states with the same items, differing in links and bucket heads only. -/
structure SameItems (s s' : HashMapState V) : Prop where
  capacity_eq : s'.map.capacity = s.map.capacity
  count_eq : s'.map.count = s.map.count
  pool_length : s'.map.pool.length = s.map.pool.length
  payload_eq : payloadAt s'.heap = payloadAt s.heap

theorem SameItems.refl (s : HashMapState V) : SameItems s s := ⟨rfl, rfl, rfl, rfl⟩

theorem SameItems.trans {s s' s'' : HashMapState V} (h : SameItems s s') (h' : SameItems s' s'') :
    SameItems s s'' :=
  ⟨h'.capacity_eq.trans h.capacity_eq, h'.count_eq.trans h.count_eq,
    h'.pool_length.trans h.pool_length, h'.payload_eq.trans h.payload_eq⟩

/-- `s'` arises from `s` by making the chain of bucket `pos` continue at `q` after
    its prefix `pre`. -/
structure Relinked (s s' : HashMapState V) (pre : List Ptr) (pos : Nat) (q : Option Ptr) :
    Prop extends SameItems s s' where
  next_eq : ∀ p, p ∉ pre → itemNext s'.heap p = itemNext s.heap p
  pool_eq : ∀ i, i ≠ pos → s'.map.pool[i]? = s.map.pool[i]?
  seg : ∀ head, s'.map.pool[pos]? = some head → IsSeg (itemNext s'.heap) head pre q

/-- `setLink` with the last item of a prefix of the chain, or with NULL when the
    prefix is empty, relinks the chain after the prefix. -/
theorem setLink_spec {s : HashMapState V} {chain : Nat → List Ptr}
    (hB : Buckets s.heap s.map.pool chain) {pos : Nat} (hpos : pos < s.map.pool.length)
    {pre post : List Ptr} (hchain : chain pos = pre ++ post) (q : Option Ptr) :
    ∃ s', setLink s pre.getLast? pos q = some s' ∧ Relinked s s' pre pos q := by
  have hseg := hB.seg pos s.map.pool[pos] (List.getElem?_eq_getElem hpos)
  have hnodup := hseg.nodup
  rw [hchain] at hseg hnodup
  obtain ⟨m, hpre, _⟩ := IsSeg.append_iff.mp hseg
  rcases List.eq_nil_or_concat pre with rfl | ⟨init, x, rfl⟩
  · -- the prefix is empty: the bucket head changes
    refine ⟨_, rfl, ⟨rfl, rfl, List.length_set, rfl⟩, fun _ _ => rfl, ?_, ?_⟩
    · intro i hi
      exact List.getElem?_set_ne (Ne.symm hi)
    · intro head hhead
      rw [List.getElem?_set_self hpos] at hhead
      exact (Option.some.inj hhead).symm
  · -- the link of the last item of the prefix changes
    rw [List.concat_eq_append] at *
    have hx : (payloadAt s.heap x).isSome := by
      refine hB.live pos x ?_
      rw [hchain]
      simp
    have hxinit : x ∉ init :=
      fun hmem => hnodup.of_append_left.disjoint hmem (List.mem_singleton_self x)
    obtain ⟨heap', hset, hnext, hpay⟩ := setNext_spec q hx
    refine ⟨{ s with heap := heap' }, ?_, ⟨rfl, rfl, rfl, hpay⟩, ?_, fun _ _ => rfl, ?_⟩
    · simp only [setLink, List.getLast?_concat, hset, Option.map_some]
    · intro p hp
      have hpx : p ≠ x := by
        rintro rfl
        exact hp (by simp)
      simp only [hnext, Function.update_of_ne hpx]
    · intro head hhead
      have hhead' : head = s.map.pool[pos] := by
        rw [List.getElem?_eq_getElem hpos] at hhead
        exact (Option.some.inj hhead).symm
      simp only [hnext]
      exact hhead' ▸ hpre.update_getLast hxinit q

/-- Relinking a chain to a segment of items that no other chain holds. -/
theorem Buckets.relink {s s' : HashMapState V} {chain : Nat → List Ptr}
    (hB : Buckets s.heap s.map.pool chain) {pos : Nat} (hpos : pos < s.map.pool.length)
    {pre post post' : List Ptr} {q : Option Ptr} (hchain : chain pos = pre ++ post)
    (hR : Relinked s s' pre pos q) (hpost' : IsSeg (itemNext s.heap) q post' none)
    (hlive : ∀ p ∈ post', (payloadAt s.heap p).isSome)
    (hfresh : ∀ p ∈ post', p ∉ pre ∧ ∀ i, i ≠ pos → p ∉ chain i) :
    Buckets s'.heap s'.map.pool (Function.update chain pos (pre ++ post')) := by
  have hpre : ∀ p ∈ pre, p ∈ chain pos := by
    intro p hp
    rw [hchain]
    exact List.mem_append_left post hp
  refine ⟨?_, ?_, ?_, ?_⟩
  · intro i head hhead
    -- the changed chain ends with the new items, the others are as before
    by_cases hi : i = pos
    · subst hi
      rw [Function.update_self]
      refine (hR.seg head hhead).append (hpost'.congr ?_)
      exact fun p hp => hR.next_eq p (hfresh p hp).1
    · rw [Function.update_of_ne hi]
      rw [hR.pool_eq i hi] at hhead
      refine (hB.seg i head hhead).congr fun p hp => hR.next_eq p ?_
      exact fun hmem => hi (hB.disjoint i pos p hp (hpre p hmem))
  · intro i hi
    rw [hR.pool_length] at hi
    have hne : i ≠ pos := by omega
    rw [Function.update_of_ne hne]
    exact hB.outside i hi
  · intro i p hp
    rw [hR.payload_eq]
    by_cases hi : i = pos
    · subst hi
      rw [Function.update_self] at hp
      rcases List.mem_append.mp hp with hp | hp
      · exact hB.live i p (hpre p hp)
      · exact hlive p hp
    · rw [Function.update_of_ne hi] at hp
      exact hB.live i p hp
  · have hnew : ∀ i p, i ≠ pos → p ∈ chain i → p ∉ pre ++ post' := by
      intro i p hi hp hmem
      rcases List.mem_append.mp hmem with hmem | hmem
      · exact hi (hB.disjoint i pos p hp (hpre p hmem))
      · exact (hfresh p hmem).2 i hi hp
    intro i j p hpi hpj
    -- the changed chain shares no item with another one
    by_cases hi : i = pos <;> by_cases hj : j = pos
    · rw [hi, hj]
    · subst hi
      rw [Function.update_self] at hpi
      rw [Function.update_of_ne hj] at hpj
      exact absurd hpi (hnew j p hj hpj)
    · subst hj
      rw [Function.update_self] at hpj
      rw [Function.update_of_ne hi] at hpi
      exact absurd hpj (hnew i p hi hpi)
    · rw [Function.update_of_ne hi] at hpi
      rw [Function.update_of_ne hj] at hpj
      exact hB.disjoint i j p hpi hpj

theorem Buckets.nodup_chain {heap : Heap (HashMapItem V)} {pool : List (Option Ptr)}
    {chain : Nat → List Ptr} (hB : Buckets heap pool chain) (i : Nat) : (chain i).Nodup := by
  by_cases hi : i < pool.length
  · exact (hB.seg i _ (List.getElem?_eq_getElem hi)).nodup
  · rw [hB.outside i (by omega)]
    exact List.nodup_nil

/-- An item is in its chain only once. -/
theorem Buckets.notMem_split {heap : Heap (HashMapItem V)} {pool : List (Option Ptr)}
    {chain : Nat → List Ptr} (hB : Buckets heap pool chain) {pos : Nat} {pre post : List Ptr}
    {p : Ptr} (hchain : chain pos = pre ++ p :: post) : p ∉ pre ++ post := by
  have hnodup := hB.nodup_chain pos
  rw [hchain] at hnodup
  exact (List.nodup_cons.mp (List.nodup_middle.mp hnodup)).1

/-- An item of a chain points to the next one. -/
theorem Buckets.next_split {heap : Heap (HashMapItem V)} {pool : List (Option Ptr)}
    {chain : Nat → List Ptr} (hB : Buckets heap pool chain) {pos : Nat} (hpos : pos < pool.length)
    {pre post : List Ptr} {p : Ptr} (hchain : chain pos = pre ++ p :: post) :
    ∃ item, heap.cells p = some item ∧ item.next = post.head? := by
  have hmem : p ∈ chain pos := by
    rw [hchain]
    simp
  obtain ⟨item, hitem⟩ :=
    Option.isSome_iff_exists.mp (isSome_cells_of_payloadAt (hB.live pos p hmem))
  have hseg := hB.seg pos pool[pos] (List.getElem?_eq_getElem hpos)
  rw [hchain] at hseg
  obtain ⟨m, _, _, hpost⟩ := IsSeg.append_iff.mp hseg
  refine ⟨item, hitem, ?_⟩
  rw [← itemNext_of_cells hitem, hpost.eq_head, Option.or_none]

/-- Unlinking one item: the chain continues at the item's own `next`. -/
theorem Buckets.unlink {s : HashMapState V} {chain : Nat → List Ptr}
    (hB : Buckets s.heap s.map.pool chain) {pos : Nat} (hpos : pos < s.map.pool.length)
    {pre post : List Ptr} {p : Ptr} (hchain : chain pos = pre ++ p :: post) :
    ∃ s', setLink s pre.getLast? pos (itemNext s.heap p) = some s' ∧
      Relinked s s' pre pos (itemNext s.heap p) ∧
      Buckets s'.heap s'.map.pool (Function.update chain pos (pre ++ post)) := by
  obtain ⟨s', hset, hR⟩ := setLink_spec hB hpos hchain (itemNext s.heap p)
  have hseg := hB.seg pos s.map.pool[pos] (List.getElem?_eq_getElem hpos)
  have hnodup := hseg.nodup
  rw [hchain] at hseg hnodup
  obtain ⟨m, _, _, hpost⟩ := IsSeg.append_iff.mp hseg
  have hmem : ∀ x ∈ post, x ∈ chain pos := by
    intro x hx
    rw [hchain]
    simp [hx]
  refine ⟨s', hset, hR, hB.relink hpos hchain hR hpost ?_ ?_⟩
  · exact fun x hx => hB.live pos x (hmem x hx)
  · intro x hx
    refine ⟨?_, fun i hi hxi => hi (hB.disjoint i pos x hxi (hmem x hx))⟩
    exact fun hxpre => hnodup.disjoint hxpre (List.mem_cons_of_mem p hx)

/-- The chains after the unlinking hold all items but that one. -/
theorem Buckets.mem_update_unlink {heap : Heap (HashMapItem V)} {pool : List (Option Ptr)}
    {chain : Nat → List Ptr} (hB : Buckets heap pool chain) {pos : Nat} {pre post : List Ptr}
    {p : Ptr} (hchain : chain pos = pre ++ p :: post) (q : Ptr) (i : Nat) :
    q ∈ Function.update chain pos (pre ++ post) i ↔ q ∈ chain i ∧ q ≠ p := by
  by_cases hi : i = pos
  · subst hi
    rw [Function.update_self, hchain]
    constructor
    · intro hq
      refine ⟨?_, fun heq => hB.notMem_split hchain (heq ▸ hq)⟩
      rcases List.mem_append.mp hq with hq | hq
      · exact List.mem_append_left _ hq
      · exact List.mem_append_right _ (List.mem_cons_of_mem p hq)
    · rintro ⟨hq, hqp⟩
      simpa [hqp] using hq
  · rw [Function.update_of_ne hi]
    refine ⟨fun hq => ⟨hq, ?_⟩, fun hq => hq.1⟩
    rintro rfl
    have hmem : q ∈ chain pos := by
      rw [hchain]
      simp
    exact hi (hB.disjoint i pos q hq hmem)

/-- The chains after one of them got the item `p` in addition. -/
theorem mem_update_of_mem_iff {chain : Nat → List Ptr} {pos : Nat} {xs : List Ptr} {p : Ptr}
    (hxs : ∀ q, q ∈ xs ↔ q = p ∨ q ∈ chain pos) (q : Ptr) (i : Nat) :
    q ∈ Function.update chain pos xs i ↔ (q = p ∧ i = pos) ∨ q ∈ chain i := by
  by_cases hi : i = pos
  · subst hi
    rw [Function.update_self, hxs]
    simp
  · rw [Function.update_of_ne hi]
    simp [hi]

/-! ## Prepending an item -/

/-- `item->next = map->pool[target]; map->pool[target] = item` for an item that no
    chain holds. -/
theorem Buckets.prepend {heap : Heap (HashMapItem V)} {pool : List (Option Ptr)}
    {chain : Nat → List Ptr} (hB : Buckets heap pool chain) {target : Nat}
    (htarget : target < pool.length) {p : Ptr} (hp : (payloadAt heap p).isSome)
    (hfresh : ∀ i, p ∉ chain i) :
    ∃ heap', setNext heap p pool[target] = some heap' ∧
      payloadAt heap' = payloadAt heap ∧
      (∀ x, x ≠ p → itemNext heap' x = itemNext heap x) ∧
      Buckets heap' (pool.set target (some p))
        (Function.update chain target (p :: chain target)) := by
  obtain ⟨heap', hset, hnext, hpay⟩ := setNext_spec pool[target] hp
  refine ⟨heap', hset, hpay, ?_, ?_, ?_, ?_, ?_⟩
  · intro x hx
    rw [hnext, Function.update_of_ne hx]
  · intro i head hhead
    rw [hnext]
    by_cases hi : i = target
    · subst hi
      rw [List.getElem?_set_self htarget] at hhead
      rw [Function.update_self]
      refine ⟨(Option.some.inj hhead).symm, ?_⟩
      rw [Function.update_self]
      exact (hB.seg i _ (List.getElem?_eq_getElem htarget)).update_of_notMem (hfresh i) _
    · rw [List.getElem?_set_ne (Ne.symm hi)] at hhead
      rw [Function.update_of_ne hi]
      exact (hB.seg i head hhead).update_of_notMem (hfresh i) _
  · intro i hi
    rw [List.length_set] at hi
    have hne : i ≠ target := by omega
    rw [Function.update_of_ne hne]
    exact hB.outside i hi
  · intro i x hx
    rw [hpay]
    by_cases hi : i = target
    · subst hi
      rw [Function.update_self] at hx
      rcases List.mem_cons.mp hx with rfl | hx
      · exact hp
      · exact hB.live i x hx
    · rw [Function.update_of_ne hi] at hx
      exact hB.live i x hx
  · intro i j x hxi hxj
    -- the new item is in one chain only, the others are where they were
    by_cases hxp : x = p
    · subst hxp
      have honly : ∀ i, x ∈ Function.update chain target (x :: chain target) i → i = target := by
        intro i hx
        by_contra hi
        rw [Function.update_of_ne hi] at hx
        exact hfresh i hx
      rw [honly i hxi, honly j hxj]
    · have hold : ∀ i, x ∈ Function.update chain target (p :: chain target) i → x ∈ chain i := by
        intro i hx
        by_cases hi : i = target
        · subst hi
          rw [Function.update_self] at hx
          exact (List.mem_cons.mp hx).resolve_left hxp
        · rwa [Function.update_of_ne hi] at hx
      exact hB.disjoint i j x (hold i hxi) (hold j hxj)

end CUtils
