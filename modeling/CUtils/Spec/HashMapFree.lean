import CUtils.Spec.HashMapCorrect
import CUtils.Spec.HashMapIter

/-!
# Freeing a hash map

`hash_map_free` walks the chains, hands every entry to the callback and releases its item.
Of the fields of the map it resets `capacity` twice and `count` not at all.

- `hashMapFree_spec`: the entries that the callback gets, and the map that is left.
- `hashMapFree_correct_iff`: for which maps it is empty in all its fields.
-/

namespace CUtils

open StepSystem

variable {V : Type}

/-- The callback on every entry of a list. -/
def callbackAll {σ : Type} (callback : σ → CString → Option V → Option σ)
    (entries : List (CString × Option V)) (t : σ) : Option σ :=
  entries.foldlM (fun t e => callback t e.1 e.2) t

/-- The items `ps` of a chain hold the entries. -/
structure EntryChain (heap : Heap (HashMapItem V)) (head : Option Ptr) (ps : List Ptr)
    (entries : List (CString × Option V)) : Prop where
  seg : IsSeg (itemNext heap) head ps none
  live : ∀ p ∈ ps, (payloadAt heap p).isSome
  entries_eq : ps.map (itemEntry heap) = entries.map some

/-- What happens to other items does not matter. -/
theorem EntryChain.congr {heap heap' : Heap (HashMapItem V)} {head : Option Ptr} {ps : List Ptr}
    {entries : List (CString × Option V)} (h : EntryChain heap head ps entries)
    (hcells : ∀ p ∈ ps, heap'.cells p = heap.cells p) : EntryChain heap' head ps entries where
  seg := h.seg.congr fun p hp => by rw [itemNext, itemNext, hcells p hp]
  live := by
    intro p hp
    rw [payloadAt, hcells p hp]
    exact h.live p hp
  entries_eq := by
    rw [← h.entries_eq]
    apply List.map_congr_left
    intro p hp
    rw [itemEntry, itemEntry, payloadAt, payloadAt, hcells p hp]

/-- The first item of a chain, and the chain behind it. -/
theorem EntryChain.exists_item {heap : Heap (HashMapItem V)} {head : Option Ptr} {p : Ptr}
    {ps : List Ptr} {entries : List (CString × Option V)}
    (h : EntryChain heap head (p :: ps) entries) :
    ∃ item rest, head = some p ∧ heap.cells p = some item ∧
      entries = (item.key, item.val) :: rest ∧ EntryChain heap item.next ps rest := by
  obtain ⟨item, hhead, hitem, hpay, hseg, hlive⟩ := exists_item_of_isSeg_cons h.seg h.live
  have hentries := h.entries_eq
  cases entries with
  | nil => cases hentries
  | cons e rest =>
    rw [List.map_cons, List.map_cons, List.cons.injEq] at hentries
    obtain ⟨he, hrest⟩ := hentries
    rw [itemEntry, hpay] at he
    obtain rfl : (item.key, item.val) = e := Option.some.inj he
    exact ⟨item, rest, hhead, hitem, rfl, hseg, hlive, hrest⟩

/-- One chain: its entries are handed to the callback, and its items are released. -/
theorem hashMapFreeChain_spec {σ : Type} (callback : σ → CString → Option V → Option σ)
    {heap : Heap (HashMapItem V)} {head : Option Ptr} {ps : List Ptr} {fuel : Nat}
    {entries : List (CString × Option V)} (h : EntryChain heap head ps entries)
    (hfuel : ps.length < fuel) (t : σ) :
    hashMapFreeChain callback fuel heap t head =
      (callbackAll callback entries t).map fun t' => (heap.freeAll ps, t') := by
  induction ps generalizing heap head entries fuel t with
  | nil =>
    obtain ⟨n, rfl⟩ : ∃ n, fuel = n + 1 := ⟨fuel - 1, by simp at hfuel; omega⟩
    obtain rfl : head = none := h.seg
    obtain rfl := List.map_eq_nil_iff.mp h.entries_eq.symm
    rfl
  | cons p ps ih =>
    obtain ⟨n, rfl⟩ : ∃ n, fuel = n + 1 := ⟨fuel - 1, by simp at hfuel; omega⟩
    have hp : p ∉ ps := (List.nodup_cons.mp h.seg.nodup).1
    obtain ⟨item, rest, rfl, hitem, rfl, hrest⟩ := h.exists_item
    -- the rest of the chain is not touched by the release of its first item
    have hfree : EntryChain (heap.free p) item.next ps rest := by
      apply hrest.congr
      intro q hq
      have hne : q ≠ p := fun heq => hp (heq ▸ hq)
      rw [Heap.cells_free, Function.update_of_ne hne]
    rw [callbackAll, List.foldlM_cons]
    simp only [hashMapFreeChain, hitem, Option.bind_eq_bind, Option.bind_some]
    cases hcall : callback t item.key item.val with
    | none => rfl
    | some t' => exact ih hfree (by simpa using hfuel) t'

theorem callbackAll_append {σ : Type} (callback : σ → CString → Option V → Option σ)
    (entries entries' : List (CString × Option V)) (t : σ) :
    callbackAll callback (entries ++ entries') t =
      (callbackAll callback entries t).bind (callbackAll callback entries') :=
  List.foldlM_append

/-- The body of the outer loop of `hash_map_free`. -/
def hashMapFreeBucket {σ : Type} (callback : σ → CString → Option V → Option σ)
    (s : HashMapState V) (acc : Heap (HashMapItem V) × σ) (pos : Nat) :
    Option (Heap (HashMapItem V) × σ) := do
  let head ← s.map.pool[pos]?
  hashMapFreeChain callback (chainFuel acc.1) acc.1 acc.2 head

/-- The first `n` chains. -/
theorem hashMapFree_loop {σ : Type} (callback : σ → CString → Option V → Option σ)
    {s : HashMapState V} {chain : Nat → List Ptr} (h : HashMapWf s chain) {n : Nat}
    (hn : n ≤ s.map.capacity) {entries : List (CString × Option V)}
    (hentries : (members chain n).map (itemEntry s.heap) = entries.map some) (t : σ) :
    (List.range n).foldlM (hashMapFreeBucket callback s) (s.heap, t) =
      (callbackAll callback entries t).map fun t' => (s.heap.freeAll (members chain n), t') := by
  induction n generalizing entries with
  | zero =>
    obtain rfl := List.map_eq_nil_iff.mp hentries.symm
    rfl
  | succ n ih =>
    rw [members_succ, List.map_append] at hentries
    obtain ⟨es₁, es₂, rfl, h₁, h₂⟩ := List.map_eq_append_iff.mp hentries.symm
    rw [List.range_succ, List.foldlM_append, ih (by omega) h₁.symm, callbackAll_append,
      members_succ, Heap.freeAll_append]
    cases hcall : callbackAll callback es₁ t with
    | none => rfl
    | some t₁ =>
      -- the items of the next chain have not been released yet
      have hcells : ∀ q ∈ chain n,
          (s.heap.freeAll (members chain n)).cells q = s.heap.cells q := by
        intro q hq
        have hnot : q ∉ members chain n := by
          rw [members, List.mem_flatMap]
          rintro ⟨i, hi, hqi⟩
          have hin := h.disjoint i n q hqi hq
          exact absurd (List.mem_range.mp hi) (by omega)
        rw [Heap.cells_freeAll, if_neg hnot]
      have hlt : n < s.map.pool.length := by
        rw [h.pool_length]
        exact hn
      have hget := List.getElem?_eq_getElem hlt
      have hchain : EntryChain s.heap s.map.pool[n] (chain n) es₂ :=
        ⟨h.seg n _ hget, h.live n, h₂.symm⟩
      have hfuel : (chain n).length < chainFuel (s.heap.freeAll (members chain n)) := by
        rw [chainFuel, Heap.limit_freeAll]
        exact h.length_lt_chainFuel n
      simp only [Option.map_some, Option.bind_eq_bind, Option.bind_some, List.foldlM_cons,
        List.foldlM_nil, hashMapFreeBucket, hget,
        hashMapFreeChain_spec callback (hchain.congr hcells) hfuel, Option.pure_def,
        Option.bind_fun_some]

/-- `hash_map_free` hands the entries of the map to the callback, bucket by bucket. -/
theorem hashMapFree_spec {σ : Type} (callback : σ → CString → Option V → Option σ)
    {s : HashMapState V} {chain : Nat → List Ptr} (h : HashMapWf s chain)
    {entries : List (CString × Option V)}
    (hentries : (members chain s.map.capacity).map (itemEntry s.heap) = entries.map some) (t : σ) :
    hashMapFree callback s t = (callbackAll callback entries t).map fun t' =>
      ({ heap := s.heap.freeAll (members chain s.map.capacity),
         map := { pool := [], capacity := 0, count := s.map.count } }, t') := by
  have hbody : hashMapFree callback s t =
      ((List.range s.map.capacity).foldlM (hashMapFreeBucket callback s) (s.heap, t)).bind fun r =>
        some ({ heap := r.1, map := { s.map with pool := [], capacity := 0 } }, r.2) := rfl
  rw [hbody, hashMapFree_loop callback h (Nat.le_refl _) hentries t]
  cases callbackAll callback entries t <;> rfl

/-- A map that is empty in all its fields. -/
structure HashMapCleared (map : HashMap) : Prop where
  pool_eq : map.pool = []
  capacity_eq : map.capacity = 0
  count_eq : map.count = 0

/-- In every map reached from `hash_map_init`, `hash_map_free` invokes the callback once for
    each stored binding, whatever the callback does, and releases the items.  The map is then
    empty in all its fields exactly when nothing was stored. -/
theorem hashMapFree_correct_iff (dense : DensityTest) (alloc : Allocator (HashMapItem V))
    (ops : List (HashMapOp V)) :
    ∃ s outs, runOut (hashMapStep dense alloc) hashMapInit ops = some (s, outs) ∧
      ∃ (entries : List (CString × Option V)) (s' : HashMapState V),
        (entries.map Prod.fst).Nodup ∧
        (∀ k v, (k, v) ∈ entries ↔ lastBinding k ops = some v) ∧
        (∀ (σ : Type) (callback : σ → CString → Option V → Option σ) (t : σ),
          hashMapFree callback s t =
            (callbackAll callback entries t).map fun t' => (s', t')) ∧
        (HashMapCleared s'.map ↔ ∀ k, lastBinding k ops = none) := by
  obtain ⟨s, d, outs, hrun, hspec, ⟨chain, hwf, hd⟩, _⟩ :=
    hashMap_run_spec dense alloc hashMapInit_repr ops
  obtain rfl := runOut_dictStep_eq_lastBinding ops hspec
  obtain ⟨entries, hmap, hlen, hnodup, hmem⟩ := hwf.entries hd
  refine ⟨s, outs, hrun, entries, _, hnodup, hmem,
    fun σ callback t => hashMapFree_spec callback hwf hmap t, ?_⟩
  -- nothing is stored if there is no binding
  have hempty : entries = [] ↔ ∀ k, lastBinding k ops = none := by
    rw [List.eq_nil_iff_forall_not_mem]
    constructor
    · intro hnone k
      rw [Option.eq_none_iff_forall_ne_some]
      intro v hv
      exact hnone (k, v) ((hmem k v).mpr hv)
    · rintro hnone ⟨k, v⟩ hkv
      have hbound := (hmem k v).mp hkv
      rw [hnone k] at hbound
      cases hbound
  rw [← hempty, ← List.length_eq_zero_iff, hlen]
  exact ⟨fun h => h.count_eq, fun h => ⟨rfl, rfl, h⟩⟩

/-- A map with one entry keeps its count. -/
theorem hashMapFree_keeps_count :
    ∃ s s' outs, runOut (hashMapStep mapDensityExceeds (.bump (HashMapItem Nat))) hashMapInit
        [.insert ⟨[97], by decide⟩ (some 5)] = some (s, outs) ∧
      hashMapFree (fun calls k v => some ((k, v) :: calls)) s [] =
        some (s', [(⟨[97], by decide⟩, some 5)]) ∧
      s'.map.pool = [] ∧ s'.map.capacity = 0 ∧ s'.map.count = 1 ∧ ¬HashMapCleared s'.map := by
  refine ⟨_, _, _, rfl, rfl, rfl, rfl, rfl, ?_⟩
  intro h
  exact absurd h.count_eq (by decide)

end CUtils
