import CUtils.Spec.HashMapIter
import CUtils.Spec.ChannelCorrect

/-!
# Deleting while iterating

`HASH_MAP_FOREACH` with a body that deletes the key just visited.  The iterator caches
the `next` pointer of an item before the body frees the item, and everything in front of
the cached pointer is gone by then, so the item that is unlinked is always the head of
its chain (`ItFront`).

- `hashMapForeach_delete`: the loop rule for such bodies.
- `channelTeardownLoop_spec`: the teardown of a channel manager.
-/

namespace CUtils

open StepSystem

variable {V : Type}

/-- The iterator is at the first items of the map: the buckets that it has passed are
    empty, apart from the cached chain. -/
structure ItFront (s : HashMapState V) (chain : Nat → List Ptr) (it : HashMapIterator)
    (cur : List Ptr) : Prop extends ItAt s it cur where
  passed : ∀ i, i + 1 < it.pos → chain i = []
  cached : cur = if it.pos = 0 then [] else chain (it.pos - 1)

theorem hashMapItInit_front (s : HashMapState V) (chain : Nat → List Ptr) :
    ItFront s chain hashMapItInit [] :=
  ⟨hashMapItInit_at s, fun _ hi => absurd hi (Nat.not_lt_zero _), rfl⟩

section Front

variable {s : HashMapState V} {chain : Nat → List Ptr} {it : HashMapIterator} {cur : List Ptr}

/-- The items in front of the iterator are all items of the map. -/
theorem ItFront.members_eq (h : HashMapWf s chain) (hf : ItFront s chain it cur) :
    members chain s.map.capacity = cur ++ bucketsFrom chain it.pos s.map.capacity := by
  rw [← bucketsFrom_zero]
  have hcur := hf.cached
  cases hpos : it.pos with
  | zero =>
    rw [hpos, if_pos rfl] at hcur
    rw [hcur, List.nil_append]
  | succ m =>
    rw [hpos, if_neg (Nat.succ_ne_zero m), Nat.add_sub_cancel] at hcur
    have hempty : ∀ i, 0 ≤ i → i < m → chain i = [] := fun i _ hi => hf.passed i (by omega)
    rw [bucketsFrom_skip (Nat.zero_le m) hempty, hcur]
    by_cases hm : m < s.map.capacity
    · exact bucketsFrom_succ chain hm
    · rw [h.outside m (by rw [h.pool_length]; omega), bucketsFrom_of_le chain (by omega),
        bucketsFrom_of_le chain (by omega), List.nil_append]

/-- The item that `hash_map_it_next` returns is the head of its chain. -/
theorem ItFront.next (h : HashMapWf s chain) (hf : ItFront s chain it cur) {p : Ptr}
    {rest : List Ptr} (hrest : members chain s.map.capacity = p :: rest) :
    ∃ it' cur' payload, payloadAt s.heap p = some payload ∧
      hashMapItNext s it = some (it', ⟨0, some (payload.key, payload.val)⟩) ∧
      ItAt s it' cur' ∧ rest = cur' ++ bucketsFrom chain it'.pos s.map.capacity ∧
      0 < it'.pos ∧ chain (it'.pos - 1) = p :: cur' ∧ ∀ i, i + 1 < it'.pos → chain i = [] := by
  rw [hf.members_eq h] at hrest
  obtain ⟨it', cur', payload, hpay, hnext, hit', hrest', hwhere⟩ :=
    hashMapItNext_yields h hf.toItAt hrest
  refine ⟨it', cur', payload, hpay, hnext, hit', hrest', ?_⟩
  have hcur := hf.cached
  rcases hwhere with ⟨hpos, rfl⟩ | ⟨rfl, hlt, hchain, hempty⟩
  · -- the next item of the cached chain
    have hne : it.pos ≠ 0 := by
      intro hzero
      rw [if_pos hzero] at hcur
      cases hcur
    rw [if_neg hne] at hcur
    rw [hpos]
    exact ⟨by omega, hcur.symm, hf.passed⟩
  · -- the head of a later bucket
    refine ⟨by omega, hchain, ?_⟩
    intro i hi
    by_cases hip : it.pos ≤ i
    · exact hempty i hip hi
    · by_cases hlast : i + 1 = it.pos
      · rw [if_neg (by omega)] at hcur
        rw [hcur]
        congr 1
        omega
      · exact hf.passed i (by omega)

/-- Only the buckets from `pos` on matter. -/
theorem bucketsFrom_congr {chain chain' : Nat → List Ptr} {pos capacity : Nat}
    (h : ∀ i, pos ≤ i → chain' i = chain i) :
    bucketsFrom chain' pos capacity = bucketsFrom chain pos capacity := by
  apply List.flatMap_congr
  intro i hi
  exact h i (List.mem_range'_1.mp hi).1

/-- After that item is deleted the iterator is at the first items of the map again. -/
theorem ItFront.delete (h : HashMapWf s chain) {it' : HashMapIterator} {cur' : List Ptr} {p : Ptr}
    {payload : Payload V} (hpay : payloadAt s.heap p = some payload) (hit : ItAt s it' cur')
    (hpos : 0 < it'.pos) (hchain : chain (it'.pos - 1) = p :: cur')
    (hpassed : ∀ i, i + 1 < it'.pos → chain i = []) (keyHash : UInt32) :
    ∃ t chain', hashMapDelete s (some payload.key) keyHash = some (t, payload.val) ∧
      HashMapWf t chain' ∧ ItFront t chain' it' cur' ∧ t.map.capacity = s.map.capacity ∧
      (∀ q, q ≠ p → payloadAt t.heap q = payloadAt s.heap q) ∧
      bucketsFrom chain' it'.pos t.map.capacity = bucketsFrom chain it'.pos s.map.capacity := by
  have hfront : chain (it'.pos - 1) = [] ++ p :: cur' := hchain
  obtain ⟨t, hrun, _, hU, hwf⟩ := h.delete hfront hpay keyHash
  have hp : p ∉ cur' := h.notMem_split hfront
  -- the iterator does not point to the freed item
  have hne : ∀ q ∈ cur', q ≠ p := fun q hq heq => hp (heq ▸ hq)
  refine ⟨t, _, hrun, hwf, ⟨⟨?_, ?_⟩, ?_, ?_⟩, hU.capacity_eq, hU.payload_eq, ?_⟩
  · exact hit.seg.congr fun q hq => hU.next_eq q List.not_mem_nil (hne q hq)
  · intro q hq
    rw [hU.payload_eq q (hne q hq)]
    exact hit.live q hq
  · intro i hi
    rw [Function.update_of_ne (by omega)]
    exact hpassed i hi
  · rw [if_neg (by omega), Function.update_self, List.nil_append]
  · rw [hU.capacity_eq]
    apply bucketsFrom_congr
    intro i hi
    rw [Function.update_of_ne (by omega)]

end Front

/-- A pool and the links of a heap store one family of chains only. -/
theorem Buckets.unique {heap : Heap (HashMapItem V)} {pool : List (Option Ptr)}
    {chain chain' : Nat → List Ptr} (h : Buckets heap pool chain) (h' : Buckets heap pool chain') :
    chain = chain' := by
  funext i
  by_cases hi : i < pool.length
  · have hhead := List.getElem?_eq_getElem hi
    exact (h.seg i _ hhead).unique (h'.seg i _ hhead)
  · rw [h.outside i (by omega), h'.outside i (by omega)]

/-- A stored item is bound in the dictionary of the map. -/
theorem HashMapRepr.eq_of_mem {s : HashMapState V} {d : Dict V} (h : HashMapRepr s d)
    {chain : Nat → List Ptr} (hwf : HashMapWf s chain) {i : Nat} {p : Ptr} (hp : p ∈ chain i)
    {payload : Payload V} (hpay : payloadAt s.heap p = some payload) :
    d payload.key = some payload.val := by
  obtain ⟨chain', hwf', hd⟩ := h
  obtain rfl := hwf.toBuckets.unique hwf'.toBuckets
  exact (hd _ _).mpr ⟨p, payload, ⟨i, hp⟩, hpay, rfl, rfl⟩

/-- A well formed map without items represents the empty dictionary. -/
theorem HashMapWf.repr_empty {s : HashMapState V} (h : HashMapWf s fun _ => []) :
    HashMapRepr s fun _ => none := by
  refine ⟨_, h, ?_⟩
  intro k v
  constructor
  · intro hkv
    cases hkv
  · rintro ⟨p, _, ⟨_, hp⟩, _⟩
    exact absurd hp List.not_mem_nil

/-- The loop rule of `HASH_MAP_FOREACH` for a body that deletes the key it is given.  `P`
    relates the state of the loop to the bindings still to be visited. -/
theorem hashMapForeach_delete {σ : Type} {map : σ → HashMapState V}
    {body : σ → CString → Option V → Option σ} {P : σ → List (CString × Option V) → Prop}
    (hbody : ∀ t key val rest, P t ((key, val) :: rest) →
      (∀ d, HashMapRepr (map t) d → d key = some val) →
      ∃ t' keyHash val', body t key val = some t' ∧ P t' rest ∧
        hashMapDelete (map t) (some key) keyHash = some (map t', val'))
    {t : σ} {chain : Nat → List Ptr} {it : HashMapIterator} {cur : List Ptr}
    {entries : List (CString × Option V)} (hwf : HashMapWf (map t) chain)
    (hf : ItFront (map t) chain it cur)
    (hentries : (members chain (map t).map.capacity).map (itemEntry (map t).heap) =
      entries.map some) (hP : P t entries) {fuel : Nat} (hfuel : entries.length < fuel) :
    ∃ t', hashMapForeach map body fuel t it = some t' ∧ P t' [] ∧
      HashMapWf (map t') fun _ => [] := by
  induction entries generalizing t chain it cur fuel with
  | nil =>
    obtain ⟨fuel, rfl⟩ : ∃ n, fuel = n + 1 := ⟨fuel - 1, by simp at hfuel; omega⟩
    have hmembers : members chain (map t).map.capacity = [] := by
      simpa using hentries
    have hrest := hmembers
    rw [hf.members_eq hwf] at hrest
    obtain ⟨it', hnext, _⟩ := hashMapItNext_end hwf hf.toItAt hrest
    have hchain : chain = fun _ => [] := by
      funext i
      apply List.eq_nil_iff_forall_not_mem.mpr
      intro p hp
      have hmem := hwf.mem_members_iff.mpr ⟨i, hp⟩
      rw [hwf.pool_length, hmembers] at hmem
      exact List.not_mem_nil hmem
    refine ⟨t, ?_, hP, hchain ▸ hwf⟩
    simp [hashMapForeach, hnext]
  | cons entry rest ih =>
    obtain ⟨fuel, rfl⟩ : ∃ n, fuel = n + 1 := ⟨fuel - 1, by simp at hfuel; omega⟩
    cases hmembers : members chain (map t).map.capacity with
    | nil =>
      rw [hmembers] at hentries
      cases hentries
    | cons p ps =>
      obtain ⟨it', cur', payload, hpay, hnext, hit', hps, hpos, hchain, hpassed⟩ :=
        hf.next hwf hmembers
      rw [hmembers, List.map_cons, List.map_cons, itemEntry, hpay, Option.map_some] at hentries
      obtain ⟨hentry, hrest⟩ := List.cons_eq_cons.mp hentries
      obtain rfl := Option.some.inj hentry
      have hp : p ∈ chain (it'.pos - 1) := by
        rw [hchain]
        exact List.mem_cons_self
      obtain ⟨t', keyHash, val', hrun, hP', hdelete⟩ := hbody t payload.key payload.val rest hP
        fun d hd => hd.eq_of_mem hwf hp hpay
      obtain ⟨m, chain', hrun', hwf', hf', hcap, hpay', hbuckets⟩ :=
        ItFront.delete hwf hpay hit' hpos hchain hpassed keyHash
      obtain ⟨rfl, _⟩ := Prod.mk.inj (Option.some.inj (hdelete.symm.trans hrun'))
      -- the items left are the old ones without `p`
      have hmembers' : members chain' (map t').map.capacity = ps := by
        rw [hf'.members_eq hwf', hbuckets, hps]
      have hnodup : (members chain (map t).map.capacity).Nodup := hwf.nodup_members _
      rw [hmembers] at hnodup
      have hentries' : (members chain' (map t').map.capacity).map (itemEntry (map t').heap) =
          rest.map some := by
        rw [hmembers', ← hrest]
        apply List.map_congr_left
        intro q hq
        have hqp : q ≠ p := fun heq => (List.nodup_cons.mp hnodup).1 (heq ▸ hq)
        rw [itemEntry, itemEntry, hpay' q hqp]
      obtain ⟨t'', hloop, hP'', hwf''⟩ := ih hwf' hf' hentries' hP' (by simpa using hfuel)
      refine ⟨t'', ?_, hP'', hwf''⟩
      simp only [hashMapForeach, hnext, Option.bind_eq_bind, Option.bind_some, ↓reduceIte, hrun]
      exact hloop

/-! ## Freeing an empty map -/

/-- `hash_map_free` of a map without items does not invoke the callback. -/
theorem hashMapFree_empty {σ : Type} {s : HashMapState V} (h : HashMapWf s fun _ => [])
    (callback : σ → CString → Option V → Option σ) (t : σ) :
    hashMapFree callback s t =
      some ({ heap := s.heap, map := { s.map with pool := [], capacity := 0 } }, t) := by
  obtain ⟨acc, hloop, rfl⟩ := List.foldlM_range_inv (n := s.map.capacity) (s := (s.heap, t))
    (f := fun acc pos => do
      let head ← s.map.pool[pos]?
      hashMapFreeChain callback (chainFuel acc.1) acc.1 acc.2 head)
    (P := fun _ acc => acc = (s.heap, t)) rfl (by
      rintro k acc hk rfl
      rw [← h.pool_length] at hk
      have hhead := List.getElem?_eq_getElem hk
      have hnull : s.map.pool[k] = none := h.seg k _ hhead
      refine ⟨_, ?_, rfl⟩
      rw [hhead, hnull]
      rfl)
  rw [hashMapFree, hloop]
  rfl

/-! ## Deleting every visited key -/

/-- A loop body that deletes the key just visited; the visits are recorded. -/
def deleteVisited (keyHash : UInt32) (t : HashMapState V × List (CString × Option V))
    (key : CString) (val : Option V) : Option (HashMapState V × List (CString × Option V)) := do
  let (s, _) ← hashMapDelete t.1 (some key) keyHash
  return (s, t.2 ++ [(key, val)])

/-- Running `HASH_MAP_FOREACH` with that body visits every binding once and leaves an
    empty map. -/
theorem hashMapForeach_deleteVisited {s : HashMapState V} {d : Dict V} (h : HashMapRepr s d) :
    ∃ entries : List (CString × Option V), entries.length = s.map.count ∧
      (entries.map Prod.fst).Nodup ∧ (∀ k v, (k, v) ∈ entries ↔ d k = some v) ∧
      ∀ keyHash fuel, s.map.count < fuel →
        ∃ s', hashMapForeach Prod.fst (deleteVisited keyHash) fuel (s, []) hashMapItInit =
            some (s', entries) ∧ HashMapWf s' fun _ => [] := by
  obtain ⟨chain, hwf, hd⟩ := id h
  obtain ⟨entries, hmap, hlen, hnodup, hmem⟩ := hwf.entries hd
  refine ⟨entries, hlen, hnodup, hmem, ?_⟩
  intro keyHash fuel hfuel
  -- what is visited already and what is still to come
  let P : HashMapState V × List (CString × Option V) → List (CString × Option V) → Prop :=
    fun t rest => (∃ d, HashMapRepr t.1 d) ∧ t.2 ++ rest = entries
  have hbody : ∀ t key val rest, P t ((key, val) :: rest) →
      (∀ d, HashMapRepr (Prod.fst t) d → d key = some val) →
      ∃ t' keyHash' val', deleteVisited keyHash t key val = some t' ∧ P t' rest ∧
        hashMapDelete (Prod.fst t) (some key) keyHash' = some (Prod.fst t', val') := by
    rintro ⟨s, visited⟩ key val rest ⟨⟨d, hd⟩, hvisited⟩ _
    obtain ⟨s', hrun, hd', _⟩ := hashMapDelete_spec hd key keyHash
    refine ⟨(s', visited ++ [(key, val)]), keyHash, _, ?_, ⟨⟨_, hd'⟩, ?_⟩, hrun⟩
    · simp only [deleteVisited, hrun, Option.bind_eq_bind, Option.bind_some, Option.pure_def]
    · rw [← hvisited, List.append_assoc, List.singleton_append]
  have hinit : P (s, []) entries := ⟨⟨d, h⟩, rfl⟩
  obtain ⟨⟨s', visited⟩, hrun, ⟨_, hvisited⟩, hwf'⟩ := hashMapForeach_delete hbody hwf
    (hashMapItInit_front s chain) hmap hinit (hlen ▸ hfuel)
  rw [List.append_nil] at hvisited
  subst hvisited
  exact ⟨s', hrun, hwf'⟩

/-! ## The channel manager -/

/-- The call of the backend teardown that an open channel is owed. -/
def teardownOf (o : OpenChannel) : Option BackendCall := do
  let ops ← channelOps o.channel.type
  let teardown ← ops.teardown
  return .teardown teardown o.channel.data

/-- The loop body of the teardown closes the channel of the device that it is given. -/
theorem channelTeardownBody_spec {s : ChannelState} {opened : List OpenChannel}
    (h : ChannelRepr s opened) {o : OpenChannel} {name : CString}
    (ho : latestOpen opened (some name) = some o) (calls : List BackendCall) (c : Option Ptr) :
    ∃ s' call val, channelTeardownBody (s, calls) name c = some (s', calls ++ [call]) ∧
      teardownOf o = some call ∧ s'.objects = s.objects.free o.object ∧
      ChannelRepr s' (opened.eraseP fun o => decide (o.channel.device = some name)) ∧
      hashMapDelete s.ctx.channels (some name) 0 = some (s'.ctx.channels, val) := by
  obtain ⟨channels, val, fns, setup, hdelete, _, _, hops, hclose⟩ := channelClose_open h ho
  refine ⟨_, .teardown fns.teardown o.channel.data, val, ?_, ?_, rfl, (channelClose_spec h hclose).1,
    hdelete⟩
  · simp only [channelTeardownBody, hclose, Option.bind_eq_bind, Option.bind_some, Option.pure_def]
  · simp only [teardownOf, hops, Option.bind_eq_bind, Option.bind_some, Option.pure_def]

/-- The loop of `channel_manager_teardown` calls the teardown of every open channel once,
    frees its object, and leaves an empty map. -/
theorem channelTeardownLoop_spec {s : ChannelState} {opened : List OpenChannel}
    (h : ChannelRepr s opened) {fuel : Nat} (hfuel : opened.length < fuel) :
    ∃ s' calls, hashMapForeach (fun t => t.1.ctx.channels) channelTeardownBody fuel (s, [])
        hashMapItInit = some (s', calls) ∧
      (calls.map some).Perm (opened.map teardownOf) ∧ s'.ctx.openChannels = 0 ∧
      (∀ o ∈ opened, s'.objects.cells o.object = none) ∧
      HashMapWf s'.ctx.channels fun _ => [] := by
  obtain ⟨chain, hwf, hd⟩ := id h.map_repr
  obtain ⟨entries, hmap, hlen, _, _⟩ := hwf.entries hd
  rw [h.count_eq.2] at hlen
  -- some channels are still open, the others were torn down and freed
  let P : ChannelState × List BackendCall → List (CString × Option Ptr) → Prop := fun t _ =>
    ∃ left, ChannelRepr t.1 left ∧
      (t.2.map some ++ left.map teardownOf).Perm (opened.map teardownOf) ∧
      ∀ o ∈ opened, o ∈ left ∨ t.1.objects.cells o.object = none
  have hbody : ∀ t key val rest, P t ((key, val) :: rest) →
      (∀ d, HashMapRepr t.1.ctx.channels d → d key = some val) →
      ∃ t' keyHash val', channelTeardownBody t key val = some t' ∧ P t' rest ∧
        hashMapDelete t.1.ctx.channels (some key) keyHash = some (t'.1.ctx.channels, val') := by
    rintro ⟨s, calls⟩ key val rest ⟨left, hleft, hperm, hfreed⟩ hkey
    obtain ⟨o, ho, _⟩ := Option.map_eq_some_iff.mp (hkey _ hleft.map_repr)
    obtain ⟨s', call, val', hrun, hcall, hobjects, hrepr, hdelete⟩ :=
      channelTeardownBody_spec hleft ho calls val
    obtain ⟨hmem, hdevice⟩ := mem_of_latestOpen ho
    obtain ⟨a, l₁, l₂, _, ha, hsplit, herase⟩ := List.exists_of_eraseP
      (p := fun o : OpenChannel => decide (o.channel.device = some key)) hmem (by simpa using hdevice)
    -- the channel that leaves the list is the one that was closed
    obtain rfl : a = o := by
      have hdevices : a.channel.device = o.channel.device := by
        rw [hdevice]
        simpa using ha
      exact List.inj_on_of_nodup_map hleft.nodup_devices (by rw [hsplit]; simp) hmem hdevices
    rw [herase] at hrepr
    refine ⟨(s', calls ++ [call]), 0, val', hrun, ⟨_, hrepr, ?_, ?_⟩, hdelete⟩
    · refine List.Perm.trans ?_ hperm
      simp only [hsplit, List.map_append, List.map_cons, List.map_nil, ← hcall, List.append_assoc,
        List.singleton_append]
      apply List.Perm.append_left
      exact List.perm_middle.symm
    · intro o' ho'
      have hcells : s'.objects.cells = Function.update s.objects.cells a.object none := by
        rw [hobjects, Heap.cells_free]
      simp only [hcells]
      by_cases hobject : o'.object = a.object
      · right
        rw [hobject, Function.update_self]
      · rw [Function.update_of_ne hobject]
        rcases hfreed o' ho' with ho'left | hnone
        · left
          rw [hsplit] at ho'left
          have hne : o' ≠ a := fun heq => hobject (by rw [heq])
          simpa [hne] using ho'left
        · exact .inr hnone
  have hinit : P (s, []) entries := ⟨opened, h, by simp, fun o ho => .inl ho⟩
  obtain ⟨⟨s', calls⟩, hrun, ⟨left, hleft, hperm, hfreed⟩, hwf'⟩ :=
    hashMapForeach_delete hbody hwf
      (hashMapItInit_front _ chain) hmap hinit (hlen ▸ hfuel)
  -- an empty map leaves no channel open
  obtain rfl : left = [] := by
    have hcount := hwf'.count_eq
    rw [hleft.count_eq.2] at hcount
    simpa [members] using hcount
  refine ⟨s', calls, hrun, by simpa using hperm, by simpa using hleft.counter, ?_, hwf'⟩
  intro o ho
  exact (hfreed o ho).resolve_left List.not_mem_nil

/-- After a loop that leaves an empty map `hash_map_free` has nothing to pass to its
    callback. -/
theorem channelManagerTeardown_of_loop {s s' : ChannelState} {calls : List BackendCall}
    {fuel : Nat} (hloop : hashMapForeach (fun t => t.1.ctx.channels) channelTeardownBody fuel
      (s, []) hashMapItInit = some (s', calls)) (hwf : HashMapWf s'.ctx.channels fun _ => []) :
    ∃ s'', channelManagerTeardown fuel s = some (s'', calls) ∧
      s''.ctx.openChannels = s'.ctx.openChannels := by
  simp only [channelManagerTeardown, hloop, Option.bind_eq_bind, Option.bind_some,
    hashMapFree_empty hwf, Option.pure_def]
  exact ⟨_, rfl, rfl⟩

/-- Deleting every visited key.  In every map reached from `hash_map_init`,
    `HASH_MAP_FOREACH` with a body that deletes the key just visited follows no freed
    item, visits every binding once and leaves an empty map.  Therefore the loop of
    `channel_manager_teardown`, in every state reached from `channel_manager_init`, calls
    the backend teardown once for each open channel, frees the channel's object, and
    leaves `open_channels` at 0 and an empty map: `hash_map_free` invokes no callback. -/
theorem foreach_delete_visits_all (dense : DensityTest) (alloc : Allocator (HashMapItem V))
    (ops : List (HashMapOp V)) (itemAlloc : Allocator (HashMapItem Ptr))
    (chanAlloc : Allocator Channel) (calls : List ChannelCall) (c : ChannelState)
    (outs : List ChannelOut)
    (hrun : runOut (channelStep dense itemAlloc chanAlloc) channelManagerInit calls =
      some (c, outs)) :
    (∃ s hashes, runOut (hashMapStep dense alloc) hashMapInit ops = some (s, hashes) ∧
      ∃ entries : List (CString × Option V), entries.length = s.map.count ∧
        (entries.map Prod.fst).Nodup ∧
        (∀ k v, (k, v) ∈ entries ↔ lastBinding k ops = some v) ∧
        ∀ keyHash fuel, s.map.count < fuel →
          ∃ s', hashMapForeach Prod.fst (deleteVisited keyHash) fuel (s, []) hashMapItInit =
              some (s', entries) ∧ s'.map.count = 0 ∧ HashMapRepr s' fun _ => none) ∧
    ∀ fuel, (openedBy (calls.zip outs)).length < fuel →
      ∃ c' teardowns, hashMapForeach (fun t => t.1.ctx.channels) channelTeardownBody fuel (c, [])
          hashMapItInit = some (c', teardowns) ∧
        (teardowns.map some).Perm ((openedBy (calls.zip outs)).map teardownOf) ∧
        c'.ctx.openChannels = 0 ∧
        (∀ o ∈ openedBy (calls.zip outs), c'.objects.cells o.object = none) ∧
        (∀ (σ : Type) (callback : σ → CString → Option Ptr → Option σ) (t : σ),
          ∃ m, hashMapFree callback c'.ctx.channels t = some (m, t)) ∧
        ∃ c'', channelManagerTeardown fuel c = some (c'', teardowns) ∧
          c''.ctx.openChannels = 0 := by
  constructor
  · obtain ⟨s, d, hashes, hmap, hspec, hrepr, _⟩ :=
      hashMap_run_spec dense alloc hashMapInit_repr ops
    obtain rfl := runOut_dictStep_eq_lastBinding ops hspec
    obtain ⟨entries, hlen, hnodup, hmem, hloop⟩ := hashMapForeach_deleteVisited hrepr
    refine ⟨s, hashes, hmap, entries, hlen, hnodup, hmem, ?_⟩
    intro keyHash fuel hfuel
    obtain ⟨s', hforeach, hwf⟩ := hloop keyHash fuel hfuel
    exact ⟨s', hforeach, by simpa [members] using hwf.count_eq, hwf.repr_empty⟩
  · -- the manager represents the channels that were opened
    have hstep : ∀ s opened call s' out, ChannelRepr s opened →
        channelStep dense itemAlloc chanAlloc s call = some (s', out) →
        ChannelRepr s' (recordCall opened (call, out)) :=
      fun _ _ _ _ _ h hcall => (channelStep_spec h hcall).1
    have hrepr : ChannelRepr c (openedBy (calls.zip outs)) :=
      inv_of_runOut hstep channelManagerInit_repr hrun
    intro fuel hfuel
    obtain ⟨c', teardowns, hloop, hperm, hzero, hfreed, hwf⟩ := channelTeardownLoop_spec hrepr hfuel
    refine ⟨c', teardowns, hloop, hperm, hzero, hfreed, ?_, ?_⟩
    · intro σ callback t
      exact ⟨_, hashMapFree_empty hwf callback t⟩
    · obtain ⟨c'', hteardown, hopen⟩ := channelManagerTeardown_of_loop hloop hwf
      exact ⟨c'', hteardown, hopen.trans hzero⟩

/-- A map with two keys, and a manager with two open channels. -/
theorem foreach_delete_visits_all_two :
    ∃ s hashes, runOut (hashMapStep mapDensityExceeds (Allocator.bump (HashMapItem Nat)))
        hashMapInit [.insert ⟨[97], by decide⟩ (some 1), .insert ⟨[98], by decide⟩ (some 2)] =
          some (s, hashes) ∧
      (∃ t, hashMapForeach Prod.fst (deleteVisited 0) (s.map.count + 1) (s, []) hashMapItInit =
        some t ∧ t.1.map.count = 0) ∧
      ∃ c outs c' teardowns, runOut (channelStep mapDensityExceeds (Allocator.bump _)
          (Allocator.bump _)) channelManagerInit
            (channelProgram ⟨[97], by decide⟩ ⟨[98], by decide⟩) = some (c, outs) ∧
        c.ctx.openChannels = 2 ∧ channelManagerTeardown 3 c = some (c', teardowns) ∧
        c'.ctx.openChannels = 0 := by
  have hall := foreach_delete_visits_all mapDensityExceeds (Allocator.bump (HashMapItem Nat))
    [.insert ⟨[97], by decide⟩ (some 1), .insert ⟨[98], by decide⟩ (some 2)] (Allocator.bump _)
    (Allocator.bump _) (channelProgram ⟨[97], by decide⟩ ⟨[98], by decide⟩) _ _ rfl
  obtain ⟨⟨s, hashes, hrun, entries, _, _, _, hvisit⟩, hloop⟩ := hall
  obtain ⟨s', hforeach, hcount, _⟩ := hvisit 0 _ (Nat.lt_succ_self _)
  obtain ⟨_, teardowns, _, _, _, _, _, c', hteardown, hzero⟩ := hloop 3 (by decide)
  exact ⟨s, hashes, hrun, ⟨_, hforeach, hcount⟩, _, _, c', teardowns, rfl, by decide, hteardown,
    hzero⟩

end CUtils
