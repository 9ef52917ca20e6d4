import CUtils.ForStd.Heap
import CUtils.Native.StrUtils
import CUtils.Native.Utils

/-!
# Hash map with chaining

The map of `hashmap.c`: a pool of buckets, each the head of a chain of heap
allocated items.  Items live in a `Heap`, and every dereference goes through it,
so a result `none` means that the C code would follow a NULL, dangling or freed
pointer, fail an assertion, or not come to the end of a chain.

A chain loop runs with the fuel `chainFuel`: an acyclic chain visits a live
address at most once, so it ends within one step more than there are addresses.
-/

namespace CUtils

/-- `hash_map_item_t`.  A value pointer is `none` when it is NULL.  The key is the
    private copy made by `safe_strdup`. -/
structure HashMapItem (V : Type) where
  next : Option Ptr
  hash : UInt32
  key : CString
  val : Option V

/-- `hash_map_t`. -/
structure HashMap where
  pool : List (Option Ptr)
  capacity : Nat
  count : Nat

/-- A map together with the heap of its items. -/
structure HashMapState (V : Type) where
  heap : Heap (HashMapItem V)
  map : HashMap

/-- The outcome of `MAP_DENSITY(map) > HASH_MAP_DENSITY_FACTOR`, a comparison of
    doubles, as a function of `count` and `capacity`. -/
abbrev DensityTest := Nat → Nat → Bool

/-- The density test read as the exact comparison `count / capacity > 0.8`. -/
def mapDensityExceeds : DensityTest := fun count capacity => 5 * count > 4 * capacity

/-- `GET_POOL_POS(map, hash)`; the capacity of an initialised map is not zero. -/
def getPoolPos (map : HashMap) (hash : UInt32) : Nat := hash.toNat &&& (map.capacity - 1)

variable {V : Type}

/-- Enough iterations for every loop over an acyclic chain. -/
def chainFuel (heap : Heap (HashMapItem V)) : Nat := heap.limit + 1

/-- `item->next = next`. -/
def setNext (heap : Heap (HashMapItem V)) (p : Ptr) (next : Option Ptr) :
    Option (Heap (HashMapItem V)) :=
  (heap.cells p).map fun item => heap.set p { item with next }

/-- `if (prev != NULL) prev->next = next; else map->pool[pos] = next;` -/
def setLink (s : HashMapState V) (prev : Option Ptr) (pos : Nat) (next : Option Ptr) :
    Option (HashMapState V) :=
  match prev with
  | some q => (setNext s.heap q next).map fun heap => { s with heap }
  | none => some { s with map := { s.map with pool := s.map.pool.set pos next } }

/-- The inner loop of `hash_map_count`. -/
def hashMapCountChain (heap : Heap (HashMapItem V)) : Nat → Option Ptr → Nat → Option Nat
  | 0, _, _ => none
  | _ + 1, none, count => some count
  | fuel + 1, some p, count => do
    let item ← heap.cells p
    hashMapCountChain heap fuel item.next (count + 1)

/-- `hash_map_count(map)`. -/
def hashMapCount (s : HashMapState V) : Option Nat :=
  (List.range s.map.capacity).foldlM (fun count i => do
    let head ← s.map.pool[i]?
    hashMapCountChain s.heap (chainFuel s.heap) head count) 0

/-- `hash_map_lint(map)`: the assertion `count == map->count`. -/
def hashMapLint (s : HashMapState V) : Option Unit := do
  let count ← hashMapCount s
  cAssert (count = s.map.count)

/-- The inner loop of `hash_map_rehash`: spread the rest of the chain of bucket
    `pivot`, whose last item left in place is `prev`. -/
def hashMapRehashBucket (pivot : Nat) :
    Nat → HashMapState V → Option Ptr → Option Ptr → Option (HashMapState V)
  | 0, _, _, _ => none
  | _ + 1, s, _, none => some s
  | fuel + 1, s, prev, some p => do
    let item ← s.heap.cells p
    let target := getPoolPos s.map item.hash
    cAssert (target < s.map.capacity)
    if pivot ≠ target then
      -- remove item from pivot
      let s ← setLink s prev pivot item.next
      let temp ← (s.heap.cells p).map HashMapItem.next
      -- prepend item to the chain of target
      let head ← s.map.pool[target]?
      let heap ← setNext s.heap p head
      let pool := s.map.pool.set target (some p)
      hashMapRehashBucket pivot fuel { heap, map := { s.map with pool } } prev temp
    else
      hashMapRehashBucket pivot fuel s (some p) item.next

/-- One iteration of the outer loop of `hash_map_rehash`. -/
def hashMapRehashPivot (s : HashMapState V) (pivot : Nat) : Option (HashMapState V) := do
  let head ← s.map.pool[pivot]?
  hashMapRehashBucket pivot (chainFuel s.heap) s none head

/-- The head of `hash_map_rehash`: double the capacity and zero the new half of the
    pool (`safe_realloc_zero`). -/
def hashMapGrow (s : HashMapState V) : HashMapState V :=
  let oldCapacity := s.map.capacity
  let capacity := oldCapacity <<< 1
  let pool := s.map.pool ++ List.replicate (capacity - oldCapacity) none
  { s with map := { s.map with pool, capacity } }

/-- `hash_map_rehash(map)`. -/
def hashMapRehash (s : HashMapState V) : Option (HashMapState V) := do
  -- the assertion `old_size != new_size` of `safe_realloc_zero`
  cAssert (s.map.capacity ≠ (hashMapGrow s).map.capacity)
  let s' ← (List.range s.map.capacity).foldlM hashMapRehashPivot (hashMapGrow s)
  hashMapLint s'
  return s'

/-- `hash_map_init(map)`. -/
def hashMapInit : HashMapState V :=
  let size := (roundUpPow2 32).toNat
  { heap := Heap.empty, map := { pool := List.replicate size none, capacity := size, count := 0 } }

/-- The search loop that `hash_map_insert`, `hash_map_get` and `hash_map_delete`
    share: the last item passed over and the item found.  Keys are compared only
    when the hashes agree. -/
def hashMapFind (heap : Heap (HashMapItem V)) (hash : UInt32) (key : Option CString) :
    Nat → Option Ptr → Option Ptr → Option (Option Ptr × Option Ptr)
  | 0, _, _ => none
  | _ + 1, prev, none => some (prev, none)
  | fuel + 1, prev, some p => do
    let item ← heap.cells p
    if item.hash = hash then
      let c ← strcmp item.key key
      if c = 0 then
        return (prev, some p)
      else
        hashMapFind heap hash key fuel (some p) item.next
    else
      hashMapFind heap hash key fuel (some p) item.next

/-- The first statement of `hash_map_insert`: rehash a map that is too dense. -/
def hashMapRehashIfDense (dense : DensityTest) (s : HashMapState V) :
    Option (HashMapState V) :=
  if dense s.map.count s.map.capacity then hashMapRehash s else some s

/-- `hash_map_insert(map, key, val)`. -/
def hashMapInsert (dense : DensityTest) (alloc : Allocator (HashMapItem V))
    (s : HashMapState V) (key : CString) (val : Option V) :
    Option (HashMapState V × UInt32) := do
  let s ← hashMapRehashIfDense dense s
  let hash := hash32Djb2 key (-1)
  let pos := getPoolPos s.map hash
  let head ← s.map.pool[pos]?
  let (prev, found) ← hashMapFind s.heap hash (some key) (chainFuel s.heap) head head
  match found with
  | some p =>
    -- key already exists, update it
    let item ← s.heap.cells p
    return ({ s with heap := s.heap.set p { item with val } }, item.hash)
  | none =>
    -- insert new key
    let p := alloc.malloc s.heap
    let heap := s.heap.set p { next := none, hash, key, val }
    let s ← setLink { s with heap } prev pos (some p)
    return ({ s with map := { s.map with count := s.map.count + 1 } }, hash)

/-- `hash_map_get(map, key, key_hash)`; `none` inside the result is NULL. -/
def hashMapGet (s : HashMapState V) (key : Option CString) (keyHash : UInt32) :
    Option (Option V) := do
  let hash := match key with
    | some key => hash32Djb2 key (-1)
    | none => keyHash
  let head ← s.map.pool[getPoolPos s.map hash]?
  let (_, found) ← hashMapFind s.heap hash key (chainFuel s.heap) none head
  match found with
  | some p =>
    let item ← s.heap.cells p
    return item.val
  | none => return none

/-- `hash_map_delete(map, key, key_hash)`. -/
def hashMapDelete (s : HashMapState V) (key : Option CString) (keyHash : UInt32) :
    Option (HashMapState V × Option V) := do
  let hash := match key with
    | some key => hash32Djb2 key (-1)
    | none => keyHash
  let pos := getPoolPos s.map hash
  let head ← s.map.pool[pos]?
  let (prev, found) ← hashMapFind s.heap hash key (chainFuel s.heap) none head
  match found with
  | some p =>
    let item ← s.heap.cells p
    let s ← setLink s prev pos item.next
    return ({ heap := s.heap.free p, map := { s.map with count := s.map.count - 1 } }, item.val)
  | none => return (s, none)

/-- The inner loop of `hash_map_free` over the chain from a bucket head.  The callback
    acts on a state of its own. -/
def hashMapFreeChain {σ : Type} (callback : σ → CString → Option V → Option σ) :
    Nat → Heap (HashMapItem V) → σ → Option Ptr → Option (Heap (HashMapItem V) × σ)
  | 0, _, _, _ => none
  | _ + 1, heap, t, none => some (heap, t)
  | fuel + 1, heap, t, some p => do
    let item ← heap.cells p
    let t ← callback t item.key item.val
    hashMapFreeChain callback fuel (heap.free p) t item.next

/-- `hash_map_free(map, callback)`.  The source resets `capacity` twice and `count`
    not at all. -/
def hashMapFree {σ : Type} (callback : σ → CString → Option V → Option σ) (s : HashMapState V)
    (t : σ) : Option (HashMapState V × σ) := do
  let (heap, t) ← (List.range s.map.capacity).foldlM (fun (acc : Heap (HashMapItem V) × σ) pos => do
    let head ← s.map.pool[pos]?
    hashMapFreeChain callback (chainFuel acc.1) acc.1 acc.2 head) (s.heap, t)
  return ({ heap, map := { s.map with pool := [], capacity := 0 } }, t)

/-! ## Iterators -/

/-- `hash_map_iterator_t`, without the map it refers to. -/
structure HashMapIterator where
  pos : Nat
  item : Option Ptr

/-- What `hash_map_it_next` returns, and the key and the value it writes. -/
structure ItResult (V : Type) where
  rc : Int
  entry : Option (CString × Option V)

/-- `hash_map_it_init(it, map)`. -/
def hashMapItInit : HashMapIterator := { pos := 0, item := none }

/-- The loop of `hash_map_it_next` that skips empty buckets, with the number of buckets
    from `pos` to the capacity. -/
def hashMapItSkip (pool : List (Option Ptr)) : Nat → Nat → Option Nat
  | 0, pos => some pos
  | n + 1, pos => do
    let head ← pool[pos]?
    match head with
    | none => hashMapItSkip pool n (pos + 1)
    | some _ => return pos

/-- `hash_map_it_next(it, key, val)`. -/
def hashMapItNext (s : HashMapState V) (it : HashMapIterator) :
    Option (HashMapIterator × ItResult V) :=
  match it.item with
  | some cur => do
    let item ← s.heap.cells cur
    return ({ it with item := item.next }, ⟨0, some (item.key, item.val)⟩)
  | none => do
    let pos ← hashMapItSkip s.map.pool (s.map.capacity - it.pos) it.pos
    if pos ≥ s.map.capacity then
      return ({ it with pos }, ⟨-1, none⟩)
    else
      match ← s.map.pool[pos]? with
      | none => return ({ it with pos }, ⟨-1, none⟩)
      | some cur =>
        let item ← s.heap.cells cur
        return ({ pos := pos + 1, item := item.next }, ⟨0, some (item.key, item.val)⟩)

/-- The loop of `HASH_MAP_FOREACH(map, key_ref, val_ref)`: `map` finds the map in the
    state that the body changes.  The fuel bounds the calls of `hash_map_it_next`. -/
def hashMapForeach {σ : Type} (map : σ → HashMapState V)
    (body : σ → CString → Option V → Option σ) : Nat → σ → HashMapIterator → Option σ
  | 0, _, _ => none
  | fuel + 1, t, it => do
    let (it, result) ← hashMapItNext (map t) it
    if result.rc = 0 then
      let (key, val) ← result.entry
      let t ← body t key val
      hashMapForeach map body fuel t it
    else
      return t

end CUtils
