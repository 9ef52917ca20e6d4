import Mathlib.Logic.Function.Basic

/-!
# Disjoint sets

The union-find structure of `disjoint_set.c`.  Node numbers, parents and ranks are
`int`s that are never negative and are modelled by `Nat`.  A result `none` means
that the C code would index an array out of bounds or loop for longer than there are
array elements.
-/

namespace CUtils

/-- `DISJOINT_SET_MAX`. -/
def disjointSetMax : Nat := 128

/-- `struct disjoint_set`; only the first `DISJOINT_SET_MAX` elements of `rank` and
    `parent` exist. -/
structure DisjointSet where
  maxNodes : Int
  rank : Nat → Nat
  parent : Nat → Nat

namespace DisjointSet

/-- Read `array[i]`. -/
def load (array : Nat → Nat) (i : Nat) : Option Nat :=
  if i < disjointSetMax then some (array i) else none

/-- `array[i] = v`. -/
def store (array : Nat → Nat) (i v : Nat) : Option (Nat → Nat) :=
  if i < disjointSetMax then some (Function.update array i v) else none

end DisjointSet

open DisjointSet

/-- The loop body of `disjoint_set_make`: node `i` becomes a tree of its own. -/
def disjointSetMakeNode (set : DisjointSet) (i : Nat) : Option DisjointSet := do
  let parent ← store set.parent i i
  let rank ← store set.rank i 0
  return { set with parent, rank }

/-- `disjoint_set_make(set, max_nodes)`. -/
def disjointSetMake (set : DisjointSet) (maxNodes : Int) : Option (DisjointSet × Int) :=
  if maxNodes ≥ disjointSetMax then
    some (set, -1) -- `max_nodes` itself is not stored
  else do
    let set ← (List.range maxNodes.toNat).foldlM disjointSetMakeNode { set with maxNodes }
    return (set, 0)

/-- The first loop of `disjoint_set_find`: find the root. -/
def disjointSetFindRoot (set : DisjointSet) : Nat → Nat → Option Nat
  | 0, _ => none
  | fuel + 1, root => do
    let p ← load set.parent root
    if p ≠ root then
      disjointSetFindRoot set fuel p
    else
      return root

/-- The second loop of `disjoint_set_find`: path compression. -/
def disjointSetCompress (root : Nat) : Nat → DisjointSet → Nat → Option DisjointSet
  | 0, _, _ => none
  | fuel + 1, set, a => do
    let tmp ← load set.parent a
    if tmp ≠ root then
      let parent ← store set.parent a root
      disjointSetCompress root fuel { set with parent } tmp
    else
      return set

/-- `disjoint_set_find(set, a)`. -/
def disjointSetFind (set : DisjointSet) (a : Nat) : Option (DisjointSet × Nat) := do
  let root ← disjointSetFindRoot set disjointSetMax a
  let set ← disjointSetCompress root disjointSetMax set a
  return (set, root)

/-- The end of `disjoint_set_union`: put the root `b` below the root `a`. -/
def disjointSetLink (set : DisjointSet) (a b : Nat) : Option DisjointSet := do
  let parent ← store set.parent b a
  let rankA ← load set.rank a
  let rankB ← load set.rank b
  if rankA = rankB then
    let rank ← store set.rank a (rankA + 1)
    return { set with parent, rank }
  else
    return { set with parent }

/-- `disjoint_set_union(set, a, b)`. -/
def disjointSetUnion (set : DisjointSet) (a b : Nat) : Option DisjointSet := do
  let (set, a) ← disjointSetFind set a
  let (set, b) ← disjointSetFind set b
  if a = b then
    return set
  else
    let rankA ← load set.rank a
    let rankB ← load set.rank b
    -- swap, so that the root of larger rank becomes the parent
    if rankA < rankB then
      disjointSetLink set b a
    else
      disjointSetLink set a b

/-- `disjoint_set_num_roots(set)`. -/
def disjointSetNumRoots (set : DisjointSet) : Option Nat :=
  (List.range set.maxNodes.toNat).foldlM (fun roots i => do
    let p ← load set.parent i
    return if p = i then roots + 1 else roots) 0

end CUtils
