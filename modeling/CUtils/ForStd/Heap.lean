import Mathlib.Logic.Function.Basic
import Mathlib.Data.List.Nodup
import Mathlib.Data.List.Perm.Subperm

/-!
# A heap of typed cells

The objects of one C type live in a `Heap α`: a partial map from addresses to
cells that is empty from `limit` on.  Reading a cell that is not live gives
`none`, which the models below treat as a fault, so a function that returns
`some` follows neither a dangling nor a freed pointer.

`malloc` may return any address that is not live, also one that was freed
before; an `Allocator` is such a choice.
-/

/-- The address of an object.  A pointer that may be NULL is an `Option Ptr`. -/
abbrev Ptr := Nat

/-- A partial map from addresses to cells, empty from `limit` on. -/
structure Heap (α : Type) where
  cells : Ptr → Option α
  limit : Nat
  cells_of_limit_le : ∀ p, limit ≤ p → cells p = none

namespace Heap

variable {α : Type}

/-- The heap without any live cell. -/
def empty : Heap α := ⟨fun _ => none, 0, fun _ _ => rfl⟩

/-- Write a cell, making its address live. -/
def set (h : Heap α) (p : Ptr) (a : α) : Heap α where
  cells := Function.update h.cells p (some a)
  limit := max h.limit (p + 1)
  cells_of_limit_le := by
    intro q hq
    have hne : q ≠ p := by omega
    rw [Function.update_of_ne hne]
    exact h.cells_of_limit_le q (by omega)

/-- Release a cell. -/
def free (h : Heap α) (p : Ptr) : Heap α where
  cells := Function.update h.cells p none
  limit := h.limit
  cells_of_limit_le := by
    intro q hq
    by_cases hqp : q = p
    · rw [hqp, Function.update_self]
    · rw [Function.update_of_ne hqp]
      exact h.cells_of_limit_le q hq

@[simp] theorem cells_set (h : Heap α) (p : Ptr) (a : α) :
    (h.set p a).cells = Function.update h.cells p (some a) := rfl

@[simp] theorem cells_free (h : Heap α) (p : Ptr) :
    (h.free p).cells = Function.update h.cells p none := rfl

/-- Releasing a cell that was just allocated leaves the live cells as they were. -/
theorem cells_free_set {h : Heap α} {p : Ptr} (hp : h.cells p = none) (a : α) :
    ((h.set p a).free p).cells = h.cells := by
  rw [cells_free, cells_set, Function.update_idem, ← hp, Function.update_eq_self]

/-- Releasing several cells. -/
def freeAll (h : Heap α) (ps : List Ptr) : Heap α := ps.foldl free h

theorem cells_freeAll (h : Heap α) (ps : List Ptr) (q : Ptr) :
    (h.freeAll ps).cells q = if q ∈ ps then none else h.cells q := by
  induction ps generalizing h with
  | nil => rfl
  | cons p ps ih =>
    rw [freeAll, List.foldl_cons, ← freeAll, ih, cells_free]
    by_cases hq : q = p
    · simp [hq]
    · simp [hq]

@[simp] theorem limit_freeAll (h : Heap α) (ps : List Ptr) : (h.freeAll ps).limit = h.limit := by
  induction ps generalizing h with
  | nil => rfl
  | cons p ps ih => exact ih (h.free p)

theorem freeAll_append (h : Heap α) (ps qs : List Ptr) :
    h.freeAll (ps ++ qs) = (h.freeAll ps).freeAll qs := List.foldl_append

/-- A live address is below the limit. -/
theorem lt_limit_of_isSome (h : Heap α) {p : Ptr} (hp : (h.cells p).isSome) : p < h.limit := by
  by_contra hle
  rw [h.cells_of_limit_le p (Nat.le_of_not_lt hle)] at hp
  exact nomatch hp

/-- Distinct live addresses are at most `limit` many. -/
theorem length_le_limit (h : Heap α) {ps : List Ptr} (hn : ps.Nodup)
    (hl : ∀ p ∈ ps, (h.cells p).isSome) : ps.length ≤ h.limit := by
  have hsub : ps ⊆ List.range h.limit := by
    intro p hp
    exact List.mem_range.mpr (h.lt_limit_of_isSome (hl p hp))
  simpa using (List.subperm_of_subset hn hsub).length_le

end Heap

/-- A choice of `malloc`: for every heap some address that is not live. -/
structure Allocator (α : Type) where
  malloc : Heap α → Ptr
  malloc_fresh : ∀ h : Heap α, h.cells (malloc h) = none

/-- The allocator that never reuses an address. -/
def Allocator.bump (α : Type) : Allocator α :=
  ⟨fun h => h.limit, fun h => h.cells_of_limit_le h.limit (Nat.le_refl _)⟩
