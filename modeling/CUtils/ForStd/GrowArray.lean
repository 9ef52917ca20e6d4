import CUtils.ForStd.Bytes

/-!
# Arrays that grow when they are full

An array of allocated cells of which the first `count` are in use.  After every push there is
a free cell: where there was none left, the block is replaced by a larger one.  The cells
that are not in use hold anything.

- `Holds.push`: a push behind the last element.
- `Holds.pop`: the last element is taken off.
-/

/-- The allocated cells, the number of cells in use, and the number of cells that there are
    meant to be. -/
structure GrowArray (α : Type*) where
  cells : List α
  count : Nat
  capacity : Nat

namespace GrowArray

variable {α : Type*}

/-- Store an element and grow if that was the last cell.  `grow` makes the new cells and the
    new capacity; a store outside of the cells faults. -/
def push (grow : List α → Nat → List α × Nat) (a : GrowArray α) (x : α) :
    Option (GrowArray α) := do
  let cells ← writeAt a.cells a.count [x]
  let count := a.count + 1
  if count = a.capacity then
    let (cells, capacity) := grow cells a.capacity
    return { cells, count, capacity }
  else
    return { cells, count, capacity := a.capacity }

/-- Give up the last cell in use. -/
def pop (a : GrowArray α) : GrowArray α := { a with count := a.count - 1 }

/-- The elements are `xs`, and there is room for one more. -/
structure Holds (a : GrowArray α) (xs : List α) : Prop where
  count_eq : a.count = xs.length
  take_eq : a.cells.take xs.length = xs
  length_eq : a.cells.length = a.capacity
  lt : xs.length < a.capacity

namespace Holds

variable {a : GrowArray α} {xs : List α} {x : α} {grow : List α → Nat → List α × Nat}

/-- A push stays inside of the cells, if growing a full block keeps its cells and adds one
    or more. -/
theorem push (h : Holds a xs) (hgrow : xs.length + 1 = a.capacity → ∀ cells : List α,
      cells.length = a.capacity → (grow cells a.capacity).1.take a.capacity = cells ∧
        (grow cells a.capacity).1.length = (grow cells a.capacity).2 ∧
        a.capacity < (grow cells a.capacity).2) :
    ∃ a', a.push grow x = some a' ∧ Holds a' (xs ++ [x]) := by
  have hin : a.count + [x].length ≤ a.cells.length := by
    rw [h.count_eq, h.length_eq, List.length_singleton]
    exact h.lt
  have htake : (splice a.cells a.count [x]).take (xs ++ [x]).length = xs ++ [x] := by
    have hcut := take_splice hin
    rw [h.count_eq, h.take_eq] at hcut
    rwa [h.count_eq, List.length_append]
  have hlen : (splice a.cells a.count [x]).length = a.capacity := by
    rw [length_splice hin, h.length_eq]
  have hcount : a.count + 1 = (xs ++ [x]).length := by
    rw [h.count_eq, List.length_append, List.length_singleton]
  simp only [GrowArray.push, writeAt_of_le hin, Option.bind_eq_bind, Option.bind_some,
    Option.pure_def]
  by_cases hfull : a.count + 1 = a.capacity
  · -- the block is full: its cells are the first ones of the new block
    obtain ⟨hkeep, hsize, hmore⟩ := hgrow (by rw [← h.count_eq, hfull]) _ hlen
    rw [if_pos hfull]
    refine ⟨_, rfl, hcount, ?_, hsize, ?_⟩
    · show (grow _ _).1.take _ = _
      rw [← hcount, hfull, hkeep, ← htake, ← hcount, hfull, ← hlen, List.take_length]
    · show _ < (grow _ _).2
      omega
  · rw [if_neg hfull]
    have hroom := h.lt
    have hstart := h.count_eq
    refine ⟨_, rfl, hcount, htake, hlen, ?_⟩
    show (xs ++ [x]).length < a.capacity
    omega

/-- The last element is read, and is no element any more. -/
theorem pop (h : Holds a (xs ++ [x])) :
    a.pop.cells[a.pop.count]? = some x ∧ Holds a.pop xs := by
  have hcount : a.pop.count = xs.length := by
    rw [GrowArray.pop, h.count_eq, List.length_append, List.length_singleton]
    rfl
  have hroom := h.lt
  have htake := h.take_eq
  rw [List.length_append, List.length_singleton] at hroom htake
  constructor
  · rw [hcount, ← List.getElem?_take_of_lt (Nat.lt_succ_self xs.length), GrowArray.pop]
    show (a.cells.take (xs.length + 1))[xs.length]? = some x
    rw [htake, List.getElem?_concat_length]
  · refine ⟨hcount, ?_, h.length_eq, Nat.lt_of_succ_lt hroom⟩
    have hcut := congrArg (List.take xs.length) htake
    rwa [List.take_take, Nat.min_eq_left (Nat.le_succ _), List.take_left] at hcut

end Holds

end GrowArray
