import Mathlib.Data.List.Basic
import Mathlib.Data.Nat.ModEq
import Mathlib.Logic.Function.Basic

/-!
# Ring buffers with counters modulo twice the size

A ring of `size` slots is driven by two counters that count the elements ever
written and ever read.  The counters are kept modulo `2 * size`, the slot of the
element with number `j` is `j % size`.  The slots are pieces of a byte memory.

- `ringDistance_mod`: the corrected difference of the reduced counters is the number
  of stored elements, so full and empty are not confused.
- `RingHolds.push`, `RingHolds.pop`: the stored elements form a queue.
-/

/-! ## Counters -/

/-- The difference of two counters, corrected by `2 * size` when it is negative. -/
def ringDistance (size push pop : Int) : Int :=
  if push - pop < 0 then push - pop + 2 * size else push - pop

theorem ringDistance_mod {size push pop : Nat} (hle : pop ≤ push) (hcap : push ≤ pop + size)
    (hpos : 0 < size) :
    ringDistance size (push % (2 * size) : Nat) (pop % (2 * size) : Nat) = push - pop := by
  obtain ⟨d, rfl⟩ := Nat.exists_eq_add_of_le hle
  have hlt : pop % (2 * size) < 2 * size := Nat.mod_lt _ (by omega)
  have hd : d % (2 * size) = d := Nat.mod_eq_of_lt (by omega)
  rw [Nat.add_mod_eq_ite, hd]
  unfold ringDistance
  split <;> split <;> omega

/-- A pop counter that has not been wrapped yet acts like 0. -/
theorem ringDistance_unwrapped_pop {size push : Nat} (h : push < 2 * size) :
    ringDistance size push (2 * size : Nat) = ringDistance size push (0 : Nat) := by
  unfold ringDistance
  split <;> split <;> omega

/-- A push counter that has not been wrapped yet acts like 0, unless the pop counter
    is 0 as well. -/
theorem ringDistance_unwrapped_push {size pop : Nat} (hpos : 0 < pop) (h : pop < 2 * size) :
    ringDistance size (2 * size : Nat) pop = ringDistance size (0 : Nat) pop := by
  unfold ringDistance
  split <;> split <;> omega

/-- A counter that was incremented and compared with `2 * size` is the reduced counter. -/
theorem ring_wrap {size n : Nat} (hpos : 0 < size) :
    (if n % (2 * size) + 1 ≥ 2 * size then 0 else n % (2 * size) + 1) = (n + 1) % (2 * size) := by
  have hlt : n % (2 * size) < 2 * size := Nat.mod_lt _ (by omega)
  have hone : 1 % (2 * size) = 1 := Nat.mod_eq_of_lt (by omega)
  rw [Nat.add_mod_eq_ite, hone]
  split <;> omega

/-- Two element numbers less than `size` apart have different slots. -/
theorem ring_slot_ne {size c i j : Nat} (hij : i < j) (hj : j < size) :
    (c + i) % size ≠ (c + j) % size := by
  intro heq
  have hmod : i ≡ j [MOD size] := Nat.ModEq.add_left_cancel' c heq
  have hi : i % size = i := Nat.mod_eq_of_lt (by omega)
  have hj' : j % size = j := Nat.mod_eq_of_lt hj
  rw [Nat.ModEq, hi, hj'] at hmod
  omega

/-! ## Stored elements -/

/-- The slots hold the queue `q`, whose oldest element has the number `c`. -/
def RingHolds {α : Type*} (size : Nat) (slot : Nat → α) (c : Nat) (q : List α) : Prop :=
  ∀ i e, q[i]? = some e → slot ((c + i) % size) = e

namespace RingHolds

variable {α : Type*} {size c : Nat} {slot slot' : Nat → α} {q : List α} {e : α}

theorem nil : RingHolds size slot c [] := fun _ _ h => nomatch h

/-- Only the slot behind the queue may be written. -/
theorem congr (h : RingHolds size slot c q) (hlen : q.length < size)
    (hother : ∀ k, k ≠ (c + q.length) % size → slot' k = slot k) :
    RingHolds size slot' c q := by
  intro i e he
  have hi : i < q.length := (List.getElem?_eq_some_iff.mp he).1
  rw [hother _ (ring_slot_ne hi hlen)]
  exact h i e he

/-- The element written behind the queue is the newest one. -/
theorem push (h : RingHolds size slot c q) (hnew : slot ((c + q.length) % size) = e) :
    RingHolds size slot c (q ++ [e]) := by
  intro i e' he
  by_cases hi : i < q.length
  · rw [List.getElem?_append_left hi] at he
    exact h i e' he
  · -- the index of the new element
    have hlt := (List.getElem?_eq_some_iff.mp he).1
    have heq : i = q.length := by
      simp only [List.length_append, List.length_cons, List.length_nil] at hlt
      omega
    subst heq
    rw [List.getElem?_concat_length] at he
    obtain rfl := Option.some.inj he
    exact hnew

/-- The slot of the counter holds the oldest element. -/
theorem head (h : RingHolds size slot c (e :: q)) : slot (c % size) = e := h 0 e rfl

theorem pop (h : RingHolds size slot c (e :: q)) : RingHolds size slot (c + 1) q := by
  intro i e' he
  have hnext : c + 1 + i = c + (i + 1) := by omega
  rw [hnext]
  exact h (i + 1) e' (by rwa [List.getElem?_cons_succ])

end RingHolds

/-! ## Byte memory -/

section Bytes

variable {β : Type*}

/-- The `n` bytes of the memory from the offset `off` on. -/
def loadBytes (mem : Nat → β) (off n : Nat) : List β := (List.range n).map fun i => mem (off + i)

/-- Store the bytes `bs` from the offset `off` on. -/
def storeBytes (mem : Nat → β) (off : Nat) (bs : List β) : Nat → β :=
  fun k => if off ≤ k then (bs[k - off]?).getD (mem k) else mem k

@[simp] theorem length_loadBytes (mem : Nat → β) (off n : Nat) :
    (loadBytes mem off n).length = n := by
  simp only [loadBytes, List.length_map, List.length_range]

theorem getElem?_loadBytes (mem : Nat → β) (off : Nat) {i n : Nat} (h : i < n) :
    (loadBytes mem off n)[i]? = some (mem (off + i)) := by
  simp only [loadBytes, List.getElem?_map, List.getElem?_range h, Option.map_some]

theorem loadBytes_succ (mem : Nat → β) (off n : Nat) :
    loadBytes mem off (n + 1) = loadBytes mem off n ++ [mem (off + n)] := by
  simp only [loadBytes, List.range_succ, List.map_append, List.map_cons, List.map_nil]

theorem loadBytes_congr {mem mem' : Nat → β} {off n : Nat}
    (h : ∀ i, i < n → mem' (off + i) = mem (off + i)) :
    loadBytes mem' off n = loadBytes mem off n := by
  refine List.map_congr_left fun i hi => ?_
  exact h i (List.mem_range.mp hi)

/-- What was stored is loaded. -/
theorem loadBytes_storeBytes (mem : Nat → β) (off : Nat) (bs : List β) :
    loadBytes (storeBytes mem off bs) off bs.length = bs := by
  apply List.ext_getElem (length_loadBytes _ _ _)
  intro i hi hi'
  simp only [loadBytes, List.getElem_map, List.getElem_range, storeBytes, Nat.le_add_right,
    ↓reduceIte, Nat.add_sub_cancel_left, List.getElem?_eq_getElem hi', Option.getD_some]

theorem storeBytes_of_not_mem (mem : Nat → β) {off k : Nat} {bs : List β}
    (h : k < off ∨ off + bs.length ≤ k) : storeBytes mem off bs k = mem k := by
  unfold storeBytes
  split
  · rw [List.getElem?_eq_none (by omega), Option.getD_none]
  · rfl

/-- The bytes of one slot are apart from those of another. -/
theorem slot_bytes_ne {es j k i i' : Nat} (hjk : j ≠ k) (hi : i < es) (hi' : i' < es) :
    j * es + i ≠ k * es + i' := by
  -- the slot with the larger number starts behind the end of the other
  rcases Nat.lt_or_gt_of_ne hjk with hlt | hlt
  · have hmul : (j + 1) * es ≤ k * es := Nat.mul_le_mul_right es hlt
    rw [Nat.succ_mul] at hmul
    omega
  · have hmul : (k + 1) * es ≤ j * es := Nat.mul_le_mul_right es hlt
    rw [Nat.succ_mul] at hmul
    omega

/-- The bytes of a slot lie inside the array of all slots. -/
theorem slot_bytes_le {es k size : Nat} (hk : k < size) : k * es + es ≤ size * es := by
  have hmul : (k + 1) * es ≤ size * es := Nat.mul_le_mul_right es hk
  rwa [Nat.succ_mul] at hmul

end Bytes
