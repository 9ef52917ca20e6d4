import CUtils.ForStd.Bytes

/-!
# Stacks of blocks in a flat object

The blocks have one size and lie in the object one after the other, the first one that was
pushed at its start.  The list of the blocks has the top at its head.

- `HoldsBlocks.push`: the block behind all others becomes the top.
- `HoldsBlocks.top`: the top is read.
- `HoldsBlocks.pop`: what is below the top is a stack.
-/

/-- The object starts with the blocks `q`, which have `size` elements each. -/
structure HoldsBlocks {α : Type*} (size : Nat) (obj : List α) (q : List (List α)) : Prop where
  sized : ∀ e ∈ q, e.length = size
  le : size * q.length ≤ obj.length
  take_eq : obj.take (size * q.length) = q.reverse.flatten

namespace HoldsBlocks

variable {α : Type*} {size : Nat} {obj e : List α} {q : List (List α)}

theorem nil (size : Nat) (obj : List α) : HoldsBlocks size obj [] where
  sized := fun e he => nomatch he
  le := Nat.zero_le _
  take_eq := by rw [List.length_nil, Nat.mul_zero, List.take_zero]; rfl

/-- A block that is stored behind all others is the new top. -/
theorem push (h : HoldsBlocks size obj q) (he : e.length = size)
    (hroom : size * q.length + size ≤ obj.length) :
    HoldsBlocks size (splice obj (size * q.length) e) (e :: q) := by
  have hin : size * q.length + e.length ≤ obj.length := by rwa [he]
  have hlen : size * (e :: q).length = size * q.length + e.length := by
    rw [List.length_cons, Nat.mul_succ, he]
  refine ⟨?_, ?_, ?_⟩
  · rw [List.forall_mem_cons]
    exact ⟨he, h.sized⟩
  · rwa [hlen, length_splice hin]
  · rw [hlen, take_splice hin, h.take_eq, List.reverse_cons, List.flatten_append,
      List.flatten_singleton]

/-- The blocks below the top. -/
theorem pop (h : HoldsBlocks size obj (e :: q)) : HoldsBlocks size obj q := by
  obtain ⟨he, hq⟩ := List.forall_mem_cons.mp h.sized
  have hle := h.le
  have htake := h.take_eq
  rw [List.length_cons, Nat.mul_succ] at hle htake
  refine ⟨hq, by omega, ?_⟩
  rw [List.take_add, List.reverse_cons, List.flatten_append, List.flatten_singleton] at htake
  -- both sides end in a block of the same size
  have hblock : ((obj.drop (size * q.length)).take size).length = e.length := by
    rw [he, List.length_take, List.length_drop]
    omega
  exact List.append_inj_left' htake hblock

/-- The top is the block behind the ones below it. -/
theorem top (h : HoldsBlocks size obj (e :: q)) : readAt obj (size * q.length) size = some e := by
  have hle := h.le
  have htake := h.take_eq
  rw [List.length_cons, Nat.mul_succ] at hle htake
  rw [List.take_add, h.pop.take_eq, List.reverse_cons, List.flatten_append,
    List.flatten_singleton] at htake
  rw [readAt_of_le hle, List.append_cancel_left htake]

end HoldsBlocks
