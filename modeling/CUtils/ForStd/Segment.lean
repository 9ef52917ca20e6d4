import Mathlib.Logic.Function.Basic
import Mathlib.Data.List.Nodup

/-!
# Linked segments

`IsSeg next p xs q` says that the nodes reached from the pointer `p` by following
`next` are exactly `xs`, in this order, and that the pointer after the last of
them is `q`.  The nodes, their type and what `next` reads are left open, so that
the same lemmas serve every linked structure: bucket chains, singly and doubly
linked lists.

A segment that ends in NULL is acyclic (`IsSeg.nodup`), and it is the only one
from its first pointer (`IsSeg.unique`).
-/

variable {α : Type*}

/-- Following `next` from `p` visits exactly `xs` and arrives at `q`. -/
def IsSeg (next : α → Option α) : Option α → List α → Option α → Prop
  | p, [], q => p = q
  | p, x :: xs, q => p = some x ∧ IsSeg next (next x) xs q

namespace IsSeg

variable {next : α → Option α} {p q m : Option α} {x y : α} {xs ys : List α}

@[simp] theorem nil_iff : IsSeg next p [] q ↔ p = q := Iff.rfl

@[simp] theorem cons_iff :
    IsSeg next p (x :: xs) q ↔ p = some x ∧ IsSeg next (next x) xs q := Iff.rfl

/-- Segments compose at the pointer where the first one ends. -/
theorem append_iff :
    IsSeg next p (xs ++ ys) q ↔ ∃ m, IsSeg next p xs m ∧ IsSeg next m ys q := by
  induction xs generalizing p with
  | nil => simp
  | cons x xs ih => simp [ih, and_assoc]

theorem append (h : IsSeg next p xs m) (h' : IsSeg next m ys q) : IsSeg next p (xs ++ ys) q :=
  append_iff.mpr ⟨m, h, h'⟩

/-- Only `next` on the nodes of the segment matters. -/
theorem congr {next' : α → Option α} (h : IsSeg next p xs q)
    (heq : ∀ x ∈ xs, next' x = next x) : IsSeg next' p xs q := by
  induction xs generalizing p with
  | nil => exact h
  | cons x xs ih =>
    refine ⟨h.1, ?_⟩
    rw [heq x List.mem_cons_self]
    exact ih h.2 fun y hy => heq y (List.mem_cons_of_mem x hy)

/-- Both ends of a segment are determined by its nodes: it starts at the first. -/
theorem eq_head (h : IsSeg next p xs q) : p = xs.head?.or q := by
  cases xs with
  | nil => exact h
  | cons x xs => exact h.1

/-- A segment that starts at NULL is empty. -/
theorem eq_nil_of_none (h : IsSeg next none xs q) : xs = [] := by
  cases xs with
  | nil => rfl
  | cons x xs => exact nomatch h.1

/-- Two segments from one pointer to NULL have the same nodes. -/
theorem unique (h : IsSeg next p xs none) (h' : IsSeg next p ys none) : xs = ys := by
  induction xs generalizing p ys with
  | nil =>
    obtain rfl := h
    exact (eq_nil_of_none h').symm
  | cons x xs ih =>
    obtain ⟨rfl, hrest⟩ := h
    cases ys with
    | nil => exact nomatch h'
    | cons y ys =>
      obtain ⟨hxy, hrest'⟩ := h'
      obtain rfl := Option.some.inj hxy
      rw [ih hrest hrest']

/-- A segment that ends in NULL visits no node twice: a repeated node would
    continue with two segments of different lengths. -/
theorem nodup (h : IsSeg next p xs none) : xs.Nodup := by
  induction xs generalizing p with
  | nil => exact List.nodup_nil
  | cons x xs ih =>
    refine List.nodup_cons.mpr ⟨?_, ih h.2⟩
    intro hmem
    obtain ⟨as, bs, rfl⟩ := List.append_of_mem hmem
    obtain ⟨m, _, hx, hbs⟩ := append_iff.mp h.2
    have hlen := congrArg List.length (unique h.2 hbs)
    simp only [List.length_append, List.length_cons] at hlen
    omega

/-- In a segment that ends in NULL the `next` of a node is the node at the next index. -/
theorem next_getElem? (h : IsSeg next p xs none) {i : ℕ} (hx : xs[i]? = some x) :
    next x = xs[i + 1]? := by
  induction xs generalizing p i with
  | nil => simp at hx
  | cons y ys ih =>
    cases i with
    | zero =>
      obtain rfl : y = x := by simpa using hx
      rw [h.2.eq_head, Option.or_none, List.getElem?_cons_succ, List.head?_eq_getElem?]
    | succ i => exact ih h.2 (by simpa using hx)

variable [DecidableEq α]

/-- Writing the `next` of a node outside the segment does not affect it. -/
theorem update_of_notMem (h : IsSeg next p xs q) (hx : x ∉ xs) (r : Option α) :
    IsSeg (Function.update next x r) p xs q :=
  h.congr fun y hy => by
    have hyx : y ≠ x := fun heq => hx (heq ▸ hy)
    rw [Function.update_of_ne hyx]

/-- Redirecting the last node of a segment moves its end. -/
theorem update_getLast (h : IsSeg next p (xs ++ [x]) q) (hx : x ∉ xs) (r : Option α) :
    IsSeg (Function.update next x r) p (xs ++ [x]) r := by
  obtain ⟨m, hxs, hm, _⟩ := append_iff.mp h
  refine append (hxs.update_of_notMem hx r) ⟨hm, ?_⟩
  simp only [Function.update_self, nil_iff]

end IsSeg
