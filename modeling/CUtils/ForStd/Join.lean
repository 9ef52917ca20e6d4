import Mathlib.Data.List.DropRight

/-!
# Joining lists with a separator

`xs.joinSep sep ys` puts one separator between the two lists if none is there.  A second
list that starts with the separator replaces the first one.  The operation is associative,
and the empty list is a left identity.

- `joinSep_assoc`: both groupings of three lists.
- `rdropWhile_append_cons`, `rtakeWhile_append_cons`: a list is taken apart at its last
  separator.
-/

namespace List

section Join

variable {α : Type*} [DecidableEq α] (sep : α)

/-- The separator that is missing behind a list. -/
def sepAfter (xs : List α) : List α := if xs = [] ∨ xs.getLast? = some sep then [] else [sep]

/-- Join two lists. -/
def joinSep (xs ys : List α) : List α :=
  if ys.head? = some sep then ys else xs ++ (sepAfter sep xs ++ ys)

@[simp] theorem sepAfter_nil : sepAfter sep [] = [] := by
  simp [sepAfter]

theorem joinSep_of_head {xs ys : List α} (h : ys.head? = some sep) : joinSep sep xs ys = ys :=
  if_pos h

theorem joinSep_of_not_head {xs ys : List α} (h : ys.head? ≠ some sep) :
    joinSep sep xs ys = xs ++ (sepAfter sep xs ++ ys) := if_neg h

@[simp] theorem joinSep_nil_left (ys : List α) : joinSep sep [] ys = ys := by
  unfold joinSep
  split
  · rfl
  · rw [sepAfter_nil, nil_append, nil_append]

theorem length_sepAfter_le (xs : List α) : (sepAfter sep xs).length ≤ 1 := by
  unfold sepAfter
  split
  · exact Nat.zero_le 1
  · exact Nat.le_refl 1

theorem length_joinSep_le (xs ys : List α) :
    (joinSep sep xs ys).length ≤ xs.length + ys.length + 1 := by
  have hsep := length_sepAfter_le sep xs
  unfold joinSep
  split
  · omega
  · rw [length_append, length_append]
    omega

/-- What is missing depends on the end of the list. -/
theorem sepAfter_congr {xs ys : List α} (hx : xs ≠ []) (hy : ys ≠ [])
    (hlast : xs.getLast? = ys.getLast?) : sepAfter sep xs = sepAfter sep ys := by
  simp only [sepAfter, hx, hy, hlast]

/-- Behind a joined list the same is missing as behind its second part. -/
theorem sepAfter_append (xs ys : List α) :
    sepAfter sep (xs ++ (sepAfter sep xs ++ ys)) = sepAfter sep ys := by
  cases ys with
  | nil =>
    rw [append_nil, sepAfter_nil]
    unfold sepAfter
    by_cases h : xs = [] ∨ xs.getLast? = some sep
    · simp [h]
    · simp [h]
  | cons y ys =>
    apply sepAfter_congr sep (by simp) (cons_ne_nil y ys)
    rw [← append_assoc, getLast?_append_of_ne_nil _ (cons_ne_nil y ys)]

/-- A joined list starts as its first part, unless that is empty. -/
theorem head?_joinSep {xs ys : List α} (h : ys.head? ≠ some sep) :
    (joinSep sep xs ys).head? = xs.head?.or ys.head? := by
  rw [joinSep_of_not_head sep h]
  cases xs with
  | nil => rw [sepAfter_nil, nil_append, nil_append, head?_nil, Option.none_or]
  | cons x xs => rfl

/-- Both groupings give the same list. -/
theorem joinSep_assoc (xs ys zs : List α) :
    joinSep sep (joinSep sep xs ys) zs = joinSep sep xs (joinSep sep ys zs) := by
  by_cases hz : zs.head? = some sep
  · simp only [joinSep_of_head sep hz]
  · have hhead : (joinSep sep ys zs).head? = ys.head?.or zs.head? := head?_joinSep sep hz
    by_cases hy : ys.head? = some sep
    · -- the second list replaces the first
      have hyz : (joinSep sep ys zs).head? = some sep := by
        rw [hhead, hy, Option.some_or]
      rw [joinSep_of_head sep hy, joinSep_of_head sep hyz]
    · have hyz : (joinSep sep ys zs).head? ≠ some sep := by
        rw [hhead]
        cases ys with
        | nil => simpa using hz
        | cons y ys => simpa using hy
      rw [joinSep_of_not_head sep hyz, joinSep_of_not_head sep hz, joinSep_of_not_head sep hz,
        joinSep_of_not_head sep hy, sepAfter_append]
      simp only [append_assoc]

end Join

section Split

variable {α : Type*} {p : α → Bool} {xs ys : List α} {x : α}

theorem rtakeWhile_append_cons (hys : ∀ y ∈ ys, p y) (hx : ¬p x) :
    (xs ++ x :: ys).rtakeWhile p = ys := by
  have hrev : ∀ y ∈ ys.reverse, p y := fun y hy => hys y (mem_reverse.mp hy)
  rw [rtakeWhile, reverse_append, reverse_cons, append_assoc, takeWhile_append_of_pos hrev,
    singleton_append, takeWhile_cons_of_neg hx, append_nil, reverse_reverse]

theorem rdropWhile_append_cons (hys : ∀ y ∈ ys, p y) (hx : ¬p x) :
    (xs ++ x :: ys).rdropWhile p = xs ++ [x] := by
  have hrev : ∀ y ∈ ys.reverse, p y := fun y hy => hys y (mem_reverse.mp hy)
  rw [rdropWhile, reverse_append, reverse_cons, append_assoc, dropWhile_append_of_pos hrev,
    singleton_append, dropWhile_cons_of_neg hx, reverse_cons, reverse_reverse]

end Split

end List
