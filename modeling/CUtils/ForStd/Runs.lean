import Mathlib.Data.List.TakeWhile

/-!
# Runs between separators

`runs p xs` are the maximal runs of elements of `xs` that are not separators, in
order: what stays of a split at every separator when the empty pieces are dropped.
A scanner that skips separators and then takes a run computes them one by one,
whether or not it steps over the separator behind the run.
-/

namespace List

variable {α : Type*} (p : α → Bool)

/-- The maximal runs of elements that fail `p`, in order. -/
def runs (xs : List α) : List (List α) := (xs.splitOnP p).filter fun ys => !ys.isEmpty

@[simp] theorem runs_nil : runs p [] = [] := by
  simp [runs]

/-- Only the elements of the list are looked at. -/
theorem runs_congr {p q : α → Bool} {xs : List α} (h : ∀ x ∈ xs, p x = q x) :
    runs p xs = runs q xs := by
  have hsplit : xs.splitOnP p = xs.splitOnP q := by
    induction xs with
    | nil => rfl
    | cons x xs ih =>
      rw [List.splitOnP_cons_eq_if_modifyHead, List.splitOnP_cons_eq_if_modifyHead,
        h x List.mem_cons_self, ih fun y hy => h y (List.mem_cons_of_mem x hy)]
  rw [runs, runs, hsplit]

theorem ne_nil_of_mem_runs {xs ys : List α} (h : ys ∈ runs p xs) : ys ≠ [] := by
  simpa using (List.mem_filter.mp h).2

/-- A separator in front of a list is skipped. -/
theorem runs_cons_of_pos {x : α} (xs : List α) (hx : p x) : runs p (x :: xs) = runs p xs := by
  simp [runs, List.splitOnP_cons_eq_if_modifyHead, hx]

/-- Separators in front of a list are skipped. -/
theorem runs_dropWhile (xs : List α) : runs p (xs.dropWhile p) = runs p xs := by
  induction xs with
  | nil => rfl
  | cons x xs ih =>
    by_cases hx : p x
    · rw [List.dropWhile_cons_of_pos hx, runs_cons_of_pos p xs hx, ih]
    · rw [List.dropWhile_cons_of_neg hx]

/-- Dropping stops at an element that fails the condition. -/
theorem of_dropWhile_eq_cons {q : α → Bool} {xs ys : List α} {y : α}
    (h : xs.dropWhile q = y :: ys) : q y = false := by
  have hne : xs.dropWhile q ≠ [] := by
    rw [h]
    exact List.cons_ne_nil y ys
  have hhead := List.head_dropWhile_not q hne
  simpa only [h, List.head_cons] using hhead

/-- A separator behind a run is skipped. -/
theorem runs_tail_dropWhile_not (xs : List α) :
    runs p (xs.dropWhile fun x => !p x).tail = runs p (xs.dropWhile fun x => !p x) := by
  cases hrest : xs.dropWhile fun x => !p x with
  | nil => rfl
  | cons y ys =>
    have hy : p y := by simpa using of_dropWhile_eq_cons hrest
    rw [List.tail_cons, runs_cons_of_pos p ys hy]

/-- A list that starts with an element of a run starts with that run. -/
theorem runs_cons_of_neg {x : α} (xs : List α) (hx : p x = false) :
    runs p (x :: xs) =
      ((x :: xs).takeWhile fun x => !p x) :: runs p ((x :: xs).dropWhile fun x => !p x) := by
  have hword : ∀ y ∈ (x :: xs).takeWhile fun x => !p x, p y = false := by
    intro y hy
    simpa using List.mem_takeWhile_imp hy
  have hne : ((x :: xs).takeWhile fun x => !p x) ≠ [] := by
    simp [hx]
  have hsplit : ((x :: xs).takeWhile fun x => !p x) ++ ((x :: xs).dropWhile fun x => !p x) =
      x :: xs := List.takeWhile_append_dropWhile
  cases hrest : (x :: xs).dropWhile fun x => !p x with
  | nil =>
    -- the run reaches to the end of the list
    rw [hrest, List.append_nil] at hsplit
    rw [hsplit] at hword ⊢
    simp [runs, List.splitOnP_eq_singleton hword]
  | cons y ys =>
    -- the element behind the run is a separator
    have hy : p y := by simpa using of_dropWhile_eq_cons hrest
    rw [hrest] at hsplit
    generalize (x :: xs).takeWhile (fun x => !p x) = word at *
    rw [← hsplit, runs_cons_of_pos p ys hy]
    simp [runs, List.splitOnP_append_cons word ys hy, List.splitOnP_eq_singleton hword, hne]

/-- Without an element of a run there is no run. -/
theorem runs_of_dropWhile_eq_nil {xs : List α} (h : xs.dropWhile p = []) : runs p xs = [] := by
  rw [← runs_dropWhile, h, runs_nil]

/-- One step of a scanner: skip separators, take a run, step over the separator. -/
theorem runs_eq_cons {xs : List α} (h : xs.dropWhile p ≠ []) :
    runs p xs = ((xs.dropWhile p).takeWhile fun x => !p x) ::
      runs p ((xs.dropWhile p).dropWhile fun x => !p x).tail := by
  rw [← runs_dropWhile, runs_tail_dropWhile_not]
  cases hys : xs.dropWhile p with
  | nil => exact absurd hys h
  | cons y ys => exact runs_cons_of_neg p ys (of_dropWhile_eq_cons hys)

/-- What is behind the separator after the first run is shorter than the list. -/
theorem length_rest_lt {xs : List α} (h : xs ≠ []) :
    ((xs.dropWhile p).dropWhile fun x => !p x).tail.length < xs.length := by
  have hrun := List.length_dropWhile_le (fun x => !p x) (xs.dropWhile p)
  have hsep := List.length_dropWhile_le p xs
  have hpos : 0 < xs.length := List.length_pos_iff.mpr h
  rw [List.length_tail]
  omega

/-- There are at most as many runs as elements. -/
theorem length_runs_le (xs : List α) : (runs p xs).length ≤ xs.length := by
  by_cases h : xs.dropWhile p = []
  · rw [runs_of_dropWhile_eq_nil p h]
    exact Nat.zero_le _
  · have hne : xs ≠ [] := by
      intro hnil
      exact h (by rw [hnil, List.dropWhile_nil])
    have hlt := length_rest_lt p hne
    have ih := length_runs_le ((xs.dropWhile p).dropWhile fun x => !p x).tail
    rw [runs_eq_cons p h, List.length_cons]
    omega
termination_by xs.length
decreasing_by exact hlt

end List
