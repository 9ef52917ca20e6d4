import Mathlib.Data.List.Nodup

/-!
# List lemmas for loops

A loop `for (i = 0; i < n; i++)` whose body may fault is a `foldlM` over
`List.range n` in `Option`.  A loop over a linked list that remembers the node it
comes from ends with the last node it passed over, if any.  A loop that copies a
list extends a beginning of it element by element.  A list of records with a key
works as a finite map: `find?` looks a key up and `eraseP` removes it.
-/

namespace List

/-- The loop rule: a property of the loop counter and the state that holds at `0`
    and that every iteration establishes for the next counter, without faulting,
    holds at `n` after the loop. -/
theorem foldlM_range_inv {σ : Type*} {f : σ → Nat → Option σ} {P : Nat → σ → Prop} {s : σ}
    {n : Nat} (hinit : P 0 s)
    (hstep : ∀ k s, k < n → P k s → ∃ s', f s k = some s' ∧ P (k + 1) s') :
    ∃ s', (List.range n).foldlM f s = some s' ∧ P n s' := by
  induction n with
  | zero => exact ⟨s, rfl, hinit⟩
  | succ n ih =>
    obtain ⟨m, hm, hP⟩ := ih fun k s hk => hstep k s (by omega)
    obtain ⟨s', hs', hP'⟩ := hstep n m (by omega) hP
    refine ⟨s', ?_, hP'⟩
    rw [List.range_succ, List.foldlM_append, hm]
    simp only [List.foldlM_cons, List.foldlM_nil, hs', Option.bind_eq_bind, Option.bind_some,
      Option.pure_def]

/-- A fold keeps two states apart if each of its steps does. -/
theorem foldl_injective {σ α : Type*} {f : σ → α → σ}
    (h : ∀ x, Function.Injective fun s => f s x) (xs : List α) :
    Function.Injective fun s => xs.foldl f s := by
  induction xs with
  | nil => exact Function.injective_id
  | cons x xs ih => exact ih.comp (h x)

/-- The last element of `x :: xs`, with a default that is never needed. -/
theorem getLast?_cons_or {α : Type*} (x : α) (xs : List α) (o : Option α) :
    (x :: xs).getLast?.or o = xs.getLast?.or (some x) := by
  rw [List.getLast?_cons]
  cases xs.getLast? <;> rfl

/-- A beginning of a list is extended by the next element. -/
theorem isPrefix_concat {α : Type*} {xs ys : List α} {y : α} (h : xs <+: ys)
    (hy : ys[xs.length]? = some y) : xs ++ [y] <+: ys := by
  obtain ⟨zs, rfl⟩ := h
  rw [List.getElem?_append_right (Nat.le_refl _), Nat.sub_self] at hy
  cases zs with
  | nil => exact nomatch hy
  | cons z zs =>
    obtain rfl := Option.some.inj hy
    exact ⟨zs, by rw [List.append_assoc, List.singleton_append]⟩

/-- A partial function that is defined on a list maps it to a list of values. -/
theorem exists_map_eq_map_some {α β : Type*} {f : α → Option β} {xs : List α}
    (h : ∀ x ∈ xs, (f x).isSome) : ∃ ys : List β, xs.map f = ys.map some := by
  induction xs with
  | nil => exact ⟨[], rfl⟩
  | cons x xs ih =>
    obtain ⟨y, hy⟩ := Option.isSome_iff_exists.mp (h x List.mem_cons_self)
    obtain ⟨ys, hys⟩ := ih fun z hz => h z (List.mem_cons_of_mem x hz)
    exact ⟨y :: ys, by rw [List.map_cons, List.map_cons, hy, hys]⟩

/-- Looking for the first element that stops a pass, behind elements that it passes over. -/
theorem exists_stop_cons_iff {α : Type*} {pass stop : α → Prop} {x : α} {xs : List α} :
    (∃ (k : Nat) (y : α), (x :: xs)[k]? = some y ∧ stop y ∧
      ∀ j < k, ∀ z, (x :: xs)[j]? = some z → pass z) ↔
      stop x ∨ pass x ∧
        ∃ (k : Nat) (y : α), xs[k]? = some y ∧ stop y ∧ ∀ j < k, ∀ z, xs[j]? = some z → pass z := by
  constructor
  · rintro ⟨k, y, hy, hstop, hpass⟩
    cases k with
    | zero =>
      obtain rfl := Option.some.inj hy
      exact .inl hstop
    | succ k =>
      refine .inr ⟨hpass 0 (Nat.zero_lt_succ k) x rfl, k, y, hy, hstop, ?_⟩
      intro j hj z hz
      exact hpass (j + 1) (Nat.succ_lt_succ hj) z hz
  · rintro (hstop | ⟨hx, k, y, hy, hstop, hpass⟩)
    · exact ⟨0, x, rfl, hstop, fun j hj => absurd hj (Nat.not_lt_zero j)⟩
    · refine ⟨k + 1, y, hy, hstop, ?_⟩
      intro j hj z hz
      cases j with
      | zero =>
        obtain rfl := Option.some.inj hz
        exact hx
      | succ j => exact hpass j (Nat.lt_of_succ_lt_succ hj) z hz

section Keyed

variable {α κ : Type*} [DecidableEq κ] {key : α → κ} {xs : List α}

/-- A key is found exactly when some record has it. -/
theorem isSome_find?_key_iff (k : κ) :
    (xs.find? fun x => decide (key x = k)).isSome ↔ k ∈ xs.map key := by
  simp only [List.find?_isSome, decide_eq_true_eq, List.mem_map]

/-- Looking up the key of a new record in front of the others. -/
theorem find?_key_cons (x : α) (k : κ) :
    ((x :: xs).find? fun y => decide (key y = k)) =
      if key x = k then some x else xs.find? fun y => decide (key y = k) := by
  rw [List.find?_cons]
  by_cases h : key x = k
  · simp only [h, decide_true, ↓reduceIte]
  · simp only [h, decide_false, ↓reduceIte]

/-- Where no two records share a key, every record is found under its key. -/
theorem find?_key_self (h : (xs.map key).Nodup) {x : α} (hx : x ∈ xs) :
    (xs.find? fun y => decide (key y = key x)) = some x := by
  obtain ⟨y, hy⟩ := Option.isSome_iff_exists.mp
    ((isSome_find?_key_iff (key x)).mpr (List.mem_map_of_mem hx))
  have hkey : key y = key x := by simpa using List.find?_some hy
  rw [hy, List.inj_on_of_nodup_map h (List.mem_of_find?_eq_some hy) hx hkey]

/-- Where no two records share a key, removing a key leaves the lookup of the others. -/
theorem find?_key_eraseP (h : (xs.map key).Nodup) (a k : κ) :
    ((xs.eraseP fun x => decide (key x = a)).find? fun x => decide (key x = k)) =
      if k = a then none else xs.find? fun x => decide (key x = k) := by
  induction xs with
  | nil => simp
  | cons x xs ih =>
    rw [List.map_cons, List.nodup_cons] at h
    by_cases hx : key x = a
    · rw [List.eraseP_cons_of_pos (by simpa using hx), find?_key_cons]
      split
      · -- the removed record was the only one with its key
        rename_i hk
        have hnot : ¬ (xs.find? fun y => decide (key y = k)).isSome := by
          rw [isSome_find?_key_iff, hk, ← hx]
          exact h.1
        simpa using hnot
      · rename_i hk
        rw [if_neg (fun heq => hk (heq.symm.trans hx))]
    · rw [List.eraseP_cons_of_neg (by simpa using hx), find?_key_cons, find?_key_cons, ih h.2]
      by_cases hk : key x = k
      · rw [if_pos hk, if_pos hk, if_neg (fun heq => hx (hk.trans heq))]
      · rw [if_neg hk, if_neg hk]

end Keyed

end List
