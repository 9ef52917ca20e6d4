import Mathlib.Data.List.Basic

/-!
# Queues of tagged items

A queue whose readers each ask for the first item with their tag is as good as one queue for
every tag.

- `ofTag_append_singleton`, `takeTag_eq_some`: adding and taking concern one tag.
-/

variable {τ α : Type*} [DecidableEq τ]

/-- The items with a tag, in order. -/
def ofTag (q : List (τ × α)) (t : τ) : List α := (q.filter fun m => m.1 = t).map (·.2)

/-- The first item with a tag, and the queue without it. -/
def takeTag : List (τ × α) → τ → Option (α × List (τ × α))
  | [], _ => none
  | m :: q, t => if m.1 = t then some (m.2, q) else (takeTag q t).map fun r => (r.1, m :: r.2)

@[simp] theorem ofTag_nil (t : τ) : ofTag ([] : List (τ × α)) t = [] := rfl

theorem ofTag_cons (m : τ × α) (q : List (τ × α)) (t : τ) :
    ofTag (m :: q) t = if m.1 = t then m.2 :: ofTag q t else ofTag q t := by
  unfold ofTag
  rw [List.filter_cons]
  by_cases h : m.1 = t
  · simp [h]
  · simp [h]

theorem ofTag_append_singleton (q : List (τ × α)) (t t' : τ) (x : α) :
    ofTag (q ++ [(t, x)]) t' = if t = t' then ofTag q t' ++ [x] else ofTag q t' := by
  unfold ofTag
  rw [List.filter_append, List.map_append]
  by_cases h : t = t'
  · simp [h]
  · simp [h]

theorem takeTag_eq_none {q : List (τ × α)} {t : τ} (h : ofTag q t = []) : takeTag q t = none := by
  induction q with
  | nil => rfl
  | cons m q ih =>
    rw [ofTag_cons] at h
    split at h
    · cases h
    · next hne => rw [takeTag, if_neg hne, ih h, Option.map_none]

/-- The item taken is the first one with its tag, and the other tags keep theirs. -/
theorem takeTag_eq_some {q : List (τ × α)} {t : τ} {x : α} {xs : List α} (h : ofTag q t = x :: xs) :
    ∃ q', takeTag q t = some (x, q') ∧
      ∀ t', ofTag q' t' = if t = t' then xs else ofTag q t' := by
  induction q with
  | nil => cases h
  | cons m q ih =>
    rw [ofTag_cons] at h
    by_cases hm : m.1 = t
    · rw [if_pos hm] at h
      obtain ⟨hx, hxs⟩ := List.cons.inj h
      refine ⟨q, by rw [takeTag, if_pos hm, hx], fun t' => ?_⟩
      by_cases ht : t = t'
      · rw [if_pos ht, ← ht, hxs]
      · rw [if_neg ht, ofTag_cons, if_neg (hm ▸ ht)]
    · rw [if_neg hm] at h
      obtain ⟨q', htake, hrest⟩ := ih h
      refine ⟨m :: q', by rw [takeTag, if_neg hm, htake, Option.map_some], fun t' => ?_⟩
      rw [ofTag_cons, hrest, ofTag_cons]
      by_cases ht : t = t'
      · rw [if_pos ht, if_neg (ht ▸ hm), if_pos ht]
      · rw [if_neg ht, if_neg ht]
