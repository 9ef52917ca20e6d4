import Mathlib.Data.List.Basic
import Mathlib.Order.Lattice

/-!
# Sorting and searching with a comparison function

`qsort` and `bsearch` of the C library.  A comparison may be undefined for some arguments, and
a call that makes an undefined comparison faults (`none`).

- `qsort_spec`: sorting with a comparison that agrees with a linear order.
- `bsearch_spec`: the search finds an element of the key if there is one.
-/

section

variable {α κ β : Type*}

/-- `qsort(xs, n, size, cmp)`.  It may compare any two elements. -/
def qsort (cmp : α → α → Option Int) (xs : List α) : Option (List α) :=
  if ∀ a ∈ xs, ∀ b ∈ xs, (cmp a b).isSome then
    some (xs.mergeSort fun a b => (cmp a b).getD 0 ≤ 0)
  else none

/-- The loop of `bsearch` between the indices `l` and `u`, for fewer than `fuel` rounds. -/
def bsearchLoop (cmp : κ → α → Option Int) (key : κ) (xs : List α) :
    Nat → Nat → Nat → Option (Option Nat)
  | 0, _, _ => none
  | fuel + 1, l, u =>
    if l < u then
      let idx := (l + u) / 2
      (xs[idx]?.bind (cmp key)).bind fun d =>
        if d < 0 then bsearchLoop cmp key xs fuel l idx
        else if 0 < d then bsearchLoop cmp key xs fuel (idx + 1) u
        else some (some idx)
    else some none

/-- `bsearch(key, xs, n, size, cmp)`: the index of an element, or NULL. -/
def bsearch (cmp : κ → α → Option Int) (key : κ) (xs : List α) : Option (Option Nat) :=
  bsearchLoop cmp key xs (xs.length + 1) 0 xs.length

variable [LinearOrder β]

/-- The comparisons of `key` with the elements of a list tell on which side of `x` they are. -/
def ComparesTo (cmp : κ → α → Option Int) (key : κ) (x : β) (f : α → β) (xs : List α) : Prop :=
  ∀ a ∈ xs, ∃ d, cmp key a = some d ∧ (d < 0 ↔ x < f a) ∧ (0 < d ↔ f a < x)

theorem qsort_spec {cmp : α → α → Option Int} {f : α → β} {xs : List α}
    (h : ∀ a ∈ xs, ComparesTo cmp a (f a) f xs) :
    ∃ ys, qsort cmp xs = some ys ∧ ys.Perm xs ∧ ys.Pairwise fun a b => f a ≤ f b := by
  have hdefined : ∀ a ∈ xs, ∀ b ∈ xs, (cmp a b).isSome := by
    intro a ha b hb
    obtain ⟨d, hd, _⟩ := h a ha b hb
    rw [hd]
    rfl
  refine ⟨_, if_pos hdefined, List.mergeSort_perm _ _, ?_⟩
  -- on the elements, the comparison is that of the order
  have hle : ∀ a ∈ xs, ∀ b ∈ xs, decide ((cmp a b).getD 0 ≤ 0) = decide (f a ≤ f b) := by
    intro a ha b hb
    obtain ⟨d, hd, _, hgt⟩ := h a ha b hb
    apply decide_eq_decide.mpr
    rw [hd, Option.getD_some, ← Int.not_lt, hgt, not_lt]
  have hsort : xs.mergeSort (fun a b => (cmp a b).getD 0 ≤ 0) =
      xs.mergeSort fun a b => f a ≤ f b := by
    have hmap : (xs.mergeSort fun a b => decide ((cmp a b).getD 0 ≤ 0)).map id =
        (xs.map id).mergeSort fun a b => decide (f a ≤ f b) := List.map_mergeSort hle
    rwa [List.map_id, List.map_id] at hmap
  have hsorted := @List.pairwise_mergeSort _ (fun a b => decide (f a ≤ f b))
    (fun a b c hab hbc => by
      simp only [decide_eq_true_eq] at hab hbc ⊢
      exact hab.trans hbc)
    (fun a b => by simpa using le_total (f a) (f b)) xs
  rw [hsort]
  exact hsorted.imp of_decide_eq_true

section

variable {cmp : κ → α → Option Int} {key : κ} {x : β} {f : α → β} {xs : List α}

/-- Between the two indices there may still be an element of the key. -/
theorem bsearchLoop_spec (h : ComparesTo cmp key x f xs)
    (hsorted : xs.Pairwise fun a b => f a ≤ f b) {fuel l u : Nat} (hlu : l ≤ u)
    (hu : u ≤ xs.length)
    (hleft : ∀ (i : Nat) a, xs[i]? = some a → i < l → f a < x)
    (hright : ∀ (i : Nat) a, xs[i]? = some a → u ≤ i → x < f a) (hfuel : u < fuel + l) :
    ∃ r, bsearchLoop cmp key xs fuel l u = some r ∧ (r = none ↔ ∀ a ∈ xs, f a ≠ x) ∧
      ∀ i, r = some i → ∃ a, xs[i]? = some a ∧ f a = x := by
  have hmono : ∀ (i j : Nat) (a b : α), xs[i]? = some a → xs[j]? = some b → i < j → f a ≤ f b := by
    intro i j a b ha hb hij
    obtain ⟨hi, rfl⟩ := List.getElem?_eq_some_iff.mp ha
    obtain ⟨hj, rfl⟩ := List.getElem?_eq_some_iff.mp hb
    exact List.pairwise_iff_getElem.mp hsorted i j hi hj hij
  induction fuel generalizing l u with
  | zero => omega
  | succ fuel ih =>
    rw [bsearchLoop]
    by_cases hlt : l < u
    · have hidx : (l + u) / 2 < xs.length := by omega
      obtain ⟨a, ha⟩ : ∃ a, xs[(l + u) / 2]? = some a := ⟨_, List.getElem?_eq_getElem hidx⟩
      obtain ⟨d, hd, hbelow, habove⟩ := h a (List.mem_of_getElem? ha)
      simp only [hlt, ↓reduceIte, ha, hd, Option.bind_some]
      by_cases hneg : d < 0
      · rw [if_pos hneg]
        have hxa := hbelow.mp hneg
        refine ih (by omega) (by omega) hleft ?_ (by omega)
        intro i b hb hi
        rcases Nat.eq_or_lt_of_le hi with rfl | hi
        · rw [Option.some.inj (hb.symm.trans ha)]
          exact hxa
        · exact hxa.trans_le (hmono _ _ a b ha hb hi)
      · rw [if_neg hneg]
        by_cases hpos : 0 < d
        · rw [if_pos hpos]
          have hax := habove.mp hpos
          refine ih (by omega) hu ?_ hright (by omega)
          intro i b hb hi
          rcases Nat.eq_or_lt_of_le (Nat.le_of_lt_succ hi) with rfl | hi
          · rw [Option.some.inj (hb.symm.trans ha)]
            exact hax
          · exact (hmono _ _ b a hb ha hi).trans_lt hax
        · -- neither side: the element of the key
          rw [if_neg hpos]
          have heq : f a = x := le_antisymm (not_lt.mp fun hxa => hneg (hbelow.mpr hxa))
            (not_lt.mp fun hax => hpos (habove.mpr hax))
          refine ⟨_, rfl, ⟨fun hnone => (by cases hnone), fun hall => ?_⟩, ?_⟩
          · exact absurd heq (hall a (List.mem_of_getElem? ha))
          · intro i hi
            obtain rfl := Option.some.inj hi
            exact ⟨a, ha, heq⟩
    · rw [if_neg hlt]
      refine ⟨none, rfl, ⟨fun _ a hmem => ?_, fun _ => rfl⟩, fun i hi => by cases hi⟩
      obtain ⟨i, hi⟩ := List.mem_iff_getElem?.mp hmem
      rcases Nat.lt_or_ge i l with hil | hil
      · exact (hleft i a hi hil).ne
      · exact (hright i a hi (by omega)).ne'

/-- The search in a sorted array finds an element of the key exactly if there is one. -/
theorem bsearch_spec (h : ComparesTo cmp key x f xs)
    (hsorted : xs.Pairwise fun a b => f a ≤ f b) :
    ∃ r, bsearch cmp key xs = some r ∧ (r = none ↔ ∀ a ∈ xs, f a ≠ x) ∧
      ∀ i, r = some i → ∃ a, xs[i]? = some a ∧ f a = x := by
  apply bsearchLoop_spec h hsorted (Nat.zero_le _) (Nat.le_refl _)
  · intro i a _ hi
    exact absurd hi (Nat.not_lt_zero i)
  · intro i a ha hi
    rw [List.getElem?_eq_none hi] at ha
    cases ha
  · omega

end

end
