import CUtils.ForStd.StepSystem
import Mathlib.Algebra.BigOperators.Group.Finset.Basic

/-!
# Potentials of machines with several threads

A potential that some of the actions decrease, and that the others do not increase, bounds
how many of them a run can take.  The potential of a machine with several threads is a sum
over its threads, and a step that moves one thread changes one summand.

- `countP_add_le_of_run`: the bound for a run.
- `sum_update`: the sum after one thread has moved.
-/

namespace StepSystem

variable {σ α β : Type*}

theorem countP_add_le_of_run {step : σ → α → Option σ} {allowed : α → Prop} {counts : α → Bool}
    {μ : σ → Nat}
    (hcounts : ∀ s a s', allowed a → counts a = true → step s a = some s' → μ s' < μ s)
    (hothers : ∀ s a s', allowed a → counts a = false → step s a = some s' → μ s' ≤ μ s)
    {s s' : σ} {as : List α} (hallowed : ∀ a ∈ as, allowed a) (h : run step s as = some s') :
    as.countP counts + μ s' ≤ μ s := by
  induction as generalizing s with
  | nil =>
    obtain rfl := Option.some.inj h
    rw [List.countP_nil, Nat.zero_add]
  | cons a as ih =>
    obtain ⟨m, hm, hrest⟩ := (run_cons_eq_some step s a as s').mp h
    rw [List.forall_mem_cons] at hallowed
    have hle := ih hallowed.2 hrest
    cases ha : counts a with
    | true =>
      have hlt := hcounts s a m hallowed.1 ha hm
      rw [List.countP_cons_of_pos ha]
      omega
    | false =>
      have hkeep := hothers s a m hallowed.1 ha hm
      rw [List.countP_cons_of_neg (by simp [ha])]
      omega

/-- One thread moves, and the others keep their summands. -/
theorem sum_update (f : β → Nat) (threads : Nat → β) {n i : Nat} (hi : i < n) (b : β) :
    ∑ j ∈ Finset.range n, f (Function.update threads i b j) + f (threads i) =
      ∑ j ∈ Finset.range n, f (threads j) + f b := by
  induction n with
  | zero => omega
  | succ n ih =>
    rw [Finset.sum_range_succ, Finset.sum_range_succ]
    by_cases hlast : i = n
    · subst hlast
      have hbefore : ∑ j ∈ Finset.range i, f (Function.update threads i b j) =
          ∑ j ∈ Finset.range i, f (threads j) := by
        apply Finset.sum_congr rfl
        intro j hj
        rw [Function.update_of_ne (Nat.ne_of_lt (Finset.mem_range.mp hj))]
      rw [hbefore, Function.update_self]
      omega
    · rw [Function.update_of_ne (Ne.symm hlast)]
      have hrest := ih (by omega)
      omega

end StepSystem
