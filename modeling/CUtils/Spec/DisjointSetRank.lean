import Mathlib.Logic.Function.Iterate
import CUtils.Spec.DisjointSetCorrect

/-!
# Union by rank keeps the trees flat

A root of rank `k` has at least `2 ^ k` nodes below it: compression changes neither ranks
nor trees, and the rank of a root grows only when it takes over a tree of the same rank.

- `disjointSetStep_rankInv`: one call keeps the bound.
- `disjointSet_rank_bounds`: ranks, class sizes and the steps of the root loop after any
  sequence of calls.
-/

namespace CUtils

open DisjointSet StepSystem

section Step

variable {n : Nat} {set : DisjointSet}

/-- The bound on the ranks of the roots of a structure on `n` nodes. -/
def RankInv (n : Nat) (set : DisjointSet) : Prop :=
  RankBounded (Finset.range n) set.parent set.rank

/-- Trees of one node of rank 0. -/
theorem rankInv_of_make (hnodes : ∀ i, i < n → set.parent i = i ∧ set.rank i = 0) :
    RankInv n set := by
  intro r hr hroot
  have hmem : r ∈ treeOf (Finset.range n) set.parent r := ⟨hr, .root hroot⟩
  rw [(hnodes r (Finset.mem_range.mp hr)).2, Nat.pow_zero]
  exact (Set.ncard_pos (finite_treeOf ..)).mpr ⟨r, hmem⟩

/-- A union keeps the bound. -/
theorem disjointSetUnion_rankInv (h : DisjointSetWf n set) (hinv : RankInv n set) {a b : Nat}
    (ha : a < n) (hb : b < n) {set' : DisjointSet} (hrun : disjointSetUnion set a b = some set') :
    DisjointSetWf n set' ∧ RankInv n set' := by
  obtain ⟨set₂, set'', ra, rb, hrun', hwf₂, hwf', hrank, hroots, hra, hrb, har, hbr, hcases⟩ :=
    disjointSetUnion_cases h ha hb
  obtain rfl := Option.some.inj (hrun.symm.trans hrun')
  refine ⟨hwf', ?_⟩
  have hra' : ra ∈ Finset.range n := Finset.mem_range.mpr hra
  have hrb' : rb ∈ Finset.range n := Finset.mem_range.mpr hrb
  have hinv₂ : RankInv n set₂ := by
    rw [RankInv, hrank]
    exact h.forest.rankBounded_of_rootOf_imp hinv hroots
  rcases hcases with ⟨_, rfl⟩ | ⟨hne, hL⟩ | ⟨hne, hL⟩
  · exact hinv₂
  · rw [RankInv, hL.parent_eq]
    exact Forest.rankBounded_link hinv₂ hra' hrb' har.fixed hbr.fixed hne hL.rank_other
      hL.rank_paid
  · rw [RankInv, hL.parent_eq]
    exact Forest.rankBounded_link hinv₂ hrb' hra' hbr.fixed har.fixed (Ne.symm hne) hL.rank_other
      hL.rank_paid

/-- One call keeps the bound. -/
theorem disjointSetStep_rankInv (h : DisjointSetWf n set) (hinv : RankInv n set)
    {op : DisjointSetOp} (hop : op.InRange n) {set' : DisjointSet} {out : Option Nat}
    (hrun : disjointSetStep set op = some (set', out)) :
    DisjointSetWf n set' ∧ RankInv n set' := by
  cases op with
  | union a b =>
    simp only [disjointSetStep, Option.map_eq_some_iff, Prod.mk.injEq] at hrun
    obtain ⟨_, hunion, rfl, _⟩ := hrun
    exact disjointSetUnion_rankInv h hinv hop.1 hop.2 hunion
  | find a =>
    simp only [disjointSetStep, Option.map_eq_some_iff, Prod.mk.injEq] at hrun
    obtain ⟨_, hfind, rfl, _⟩ := hrun
    obtain ⟨set', r, hfind', hwf', _, hrank, _, hroots⟩ := disjointSetFind_spec h hop
    obtain rfl := Option.some.inj (hfind.symm.trans hfind')
    refine ⟨hwf', ?_⟩
    rw [RankInv, hrank]
    exact h.forest.rankBounded_of_rootOf_imp hinv hroots

/-- Ranks below `2 ^ 7` nodes are at most 6. -/
theorem RankInv.rank_le (h : DisjointSetWf n set) (hinv : RankInv n set) {x : Nat} (hx : x < n) :
    set.rank x ≤ 6 := by
  have hle := h.forest.two_pow_rank_le_card hinv (Finset.mem_range.mpr hx)
  rw [Finset.card_range] at hle
  have hlt : 2 ^ set.rank x < 2 ^ 7 := by
    calc 2 ^ set.rank x ≤ n := hle
      _ < 2 ^ 7 := h.lt_max
  have hrank := (Nat.pow_lt_pow_iff_right (by omega)).mp hlt
  omega

/-- The root loop takes as many steps as there are nodes on the way to the root. -/
theorem disjointSetFindRoot_iterate (h : DisjointSetWf n set) {k x r : Nat} (hx : x < n)
    (hiter : set.parent^[k] x = r) (hroot : set.parent r = r) :
    disjointSetFindRoot set (k + 1) x = some r := by
  induction k generalizing x with
  | zero =>
    obtain rfl : x = r := hiter
    have hlt : x < disjointSetMax := hx.trans h.lt_max
    simp only [disjointSetFindRoot, load_of_lt hlt, Option.bind_eq_bind, Option.bind_some, hroot,
      ne_eq, not_true_eq_false, ↓reduceIte, Option.pure_def]
  | succ k ih =>
    have hlt : x < disjointSetMax := hx.trans h.lt_max
    have hparent := h.forest.parent_mem x (Finset.mem_range.mpr hx)
    have hrest := ih (Finset.mem_range.mp hparent) hiter
    by_cases hfixed : set.parent x = x
    · -- the loop is at the root already
      obtain rfl : x = r := by
        rwa [Function.iterate_fixed hfixed] at hiter
      simp only [disjointSetFindRoot, load_of_lt hlt, Option.bind_eq_bind, Option.bind_some,
        hfixed, ne_eq, not_true_eq_false, ↓reduceIte, Option.pure_def]
    · rw [disjointSetFindRoot]
      simp only [load_of_lt hlt, Option.bind_eq_bind, Option.bind_some, ne_eq, hfixed,
        not_false_eq_true, ↓reduceIte]
      exact hrest

end Step

/-! ## Runs -/

/-- The bound holds after every run of calls on the first `n` nodes. -/
theorem disjointSet_run_rankInv {n : Nat} {set set' : DisjointSet} (h : DisjointSetWf n set)
    (hinv : RankInv n set) {ops : List DisjointSetOp} (hops : ∀ op ∈ ops, op.InRange n)
    {outs : List (Option Nat)} (hrun : runOut disjointSetStep set ops = some (set', outs)) :
    DisjointSetWf n set' ∧ RankInv n set' := by
  induction ops generalizing set outs with
  | nil =>
    obtain ⟨rfl, _⟩ := Prod.mk.inj (Option.some.inj hrun)
    exact ⟨h, hinv⟩
  | cons op ops ih =>
    simp only [runOut, Option.bind_eq_some_iff, Option.map_eq_some_iff, Prod.mk.injEq] at hrun
    obtain ⟨⟨set₁, out⟩, hstep, ⟨set₂, outs'⟩, hrest, rfl, _⟩ := hrun
    obtain ⟨hwf₁, hinv₁⟩ := disjointSetStep_rankInv h hinv (hops op List.mem_cons_self) hstep
    exact ih hwf₁ hinv₁ (fun op hmem => hops op (List.mem_cons_of_mem _ hmem)) hrest

/-- After `disjoint_set_make` and any sequence of calls on nodes below `max_nodes`: ranks
    grow strictly towards the root, a root of rank `k` has at least `2 ^ k` nodes in its
    class, ranks are at most 6, and the root loop of `disjoint_set_find` ends after at
    most 6 steps. -/
theorem disjointSet_rank_bounds (set₀ : DisjointSet) (n : Nat) (hn : n ≤ 127)
    (ops : List DisjointSetOp) (hops : ∀ op ∈ ops, op.InRange n) :
    ∃ set₁ set outs, disjointSetMake set₀ n = some (set₁, 0) ∧
      runOut disjointSetStep set₁ ops = some (set, outs) ∧
      (∀ x, x < n → set.parent x < n ∧ (set.parent x ≠ x → set.rank x < set.rank (set.parent x))) ∧
      (∀ r, r < n → set.parent r = r →
        2 ^ set.rank r ≤ (classOf (Finset.range n) (United ops) r).ncard) ∧
      (∀ x, x < n → set.rank x ≤ 6) ∧
      ∀ x, x < n → ∃ k r, k ≤ 6 ∧ set.parent^[k] x = r ∧ set.parent r = r ∧
        disjointSetFindRoot set (k + 1) x = some r := by
  obtain ⟨set₁, set, outs, hmake, hrun, hwf₁, hnodes, hwf, hrepr⟩ :=
    disjointSet_make_run set₀ hn hops
  obtain ⟨_, hinv⟩ := disjointSet_run_rankInv hwf₁ (rankInv_of_make hnodes) hops hrun
  refine ⟨set₁, set, outs, hmake, hrun, ?_, ?_, fun x hx => hinv.rank_le hwf hx, ?_⟩
  · intro x hx
    have hx' : x ∈ Finset.range n := Finset.mem_range.mpr hx
    exact ⟨Finset.mem_range.mp (hwf.forest.parent_mem x hx'), hwf.forest.rank_lt x hx'⟩
  · intro r hr hroot
    have hr' : r ∈ Finset.range n := Finset.mem_range.mpr hr
    -- the class of a root is its tree
    rw [← hwf.forest.treeOf_eq_classOf hrepr hr' hroot]
    exact hinv r hr' hroot
  · intro x hx
    have hx' : x ∈ Finset.range n := Finset.mem_range.mpr hx
    obtain ⟨r, hr, hxr⟩ := hwf.forest.exists_root hx'
    obtain ⟨k, hk, hiter⟩ := hwf.forest.exists_iterate_eq_root hx' hxr
    have hrank := hinv.rank_le hwf (Finset.mem_range.mp hr)
    exact ⟨k, r, by omega, hiter, hxr.fixed, disjointSetFindRoot_iterate hwf hx hiter hxr.fixed⟩

/-- Four nodes joined into one class in two rounds. -/
theorem disjointSet_rank_bounds_run :
    ∃ set₁ set outs, disjointSetMake ⟨0, fun _ => 9, fun _ => 9⟩ (4 : Nat) = some (set₁, 0) ∧
      runOut disjointSetStep set₁ [.union 0 1, .union 3 2, .union 1 2, .find 2] =
        some (set, outs) ∧
      ∀ x, x < 4 → ∃ k r, k ≤ 6 ∧ set.parent^[k] x = r ∧ set.parent r = r ∧
        disjointSetFindRoot set (k + 1) x = some r := by
  obtain ⟨set₁, set, outs, hmake, hrun, _, _, _, hsteps⟩ :=
    disjointSet_rank_bounds ⟨0, fun _ => 9, fun _ => 9⟩ 4 (by decide)
      [.union 0 1, .union 3 2, .union 1 2, .find 2] (by simp [DisjointSetOp.InRange])
  exact ⟨set₁, set, outs, hmake, hrun, hsteps⟩

end CUtils
