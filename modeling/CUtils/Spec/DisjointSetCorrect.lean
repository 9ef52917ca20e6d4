import CUtils.ForStd.Forest
import CUtils.ForStd.List
import CUtils.ForStd.StepSystem
import CUtils.Native.DisjointSet

/-!
# Disjoint sets compute the equivalence closure

The arrays `parent` and `rank` form a ranked forest on the nodes below `max_nodes`.
`disjoint_set_find` compresses paths in it, `disjoint_set_union` links roots by rank,
and the roots decide the equivalence closure of the united pairs.

- `disjointSetFind_spec`: both loops of find terminate; the root is returned and no
  root changes.
- `disjointSetUnion_spec`: union adds one pair to the represented equivalence.
- `disjointSet_represents_eqvGen`: the result for every sequence of calls.
-/

namespace CUtils

open DisjointSet StepSystem

/-- The structure holds a forest on `n` nodes. -/
structure DisjointSetWf (n : Nat) (set : DisjointSet) : Prop where
  maxNodes_eq : set.maxNodes = n
  lt_max : n < disjointSetMax
  forest : Forest (Finset.range n) set.parent set.rank

theorem load_of_lt {array : Nat → Nat} {i : Nat} (h : i < disjointSetMax) :
    load array i = some (array i) := if_pos h

theorem store_of_lt {array : Nat → Nat} {i : Nat} (v : Nat) (h : i < disjointSetMax) :
    store array i v = some (Function.update array i v) := if_pos h

/-! ## Make -/

/-- One iteration writes the two elements of its node. -/
private theorem disjointSetMakeNode_spec (set : DisjointSet) {i : Nat} (hi : i < disjointSetMax) :
    disjointSetMakeNode set i = some { set with
      parent := Function.update set.parent i i, rank := Function.update set.rank i 0 } := by
  simp only [disjointSetMakeNode, store_of_lt _ hi, Option.bind_eq_bind, Option.bind_some,
    Option.pure_def]

/-- `disjoint_set_make` builds `max_nodes` singleton trees of rank 0, whatever the
    structure held before. -/
theorem disjointSetMake_spec (set : DisjointSet) {n : Nat} (hn : n < disjointSetMax) :
    ∃ set', disjointSetMake set n = some (set', 0) ∧ DisjointSetWf n set' ∧
      ∀ i, i < n → set'.parent i = i ∧ set'.rank i = 0 := by
  have hinit : (n : Int) = n ∧ ∀ i, i < 0 → set.parent i = i ∧ set.rank i = 0 :=
    ⟨rfl, fun i hi => absurd hi (Nat.not_lt_zero i)⟩
  -- the loop has initialised the nodes below `k`
  obtain ⟨set', hrun, hmax, hnodes⟩ :=
    List.foldlM_range_inv (n := n) (s := { set with maxNodes := (n : Int) })
      (f := disjointSetMakeNode)
      (P := fun k set => set.maxNodes = n ∧ ∀ i, i < k → set.parent i = i ∧ set.rank i = 0)
      hinit (by
        rintro k set hk ⟨hmax, hnodes⟩
        refine ⟨_, disjointSetMakeNode_spec set (hk.trans hn), hmax, fun i hi => ?_⟩
        show Function.update set.parent k k i = i ∧ Function.update set.rank k 0 i = 0
        by_cases hik : i = k
        · rw [hik, Function.update_self, Function.update_self]
          exact ⟨rfl, rfl⟩
        · rw [Function.update_of_ne hik, Function.update_of_ne hik]
          exact hnodes i (by omega))
  have hlt : ¬ ((n : Int) ≥ disjointSetMax) := by omega
  refine ⟨set', ?_, ⟨hmax, hn, ?_, ?_⟩, hnodes⟩
  · simp only [disjointSetMake, hlt, ↓reduceIte, Int.toNat_natCast, hrun, Option.bind_eq_bind,
      Option.bind_some, Option.pure_def]
  · intro x hx
    rwa [(hnodes x (Finset.mem_range.mp hx)).1]
  · intro x hx hne
    exact absurd (hnodes x (Finset.mem_range.mp hx)).1 hne

/-! ## Find -/

/-- The root loop reaches the root within as many steps as there are larger ranks. -/
private theorem disjointSetFindRoot_spec {n : Nat} {set : DisjointSet} (h : DisjointSetWf n set)
    {x r fuel : Nat} (hx : x ∈ Finset.range n) (hr : RootOf set.parent x r)
    (hfuel : rankGap (Finset.range n) set.rank x < fuel) :
    disjointSetFindRoot set fuel x = some r := by
  induction hr generalizing fuel with
  | @root y hy =>
    obtain ⟨k, rfl⟩ : ∃ k, fuel = k + 1 := ⟨fuel - 1, by omega⟩
    have hlt : y < disjointSetMax := (Finset.mem_range.mp hx).trans h.lt_max
    simp only [disjointSetFindRoot, load_of_lt hlt, Option.bind_eq_bind, Option.bind_some, hy,
      ne_eq, not_true_eq_false, ↓reduceIte, Option.pure_def]
  | @step y s hy _ ih =>
    obtain ⟨k, rfl⟩ : ∃ k, fuel = k + 1 := ⟨fuel - 1, by omega⟩
    have hlt : y < disjointSetMax := (Finset.mem_range.mp hx).trans h.lt_max
    have hgap := h.forest.rankGap_parent_lt hx hy
    simp only [disjointSetFindRoot, load_of_lt hlt, Option.bind_eq_bind, Option.bind_some,
      ne_eq, hy, not_false_eq_true, ↓reduceIte]
    exact ih (h.forest.parent_mem y hx) (by omega)

/-- Path compression terminates and keeps the forest, the ranks and every root. -/
private theorem disjointSetCompress_spec {n : Nat} {root fuel : Nat} {set : DisjointSet}
    (h : DisjointSetWf n set) {a : Nat} (ha : a ∈ Finset.range n)
    (hroot : RootOf set.parent a root) (hfuel : rankGap (Finset.range n) set.rank a < fuel) :
    ∃ set', disjointSetCompress root fuel set a = some set' ∧ DisjointSetWf n set' ∧
      set'.rank = set.rank ∧ ∀ x r, RootOf set.parent x r → RootOf set'.parent x r := by
  induction fuel generalizing set a with
  | zero => omega
  | succ fuel ih =>
    have hlt : a < disjointSetMax := (Finset.mem_range.mp ha).trans h.lt_max
    by_cases hdone : set.parent a = root
    · refine ⟨set, ?_, h, rfl, fun _ _ hr => hr⟩
      simp only [disjointSetCompress, load_of_lt hlt, Option.bind_eq_bind, Option.bind_some,
        hdone, ne_eq, not_true_eq_false, ↓reduceIte, Option.pure_def]
    · -- `a` is neither the root nor one of its children
      have hne : set.parent a ≠ a := by
        intro heq
        exact hdone (heq.trans ((RootOf.root heq).unique hroot))
      have hwf : DisjointSetWf n { set with parent := Function.update set.parent a root } :=
        ⟨h.maxNodes_eq, h.lt_max, h.forest.compress ha hroot⟩
      have hgap := h.forest.rankGap_parent_lt ha hne
      obtain ⟨set', hrun, hwf', hrank, hroots⟩ := ih hwf (h.forest.parent_mem a ha)
        (RootOf.compress hroot hroot.of_parent)
        (by show rankGap _ set.rank _ < fuel; omega)
      refine ⟨set', ?_, hwf', hrank, fun x r hr => hroots x r (RootOf.compress hroot hr)⟩
      simp only [disjointSetCompress, load_of_lt hlt, store_of_lt _ hlt, Option.bind_eq_bind,
        Option.bind_some, ne_eq, hdone, not_false_eq_true, ↓reduceIte, hrun]

/-- `disjoint_set_find` terminates, returns the root of the node and changes no root. -/
theorem disjointSetFind_spec {n : Nat} {set : DisjointSet} (h : DisjointSetWf n set) {a : Nat}
    (ha : a < n) :
    ∃ set' r, disjointSetFind set a = some (set', r) ∧ DisjointSetWf n set' ∧ r < n ∧
      set'.rank = set.rank ∧ RootOf set.parent a r ∧
      ∀ x s, RootOf set.parent x s → RootOf set'.parent x s := by
  have ha' : a ∈ Finset.range n := Finset.mem_range.mpr ha
  obtain ⟨r, hr, hroot⟩ := h.forest.exists_root ha'
  have hfuel : rankGap (Finset.range n) set.rank a < disjointSetMax := by
    have hcard : rankGap (Finset.range n) set.rank a < (Finset.range n).card := rankGap_lt_card ha'
    rw [Finset.card_range] at hcard
    exact hcard.trans h.lt_max
  obtain ⟨set', hrun, hwf, hrank, hroots⟩ := disjointSetCompress_spec h ha' hroot hfuel
  refine ⟨set', r, ?_, hwf, Finset.mem_range.mp hr, hrank, hroot, hroots⟩
  simp only [disjointSetFind, disjointSetFindRoot_spec h ha' hroot hfuel, hrun,
    Option.bind_eq_bind, Option.bind_some, Option.pure_def]

/-! ## Union -/

/-- `set'` is `set` with the root `b` below the root `a`.  The new rank of `a` exceeds
    that of `b`, and by no more than the two old ranks pay for. -/
structure Linked (set set' : DisjointSet) (a b : Nat) : Prop where
  parent_eq : set'.parent = Function.update set.parent b a
  rank_other : ∀ x, x ≠ a → set'.rank x = set.rank x
  rank_grow : set.rank a ≤ set'.rank a
  rank_lt : set.rank b < set'.rank a
  rank_paid : 2 ^ set'.rank a ≤ 2 ^ set.rank a + 2 ^ set.rank b

/-- Linking two different roots, the one of larger rank on top. -/
private theorem disjointSetLink_spec {n : Nat} {set : DisjointSet} (h : DisjointSetWf n set)
    {a b : Nat} (ha : a < n) (hb : b < n) (hroot : set.parent a = a) (hne : a ≠ b)
    (hrank : set.rank b ≤ set.rank a) :
    ∃ set', disjointSetLink set a b = some set' ∧ DisjointSetWf n set' ∧ Linked set set' a b := by
  have ha' : a < disjointSetMax := ha.trans h.lt_max
  have hb' : b < disjointSetMax := hb.trans h.lt_max
  obtain ⟨set', hrun, hmax, hL⟩ : ∃ set', disjointSetLink set a b = some set' ∧
      set'.maxNodes = set.maxNodes ∧ Linked set set' a b := by
    by_cases heq : set.rank a = set.rank b
    · -- equal ranks: the new root gains one
      refine ⟨{ set with
        parent := Function.update set.parent b a,
        rank := Function.update set.rank a (set.rank a + 1) }, ?_, rfl, rfl, ?_, ?_, ?_, ?_⟩
      · simp only [disjointSetLink, load_of_lt ha', load_of_lt hb', store_of_lt _ ha',
          store_of_lt _ hb', Option.bind_eq_bind, Option.bind_some, heq, ↓reduceIte,
          Option.pure_def]
      · exact fun x hx => Function.update_of_ne hx _ _
      · show set.rank a ≤ Function.update set.rank a (set.rank a + 1) a
        rw [Function.update_self]
        omega
      · show set.rank b < Function.update set.rank a (set.rank a + 1) a
        rw [Function.update_self]
        omega
      · show 2 ^ Function.update set.rank a (set.rank a + 1) a ≤ _
        rw [Function.update_self, ← heq, Nat.pow_succ]
        omega
    · refine ⟨{ set with parent := Function.update set.parent b a }, ?_, rfl, rfl,
        fun _ _ => rfl, Nat.le_refl _, ?_, Nat.le_add_right _ _⟩
      · simp only [disjointSetLink, load_of_lt ha', load_of_lt hb', store_of_lt _ hb',
          Option.bind_eq_bind, Option.bind_some, heq, ↓reduceIte, Option.pure_def]
      · show set.rank b < set.rank a
        omega
  refine ⟨set', hrun, ⟨hmax.trans h.maxNodes_eq, h.lt_max, ?_⟩, hL⟩
  rw [hL.parent_eq]
  exact h.forest.link (Finset.mem_range.mpr ha) hroot hne hL.rank_other hL.rank_grow hL.rank_lt

/-- What `disjoint_set_union` does: two finds, and unless these return one root, a link
    of the two roots. -/
theorem disjointSetUnion_cases {n : Nat} {set : DisjointSet} (h : DisjointSetWf n set)
    {a b : Nat} (ha : a < n) (hb : b < n) :
    ∃ set₂ set' ra rb, disjointSetUnion set a b = some set' ∧ DisjointSetWf n set₂ ∧
      DisjointSetWf n set' ∧ set₂.rank = set.rank ∧
      (∀ x r, RootOf set.parent x r → RootOf set₂.parent x r) ∧
      ra < n ∧ rb < n ∧ RootOf set₂.parent a ra ∧ RootOf set₂.parent b rb ∧
      ((ra = rb ∧ set' = set₂) ∨ (ra ≠ rb ∧ Linked set₂ set' ra rb) ∨
        (ra ≠ rb ∧ Linked set₂ set' rb ra)) := by
  obtain ⟨set₁, ra, hfind₁, hwf₁, hra, hrank₁, hroot_a, hroots₁⟩ := disjointSetFind_spec h ha
  obtain ⟨set₂, rb, hfind₂, hwf₂, hrb, hrank₂, hroot_b, hroots₂⟩ := disjointSetFind_spec hwf₁ hb
  have hroots : ∀ x r, RootOf set.parent x r → RootOf set₂.parent x r :=
    fun x r hr => hroots₂ x r (hroots₁ x r hr)
  have hrank : set₂.rank = set.rank := hrank₂.trans hrank₁
  -- the second find keeps the root that the first one found
  have har : RootOf set₂.parent a ra := hroots a ra hroot_a
  have hbr : RootOf set₂.parent b rb := hroots₂ b rb hroot_b
  by_cases heq : ra = rb
  · refine ⟨set₂, set₂, ra, rb, ?_, hwf₂, hwf₂, hrank, hroots, hra, hrb, har, hbr,
      .inl ⟨heq, rfl⟩⟩
    simp only [disjointSetUnion, hfind₁, hfind₂, Option.bind_eq_bind, Option.bind_some, heq,
      ↓reduceIte, Option.pure_def]
  · have hload_a : load set₂.rank ra = some (set₂.rank ra) := load_of_lt (hra.trans h.lt_max)
    have hload_b : load set₂.rank rb = some (set₂.rank rb) := load_of_lt (hrb.trans h.lt_max)
    by_cases hswap : set₂.rank ra < set₂.rank rb
    · -- the roots are swapped
      obtain ⟨set', hlink, hwf', hL⟩ :=
        disjointSetLink_spec hwf₂ hrb hra hbr.fixed (Ne.symm heq) (Nat.le_of_lt hswap)
      refine ⟨set₂, set', ra, rb, ?_, hwf₂, hwf', hrank, hroots, hra, hrb, har, hbr,
        .inr (.inr ⟨heq, hL⟩)⟩
      simp only [disjointSetUnion, hfind₁, hfind₂, Option.bind_eq_bind, Option.bind_some, heq,
        ↓reduceIte, hload_a, hload_b, hswap, hlink]
    · obtain ⟨set', hlink, hwf', hL⟩ :=
        disjointSetLink_spec hwf₂ hra hrb har.fixed heq (Nat.le_of_not_lt hswap)
      refine ⟨set₂, set', ra, rb, ?_, hwf₂, hwf', hrank, hroots, hra, hrb, har, hbr,
        .inr (.inl ⟨heq, hL⟩)⟩
      simp only [disjointSetUnion, hfind₁, hfind₂, Option.bind_eq_bind, Option.bind_some, heq,
        ↓reduceIte, hload_a, hload_b, hswap, hlink]

/-- `disjoint_set_union` adds the pair `(a, b)` to the represented equivalence. -/
theorem disjointSetUnion_spec {n : Nat} {set : DisjointSet} (h : DisjointSetWf n set)
    {R R' : Nat → Nat → Prop} (hrepr : Represents (Finset.range n) set.parent R)
    (hR : ∀ x y, R x y → x ∈ Finset.range n ∧ y ∈ Finset.range n) {a b : Nat} (ha : a < n)
    (hb : b < n) (hR' : ∀ x y, R' x y ↔ R x y ∨ (x = a ∧ y = b)) :
    ∃ set', disjointSetUnion set a b = some set' ∧ DisjointSetWf n set' ∧
      Represents (Finset.range n) set'.parent R' := by
  have ha' : a ∈ Finset.range n := Finset.mem_range.mpr ha
  have hb' : b ∈ Finset.range n := Finset.mem_range.mpr hb
  obtain ⟨set₂, set', ra, rb, hrun, hwf₂, hwf', _, hroots, _, _, har, hbr, hcases⟩ :=
    disjointSetUnion_cases h ha hb
  have hrepr₂ := hrepr.of_rootOf_imp h.forest hroots
  have hle : ∀ x y, R x y → R' x y := fun x y hxy => (hR' x y).mpr (.inl hxy)
  have hab : Relation.EqvGen R' a b := .rel a b ((hR' a b).mpr (.inr ⟨rfl, rfl⟩))
  refine ⟨set', hrun, hwf', ?_⟩
  rcases hcases with ⟨heq, rfl⟩ | ⟨hne, hL⟩ | ⟨hne, hL⟩
  · -- the roots agree: the pair was related before
    have hold : Relation.EqvGen R a b := (hrepr₂.root_eq_iff ha' hb' har hbr).mp heq
    have hsame : ∀ x y, Relation.EqvGen R' x y → Relation.EqvGen R x y := by
      intro x y hxy
      induction hxy with
      | rel x y hxy =>
        rcases (hR' x y).mp hxy with hxy | ⟨rfl, rfl⟩
        · exact .rel x y hxy
        · exact hold
      | refl x => exact .refl x
      | symm x y _ ih => exact .symm x y ih
      | trans x y z _ _ ih₁ ih₂ => exact .trans x y z ih₁ ih₂
    intro x hx y hy
    rw [hrepr₂ x hx y hy]
    exact ⟨fun hxy => Relation.EqvGen.mono hle x y hxy, hsame x y⟩
  · rw [hL.parent_eq]
    refine hrepr₂.link hwf₂.forest hR ha' hb' har hbr hne hle hab ?_
    intro x y hxy
    exact ((hR' x y).mp hxy).imp_right .inl
  · -- the roots were swapped, and the pair is added the other way round
    rw [hL.parent_eq]
    refine hrepr₂.link hwf₂.forest hR hb' ha' hbr har (Ne.symm hne) hle (.symm _ _ hab) ?_
    intro x y hxy
    exact ((hR' x y).mp hxy).imp_right .inr

/-! ## Counting roots -/

/-- `disjoint_set_num_roots` counts the nodes that are their own parent. -/
theorem disjointSetNumRoots_spec {n : Nat} {set : DisjointSet} (h : DisjointSetWf n set) :
    disjointSetNumRoots set =
      some ((Finset.range n).filter fun x => set.parent x = x).card := by
  obtain ⟨c, hc, rfl⟩ := List.foldlM_range_inv (n := n) (s := 0)
    (f := fun roots i => do
      let p ← load set.parent i
      return if p = i then roots + 1 else roots)
    (P := fun k roots => roots = ((Finset.range k).filter fun x => set.parent x = x).card) rfl (by
      rintro k roots hk rfl
      refine ⟨_, ?_, rfl⟩
      have hk' : k < disjointSetMax := hk.trans h.lt_max
      simp only [load_of_lt hk', Option.bind_eq_bind, Option.bind_some, Option.pure_def,
        Option.some.injEq]
      rw [Finset.range_add_one, Finset.filter_insert]
      split
      · rw [Finset.card_insert_of_notMem (by simp)]
      · rfl)
  simp only [disjointSetNumRoots, h.maxNodes_eq, Int.toNat_natCast]
  exact hc

/-! ## Sequences of calls -/

/-- The calls on a structure that was made. -/
inductive DisjointSetOp
  | union (a b : Nat)
  | find (a : Nat)

/-- The nodes of a call are among the first `n`. -/
def DisjointSetOp.InRange (n : Nat) : DisjointSetOp → Prop
  | .union a b => a < n ∧ b < n
  | .find a => a < n

/-- Make one call; find returns a node. -/
def disjointSetStep (set : DisjointSet) : DisjointSetOp → Option (DisjointSet × Option Nat)
  | .union a b => (disjointSetUnion set a b).map fun set => (set, none)
  | .find a => (disjointSetFind set a).map fun r => (r.1, some r.2)

/-- The pair was united by one of the calls. -/
def United (ops : List DisjointSetOp) (x y : Nat) : Prop := .union x y ∈ ops

/-- One call keeps the forest and adds its pair, if it is a union. -/
theorem disjointSetStep_spec {n : Nat} {set : DisjointSet} (h : DisjointSetWf n set)
    {R : Nat → Nat → Prop} (hrepr : Represents (Finset.range n) set.parent R)
    (hR : ∀ x y, R x y → x ∈ Finset.range n ∧ y ∈ Finset.range n) {op : DisjointSetOp}
    (hop : op.InRange n) :
    ∃ set' out, disjointSetStep set op = some (set', out) ∧ DisjointSetWf n set' ∧
      Represents (Finset.range n) set'.parent fun x y => R x y ∨ .union x y = op := by
  cases op with
  | union a b =>
    have hpair : ∀ x y, (R x y ∨ DisjointSetOp.union x y = .union a b) ↔
        R x y ∨ (x = a ∧ y = b) := by
      intro x y
      rw [DisjointSetOp.union.injEq]
    obtain ⟨set', hunion, hwf, hrepr'⟩ := disjointSetUnion_spec h hrepr hR hop.1 hop.2 hpair
    exact ⟨set', none, by simp only [disjointSetStep, hunion, Option.map_some], hwf, hrepr'⟩
  | find a =>
    obtain ⟨set', r, hfind, hwf, _, _, _, hroots⟩ := disjointSetFind_spec h hop
    refine ⟨set', some r, by simp only [disjointSetStep, hfind, Option.map_some], hwf, ?_⟩
    simp only [reduceCtorEq, or_false]
    exact hrepr.of_rootOf_imp h.forest hroots

/-- Every sequence of calls runs, and the roots decide the closure of the old pairs
    and the united ones. -/
theorem disjointSet_run_spec {n : Nat} {set : DisjointSet} (h : DisjointSetWf n set)
    {R : Nat → Nat → Prop} (hrepr : Represents (Finset.range n) set.parent R)
    (hR : ∀ x y, R x y → x ∈ Finset.range n ∧ y ∈ Finset.range n) {ops : List DisjointSetOp}
    (hops : ∀ op ∈ ops, op.InRange n) :
    ∃ set' outs, runOut disjointSetStep set ops = some (set', outs) ∧ DisjointSetWf n set' ∧
      Represents (Finset.range n) set'.parent fun x y => R x y ∨ United ops x y := by
  -- the relation of the pairs united so far grows along the run
  induction ops generalizing set R with
  | nil =>
    refine ⟨set, [], rfl, h, ?_⟩
    simpa only [United, List.not_mem_nil, or_false] using hrepr
  | cons op ops ih =>
    have hop : op.InRange n := hops op List.mem_cons_self
    obtain ⟨set₁, out, hstep, hwf₁, hrepr₁⟩ := disjointSetStep_spec h hrepr hR hop
    have hR₁ : ∀ x y, (R x y ∨ .union x y = op) → x ∈ Finset.range n ∧ y ∈ Finset.range n := by
      rintro x y (hxy | rfl)
      · exact hR x y hxy
      · exact ⟨Finset.mem_range.mpr hop.1, Finset.mem_range.mpr hop.2⟩
    obtain ⟨set', outs, hrun, hwf, hrepr'⟩ :=
      ih hwf₁ hrepr₁ hR₁ fun op hmem => hops op (List.mem_cons_of_mem _ hmem)
    refine ⟨set', out :: outs, ?_, hwf, ?_⟩
    · simp only [runOut, hstep, hrun, Option.bind_some, Option.map_some]
    · simpa only [United, List.mem_cons, or_assoc] using hrepr'

private theorem eq_of_eqvGen_false {x y : Nat} (h : Relation.EqvGen (fun _ _ => False) x y) :
    x = y := by
  induction h with
  | rel _ _ h => exact h.elim
  | refl _ => rfl
  | symm _ _ _ ih => exact ih.symm
  | trans _ _ _ _ _ ih₁ ih₂ => exact ih₁.trans ih₂

/-- After `disjoint_set_make` every node is a root and no pair is related. -/
theorem represents_of_make {n : Nat} {set : DisjointSet}
    (hnodes : ∀ i, i < n → set.parent i = i ∧ set.rank i = 0) :
    Represents (Finset.range n) set.parent fun _ _ => False := by
  intro x hx y hy
  have hxr : RootOf set.parent x x := .root (hnodes x (Finset.mem_range.mp hx)).1
  have hyr : RootOf set.parent y y := .root (hnodes y (Finset.mem_range.mp hy)).1
  constructor
  · rintro ⟨r, hr, hs⟩
    rw [hxr.unique hr, hyr.unique hs]
    exact .refl r
  · intro hxy
    obtain rfl := eq_of_eqvGen_false hxy
    exact ⟨x, hxr, hxr⟩

/-- Calls on the first `n` nodes after `disjoint_set_make` do not fault; the trees then
    represent the closure of the united pairs. -/
theorem disjointSet_make_run (set₀ : DisjointSet) {n : Nat} (hn : n ≤ 127)
    {ops : List DisjointSetOp} (hops : ∀ op ∈ ops, op.InRange n) :
    ∃ set₁ set outs, disjointSetMake set₀ n = some (set₁, 0) ∧
      runOut disjointSetStep set₁ ops = some (set, outs) ∧ DisjointSetWf n set₁ ∧
      (∀ i, i < n → set₁.parent i = i ∧ set₁.rank i = 0) ∧ DisjointSetWf n set ∧
      Represents (Finset.range n) set.parent (United ops) := by
  obtain ⟨set₁, hmake, hwf₁, hnodes⟩ :=
    disjointSetMake_spec set₀ (Nat.lt_of_le_of_lt hn (by decide : 127 < disjointSetMax))
  have hrepr₁ := represents_of_make hnodes
  obtain ⟨set, outs, hrun, hwf, hrepr⟩ :=
    disjointSet_run_spec hwf₁ hrepr₁ (fun _ _ h => h.elim) hops
  simp only [false_or] at hrepr
  exact ⟨set₁, set, outs, hmake, hrun, hwf₁, hnodes, hwf, hrepr⟩

/-- After `disjoint_set_make` and any sequence of calls on nodes below `max_nodes`:
    find terminates, and finds the same node for two nodes exactly when the closure of
    the united pairs relates them; a find changes no later result of find; and
    `disjoint_set_num_roots` is the number of equivalence classes. -/
theorem disjointSet_represents_eqvGen (set₀ : DisjointSet) (n : Nat) (hn : n ≤ 127)
    (ops : List DisjointSetOp) (hops : ∀ op ∈ ops, op.InRange n) :
    ∃ set₁ set outs, disjointSetMake set₀ n = some (set₁, 0) ∧
      runOut disjointSetStep set₁ ops = some (set, outs) ∧
      (∀ a b, a < n → b < n → ∃ set' r set'' s, disjointSetFind set a = some (set', r) ∧
        disjointSetFind set' b = some (set'', s) ∧ (r = s ↔ Relation.EqvGen (United ops) a b)) ∧
      (∀ a x set' r, a < n → x < n → disjointSetFind set a = some (set', r) →
        (disjointSetFind set' x).map Prod.snd = (disjointSetFind set x).map Prod.snd) ∧
      disjointSetNumRoots set = some (classes (Finset.range n) (United ops)).ncard := by
  obtain ⟨set₁, set, outs, hmake, hrun, _, _, hwf, hrepr⟩ := disjointSet_make_run set₀ hn hops
  refine ⟨set₁, set, outs, hmake, hrun, ?_, ?_, ?_⟩
  · intro a b ha hb
    obtain ⟨set', r, hfind, hwf', _, _, hr, hroots⟩ := disjointSetFind_spec hwf ha
    obtain ⟨set'', s, hfind', _, _, _, hs, _⟩ := disjointSetFind_spec hwf' hb
    refine ⟨set', r, set'', s, hfind, hfind', ?_⟩
    exact (hrepr.of_rootOf_imp hwf.forest hroots).root_eq_iff (Finset.mem_range.mpr ha)
      (Finset.mem_range.mpr hb) (hroots a r hr) hs
  · -- the find of `a` compresses paths but keeps the root of `x`
    intro a x set' r ha hx hfind
    obtain ⟨_, _, hfind_a, hwf', _, _, _, hroots⟩ := disjointSetFind_spec hwf ha
    obtain ⟨rfl, rfl⟩ := Prod.mk.inj (Option.some.inj (hfind.symm.trans hfind_a))
    obtain ⟨_, s, hfind_x, _, _, _, hs, _⟩ := disjointSetFind_spec hwf hx
    obtain ⟨_, t, hfind_x', _, _, _, ht, _⟩ := disjointSetFind_spec hwf' hx
    rw [hfind_x, hfind_x', Option.map_some, Option.map_some, ht.unique (hroots x s hs)]
  · rw [disjointSetNumRoots_spec hwf, hrepr.ncard_classes hwf.forest]

/-- Four nodes in two pairs, of which the second is joined through its other end. -/
theorem disjointSet_represents_eqvGen_run :
    ∃ set₁ set outs, disjointSetMake ⟨0, fun _ => 9, fun _ => 9⟩ (4 : Nat) = some (set₁, 0) ∧
      runOut disjointSetStep set₁ [.union 0 1, .union 3 2, .find 2] = some (set, outs) ∧
      (∀ a b, a < 4 → b < 4 → ∃ set' r set'' s, disjointSetFind set a = some (set', r) ∧
        disjointSetFind set' b = some (set'', s) ∧
        (r = s ↔ Relation.EqvGen (United [.union 0 1, .union 3 2, .find 2]) a b)) ∧
      (∀ a x set' r, a < 4 → x < 4 → disjointSetFind set a = some (set', r) →
        (disjointSetFind set' x).map Prod.snd = (disjointSetFind set x).map Prod.snd) ∧
      disjointSetNumRoots set =
        some (classes (Finset.range 4) (United [.union 0 1, .union 3 2, .find 2])).ncard :=
  disjointSet_represents_eqvGen ⟨0, fun _ => 9, fun _ => 9⟩ 4 (by decide) _ (by
    simp [DisjointSetOp.InRange])

end CUtils
