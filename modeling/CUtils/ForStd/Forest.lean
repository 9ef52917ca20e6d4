import Mathlib.Data.Finset.Card
import Mathlib.Data.Set.Card
import Mathlib.Logic.Function.Basic
import Mathlib.Logic.Relation

/-!
# Ranked forests

The mathematics of union-find over any type of nodes.  A forest is given by a
parent function under which every node of a finite set `S` that is not its own
parent has a strictly smaller rank than its parent.  The root of a node is found by
following parents; the number of nodes of larger rank bounds how long that takes.

- `Forest.compress`: redirecting a node to its root keeps the forest and all roots.
- `Forest.link`: making one root the parent of another merges exactly their trees.
- `Represents.link`: linking the roots of `a` and `b` adds the pair `(a, b)` to the
  equivalence that the forest represents.
- `Represents.ncard_classes`: there are as many roots as equivalence classes.
-/

variable {α : Type*}

/-- Following parents from `x` arrives at the root `r`. -/
inductive RootOf (parent : α → α) : α → α → Prop
  | root {r : α} : parent r = r → RootOf parent r r
  | step {x r : α} : parent x ≠ x → RootOf parent (parent x) r → RootOf parent x r

namespace RootOf

variable {parent : α → α} {x r s : α}

theorem fixed (h : RootOf parent x r) : parent r = r := by
  induction h with
  | root hr => exact hr
  | step _ _ ih => exact ih

theorem unique (h : RootOf parent x r) (h' : RootOf parent x s) : r = s := by
  induction h with
  | root hr =>
    cases h' with
    | root _ => rfl
    | step hne _ => exact absurd hr hne
  | step hne _ ih =>
    cases h' with
    | root hs => exact absurd hs hne
    | step _ hs => exact ih hs

theorem of_parent (h : RootOf parent x r) : RootOf parent (parent x) r := by
  cases h with
  | root hr => rw [hr]; exact .root hr
  | step _ h => exact h

variable [DecidableEq α]

/-- Redirecting a node to its root keeps every root. -/
theorem compress {a : α} (ha : RootOf parent a r) (h : RootOf parent x s) :
    RootOf (Function.update parent a r) x s := by
  induction h with
  | @root y hy =>
    refine .root ?_
    by_cases hya : y = a
    · -- a root that is compressed is redirected to itself
      subst hya
      rw [Function.update_self, unique ha (.root hy)]
    · rw [Function.update_of_ne hya]
      exact hy
  | @step y t hy hrest ih =>
    by_cases hya : y = a
    · -- the compressed node: the root is now one step away
      subst hya
      obtain rfl := unique ha (.step hy hrest)
      have hne : r ≠ y := fun heq => hy (heq ▸ ha.fixed)
      refine .step ?_ ?_
      · rw [Function.update_self]
        exact hne
      · rw [Function.update_self]
        exact .root (by rw [Function.update_of_ne hne]; exact ha.fixed)
    · refine .step ?_ ?_
      · rw [Function.update_of_ne hya]
        exact hy
      · rw [Function.update_of_ne hya]
        exact ih

/-- Making the root `a` the parent of the root `b` moves the nodes below `b` to `a`
    and keeps every other root. -/
theorem link {a b : α} (ha : parent a = a) (hb : parent b = b) (hab : a ≠ b)
    (h : RootOf parent x r) :
    RootOf (Function.update parent b a) x (if r = b then a else r) := by
  have hroot : RootOf (Function.update parent b a) a a :=
    .root (by rw [Function.update_of_ne hab]; exact ha)
  induction h with
  | @root y hy =>
    by_cases hyb : y = b
    · subst hyb
      rw [if_pos rfl]
      refine .step ?_ ?_
      · rw [Function.update_self]
        exact hab
      · rw [Function.update_self]
        exact hroot
    · rw [if_neg hyb]
      exact .root (by rw [Function.update_of_ne hyb]; exact hy)
  | @step y t hy _ ih =>
    by_cases hyb : y = b
    · -- a node with a proper parent is not the redirected root
      exact absurd (hyb ▸ hb) hy
    · refine .step ?_ ?_
      · rw [Function.update_of_ne hyb]
        exact hy
      · rw [Function.update_of_ne hyb]
        exact ih

end RootOf

/-- A forest on the nodes `S`: parents stay in `S` and ranks grow along them. -/
structure Forest (S : Finset α) (parent : α → α) (rank : α → Nat) : Prop where
  parent_mem : ∀ x ∈ S, parent x ∈ S
  rank_lt : ∀ x ∈ S, parent x ≠ x → rank x < rank (parent x)

/-- The number of nodes of larger rank. -/
def rankGap (S : Finset α) (rank : α → Nat) (x : α) : Nat := (S.filter (rank x < rank ·)).card

theorem rankGap_lt {S : Finset α} {rank : α → Nat} {x y : α} (hy : y ∈ S)
    (h : rank x < rank y) : rankGap S rank y < rankGap S rank x := by
  refine Finset.card_lt_card ?_
  rw [Finset.ssubset_iff_of_subset]
  · exact ⟨y, Finset.mem_filter.mpr ⟨hy, h⟩, fun hmem => by simp at hmem⟩
  · intro z hz
    obtain ⟨hzS, hyz⟩ := Finset.mem_filter.mp hz
    exact Finset.mem_filter.mpr ⟨hzS, h.trans hyz⟩

theorem rankGap_lt_card {S : Finset α} {rank : α → Nat} {x : α} (hx : x ∈ S) :
    rankGap S rank x < S.card := by
  refine Finset.card_lt_card ?_
  rw [Finset.ssubset_iff_of_subset (Finset.filter_subset _ _)]
  exact ⟨x, hx, fun hmem => by simp at hmem⟩

namespace Forest

variable {S : Finset α} {parent : α → α} {rank : α → Nat} {x r : α}

/-- The gap shrinks from a node to its proper parent. -/
theorem rankGap_parent_lt (hF : Forest S parent rank) (hx : x ∈ S) (hne : parent x ≠ x) :
    rankGap S rank (parent x) < rankGap S rank x :=
  rankGap_lt (hF.parent_mem x hx) (hF.rank_lt x hx hne)

/-- Every node has a root. -/
theorem exists_root (hF : Forest S parent rank) (hx : x ∈ S) :
    ∃ r ∈ S, RootOf parent x r := by
  -- induction on the number of nodes of larger rank
  induction hgap : rankGap S rank x using Nat.strongRecOn generalizing x with
  | ind n ih =>
    by_cases hroot : parent x = x
    · exact ⟨x, hx, .root hroot⟩
    · obtain ⟨r, hrS, hr⟩ :=
        ih _ (hgap ▸ hF.rankGap_parent_lt hx hroot) (hF.parent_mem x hx) rfl
      exact ⟨r, hrS, .step hroot hr⟩

theorem root_mem (hF : Forest S parent rank) (hx : x ∈ S) (h : RootOf parent x r) : r ∈ S := by
  obtain ⟨s, hs, hxs⟩ := hF.exists_root hx
  rwa [h.unique hxs]

/-- A node that is not a root has a smaller rank than its root. -/
theorem rank_lt_root (hF : Forest S parent rank) (hx : x ∈ S) (h : RootOf parent x r)
    (hne : x ≠ r) : rank x < rank r := by
  induction h with
  | root _ => exact absurd rfl hne
  | @step y s hy hrest ih =>
    have hlt := hF.rank_lt y hx hy
    by_cases hps : parent y = s
    · rwa [← hps]
    · exact hlt.trans (ih (hF.parent_mem y hx) hps)

variable [DecidableEq α]

/-- Path compression keeps the forest. -/
theorem compress (hF : Forest S parent rank) {a : α} (ha : a ∈ S) (har : RootOf parent a r) :
    Forest S (Function.update parent a r) rank := by
  constructor
  · intro x hx
    by_cases hxa : x = a
    · rw [hxa, Function.update_self]
      exact hF.root_mem ha har
    · rw [Function.update_of_ne hxa]
      exact hF.parent_mem x hx
  · intro x hx hne
    by_cases hxa : x = a
    · subst hxa
      rw [Function.update_self] at hne ⊢
      exact hF.rank_lt_root ha har (Ne.symm hne)
    · rw [Function.update_of_ne hxa] at hne ⊢
      exact hF.rank_lt x hx hne

/-- Linking by rank keeps the forest.  The new root may have gained rank, and has
    more than the node linked below it. -/
theorem link (hF : Forest S parent rank) {a b : α} (ha : a ∈ S) (hroot : parent a = a)
    (hab : a ≠ b) {rank' : α → Nat} (hother : ∀ x, x ≠ a → rank' x = rank x)
    (hgrow : rank a ≤ rank' a) (hlt : rank b < rank' a) :
    Forest S (Function.update parent b a) rank' := by
  constructor
  · intro x hx
    by_cases hxb : x = b
    · rw [hxb, Function.update_self]
      exact ha
    · rw [Function.update_of_ne hxb]
      exact hF.parent_mem x hx
  · intro x hx hne
    by_cases hxb : x = b
    · subst hxb
      rw [Function.update_self, hother x (Ne.symm hab)]
      exact hlt
    · rw [Function.update_of_ne hxb] at hne ⊢
      -- `a` is a root, so the rank that changed is not that of `x`
      have hxa : x ≠ a := fun heq => hne (heq ▸ hroot)
      have hrank := hF.rank_lt x hx hne
      rw [hother x hxa]
      by_cases hpa : parent x = a
      · rw [hpa] at hrank ⊢
        omega
      · rwa [hother _ hpa]

end Forest

/-! ## The represented equivalence -/

/-- Two nodes of `S` have the same root exactly when the equivalence closure of `R`
    relates them. -/
def Represents (S : Finset α) (parent : α → α) (R : α → α → Prop) : Prop :=
  ∀ x ∈ S, ∀ y ∈ S, (∃ r, RootOf parent x r ∧ RootOf parent y r) ↔ Relation.EqvGen R x y

namespace Represents

variable {S : Finset α} {parent : α → α} {rank : α → Nat} {R : α → α → Prop}

/-- Roots decide the equivalence. -/
theorem root_eq_iff (h : Represents S parent R) {x y r s : α} (hx : x ∈ S) (hy : y ∈ S)
    (hxr : RootOf parent x r) (hys : RootOf parent y s) : r = s ↔ Relation.EqvGen R x y := by
  rw [← h x hx y hy]
  constructor
  · rintro rfl
    exact ⟨r, hxr, hys⟩
  · rintro ⟨t, hxt, hyt⟩
    rw [hxr.unique hxt, hys.unique hyt]

/-- A change of parents that keeps every root keeps the equivalence. -/
theorem of_rootOf_imp (h : Represents S parent R) (hF : Forest S parent rank)
    {parent' : α → α} (hroots : ∀ x r, RootOf parent x r → RootOf parent' x r) :
    Represents S parent' R := by
  intro x hx y hy
  rw [← h x hx y hy]
  obtain ⟨r, _, hr⟩ := hF.exists_root hx
  obtain ⟨s, _, hs⟩ := hF.exists_root hy
  constructor
  · rintro ⟨t, hxt, hyt⟩
    obtain rfl := (hroots x r hr).unique hxt
    obtain rfl := (hroots y s hs).unique hyt
    exact ⟨_, hr, hs⟩
  · rintro ⟨t, hxt, hyt⟩
    exact ⟨t, hroots x t hxt, hroots y t hyt⟩

variable [DecidableEq α]

/-- Linking the roots of `a` and `b` adds the pair `(a, b)`, or `(b, a)`, or both. -/
theorem link (h : Represents S parent R) (hF : Forest S parent rank)
    (hR : ∀ x y, R x y → x ∈ S ∧ y ∈ S) {a b ra rb : α} (ha : a ∈ S) (hb : b ∈ S)
    (har : RootOf parent a ra) (hbr : RootOf parent b rb) (hne : ra ≠ rb) {R' : α → α → Prop}
    (hle : ∀ x y, R x y → R' x y) (hab : Relation.EqvGen R' a b)
    (hR' : ∀ x y, R' x y → R x y ∨ (x = a ∧ y = b) ∨ (x = b ∧ y = a)) :
    Represents S (Function.update parent rb ra) R' := by
  have hlink : ∀ x r, RootOf parent x r →
      RootOf (Function.update parent rb ra) x (if r = rb then ra else r) :=
    fun x r hr => hr.link har.fixed hbr.fixed hne
  have hold : ∀ x y, Relation.EqvGen R x y → Relation.EqvGen R' x y := fun x y =>
    Relation.EqvGen.mono hle x y
  intro x hx y hy
  obtain ⟨r, _, hr⟩ := hF.exists_root hx
  obtain ⟨s, _, hs⟩ := hF.exists_root hy
  constructor
  · rintro ⟨t, hxt, hyt⟩
    have heq : (if r = rb then ra else r) = if s = rb then ra else s := by
      rw [(hlink x r hr).unique hxt, (hlink y s hs).unique hyt]
    -- every node is related to `a` when its root is one of the two linked ones
    have hrel : ∀ z t, z ∈ S → RootOf parent z t → t = ra ∨ t = rb → Relation.EqvGen R' z a := by
      rintro z t hz hzt (rfl | rfl)
      · exact hold z a ((h.root_eq_iff hz ha hzt har).mp rfl)
      · exact .trans _ _ _ (hold z b ((h.root_eq_iff hz hb hzt hbr).mp rfl)) (.symm _ _ hab)
    by_cases hrs : r = s
    · exact hold x y ((h.root_eq_iff hx hy hr hs).mp hrs)
    · -- two old roots became one, so they are the linked ones
      have hboth : (r = ra ∨ r = rb) ∧ (s = ra ∨ s = rb) := by
        split at heq <;> split at heq <;> simp_all
      exact .trans _ _ _ (hrel x r hx hr hboth.1) (.symm _ _ (hrel y s hy hs hboth.2))
  · -- having the same root is an equivalence that contains `R'`
    have hsame : ∀ x y, Relation.EqvGen R' x y → x = y ∨
        ∃ t, RootOf (Function.update parent rb ra) x t ∧
          RootOf (Function.update parent rb ra) y t := by
      intro x y hxy
      induction hxy with
      | rel x y hxy =>
        right
        rcases hR' x y hxy with hxy | ⟨rfl, rfl⟩ | ⟨rfl, rfl⟩
        · obtain ⟨hx, hy⟩ := hR x y hxy
          obtain ⟨t, hxt, hyt⟩ := (h x hx y hy).mpr (.rel x y hxy)
          exact ⟨_, hlink x t hxt, hlink y t hyt⟩
        · have hx := hlink x ra har
          have hy := hlink y rb hbr
          rw [if_neg hne] at hx
          rw [if_pos rfl] at hy
          exact ⟨ra, hx, hy⟩
        · have hy := hlink y ra har
          have hx := hlink x rb hbr
          rw [if_neg hne] at hy
          rw [if_pos rfl] at hx
          exact ⟨ra, hx, hy⟩
      | refl x => exact .inl rfl
      | symm x y _ ih =>
        exact ih.imp Eq.symm fun ⟨t, hxt, hyt⟩ => ⟨t, hyt, hxt⟩
      | trans x y z _ _ ih₁ ih₂ =>
        rcases ih₁ with rfl | ⟨t, hxt, hyt⟩
        · exact ih₂
        · rcases ih₂ with rfl | ⟨u, hyu, hzu⟩
          · exact .inr ⟨t, hxt, hyt⟩
          · exact .inr ⟨t, hxt, hyt.unique hyu ▸ hzu⟩
    intro hxy
    rcases hsame x y hxy with rfl | hroots
    · exact ⟨_, hlink x r hr, hlink x r hr⟩
    · exact hroots

end Represents

/-! ## Counting classes -/

/-- The equivalence class of a node. -/
def classOf (S : Finset α) (R : α → α → Prop) (x : α) : Set α :=
  {y | y ∈ S ∧ Relation.EqvGen R x y}

/-- The equivalence classes of the nodes of `S`. -/
def classes (S : Finset α) (R : α → α → Prop) : Set (Set α) := classOf S R '' S

/-- There is one root in every class. -/
theorem Represents.ncard_classes [DecidableEq α] {S : Finset α} {parent : α → α} {rank : α → Nat}
    {R : α → α → Prop} (h : Represents S parent R) (hF : Forest S parent rank) :
    (classes S R).ncard = (S.filter fun x => parent x = x).card := by
  -- every class is the class of the root of its nodes
  have himage : classes S R = classOf S R '' (S.filter fun x => parent x = x : Finset α) := by
    ext C
    constructor
    · rintro ⟨x, hx, rfl⟩
      obtain ⟨r, hrS, hr⟩ := hF.exists_root hx
      refine ⟨r, by simpa using ⟨hrS, hr.fixed⟩, ?_⟩
      have hxr : Relation.EqvGen R x r := (h.root_eq_iff hx hrS hr (.root hr.fixed)).mp rfl
      ext y
      constructor
      · rintro ⟨hy, hry⟩
        exact ⟨hy, .trans _ _ _ hxr hry⟩
      · rintro ⟨hy, hxy⟩
        exact ⟨hy, .trans _ _ _ (.symm _ _ hxr) hxy⟩
    · rintro ⟨r, hr, rfl⟩
      exact ⟨r, (Finset.mem_filter.mp hr).1, rfl⟩
  -- roots of the same class are equal
  have hinj : Set.InjOn (classOf S R) (S.filter fun x => parent x = x : Finset α) := by
    intro r hr s hs heq
    obtain ⟨hrS, hrr⟩ := Finset.mem_filter.mp hr
    obtain ⟨hsS, hss⟩ := Finset.mem_filter.mp hs
    have hmem : s ∈ classOf S R r := by
      rw [heq]
      exact ⟨hsS, .refl s⟩
    exact (h.root_eq_iff hrS hsS (.root hrr) (.root hss)).mpr hmem.2
  rw [himage, hinj.ncard_image, Set.ncard_coe_finset]

/-! ## Ranks and sizes -/

/-- The nodes of `S` with the root `r`. -/
def treeOf (S : Finset α) (parent : α → α) (r : α) : Set α := {x | x ∈ S ∧ RootOf parent x r}

theorem finite_treeOf (S : Finset α) (parent : α → α) (r : α) : (treeOf S parent r).Finite :=
  S.finite_toSet.subset fun _ hx => hx.1

/-- Every root of rank `k` has at least `2 ^ k` nodes. -/
def RankBounded (S : Finset α) (parent : α → α) (rank : α → ℕ) : Prop :=
  ∀ r ∈ S, parent r = r → 2 ^ rank r ≤ (treeOf S parent r).ncard

namespace Forest

variable {S : Finset α} {parent : α → α} {rank : α → ℕ} {x r : α}

/-- The tree of a root is its class. -/
theorem treeOf_eq_classOf (hF : Forest S parent rank) {R : α → α → Prop}
    (h : Represents S parent R) (hr : r ∈ S) (hroot : parent r = r) :
    treeOf S parent r = classOf S R r := by
  ext x
  constructor
  · rintro ⟨hx, hxr⟩
    exact ⟨hx, (h.root_eq_iff hr hx (.root hroot) hxr).mp rfl⟩
  · rintro ⟨hx, hrx⟩
    obtain ⟨s, _, hxs⟩ := hF.exists_root hx
    obtain rfl := (h.root_eq_iff hr hx (.root hroot) hxs).mpr hrx
    exact ⟨hx, hxs⟩

/-- A change of parents that keeps every root keeps the trees. -/
theorem treeOf_of_rootOf_imp (hF : Forest S parent rank) {parent' : α → α}
    (hroots : ∀ x r, RootOf parent x r → RootOf parent' x r) (r : α) :
    treeOf S parent' r = treeOf S parent r := by
  ext x
  constructor
  · rintro ⟨hx, hxr⟩
    obtain ⟨s, _, hxs⟩ := hF.exists_root hx
    obtain rfl := (hroots x s hxs).unique hxr
    exact ⟨hx, hxs⟩
  · rintro ⟨hx, hxr⟩
    exact ⟨hx, hroots x r hxr⟩

/-- A change of parents that keeps every root keeps the bound. -/
theorem rankBounded_of_rootOf_imp (hF : Forest S parent rank) (h : RankBounded S parent rank)
    {parent' : α → α} (hroots : ∀ x r, RootOf parent x r → RootOf parent' x r) :
    RankBounded S parent' rank := by
  intro r hr hroot
  obtain ⟨s, _, hs⟩ := hF.exists_root hr
  obtain rfl := (hroots r s hs).unique (.root hroot)
  rw [hF.treeOf_of_rootOf_imp hroots]
  exact h s hr hs.fixed

/-- Linking two roots keeps the bound when the new rank is paid for by both trees. -/
theorem rankBounded_link [DecidableEq α] (h : RankBounded S parent rank)
    {a b : α} (ha : a ∈ S) (hb : b ∈ S) (hroot_a : parent a = a) (hroot_b : parent b = b)
    (hab : a ≠ b) {rank' : α → ℕ} (hother : ∀ x, x ≠ a → rank' x = rank x)
    (hpaid : 2 ^ rank' a ≤ 2 ^ rank a + 2 ^ rank b) :
    RankBounded S (Function.update parent b a) rank' := by
  have hlink : ∀ x s, RootOf parent x s →
      RootOf (Function.update parent b a) x (if s = b then a else s) :=
    fun x s hs => hs.link hroot_a hroot_b hab
  have hfinite := finite_treeOf S (Function.update parent b a)
  intro r hr hroot
  by_cases hra : r = a
  · -- the new root has the nodes of both trees
    rw [hra]
    have hsub : treeOf S parent a ∪ treeOf S parent b ⊆
        treeOf S (Function.update parent b a) a := by
      rintro x (⟨hx, hxa⟩ | ⟨hx, hxb⟩)
      · have hnew := hlink x a hxa
        rw [if_neg hab] at hnew
        exact ⟨hx, hnew⟩
      · have hnew := hlink x b hxb
        rw [if_pos rfl] at hnew
        exact ⟨hx, hnew⟩
    have hdisj : Disjoint (treeOf S parent a) (treeOf S parent b) := by
      rw [Set.disjoint_left]
      rintro x ⟨_, hxa⟩ ⟨_, hxb⟩
      exact hab (hxa.unique hxb)
    calc 2 ^ rank' a ≤ 2 ^ rank a + 2 ^ rank b := hpaid
      _ ≤ (treeOf S parent a).ncard + (treeOf S parent b).ncard :=
          Nat.add_le_add (h a ha hroot_a) (h b hb hroot_b)
      _ = (treeOf S parent a ∪ treeOf S parent b).ncard :=
          (Set.ncard_union_eq hdisj (finite_treeOf ..) (finite_treeOf ..)).symm
      _ ≤ _ := Set.ncard_le_ncard hsub (hfinite a)
  · -- another root keeps its tree
    have hrb : r ≠ b := by
      intro heq
      rw [heq, Function.update_self] at hroot
      exact hra (heq.trans hroot.symm)
    rw [Function.update_of_ne hrb] at hroot
    have hsub : treeOf S parent r ⊆ treeOf S (Function.update parent b a) r := by
      rintro x ⟨hx, hxr⟩
      have hnew := hlink x r hxr
      rw [if_neg hrb] at hnew
      exact ⟨hx, hnew⟩
    rw [hother r hra]
    exact (h r hr hroot).trans (Set.ncard_le_ncard hsub (hfinite r))

/-- No node has more than logarithmic rank. -/
theorem two_pow_rank_le_card (hF : Forest S parent rank) (h : RankBounded S parent rank)
    (hx : x ∈ S) : 2 ^ rank x ≤ S.card := by
  obtain ⟨r, hr, hxr⟩ := hF.exists_root hx
  have hle : rank x ≤ rank r := by
    by_cases heq : x = r
    · rw [heq]
    · exact (hF.rank_lt_root hx hxr heq).le
  calc 2 ^ rank x ≤ 2 ^ rank r := Nat.pow_le_pow_right (by omega) hle
    _ ≤ (treeOf S parent r).ncard := h r hr hxr.fixed
    _ ≤ (S : Set α).ncard := Set.ncard_le_ncard (fun _ hy => hy.1) S.finite_toSet
    _ = S.card := Set.ncard_coe_finset S

/-- The root of a node is at most as many steps away as its rank is larger. -/
theorem exists_iterate_eq_root (hF : Forest S parent rank) (hx : x ∈ S)
    (h : RootOf parent x r) : ∃ k, k + rank x ≤ rank r ∧ parent^[k] x = r := by
  induction h with
  | root _ => exact ⟨0, by omega, rfl⟩
  | @step y s hy _ ih =>
    obtain ⟨k, hk, hiter⟩ := ih (hF.parent_mem y hx)
    have hlt := hF.rank_lt y hx hy
    exact ⟨k + 1, by omega, hiter⟩

end Forest
