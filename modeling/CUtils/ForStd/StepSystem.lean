import Mathlib.Data.Option.Basic
import Mathlib.Data.List.Infix
import Mathlib.Data.Set.Basic

/-!
# Runs of step functions

A machine is a partial step function `step : σ → α → Option σ`: `none` means that
the action is not possible (or faults) in the state.  An interleaving of several
threads is a list of actions, so a statement about every interleaving is a
statement about `run step s as` for every `as`.

`runOut` is the variant whose steps also return a result, for a component driven
by a sequence of calls.
-/

namespace StepSystem

variable {σ τ α β : Type*}

/-- Run a step function over a list of actions. -/
def run (step : σ → α → Option σ) : σ → List α → Option σ
  | s, [] => some s
  | s, a :: as => (step s a).bind fun s' => run step s' as

/-- Run a step function with results over a list of calls, collecting the results. -/
def runOut (step : σ → α → Option (σ × β)) : σ → List α → Option (σ × List β)
  | s, [] => some (s, [])
  | s, a :: as =>
    (step s a).bind fun r => (runOut step r.1 as).map fun q => (q.1, r.2 :: q.2)

/-- Every action of the run `as` from `s` is taken in a state that meets `cond`. -/
def Meets (step : σ → α → Option σ) (cond : σ → α → Prop) : σ → List α → Prop
  | _, [] => True
  | s, a :: as => cond s a ∧ ∀ s', step s a = some s' → Meets step cond s' as

/-- Whether a run meets a decidable condition can be computed. -/
instance decidableMeets {step : σ → α → Option σ} {cond : σ → α → Prop}
    [∀ s a, Decidable (cond s a)] (s : σ) (as : List α) : Decidable (Meets step cond s as) :=
  match as with
  | [] => isTrue trivial
  | a :: as =>
    match h : step s a with
    | none => decidable_of_iff (cond s a) ⟨fun hc => ⟨hc, fun s' hs' => by simp [h] at hs'⟩, And.left⟩
    | some m =>
      have : Decidable (Meets step cond m as) := decidableMeets m as
      decidable_of_iff (cond s a ∧ Meets step cond m as)
        ⟨fun hc => ⟨hc.1, fun s' hs' => by
          obtain rfl := Option.some.inj (h.symm.trans hs')
          exact hc.2⟩, fun hc => ⟨hc.1, hc.2 m h⟩⟩

/-! ## Invariants -/

theorem run_cons_eq_some (step : σ → α → Option σ) (s : σ) (a : α) (as : List α) (s' : σ) :
    run step s (a :: as) = some s' ↔ ∃ m, step s a = some m ∧ run step m as = some s' :=
  Option.bind_eq_some_iff

/-- A run goes on where another one has ended. -/
theorem run_append {step : σ → α → Option σ} {s m : σ} {as : List α} (bs : List α)
    (h : run step s as = some m) : run step s (as ++ bs) = run step m bs := by
  induction as generalizing s with
  | nil =>
    obtain rfl := Option.some.inj h
    rfl
  | cons a as ih =>
    obtain ⟨t, ht, hrest⟩ := (run_cons_eq_some step s a as m).mp h
    rw [List.cons_append, run, ht, Option.bind_some, ih hrest]

/-- The last step of a run. -/
theorem run_concat_eq_some {step : σ → α → Option σ} {s s' : σ} {as : List α} {a : α} :
    run step s (as ++ [a]) = some s' ↔ ∃ m, run step s as = some m ∧ step m a = some s' := by
  induction as generalizing s with
  | nil => simp [run]
  | cons b as ih =>
    rw [List.cons_append, run_cons_eq_some]
    simp only [ih, run_cons_eq_some]
    constructor
    · rintro ⟨t, ht, m, hm, hlast⟩
      exact ⟨m, ⟨t, ht, hm⟩, hlast⟩
    · rintro ⟨m, ⟨t, ht, hm⟩, hlast⟩
      exact ⟨t, ht, m, hm, hlast⟩

/-- An invariant of the steps taken under `cond` holds after every run whose
    steps all meet `cond`. -/
theorem inv_of_meets {step : σ → α → Option σ} {cond : σ → α → Prop} {Inv : σ → Prop}
    (hstep : ∀ s a s', Inv s → cond s a → step s a = some s' → Inv s')
    {s s' : σ} {as : List α} (hs : Inv s) (hm : Meets step cond s as)
    (h : run step s as = some s') : Inv s' := by
  induction as generalizing s with
  | nil =>
    obtain rfl := Option.some.inj h
    exact hs
  | cons a as ih =>
    obtain ⟨m, hstep_m, hrest⟩ := (run_cons_eq_some step s a as s').mp h
    exact ih (hstep s a m hs hm.1 hstep_m) (hm.2 m hstep_m) hrest

/-- An invariant of every step holds after every run. -/
theorem inv_of_run {step : σ → α → Option σ} {Inv : σ → Prop}
    (hstep : ∀ s a s', Inv s → step s a = some s' → Inv s')
    {s s' : σ} {as : List α} (hs : Inv s) (h : run step s as = some s') : Inv s' := by
  have hmeets : ∀ as s, Meets step (fun _ _ => True) s as := by
    intro as
    induction as with
    | nil => exact fun _ => trivial
    | cons a as ih => exact fun s => ⟨trivial, fun m _ => ih m⟩
  exact inv_of_meets (fun s a s' hi _ => hstep s a s' hi) hs (hmeets as s) h

/-- An invariant that depends on what was ever seen during the run: `obs` are the things
    seen in a state. -/
theorem inv_of_run_history {step : σ → α → Option σ} {obs : σ → Set β} {Inv : σ → Set β → Prop}
    (hstep : ∀ s a s' seen, Inv s seen → step s a = some s' → Inv s' (seen ∪ obs s'))
    {s s' : σ} {as : List α} (hs : Inv s (obs s)) (h : run step s as = some s') :
    Inv s' {b | ∃ pre m, pre <+: as ∧ run step s pre = some m ∧ b ∈ obs m} := by
  -- by induction on the last step: it adds one prefix, the whole run
  induction as using List.reverseRecOn generalizing s' with
  | nil =>
    obtain rfl := Option.some.inj h
    convert hs using 1
    ext b
    constructor
    · rintro ⟨pre, m, hpre, hm, hb⟩
      obtain rfl := List.prefix_nil.mp hpre
      obtain rfl := Option.some.inj hm
      exact hb
    · intro hb
      exact ⟨[], s, List.prefix_refl [], rfl, hb⟩
  | append_singleton as a ih =>
    obtain ⟨m, hm, hlast⟩ := run_concat_eq_some.mp h
    convert hstep m a s' _ (ih hm) hlast using 1
    ext b
    constructor
    · rintro ⟨pre, t, hpre, ht, hb⟩
      rcases List.prefix_concat_iff.mp hpre with rfl | hpre
      · obtain rfl := Option.some.inj (h.symm.trans ht)
        exact .inr hb
      · exact .inl ⟨pre, t, hpre, ht, hb⟩
    · rintro (⟨pre, t, hpre, ht, hb⟩ | hb)
      · exact ⟨pre, t, hpre.trans (List.prefix_append as [a]), ht, hb⟩
      · exact ⟨as ++ [a], s', List.prefix_refl _, h, hb⟩

/-- The run lemma for calls with results: `upd` follows in an abstract state what each
    call did, and `Inv` relates the two states. -/
theorem inv_of_runOut {step : σ → α → Option (σ × β)} {upd : τ → α × β → τ} {Inv : σ → τ → Prop}
    (hstep : ∀ s t a s' b, Inv s t → step s a = some (s', b) → Inv s' (upd t (a, b)))
    {s s' : σ} {t : τ} {as : List α} {bs : List β} (hs : Inv s t)
    (h : runOut step s as = some (s', bs)) : Inv s' ((as.zip bs).foldl upd t) := by
  induction as generalizing s t bs with
  | nil =>
    simp only [runOut, Option.some.injEq, Prod.mk.injEq] at h
    obtain ⟨rfl, rfl⟩ := h
    exact hs
  | cons a as ih =>
    simp only [runOut, Option.bind_eq_some_iff, Option.map_eq_some_iff, Prod.mk.injEq] at h
    obtain ⟨⟨m, b⟩, hm, ⟨q, qs⟩, hrest, rfl, rfl⟩ := h
    exact ih (hstep s t a m b hs hm) hrest

/-- The run lemma for calls with results that are all of one kind. -/
theorem inv_of_runOut_mem {step : σ → α → Option (σ × β)} {upd : τ → α × β → τ}
    {Inv : σ → τ → Prop} {kind : α → Prop}
    (hstep : ∀ s t a s' b, kind a → Inv s t → step s a = some (s', b) → Inv s' (upd t (a, b)))
    {s s' : σ} {t : τ} {as : List α} {bs : List β} (hs : Inv s t) (hkind : ∀ a ∈ as, kind a)
    (h : runOut step s as = some (s', bs)) : Inv s' ((as.zip bs).foldl upd t) := by
  induction as generalizing s t bs with
  | nil =>
    simp only [runOut, Option.some.injEq, Prod.mk.injEq] at h
    obtain ⟨rfl, rfl⟩ := h
    exact hs
  | cons a as ih =>
    simp only [runOut, Option.bind_eq_some_iff, Option.map_eq_some_iff, Prod.mk.injEq] at h
    obtain ⟨⟨m, b⟩, hm, ⟨q, qs⟩, hrest, rfl, rfl⟩ := h
    obtain ⟨ha, has⟩ := List.forall_mem_cons.mp hkind
    exact ih (hstep s t a m b ha hs hm) has hrest

/-- Where a step keeps `P` exactly if it meets a condition on the run so far, `P` holds in every
    state of a run exactly if all its steps meet the condition.  `Inv pre s` holds in the state
    `s` that the actions `pre` reach. -/
theorem forall_prefix_iff_history {step : σ → α → Option σ} {cond : List α → α → Prop}
    {Inv : List α → σ → Prop} {P : σ → Prop} {s₀ : σ}
    (hstep : ∀ pre s a s', run step s₀ pre = some s → Inv pre s → P s → step s a = some s' →
      Inv (pre ++ [a]) s' ∧ (P s' ↔ cond pre a))
    (hs : Inv [] s₀) (hP : P s₀) {s : σ} {as : List α} (h : run step s₀ as = some s) :
    (∀ pre m, pre <+: as → run step s₀ pre = some m → P m) ↔
      ∀ pre a, pre ++ [a] <+: as → cond pre a := by
  suffices hall : ((∀ pre m, pre <+: as → run step s₀ pre = some m → P m) ↔
      ∀ pre a, pre ++ [a] <+: as → cond pre a) ∧
      ((∀ pre m, pre <+: as → run step s₀ pre = some m → P m) → Inv as s) from hall.1
  -- by induction on the last action
  induction as using List.reverseRecOn generalizing s with
  | nil =>
    obtain rfl := Option.some.inj h
    refine ⟨iff_of_true ?_ ?_, fun _ => hs⟩
    · intro pre m hpre hm
      obtain rfl := List.prefix_nil.mp hpre
      obtain rfl := Option.some.inj hm
      exact hP
    · intro pre a hpre
      exact absurd (List.prefix_nil.mp hpre) (by simp)
  | append_singleton as a ih =>
    obtain ⟨m, hm, hlast⟩ := run_concat_eq_some.mp h
    obtain ⟨hiff, hInv⟩ := ih hm
    have hshorter : (∀ pre t, pre <+: as ++ [a] → run step s₀ pre = some t → P t) →
        ∀ pre t, pre <+: as → run step s₀ pre = some t → P t :=
      fun hall pre t hpre => hall pre t (hpre.trans (List.prefix_append as [a]))
    have hnext : (∀ pre t, pre <+: as → run step s₀ pre = some t → P t) →
        Inv (as ++ [a]) s ∧ (P s ↔ cond as a) :=
      fun hall => hstep as m a s hm (hInv hall) (hall as m List.prefix_rfl hm) hlast
    refine ⟨⟨fun hall pre b hpre => ?_, fun hcond pre t hpre ht => ?_⟩,
      fun hall => (hnext (hshorter hall)).1⟩
    · rcases List.prefix_concat_iff.mp hpre with heq | hpre
      · obtain ⟨rfl, hb⟩ := List.append_inj' heq rfl
        obtain rfl := List.singleton_inj.mp hb
        exact (hnext (hshorter hall)).2.mp (hall _ s List.prefix_rfl h)
      · exact hiff.mp (hshorter hall) pre b hpre
    · have hold := hiff.mpr fun pre b hpre => hcond pre b (hpre.trans (List.prefix_append as [a]))
      rcases List.prefix_concat_iff.mp hpre with rfl | hpre
      · obtain rfl := Option.some.inj (h.symm.trans ht)
        exact (hnext hold).2.mpr (hcond as a List.prefix_rfl)
      · exact hold pre t hpre ht

/-! ## What has occurred -/

/-- A step of the kind `e` is taken in the run `as` from `s₀`. -/
def Occurs (step : σ → α → Option σ) (s₀ : σ) (e : σ → α → Prop) (as : List α) : Prop :=
  ∃ pre a m, pre ++ [a] <+: as ∧ run step s₀ pre = some m ∧ e m a

/-- A step of the kind `e` is taken, and later one of the kind `f`. -/
def OccursThen (step : σ → α → Option σ) (s₀ : σ) (e f : σ → α → Prop) (as : List α) : Prop :=
  ∃ pre a m, pre ++ [a] <+: as ∧ run step s₀ pre = some m ∧ Occurs step s₀ e pre ∧ f m a

section Occurs

variable {step : σ → α → Option σ} {s₀ : σ} {e f : σ → α → Prop} {as : List α} {m : σ}

/-- Nothing has occurred before the first step. -/
theorem not_occurs_nil : ¬ Occurs step s₀ e [] := by
  rintro ⟨pre, a, _, hpre, _⟩
  exact absurd (List.prefix_nil.mp hpre) (by simp)

theorem OccursThen.occurs (h : OccursThen step s₀ e f as) : Occurs step s₀ e as := by
  obtain ⟨pre, a, _, hpre, _, ⟨pre', b, t, hpre', ht, he⟩, _⟩ := h
  exact ⟨pre', b, t, hpre'.trans ((List.prefix_append pre [a]).trans hpre), ht, he⟩

/-- A run whose steps all meet a condition that excludes `e`. -/
theorem not_occurs_of_meets {cond : σ → α → Prop} (hcond : ∀ s a, cond s a → ¬ e s a)
    (hm : Meets step cond s₀ as) : ¬ Occurs step s₀ e as := by
  rintro ⟨pre, a, t, ⟨rest, rfl⟩, ht, he⟩
  induction pre generalizing s₀ with
  | nil =>
    obtain rfl := Option.some.inj ht
    exact hcond _ a hm.1 he
  | cons b pre ih =>
    obtain ⟨m, hb, hpre⟩ := (run_cons_eq_some step s₀ b pre t).mp ht
    exact ih (hm.2 m hb) hpre

/-- The steps of a run with one step more. -/
theorem exists_step_concat {E : List α → σ → α → Prop} (a : α) (h : run step s₀ as = some m) :
    (∃ pre b t, pre ++ [b] <+: as ++ [a] ∧ run step s₀ pre = some t ∧ E pre t b) ↔
      (∃ pre b t, pre ++ [b] <+: as ∧ run step s₀ pre = some t ∧ E pre t b) ∨ E as m a := by
  constructor
  · rintro ⟨pre, b, t, hpre, ht, hE⟩
    rcases List.prefix_concat_iff.mp hpre with heq | hpre
    · obtain ⟨rfl, hb⟩ := List.append_inj' heq rfl
      obtain rfl := List.singleton_inj.mp hb
      obtain rfl := Option.some.inj (h.symm.trans ht)
      exact .inr hE
    · exact .inl ⟨pre, b, t, hpre, ht, hE⟩
  · rintro (⟨pre, b, t, hpre, ht, hE⟩ | hE)
    · exact ⟨pre, b, t, hpre.trans (List.prefix_append as [a]), ht, hE⟩
    · exact ⟨as, a, m, List.prefix_rfl, h, hE⟩

theorem occurs_concat (a : α) (h : run step s₀ as = some m) :
    Occurs step s₀ e (as ++ [a]) ↔ Occurs step s₀ e as ∨ e m a :=
  exists_step_concat a h

theorem occursThen_concat (a : α) (h : run step s₀ as = some m) :
    OccursThen step s₀ e f (as ++ [a]) ↔
      OccursThen step s₀ e f as ∨ Occurs step s₀ e as ∧ f m a :=
  exists_step_concat a h

end Occurs

/-! ## Simulation -/

/-- Backward simulation for runs: if the abstract machine follows every step that is
    taken under `cond`, then it follows every run whose steps all meet `cond`. -/
theorem run_simulation {step : σ → α → Option σ} {spec : τ → α → Option τ}
    {cond : σ → α → Prop} {R : σ → τ → Prop}
    (hsim : ∀ s t a s', R s t → cond s a → step s a = some s' → ∃ t', spec t a = some t' ∧ R s' t')
    {s s' : σ} {t : τ} {as : List α} (hR : R s t) (hm : Meets step cond s as)
    (h : run step s as = some s') : ∃ t', run spec t as = some t' ∧ R s' t' := by
  induction as generalizing s t with
  | nil =>
    obtain rfl := Option.some.inj h
    exact ⟨t, rfl, hR⟩
  | cons a as ih =>
    obtain ⟨m, hstep, hrest⟩ := (run_cons_eq_some step s a as s').mp h
    obtain ⟨n, hspec, hR'⟩ := hsim s t a m hR hm.1 hstep
    obtain ⟨t', hrun, hR''⟩ := ih hR' (hm.2 m hstep) hrest
    exact ⟨t', (run_cons_eq_some spec t a as t').mpr ⟨n, hspec, hrun⟩, hR''⟩

/-- Forward simulation for runs with results, where the relation may depend on the number of
    calls so far and the concrete machine need only be good for `n` calls. -/
theorem runOut_simulation_count {step : σ → α → Option (σ × β)} {spec : τ → α → Option (τ × β)}
    {R : ℕ → σ → τ → Prop} {n k : ℕ}
    (hsim : ∀ k s t a t' b, k < n → R k s t → spec t a = some (t', b) →
      ∃ s', step s a = some (s', b) ∧ R (k + 1) s' t')
    {s : σ} {t t' : τ} {as : List α} {bs : List β} (hR : R k s t) (hlen : k + as.length ≤ n)
    (h : runOut spec t as = some (t', bs)) :
    ∃ s', runOut step s as = some (s', bs) ∧ R (k + as.length) s' t' := by
  induction as generalizing s t bs k with
  | nil =>
    simp only [runOut, Option.some.injEq, Prod.mk.injEq] at h
    obtain ⟨rfl, rfl⟩ := h
    exact ⟨s, rfl, hR⟩
  | cons a as ih =>
    simp only [runOut, Option.bind_eq_some_iff, Option.map_eq_some_iff, Prod.mk.injEq] at h
    obtain ⟨⟨m, b⟩, hspec, ⟨q, qs⟩, hrest, rfl, rfl⟩ := h
    rw [List.length_cons] at hlen
    obtain ⟨s₁, hstep, hR₁⟩ := hsim k s t a m b (by omega) hR hspec
    obtain ⟨s₂, hrun, hR₂⟩ := ih hR₁ (by omega) hrest
    have hcount : k + 1 + as.length = k + (a :: as).length := by
      rw [List.length_cons]
      omega
    rw [hcount] at hR₂
    exact ⟨s₂, by simp only [runOut, hstep, hrun, Option.bind_some, Option.map_some], hR₂⟩

/-- Forward simulation for runs of any length: if every call that the abstract machine
    accepts is matched by the concrete one with the same result, then so is every
    sequence of calls. -/
theorem runOut_simulation {step : σ → α → Option (σ × β)} {spec : τ → α → Option (τ × β)}
    {R : σ → τ → Prop}
    (hsim : ∀ s t a t' b, R s t → spec t a = some (t', b) →
      ∃ s', step s a = some (s', b) ∧ R s' t')
    {s : σ} {t t' : τ} {as : List α} {bs : List β} (hR : R s t)
    (h : runOut spec t as = some (t', bs)) :
    ∃ s', runOut step s as = some (s', bs) ∧ R s' t' := by
  obtain ⟨s', hrun, hR'⟩ := runOut_simulation_count (R := fun _ => R)
    (fun _ s t a t' b _ => hsim s t a t' b) hR (Nat.le_of_eq (Nat.zero_add as.length)) h
  exact ⟨s', hrun, hR'⟩

/-- A property of states that a simulated call keeps exactly when `cond` allows the call: it
    holds in every state that a run reaches if and only if `cond` allows all its calls. -/
theorem forall_prefix_runOut_iff {step : σ → α → Option (σ × β)}
    {spec : τ → α → Option (τ × β)} {R : σ → τ → Prop} {P : σ → Prop} {cond : α → Prop}
    (hsim : ∀ s t a t' b, R s t → P s → spec t a = some (t', b) →
      ∃ s', step s a = some (s', b) ∧ R s' t' ∧ (P s' ↔ cond a))
    {s : σ} {t t' : τ} {as : List α} {bs : List β} (hR : R s t) (hP : P s)
    (h : runOut spec t as = some (t', bs)) :
    (∀ pre m cs, pre <+: as → runOut step s pre = some (m, cs) → P m) ↔ ∀ a ∈ as, cond a := by
  induction as generalizing s t bs with
  | nil =>
    refine iff_of_true ?_ (fun a ha => absurd ha List.not_mem_nil)
    intro pre m cs hpre hm
    obtain rfl := List.prefix_nil.mp hpre
    obtain ⟨rfl, _⟩ := Prod.mk.inj (Option.some.inj hm)
    exact hP
  | cons a as ih =>
    simp only [runOut, Option.bind_eq_some_iff, Option.map_eq_some_iff, Prod.mk.injEq] at h
    obtain ⟨⟨n, b⟩, hspec, ⟨q, qs⟩, hrest, rfl, rfl⟩ := h
    obtain ⟨s₁, hstep, hR₁, hiff⟩ := hsim s t a n b hR hP hspec
    -- a run of the rest goes on from `s₁`
    have hcons : ∀ pre, runOut step s (a :: pre) =
        (runOut step s₁ pre).map fun r => (r.1, b :: r.2) := by
      intro pre
      rw [runOut, hstep, Option.bind_some]
    rw [List.forall_mem_cons]
    constructor
    · intro hall
      have hP₁ : P s₁ := hall [a] s₁ [b] (List.prefix_append [a] as) (hcons [])
      refine ⟨hiff.mp hP₁, (ih hR₁ hP₁ hrest).mp fun pre m cs hpre hm => ?_⟩
      refine hall (a :: pre) m (b :: cs) ((List.prefix_cons_inj a).mpr hpre) ?_
      rw [hcons, hm, Option.map_some]
    · intro ⟨hcond, hconds⟩ pre m cs hpre hm
      have hP₁ := hiff.mpr hcond
      cases pre with
      | nil =>
        obtain ⟨rfl, _⟩ := Prod.mk.inj (Option.some.inj hm)
        exact hP
      | cons c pre =>
        obtain ⟨rfl, hpre'⟩ := List.cons_prefix_cons.mp hpre
        rw [hcons] at hm
        obtain ⟨⟨m', cs'⟩, hm', heq⟩ := Option.map_eq_some_iff.mp hm
        obtain ⟨rfl, _⟩ := Prod.mk.inj heq
        exact (ih hR₁ hP₁ hrest).mpr hconds pre m' cs' hpre' hm'

/-- Forward simulation by a total abstract machine: the concrete machine runs
    every sequence of calls, with the results of the abstract one. -/
theorem runOut_simulation_total {step : σ → α → Option (σ × β)} {spec : τ → α → τ × β}
    {R : σ → τ → Prop}
    (hsim : ∀ s t a, R s t →
      ∃ s', step s a = some (s', (spec t a).2) ∧ R s' (spec t a).1)
    {s : σ} {t : τ} (as : List α) (hR : R s t) :
    ∃ s' t' bs, runOut step s as = some (s', bs) ∧
      runOut (fun t a => some (spec t a)) t as = some (t', bs) ∧ R s' t' := by
  induction as generalizing s t with
  | nil => exact ⟨s, t, [], rfl, rfl, hR⟩
  | cons a as ih =>
    obtain ⟨s₁, hstep, hR₁⟩ := hsim s t a hR
    obtain ⟨s₂, t₂, bs, hrun, hspec, hR₂⟩ := ih hR₁
    refine ⟨s₂, t₂, (spec t a).2 :: bs, ?_, ?_, hR₂⟩
    · simp only [runOut, hstep, hrun, Option.bind_some, Option.map_some]
    · simp only [runOut, hspec, Option.bind_some, Option.map_some]

/-! ## Draining a list -/

/-- Take the next element of a list; `fin` is the result once the list is empty. -/
def drainStep (out : α → β) (fin : β) : List α → Unit → List α × β
  | [], _ => ([], fin)
  | x :: xs, _ => (xs, out x)

@[simp] theorem drainStep_nil (out : α → β) (fin : β) (u : Unit) :
    drainStep out fin [] u = ([], fin) := rfl

@[simp] theorem drainStep_cons (out : α → β) (fin : β) (x : α) (xs : List α) (u : Unit) :
    drainStep out fin (x :: xs) u = (xs, out x) := rfl

/-- Draining a list `n` times yields its first `n` elements, then `fin`. -/
theorem runOut_drainStep (out : α → β) (fin : β) (xs : List α) (n : ℕ) :
    runOut (fun t a => some (drainStep out fin t a)) xs (List.replicate n ()) =
      some (xs.drop n, (xs.take n).map out ++ List.replicate (n - xs.length) fin) := by
  induction n generalizing xs with
  | zero => simp [runOut]
  | succ n ih =>
    cases xs with
    | nil => simp only [List.replicate_succ, runOut, drainStep_nil, ih, Option.bind_some,
        Option.map_some, List.drop_nil, List.take_nil, List.map_nil, List.nil_append,
        List.length_nil, Nat.sub_zero]
    | cons x xs => simp only [List.replicate_succ, runOut, drainStep_cons, ih, Option.bind_some,
        Option.map_some, List.drop_succ_cons, List.take_succ_cons, List.map_cons,
        List.cons_append, List.length_cons, Nat.add_sub_add_right]

end StepSystem
