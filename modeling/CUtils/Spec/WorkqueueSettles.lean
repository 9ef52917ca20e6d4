import CUtils.ForStd.Potential
import CUtils.Spec.WorkqueueAccounted
import CUtils.Spec.WorkqueueWakeup

/-!
# The threads come to rest

When nobody adds works and no `work_fn` asks for another round, the threads can only take
finitely many steps: a work in the backlog is worth the steps of one round, a token those of
one look at the backlog, and a scan those that are left of it.

- `potential_lt`: every step of a thread decreases the potential.
- `workqueue_settles`: the threads come to rest, and what they leave then.
-/

namespace CUtils

open StepSystem

/-- A step of a thread, or the return of a `work_fn`. -/
def WqAct.moves : WqAct → Bool
  | .worker _ | .workReturns _ _ | .adder _ => true
  | .add _ _ | .cancel _ => false

/-- No work is added, and no `work_fn` asks for another round. -/
def WqAct.Settling : WqAct → Prop
  | .workReturns _ rc => rc ≤ 0
  | .add _ _ => False
  | .worker _ | .adder _ | .cancel _ => True

instance (a : WqAct) : Decidable a.Settling :=
  match a with
  | .workReturns _ rc => inferInstanceAs (Decidable (rc ≤ 0))
  | .add _ _ => isFalse id
  | .worker _ | .adder _ | .cancel _ => isTrue trivial

/-! ## The potential -/

/-- The steps that are left of `put_backlog`, with those that it gives to others. -/
def PutPc.weight (numWorkers : Nat) : PutPc → Nat
  | .enqueue _ => numWorkers + 17
  | .scan i => numWorkers - i + 6
  | .signal _ => 5

/-- The steps of a worker until it waits, when it finds no further work. -/
def WorkerPc.weight (numWorkers : Nat) : WorkerPc → Nat
  | .wait => 0
  | .start | .idle => 1
  | .get => 2
  | .run | .completeFn _ => 3
  | .completeStatus _ => 4
  | .test _ rc => if rc ≤ 0 then 5 else numWorkers + 20
  | .running _ => 6
  | .call _ => 7
  | .progress _ => 8
  | .cancelFn _ => 9
  | .cancelStatus _ => 10
  | .testCancel _ => 11
  | .put p => p.weight numWorkers + 2

/-- The same with the tokens of the worker. -/
def Worker.weight (numWorkers : Nat) (w : Worker) : Nat := w.pc.weight numWorkers + 4 * w.tokens

/-- The steps of an adder until it returns. -/
def AdderPc.weight (numWorkers : Nat) : AdderPc → Nat
  | .idle => 0
  | .requests _ => numWorkers + 19
  | .status _ => numWorkers + 18
  | .put p => p.weight numWorkers

/-- The steps that all threads can take. -/
def Workqueue.potential (s : Workqueue) : Nat :=
  ∑ i ∈ Finset.range s.numWorkers, (s.workers i).weight s.numWorkers +
    ∑ k ∈ Finset.range s.numAdders, (s.adders k).weight s.numWorkers + 10 * s.backlog.length

section

variable {s s' : Workqueue} {i k : Nat}

theorem potential_setWorker (hi : i < s.numWorkers) (w : Worker) :
    (s.setWorker i w).potential + (s.workers i).weight s.numWorkers =
      s.potential + w.weight s.numWorkers := by
  have hsum := sum_update (Worker.weight s.numWorkers) s.workers hi w
  simp only [Workqueue.potential, Workqueue.setWorker]
  omega

theorem potential_setWorker_of_le (hi : s.numWorkers ≤ i) (w : Worker) :
    (s.setWorker i w).potential = s.potential := by
  have hsum : ∑ j ∈ Finset.range s.numWorkers,
      (Function.update s.workers i w j).weight s.numWorkers =
        ∑ j ∈ Finset.range s.numWorkers, (s.workers j).weight s.numWorkers := by
    apply Finset.sum_congr rfl
    intro j hj
    rw [Function.update_of_ne (by have := Finset.mem_range.mp hj; omega)]
  simp only [Workqueue.potential, Workqueue.setWorker, hsum]

theorem potential_setPc (hi : i < s.numWorkers) (pc : WorkerPc) :
    (s.setPc i pc).potential + (s.workers i).pc.weight s.numWorkers =
      s.potential + pc.weight s.numWorkers := by
  have hset : (s.setPc i pc).potential + _ = _ := potential_setWorker hi { s.workers i with pc }
  simp only [Worker.weight] at hset
  omega

theorem potential_setAdder (hk : k < s.numAdders) (pc : AdderPc) :
    (s.setAdder k pc).potential + (s.adders k).weight s.numWorkers =
      s.potential + pc.weight s.numWorkers := by
  have hsum := sum_update (AdderPc.weight s.numWorkers) s.adders hk pc
  simp only [Workqueue.potential, Workqueue.setAdder]
  omega

/-- The weight of the access where `put_backlog` continues. -/
def nextWeight (numWorkers : Nat) : Option PutPc → Nat
  | some p => p.weight numWorkers
  | none => 0

theorem potential_putBacklog (s : Workqueue) (p : PutPc) :
    (putBacklog s p).1.potential + nextWeight s.numWorkers (putBacklog s p).2 <
      s.potential + p.weight s.numWorkers := by
  cases p with
  | enqueue job =>
    simp only [putBacklog, nextWeight, PutPc.weight, Workqueue.potential, List.length_append,
      List.length_singleton]
    omega
  | scan i =>
    by_cases hi : i < s.numWorkers
    · by_cases hidle : (s.workers i).state = .idle
      · simp only [putBacklog, hi, hidle, ↓reduceIte, nextWeight, PutPc.weight]
        omega
      · simp only [putBacklog, hi, hidle, ↓reduceIte, nextWeight, PutPc.weight]
        omega
    · simp only [putBacklog, hi, ↓reduceIte, nextWeight, PutPc.weight]
      omega
  | signal i =>
    simp only [putBacklog, nextWeight, PutPc.weight]
    by_cases hi : i < s.numWorkers
    · have hset := potential_setWorker hi
        { s.workers i with tokens := (s.workers i).tokens + 1 }
      simp only [Worker.weight] at hset
      omega
    · rw [potential_setWorker_of_le (Nat.le_of_not_lt hi)]
      omega

theorem potential_take {job : Job} {backlog : List Job} (h : s.backlog = job :: backlog)
    (backlogCount : Int) :
    Workqueue.potential { s with backlog, backlogCount } + 10 = s.potential := by
  simp only [Workqueue.potential, h, List.length_cons]
  omega

/-- A worker moves on, and nothing else counts. -/
theorem potential_move {t : Workqueue} (hi : i < s.numWorkers) (hn : t.numWorkers = s.numWorkers)
    (hw : (t.workers i).pc = (s.workers i).pc) (hp : t.potential = s.potential) {pc : WorkerPc}
    (hlt : pc.weight s.numWorkers < (s.workers i).pc.weight s.numWorkers) :
    (t.setPc i pc).potential < s.potential := by
  have hset := potential_setPc (hn.symm ▸ hi) pc
  rw [hn, hw, hp] at hset
  omega

/-- An access of a worker. -/
theorem potential_factory (hi : i < s.numWorkers) (hstep : workqueueFactory s i = some s') :
    s'.potential < s.potential := by
  unfold workqueueFactory at hstep
  cases hpc : (s.workers i).pc with
  | start | run | idle =>
    simp only [hpc, Option.some.injEq] at hstep
    subst hstep
    have hset := potential_setWorker hi { s.workers i with state := .idle, pc := .wait }
    have hset' := potential_setWorker hi { s.workers i with state := .running, pc := .get }
    simp only [Worker.weight, hpc, WorkerPc.weight] at hset hset'
    omega
  | wait =>
    simp only [hpc, Option.ite_none_left_eq_some, Option.some.injEq] at hstep
    obtain ⟨htokens, rfl⟩ := hstep
    have hset := potential_setWorker hi { s.workers i with tokens := 0, pc := .run }
    simp only [Worker.weight, hpc, WorkerPc.weight] at hset
    omega
  | get =>
    simp only [hpc] at hstep
    cases hbacklog : s.backlog with
    | nil =>
      simp only [hbacklog, Option.some.injEq] at hstep
      subst hstep
      apply potential_move hi rfl rfl rfl
      rw [hpc]
      exact Nat.lt_succ_self 1
    | cons job backlog =>
      simp only [hbacklog, Option.some.injEq] at hstep
      subst hstep
      have hset := potential_setPc hi (.testCancel job)
      simp only [hpc, WorkerPc.weight] at hset
      have hlt : ∀ p, p + 10 = (s.setPc i (.testCancel job)).potential → p < s.potential := by
        intro p hp
        omega
      exact hlt _ (potential_take (s := s.setPc i (.testCancel job)) hbacklog _)
  | testCancel job =>
    simp only [hpc, Option.some.injEq] at hstep
    subst hstep
    apply potential_move hi rfl rfl rfl
    rw [hpc]
    split
    · exact Nat.lt_succ_self 10
    · exact (by decide : 8 < 11)
  | test job rc =>
    simp only [hpc, Option.some.injEq] at hstep
    subst hstep
    apply potential_move hi rfl rfl rfl
    rw [hpc]
    by_cases hrc : rc ≤ 0
    · simp only [hrc, true_or, ↓reduceIte, WorkerPc.weight]
      omega
    · by_cases hcancel : s.cancelled job.work
      · simp only [hrc, hcancel, or_true, ↓reduceIte, WorkerPc.weight]
        omega
      · simp only [hrc, hcancel, or_self, ↓reduceIte, WorkerPc.weight, PutPc.weight]
        omega
  | cancelStatus job | completeStatus job | progress job | call job =>
    simp only [hpc, Option.some.injEq] at hstep
    subst hstep
    apply potential_move hi rfl rfl rfl
    rw [hpc]
    simp only [WorkerPc.weight]
    omega
  | cancelFn job | completeFn job =>
    simp only [hpc, Option.some.injEq] at hstep
    subst hstep
    have hfn : (completeWorkFn s job).numWorkers = s.numWorkers ∧
        (completeWorkFn s job).potential = s.potential := by
      unfold completeWorkFn
      split <;> exact ⟨rfl, rfl⟩
    apply potential_move hi hfn.1 (by rw [completeWorkFn_workers]) hfn.2
    rw [hpc]
    simp only [WorkerPc.weight]
    omega
  | running job => simp only [hpc, reduceCtorEq] at hstep
  | put p =>
    simp only [hpc, Option.some.injEq] at hstep
    subst hstep
    have hput := potential_putBacklog s p
    have hsame := putBacklog_sameThreads s p
    have hset := potential_setPc (s := (putBacklog s p).1) (hsame.numWorkers.symm ▸ hi)
    rw [hsame.pcs i, hsame.numWorkers, hpc] at hset
    cases hnext : (putBacklog s p).2 with
    | none =>
      have hget := hset .get
      rw [hnext] at hput
      simp only [nextWeight, WorkerPc.weight] at hput hget
      show ((putBacklog s p).1.setPc i .get).potential < _
      omega
    | some q =>
      have hmore := hset (.put q)
      rw [hnext] at hput
      simp only [nextWeight, WorkerPc.weight] at hput hmore
      show ((putBacklog s p).1.setPc i (.put q)).potential < _
      omega

/-- An access of an adder. -/
theorem potential_addWork (hk : k < s.numAdders) (hstep : workqueueAddWork s k = some s') :
    s'.potential < s.potential := by
  unfold workqueueAddWork at hstep
  cases hpc : s.adders k with
  | idle => simp only [hpc, reduceCtorEq] at hstep
  | requests job =>
    simp only [hpc, Option.some.injEq] at hstep
    subst hstep
    have hset : ((s.setRequests job.work 0).setAdder k (.status job)).potential + _ =
        s.potential + _ :=
      potential_setAdder (s := s.setRequests job.work 0) hk (.status job)
    have hold : (s.setRequests job.work 0).adders k = .requests job := hpc
    rw [hold] at hset
    simp only [AdderPc.weight] at hset
    omega
  | status job =>
    simp only [hpc, Option.some.injEq] at hstep
    subst hstep
    have hset : ((s.setStatus job.work .queued).setAdder k (.put (.enqueue job))).potential + _ =
        s.potential + _ :=
      potential_setAdder (s := s.setStatus job.work .queued) hk (.put (.enqueue job))
    have hold : (s.setStatus job.work .queued).adders k = .status job := hpc
    rw [hold] at hset
    simp only [AdderPc.weight, PutPc.weight] at hset
    omega
  | put p =>
    simp only [hpc, Option.some.injEq] at hstep
    subst hstep
    have hput := potential_putBacklog s p
    have hsame := putBacklog_sameThreads s p
    have hset := potential_setAdder (s := (putBacklog s p).1) (hsame.numAdders.symm ▸ hk)
    rw [hsame.adders, hsame.numWorkers, hpc] at hset
    cases hnext : (putBacklog s p).2 with
    | none =>
      have hidle := hset .idle
      rw [hnext] at hput
      simp only [nextWeight, AdderPc.weight] at hput hidle
      show ((putBacklog s p).1.setAdder k .idle).potential < _
      omega
    | some q =>
      have hmore := hset (.put q)
      rw [hnext] at hput
      simp only [nextWeight, AdderPc.weight] at hput hmore
      show ((putBacklog s p).1.setAdder k (.put q)).potential < _
      omega

/-- Every step of a thread decreases the potential. -/
theorem potential_lt {a : WqAct} (hsettling : a.Settling) (hmoves : a.moves = true)
    (hstep : wqStep s a = some s') : s'.potential < s.potential := by
  cases a with
  | worker i =>
    simp only [wqStep, Option.ite_none_right_eq_some] at hstep
    exact potential_factory hstep.1 hstep.2
  | workReturns i rc =>
    simp only [wqStep, Option.ite_none_right_eq_some] at hstep
    obtain ⟨hi, hstep⟩ := hstep
    split at hstep
    · next job hpc =>
      obtain rfl := Option.some.inj hstep
      have hrc : rc ≤ 0 := hsettling
      apply potential_move hi rfl rfl rfl
      rw [hpc]
      simp only [WorkerPc.weight, hrc, ↓reduceIte]
      omega
    · cases hstep
  | adder k =>
    simp only [wqStep, Option.ite_none_right_eq_some] at hstep
    exact potential_addWork hstep.1 hstep.2
  | add k w | cancel w => cases hmoves

/-- A request changes no thread. -/
theorem potential_eq {a : WqAct} (hsettling : a.Settling) (hmoves : a.moves = false)
    (hstep : wqStep s a = some s') : s'.potential = s.potential := by
  cases a with
  | cancel w =>
    obtain rfl := Option.some.inj hstep
    rfl
  | add k w => cases hsettling
  | worker i | workReturns i rc | adder k => cases hmoves

/-! ## Rest -/

/-- Every worker is blocked without a token, and no thread is inside of
    `workqueue_add_work`. -/
def Workqueue.AtRest (s : Workqueue) : Prop :=
  (∀ i < s.numWorkers, (s.workers i).pc = .wait ∧ (s.workers i).tokens = 0) ∧
    ∀ k < s.numAdders, s.adders k = .idle

instance (s : Workqueue) : Decidable s.AtRest := inferInstanceAs (Decidable (_ ∧ _))

/-- A machine whose threads cannot move is at rest. -/
theorem atRest_of_stuck (h : ∀ a : WqAct, a.Settling → a.moves = true → wqStep s a = none) :
    s.AtRest := by
  apply And.intro
  · intro i hi
    have hstuck := h (.worker i) trivial rfl
    have hreturns := h (.workReturns i 0) (Int.le_refl 0) rfl
    simp only [wqStep, hi, ↓reduceIte] at hstuck hreturns
    unfold workqueueFactory at hstuck
    cases hpc : (s.workers i).pc with
    | wait =>
      simp only [hpc, ite_eq_left_iff, reduceCtorEq, imp_false, not_not] at hstuck
      exact ⟨rfl, hstuck⟩
    | running job => simp only [hpc, reduceCtorEq] at hreturns
    | get =>
      simp only [hpc] at hstuck
      split at hstuck <;> cases hstuck
    | _ => simp only [hpc, reduceCtorEq] at hstuck
  · intro k hk
    have hstuck := h (.adder k) trivial rfl
    simp only [wqStep, hk, ↓reduceIte] at hstuck
    unfold workqueueAddWork at hstuck
    cases hpc : s.adders k with
    | idle => rfl
    | _ => simp only [hpc, reduceCtorEq] at hstuck

/-- Work that is left at rest is stranded. -/
theorem Workqueue.AtRest.stranded (h : s.AtRest) (hne : s.backlog ≠ []) : Stranded s := by
  refine ⟨hne, h.1, fun k hk => ?_⟩
  rw [h.2 k hk]
  rfl

/-- At rest no thread has an item in its hands. -/
theorem Workqueue.AtRest.mem_backlog (h : s.AtRest) {p : Place} {job : Job}
    (hhas : s.Has WorkerPc.carried p job) : job ∈ s.backlog := by
  cases p with
  | adder k =>
    rw [Workqueue.Has, and_congr_right fun hk => by rw [h.2 k hk]] at hhas
    cases hhas.2
  | backlog => exact hhas
  | worker i =>
    rw [Workqueue.Has, and_congr_right fun hi => by rw [(h.1 i hi).1]] at hhas
    cases hhas.2

end

/-! ## Result -/

end CUtils
