import CUtils.ForStd.StepSystem
import CUtils.Native.Workqueue

/-!
# When queued work is served

A worker that found the backlog empty is not IDLE yet, and one that was just created is
OFFLINE.  An adder that scans the workers at such a moment wakes nobody, and if no other
worker is going to look at the backlog, its work stays there.

- `WakeInv`: unless a scan falls through at such a moment, somebody will look at a
  non-empty backlog.
- `workqueue_not_stranded`: then no work is stranded.
- `workqueue_stranded`: an add during start-up strands its work.
-/

namespace CUtils

open StepSystem

/-- The worker has left `event_is_set` and not yet found the backlog empty. -/
def WorkerPc.serving : WorkerPc → Bool
  | .start | .wait | .idle => false
  | _ => true

/-- The worker will call `get_backlog`: it is serving, or will not block. -/
def Worker.awake (w : Worker) : Bool := w.pc.serving || decide (0 < w.tokens)

/-- The adder is between its enqueue and the end of its wakeup scan. -/
def AdderPc.waking : AdderPc → Bool
  | .put (.scan _) | .put (.signal _) => true
  | _ => false

/-- Non-empty backlog, while every worker is blocked without a token and no thread is
    still waking one. -/
def Stranded (s : Workqueue) : Prop :=
  s.backlog ≠ [] ∧
    (∀ i < s.numWorkers, (s.workers i).pc = .wait ∧ (s.workers i).tokens = 0) ∧
    ∀ k < s.numAdders, (s.adders k).waking = false

/-- The wakeup scan is past the last worker and has found none IDLE. -/
def AdderPc.fallsThrough (numWorkers : Nat) : AdderPc → Bool
  | .put (.scan i) => decide (numWorkers ≤ i)
  | _ => false

/-- When the scan of an adder falls through, the backlog is empty again, or a worker is
    awake, or another thread is waking one. -/
def FallsThroughServed (s : Workqueue) : WqAct → Prop
  | .adder k => (s.adders k).fallsThrough s.numWorkers = true →
      s.backlog = [] ∨ (∃ i < s.numWorkers, (s.workers i).awake = true) ∨
        ∃ k' < s.numAdders, k' ≠ k ∧ (s.adders k').waking = true
  | _ => True

instance (s : Workqueue) (a : WqAct) : Decidable (FallsThroughServed s a) :=
  match a with
  | .adder _ => inferInstanceAs (Decidable (_ → _))
  | .worker _ | .workReturns _ _ | .add _ _ | .cancel _ => isTrue trivial

instance (s : Workqueue) : Decidable (Stranded s) := inferInstanceAs (Decidable (_ ∧ _))

/-- Somebody will look at the backlog. -/
def Served (s : Workqueue) : Prop :=
  (∃ i < s.numWorkers, (s.workers i).awake = true) ∨
    ∃ k < s.numAdders, (s.adders k).waking = true

/-- What holds in every state: scans signal existing workers, and a non-empty backlog is
    served. -/
structure WakeInv (s : Workqueue) : Prop where
  worker_signal : ∀ i j, (s.workers i).pc = .put (.signal j) → j < s.numWorkers
  adder_signal : ∀ k j, s.adders k = .put (.signal j) → j < s.numWorkers
  served : s.backlog ≠ [] → Served s

/-! ## Steps -/

section

variable {s s' : Workqueue} {i k : Nat}

/-- The scan signals existing workers only. -/
private theorem putBacklog_signal_lt {s : Workqueue} {p : PutPc} {j : Nat}
    (h : (putBacklog s p).2 = some (.signal j)) : j < s.numWorkers := by
  cases p with
  | enqueue job => exact nomatch h
  | scan i =>
    simp only [putBacklog] at h
    split at h
    · next hi =>
      split at h
      · cases h
        exact hi
      · exact nomatch h
    · exact nomatch h
  | signal i => exact nomatch h

/-- A worker moves, and its own signal, if it has one, is to an existing worker. -/
private theorem worker_signal_setWorker {n : Nat} {w : Worker}
    (h : ∀ j l, (s.workers j).pc = .put (.signal l) → l < n)
    (hsignal : ∀ l, w.pc = .put (.signal l) → l < n) (j l : Nat)
    (hput : ((s.setWorker i w).workers j).pc = .put (.signal l)) : l < n := by
  by_cases hji : j = i
  · rw [hji, Workqueue.setWorker_self] at hput
    exact hsignal l hput
  · rw [Workqueue.setWorker_of_ne s w hji] at hput
    exact h j l hput

/-- The same for an adder. -/
private theorem adder_signal_setAdder {n : Nat} {pc : AdderPc}
    (h : ∀ j l, s.adders j = .put (.signal l) → l < n)
    (hsignal : ∀ l, pc = .put (.signal l) → l < n) (j l : Nat)
    (hput : (s.setAdder k pc).adders j = .put (.signal l)) : l < n := by
  by_cases hjk : j = k
  · rw [hjk, Workqueue.setAdder_self] at hput
    exact hsignal l hput
  · rw [Workqueue.setAdder_of_ne s pc hjk] at hput
    exact h j l hput

/-- The worker moves to an access where it serves: then the backlog is served. -/
private theorem WakeInv.of_serving (h : WakeInv s) (hi : i < s.numWorkers) {w : Worker}
    (hworkers : s'.numWorkers = s.numWorkers) (hadders : s'.adders = s.adders)
    (hpcs : ∀ j, (s'.workers j).pc = (s.workers j).pc)
    (hsignal : ∀ j, w.pc = .put (.signal j) → j < s.numWorkers)
    (hserving : w.pc.serving = true) : WakeInv (s'.setWorker i w) where
  worker_signal := by
    show ∀ j l, _ → l < s'.numWorkers
    rw [hworkers]
    exact worker_signal_setWorker (fun j l hput => h.worker_signal j l (hpcs j ▸ hput)) hsignal
  adder_signal k l hpc := by
    show l < s'.numWorkers
    rw [hworkers]
    exact h.adder_signal k l (hadders ▸ hpc)
  served _ := by
    refine .inl ⟨i, hworkers.symm ▸ hi, ?_⟩
    rw [Workqueue.setWorker_self, Worker.awake, hserving]
    rfl

/-- The worker moves to an access where it does not serve and keeps its tokens; it was
    not serving before either, or the backlog is empty. -/
private theorem WakeInv.of_not_serving (h : WakeInv s) {w : Worker}
    (hpc : ∀ j, w.pc ≠ .put (.signal j)) (htokens : w.tokens = (s.workers i).tokens)
    (hbefore : s.backlog ≠ [] → (s.workers i).pc.serving = false) :
    WakeInv (s.setWorker i w) where
  worker_signal := worker_signal_setWorker h.worker_signal fun l hput => absurd hput (hpc l)
  adder_signal := h.adder_signal
  served hne := by
    refine (h.served hne).imp (fun ⟨j, hj, hawake⟩ => ⟨j, hj, ?_⟩) fun hwaking => hwaking
    by_cases hji : j = i
    · subst hji
      rw [Worker.awake, hbefore hne, Bool.false_or] at hawake
      rw [Workqueue.setWorker_self, Worker.awake, htokens, hawake, Bool.or_true]
    · rw [Workqueue.setWorker_of_ne s w hji]
      exact hawake

/-- Every access of a worker keeps the invariant. -/
private theorem workqueueFactory_wake (h : WakeInv s) (hi : i < s.numWorkers)
    (hstep : workqueueFactory s i = some s') : WakeInv s' := by
  unfold workqueueFactory at hstep
  cases hpc : (s.workers i).pc with
  | start =>
    simp only [hpc, Option.some.injEq] at hstep
    subst hstep
    exact h.of_not_serving nofun rfl fun _ => by rw [hpc]; rfl
  | wait =>
    simp only [hpc, Option.ite_none_left_eq_some, Option.some.injEq] at hstep
    obtain ⟨_, rfl⟩ := hstep
    exact h.of_serving hi rfl rfl (fun _ => rfl) nofun rfl
  | run =>
    simp only [hpc, Option.some.injEq] at hstep
    subst hstep
    exact h.of_serving hi rfl rfl (fun _ => rfl) nofun rfl
  | get =>
    cases hbacklog : s.backlog with
    | nil =>
      -- the worker stops serving, but there is nothing to serve
      simp only [hpc, hbacklog, Option.some.injEq] at hstep
      subst hstep
      exact h.of_not_serving nofun rfl fun hne => absurd hbacklog hne
    | cons job backlog =>
      simp only [hpc, hbacklog, Option.some.injEq] at hstep
      subst hstep
      show WakeInv (Workqueue.setWorker { s with backlog := backlog, backlogCount := _ } i _)
      exact h.of_serving hi rfl rfl (fun _ => rfl) nofun rfl
  | testCancel job =>
    simp only [hpc, Option.some.injEq] at hstep
    subst hstep
    refine h.of_serving hi rfl rfl (fun _ => rfl) ?_ ?_ <;> split <;> first | rfl | nofun
  | cancelStatus job | progress job | call job | completeStatus job =>
    simp only [hpc, Option.some.injEq] at hstep
    subst hstep
    exact h.of_serving hi rfl rfl (fun _ => rfl) nofun rfl
  | cancelFn job | completeFn job =>
    simp only [hpc, Option.some.injEq] at hstep
    subst hstep
    unfold completeWorkFn
    split <;> exact h.of_serving hi rfl rfl (fun _ => rfl) nofun rfl
  | running job => simp only [hpc, reduceCtorEq] at hstep
  | test job rc =>
    simp only [hpc, Option.some.injEq] at hstep
    subst hstep
    refine h.of_serving hi rfl rfl (fun _ => rfl) ?_ ?_ <;> split <;> first | rfl | nofun
  | put p =>
    simp only [hpc, Option.some.injEq] at hstep
    subst hstep
    -- after `put_backlog` the worker calls `get_backlog` again
    have hsame := putBacklog_sameThreads s p
    refine h.of_serving hi hsame.numWorkers hsame.adders hsame.pcs (fun j hj => ?_) ?_
    · refine putBacklog_signal_lt (p := p) ?_
      revert hj
      cases (putBacklog s p).2 with
      | none => exact nofun
      | some q => exact fun hj => congrArg some (WorkerPc.put.inj hj)
    · cases (putBacklog s p).2 <;> rfl
  | idle =>
    simp only [hpc, Option.some.injEq] at hstep
    subst hstep
    exact h.of_not_serving nofun rfl fun _ => by rw [hpc]; rfl

/-- An adder moves to an access; the backlog has to be served afterwards. -/
private theorem WakeInv.of_setAdder (h : WakeInv s) {pc : AdderPc}
    (hworkers : s'.numWorkers = s.numWorkers) (hw : s'.workers = s.workers)
    (ha : s'.adders = s.adders) (hpc : ∀ j, pc = .put (.signal j) → j < s.numWorkers)
    (hserved : s'.backlog ≠ [] → (∃ i < s'.numWorkers, (s'.workers i).awake = true) ∨
      ∃ k' < s'.numAdders, ((s'.setAdder k pc).adders k').waking = true) :
    WakeInv (s'.setAdder k pc) where
  worker_signal j l hput := by
    show l < s'.numWorkers
    rw [hworkers]
    exact h.worker_signal j l (hw ▸ hput)
  adder_signal := by
    show ∀ j l, _ → l < s'.numWorkers
    rw [hworkers]
    exact adder_signal_setAdder (ha ▸ h.adder_signal) hpc
  served := hserved

/-- An adder moves to an access where it is not waking anybody; if it was waking
    before, the backlog is served without it. -/
private theorem WakeInv.of_not_waking (h : WakeInv s) {pc : AdderPc}
    (hworkers : s'.numWorkers = s.numWorkers) (hadders : s'.numAdders = s.numAdders)
    (hbacklog : s'.backlog = s.backlog) (hw : s'.workers = s.workers) (ha : s'.adders = s.adders)
    (hpc : ∀ j, pc ≠ .put (.signal j))
    (hbefore : s.backlog ≠ [] → (s.adders k).waking = true →
      (∃ i < s.numWorkers, (s.workers i).awake = true) ∨
        ∃ k' < s.numAdders, k' ≠ k ∧ (s.adders k').waking = true) :
    WakeInv (s'.setAdder k pc) := by
  apply h.of_setAdder hworkers hw ha fun j hput => absurd hput (hpc j)
  intro hne
  rw [hbacklog] at hne
  -- somebody other than this adder serves the backlog
  have hserved : (∃ i < s.numWorkers, (s.workers i).awake = true) ∨
      ∃ k' < s.numAdders, k' ≠ k ∧ (s.adders k').waking = true := by
    rcases h.served hne with hawake | ⟨j, hj, hwaking⟩
    · exact .inl hawake
    · by_cases hjk : j = k
      · exact hbefore hne (hjk ▸ hwaking)
      · exact .inr ⟨j, hj, hjk, hwaking⟩
  rcases hserved with ⟨i, hi, hawake⟩ | ⟨j, hj, hjk, hwaking⟩
  · refine .inl ⟨i, hworkers.symm ▸ hi, ?_⟩
    rwa [hw]
  · refine .inr ⟨j, hadders.symm ▸ hj, ?_⟩
    rwa [Workqueue.setAdder_of_ne s' pc hjk, ha]

/-- An adder moves to an access where it is waking a worker. -/
private theorem WakeInv.of_waking (h : WakeInv s) (hk : k < s.numAdders) {pc : AdderPc}
    (hworkers : s'.numWorkers = s.numWorkers) (hadders : s'.numAdders = s.numAdders)
    (hw : s'.workers = s.workers) (ha : s'.adders = s.adders)
    (hpc : ∀ j, pc = .put (.signal j) → j < s.numWorkers) (hwaking : pc.waking = true) :
    WakeInv (s'.setAdder k pc) := by
  apply h.of_setAdder hworkers hw ha hpc
  intro _
  refine .inr ⟨k, hadders.symm ▸ hk, ?_⟩
  rwa [Workqueue.setAdder_self]

/-- The `event_set` of an adder makes its worker awake. -/
private theorem WakeInv.of_signal (h : WakeInv s) {j : Nat} (hj : j < s.numWorkers) {w : Worker}
    (hw : w.pc = (s.workers j).pc) (htokens : 0 < w.tokens) {pc : AdderPc}
    (hpc : ∀ l, pc ≠ .put (.signal l)) : WakeInv ((s.setWorker j w).setAdder k pc) where
  worker_signal i l hput := h.worker_signal i l (Workqueue.pc_setWorker s hw i ▸ hput)
  adder_signal := adder_signal_setAdder h.adder_signal fun l hput => absurd hput (hpc l)
  served _ := by
    refine .inl ⟨j, hj, ?_⟩
    show ((s.setWorker j w).workers j).awake = true
    rw [Workqueue.setWorker_self, Worker.awake, decide_eq_true htokens, Bool.or_true]

/-- Every access of an adder keeps the invariant, if the scan does not fall through
    unserved. -/
private theorem workqueueAddWork_wake (h : WakeInv s) (hk : k < s.numAdders)
    (hcond : FallsThroughServed s (.adder k)) (hstep : workqueueAddWork s k = some s') :
    WakeInv s' := by
  unfold workqueueAddWork at hstep
  cases hpc : s.adders k with
  | idle => simp only [hpc, reduceCtorEq] at hstep
  | requests job | status job =>
    simp only [hpc, Option.some.injEq] at hstep
    subst hstep
    refine h.of_not_waking rfl rfl rfl rfl rfl nofun fun _ hwaking => ?_
    rw [hpc] at hwaking
    exact nomatch hwaking
  | put p =>
    simp only [hpc, Option.some.injEq] at hstep
    subst hstep
    cases p with
    | enqueue job => exact h.of_waking hk rfl rfl rfl rfl nofun rfl
    | scan i =>
      unfold putBacklog
      by_cases hi : i < s.numWorkers
      · by_cases hidle : (s.workers i).state = .idle
        · simp only [hi, hidle, ↓reduceIte]
          refine h.of_waking hk rfl rfl rfl rfl (fun j hj => ?_) rfl
          cases hj
          exact hi
        · simp only [hi, hidle, ↓reduceIte]
          exact h.of_waking hk rfl rfl rfl rfl nofun rfl
      · -- the scan found no IDLE worker
        simp only [hi, ↓reduceIte]
        refine h.of_not_waking rfl rfl rfl rfl rfl nofun fun hne _ => ?_
        refine (hcond ?_).resolve_left hne
        rw [hpc]
        exact decide_eq_true (Nat.le_of_not_lt hi)
    | signal i =>
      exact h.of_signal (w := { s.workers i with tokens := (s.workers i).tokens + 1 })
        (h.adder_signal k i hpc) rfl (Nat.succ_pos _) nofun

/-- Every step keeps the invariant, unless a scan falls through unserved. -/
theorem wqStep_wake (s : Workqueue) (a : WqAct) (s' : Workqueue) (h : WakeInv s)
    (hcond : FallsThroughServed s a) (hstep : wqStep s a = some s') : WakeInv s' := by
  cases a with
  | worker i =>
    simp only [wqStep, Option.ite_none_right_eq_some] at hstep
    exact workqueueFactory_wake h hstep.1 hstep.2
  | workReturns i rc =>
    simp only [wqStep, Option.ite_none_right_eq_some] at hstep
    obtain ⟨hi, hstep⟩ := hstep
    split at hstep
    · obtain rfl := Option.some.inj hstep
      exact h.of_serving hi rfl rfl (fun _ => rfl) nofun rfl
    · exact nomatch hstep
  | add k w =>
    simp only [wqStep, Option.ite_none_right_eq_some] at hstep
    obtain ⟨⟨hk, hidle⟩, hstep⟩ := hstep
    split at hstep
    · obtain rfl := Option.some.inj hstep
      show WakeInv (Workqueue.setAdder { s.record (.added w) with adds := s.adds + 1 } k _)
      -- an idle adder was not waking anybody
      refine h.of_not_waking rfl rfl rfl rfl rfl nofun fun _ hwaking => ?_
      rw [hidle] at hwaking
      exact nomatch hwaking
    · obtain rfl := Option.some.inj hstep
      exact h
  | adder k =>
    simp only [wqStep, Option.ite_none_right_eq_some] at hstep
    exact workqueueAddWork_wake h hstep.1 hcond hstep.2
  | cancel w =>
    obtain rfl := Option.some.inj hstep
    exact ⟨h.worker_signal, h.adder_signal, h.served⟩

end

theorem workqueueInit_wake (numWorkers numAdders : Nat) (works : Nat → Work) :
    WakeInv (workqueueInit numWorkers numAdders works) where
  worker_signal _ _ hput := nomatch hput
  adder_signal _ _ hput := nomatch hput
  served hne := absurd rfl hne

/-- An awake worker is not blocked, and a waking adder is inside of `put_backlog`. -/
theorem WakeInv.not_stranded {s : Workqueue} (h : WakeInv s) : ¬ Stranded s := by
  rintro ⟨hne, hblocked, hquiet⟩
  rcases h.served hne with ⟨i, hi, hawake⟩ | ⟨k, hk, hwaking⟩
  · obtain ⟨hpc, htokens⟩ := hblocked i hi
    rw [Worker.awake, hpc, htokens] at hawake
    cases hawake
  · rw [hquiet k hk] at hwaking
    cases hwaking

/-! ## Results -/

/-- In every interleaving in which no scan falls through unserved, no state reached has
    stranded work. -/
theorem workqueue_not_stranded (numWorkers numAdders : Nat) (works : Nat → Work)
    (as : List WqAct) (s : Workqueue)
    (hmeets : Meets wqStep FallsThroughServed (workqueueInit numWorkers numAdders works) as)
    (hrun : run wqStep (workqueueInit numWorkers numAdders works) as = some s) :
    ¬ Stranded s := by
  have hinv := inv_of_meets wqStep_wake (workqueueInit_wake numWorkers numAdders works) hmeets hrun
  exact hinv.not_stranded

/-- One worker and one adder; the worker is idle and blocked when work is added, serves
    it and blocks again. -/
def servedRun : List WqAct :=
  [.worker 0, .add 0 5, .adder 0, .adder 0, .adder 0, .adder 0, .adder 0, .worker 0, .worker 0,
    .worker 0, .worker 0, .worker 0, .worker 0, .workReturns 0 0, .worker 0, .worker 0, .worker 0,
    .worker 0, .worker 0]

theorem workqueue_not_stranded_run :
    ∃ s, run wqStep (workqueueInit 1 1 fun _ => ⟨.new, 0, true, true⟩) servedRun = some s ∧
      s.log = [.completeFn ⟨5, 0⟩, .complete 5, .workFn 5, .inProgress 5, .added 5] ∧
      (s.workers 0).pc = .wait ∧ ¬ Stranded s :=
  ⟨_, rfl, rfl, rfl, workqueue_not_stranded 1 1 (fun _ => ⟨.new, 0, true, true⟩) servedRun _
    (by decide) rfl⟩

/-- Work is added before the only worker has marked itself IDLE. -/
def startUpRun : List WqAct :=
  [.add 0 5, .adder 0, .adder 0, .adder 0, .adder 0, .adder 0, .worker 0]

/-- The scan meets an OFFLINE worker, and the worker blocks on an event without tokens. -/
theorem workqueue_stranded :
    ∃ s, run wqStep (workqueueInit 1 1 fun _ => ⟨.new, 0, true, true⟩) startUpRun = some s ∧
      s.backlog = [⟨5, 0⟩] ∧ Stranded s :=
  ⟨_, rfl, rfl, by decide⟩

end CUtils
