import CUtils.Spec.WorkqueueComplete

/-!
# Where every add is

A worker gives an item up only when it has called its `complete_fn` or put it back, and an
adder only when it has put it into the backlog.  So in every interleaving, with or without
cancelled works, each call of `workqueue_add_work` can be accounted for.

- `Accounted`: each add is in some place, or its `complete_fn` has been called.
- `wqRun_accounted`: in every state of every run.
-/

namespace CUtils

open StepSystem

/-- The work that a call of `workqueue_add_work` adds. -/
def WorkEvent.addedWork : WorkEvent → Option Nat
  | .added w => some w
  | .inProgress _ | .workFn _ | .complete _ | .completeFn _ => none

/-- The works that have been added, in the order of the calls. -/
def addedWorks (log : List WorkEvent) : List Nat := log.reverse.filterMap WorkEvent.addedWork

theorem addedWorks_cons (e : WorkEvent) (log : List WorkEvent) :
    addedWorks (e :: log) = addedWorks log ++ e.addedWork.toList := by
  rw [addedWorks, List.reverse_cons, List.filterMap_append]
  cases e <;> rfl

/-- The `complete_fn` of the work, if it has one, was called for this item. -/
def Workqueue.Finished (s : Workqueue) (job : Job) : Prop :=
  (s.works job.work).completeFn = true → .completeFn job ∈ s.log

/-- Every add is in some place, or finished. -/
structure Accounted (s : Workqueue) : Prop where
  adds : (addedWorks s.log).length = s.adds
  job : ∀ n w, (addedWorks s.log)[n]? = some w →
    (∃ p, s.Has WorkerPc.carried p ⟨w, n⟩) ∨ s.Finished ⟨w, n⟩

/-- From `s` to `s'` nothing was added, and no item was lost. -/
structure KeepsItems (s s' : Workqueue) : Prop where
  adds : s'.adds = s.adds
  addedWorks : addedWorks s'.log = addedWorks s.log
  finished : ∀ job, s.Finished job → s'.Finished job
  places : ∀ p job, s.Has WorkerPc.carried p job →
    (∃ q, s'.Has WorkerPc.carried q job) ∨ s'.Finished job

section

variable {s s' : Workqueue} {i k w : Nat}

theorem Accounted.keeps (h : Accounted s) (hkeeps : KeepsItems s s') : Accounted s' where
  adds := by
    rw [hkeeps.addedWorks, hkeeps.adds]
    exact h.adds
  job n w hw := by
    rw [hkeeps.addedWorks] at hw
    cases h.job n w hw with
    | inl hplace =>
      obtain ⟨p, hhas⟩ := hplace
      exact hkeeps.places p _ hhas
    | inr hfinished => exact .inr (hkeeps.finished _ hfinished)

theorem completeWorkFn_workers (s : Workqueue) (job : Job) :
    (completeWorkFn s job).workers = s.workers := by
  unfold completeWorkFn
  split <;> rfl

namespace KeepsItems

theorem refl (s : Workqueue) : KeepsItems s s :=
  ⟨rfl, rfl, fun _ h => h, fun p _ h => .inl ⟨p, h⟩⟩

theorem trans {s'' : Workqueue} (h : KeepsItems s s') (h' : KeepsItems s' s'') :
    KeepsItems s s'' where
  adds := h'.adds.trans h.adds
  addedWorks := h'.addedWorks.trans h.addedWorks
  finished job hjob := h'.finished job (h.finished job hjob)
  places p job hhas := by
    cases h.places p job hhas with
    | inl hplace =>
      obtain ⟨q, hq⟩ := hplace
      exact h'.places q job hq
    | inr hfinished => exact .inr (h'.finished job hfinished)

/-- A worker moves on with the item that it has, or after it has put it back or finished it. -/
theorem setWorker {x : Worker}
    (hx : ∀ job, (s.workers i).pc.carried = some job →
      x.pc.carried = some job ∨ job ∈ s.backlog ∨ s.Finished job) :
    KeepsItems s (s.setWorker i x) := by
  refine ⟨rfl, rfl, fun _ h => h, fun p job hhas => ?_⟩
  cases p with
  | adder j => exact .inl ⟨.adder j, hhas⟩
  | backlog => exact .inl ⟨.backlog, hhas⟩
  | worker j =>
    by_cases hji : j = i
    · subst hji
      rcases hx job hhas.2 with hstill | hqueued | hfinished
      · exact .inl ⟨.worker j, hhas.1, by rwa [Workqueue.setWorker_self]⟩
      · exact .inl ⟨.backlog, hqueued⟩
      · exact .inr hfinished
    · refine .inl ⟨.worker j, hhas.1, ?_⟩
      rw [Workqueue.setWorker_of_ne s x hji]
      exact hhas.2

/-- An adder moves on with the item that it has, or after it has enqueued it. -/
theorem setAdder {pc : AdderPc}
    (hpc : ∀ job, (s.adders k).job = some job → pc.job = some job ∨ job ∈ s.backlog) :
    KeepsItems s (s.setAdder k pc) := by
  refine ⟨rfl, rfl, fun _ h => h, fun p job hhas => .inl ?_⟩
  cases p with
  | adder j =>
    by_cases hjk : j = k
    · subst hjk
      cases hpc job hhas.2 with
      | inl hstill => exact ⟨.adder j, hhas.1, by rwa [Workqueue.setAdder_self]⟩
      | inr hqueued => exact ⟨.backlog, hqueued⟩
    · refine ⟨.adder j, hhas.1, ?_⟩
      rw [Workqueue.setAdder_of_ne s pc hjk]
      exact hhas.2
  | backlog => exact ⟨.backlog, hhas⟩
  | worker j => exact ⟨.worker j, hhas⟩

/-- Every item stays where it is. -/
theorem of_same (hsame : SameJobs s' s)
    (hfn : ∀ w, (s'.works w).completeFn = (s.works w).completeFn) : KeepsItems s s' := by
  refine ⟨hsame.adds, by rw [hsame.log], fun job hjob => ?_, fun p job hhas => .inl ⟨p, ?_⟩⟩
  · rw [Workqueue.Finished, hfn, hsame.log]
    exact hjob
  · cases p with
    | adder j => exact ⟨hsame.numAdders ▸ hhas.1, hsame.adders ▸ hhas.2⟩
    | backlog => exact (hsame.backlog ▸ hhas : job ∈ s'.backlog)
    | worker j => exact ⟨hsame.numWorkers ▸ hhas.1, (hsame.pcs j).symm ▸ hhas.2⟩

theorem setStatus (s : Workqueue) (w : Nat) (status : WorkStatus) :
    KeepsItems s (s.setStatus w status) := by
  refine of_same ⟨rfl, rfl, rfl, rfl, fun _ => rfl, rfl, rfl⟩ fun v => ?_
  show (Function.update s.works w { s.works w with status } v).completeFn = _
  by_cases hv : v = w
  · rw [hv, Function.update_self]
  · rw [Function.update_of_ne hv]

theorem setRequests (s : Workqueue) (w : Nat) (requests : UInt32) :
    KeepsItems s (s.setRequests w requests) := by
  refine of_same ⟨rfl, rfl, rfl, rfl, fun _ => rfl, rfl, rfl⟩ fun v => ?_
  show (Function.update s.works w { s.works w with requests } v).completeFn = _
  by_cases hv : v = w
  · rw [hv, Function.update_self]
  · rw [Function.update_of_ne hv]

theorem record (s : Workqueue) {e : WorkEvent} (he : e.addedWork = none) :
    KeepsItems s (s.record e) := by
  refine ⟨rfl, ?_, fun job hjob hfn => List.mem_cons_of_mem e (hjob hfn),
    fun p job hhas => .inl ⟨p, ?_⟩⟩
  · show CUtils.addedWorks (e :: s.log) = _
    rw [addedWorks_cons, he]
    exact List.append_nil _
  · cases p with
    | adder j => exact hhas
    | backlog => exact hhas
    | worker j => exact hhas

/-- An item of the backlog has been taken. -/
theorem dequeue {job : Job} {backlog : List Job} (hbacklog : s.backlog = job :: backlog)
    (hi : i < s.numWorkers) (htaken : (s.workers i).pc.carried = some job) (count : Int) :
    KeepsItems s { s with backlog, backlogCount := count } := by
  refine ⟨rfl, rfl, fun _ h => h, fun p job' hhas => .inl ?_⟩
  cases p with
  | adder j => exact ⟨.adder j, hhas⟩
  | backlog =>
    have hmem : job' ∈ job :: backlog := hbacklog ▸ hhas
    cases List.mem_cons.mp hmem with
    | inl heq => exact ⟨.worker i, hi, heq ▸ htaken⟩
    | inr hrest => exact ⟨.backlog, hrest⟩
  | worker j => exact ⟨.worker j, hhas⟩

/-- `put_backlog` adds its item to those of the backlog. -/
theorem putBacklog (s : Workqueue) (p : PutPc) :
    KeepsItems s (putBacklog s p).1 ∧
      ∀ job, p = .enqueue job → job ∈ (CUtils.putBacklog s p).1.backlog := by
  by_cases henq : ∃ job, p = .enqueue job
  · obtain ⟨job, rfl⟩ := henq
    refine ⟨⟨rfl, rfl, fun _ h => h, fun q job' hhas => .inl ⟨q, ?_⟩⟩, ?_⟩
    · cases q with
      | adder j => exact hhas
      | backlog => exact List.mem_append_left [job] hhas
      | worker j => exact hhas
    · intro job' heq
      obtain rfl := PutPc.enqueue.inj heq
      exact List.mem_append_right s.backlog List.mem_cons_self
  · obtain ⟨hsame, _⟩ := putBacklog_sameJobs s fun job heq => henq ⟨job, heq⟩
    refine ⟨of_same hsame fun w => ?_, fun job heq => absurd ⟨job, heq⟩ henq⟩
    rw [(putBacklog_sameThreads s p).works]

/-- `complete_work` calls the function of the item. -/
theorem completeWorkFn (s : Workqueue) (job : Job) :
    KeepsItems s (completeWorkFn s job) ∧ (CUtils.completeWorkFn s job).Finished job := by
  unfold CUtils.completeWorkFn
  split
  · exact ⟨record s rfl, fun _ => List.mem_cons_self⟩
  · rename_i hfn
    exact ⟨refl s, fun h => absurd h hfn⟩

end KeepsItems

/-! ## Steps -/

/-- Every access of a worker. -/
theorem workqueueFactory_keepsItems (hi : i < s.numWorkers)
    (hstep : workqueueFactory s i = some s') : KeepsItems s s' := by
  unfold workqueueFactory at hstep
  cases hpc : (s.workers i).pc with
  | start | run | idle =>
    simp only [hpc, Option.some.injEq] at hstep
    subst hstep
    exact .setWorker fun job hjob => by rw [hpc] at hjob; cases hjob
  | wait =>
    simp only [hpc, Option.ite_none_left_eq_some, Option.some.injEq] at hstep
    obtain ⟨_, rfl⟩ := hstep
    exact .setWorker fun job hjob => by rw [hpc] at hjob; cases hjob
  | get =>
    simp only [hpc] at hstep
    cases hbacklog : s.backlog with
    | nil =>
      simp only [hbacklog, Option.some.injEq] at hstep
      subst hstep
      exact .setWorker fun job hjob => by rw [hpc] at hjob; cases hjob
    | cons job backlog =>
      simp only [hbacklog, Option.some.injEq] at hstep
      subst hstep
      have htake : KeepsItems s (s.setPc i (.testCancel job)) :=
        .setWorker fun job' hjob => by rw [hpc] at hjob; cases hjob
      apply htake.trans
      have htaken : ((s.setPc i (.testCancel job)).workers i).pc.carried = some job := by
        rw [Workqueue.setPc, Workqueue.setWorker_self]
        rfl
      exact .dequeue (s := s.setPc i (.testCancel job)) hbacklog hi htaken _
  | testCancel job | test job rc =>
    simp only [hpc, Option.some.injEq] at hstep
    subst hstep
    refine .setWorker fun job' hjob => .inl ?_
    rw [hpc] at hjob
    split <;> exact hjob
  | cancelStatus job | completeStatus job =>
    simp only [hpc, Option.some.injEq] at hstep
    subst hstep
    have hstatus : KeepsItems s (completeWorkStatus s job) :=
      (KeepsItems.setStatus s job.work .complete).trans (.record _ rfl)
    refine hstatus.trans (.setWorker fun job' hjob => .inl ?_)
    rw [show ((completeWorkStatus s job).workers i).pc = _ from hpc] at hjob
    exact hjob
  | cancelFn job =>
    simp only [hpc, Option.some.injEq] at hstep
    subst hstep
    refine (KeepsItems.completeWorkFn s job).1.trans (.setWorker fun job' hjob => .inl ?_)
    rw [completeWorkFn_workers, hpc] at hjob
    exact hjob
  | completeFn job =>
    simp only [hpc, Option.some.injEq] at hstep
    subst hstep
    obtain ⟨hkeeps, hfinished⟩ := KeepsItems.completeWorkFn s job
    refine hkeeps.trans (.setWorker fun job' hjob => .inr (.inr ?_))
    rw [completeWorkFn_workers, hpc] at hjob
    obtain rfl := Option.some.inj hjob
    exact hfinished
  | progress job =>
    simp only [hpc, Option.some.injEq] at hstep
    subst hstep
    have hstatus : KeepsItems s
        ((s.setStatus job.work .inProgress).record (.inProgress job.work)) :=
      (KeepsItems.setStatus s job.work .inProgress).trans (.record _ rfl)
    refine hstatus.trans (.setWorker fun job' hjob => .inl ?_)
    rw [← hjob]
    exact (congrArg WorkerPc.carried hpc).symm
  | call job =>
    simp only [hpc, Option.some.injEq] at hstep
    subst hstep
    have hrecord : KeepsItems s (s.record (.workFn job.work)) := .record s rfl
    refine hrecord.trans (.setWorker fun job' hjob => .inl ?_)
    rw [← hjob]
    exact (congrArg WorkerPc.carried hpc).symm
  | running job => simp only [hpc, reduceCtorEq] at hstep
  | put p =>
    simp only [hpc, Option.some.injEq] at hstep
    subst hstep
    obtain ⟨hkeeps, hqueued⟩ := KeepsItems.putBacklog s p
    refine hkeeps.trans (.setWorker fun job hjob => .inr (.inl (hqueued job ?_)))
    rw [(putBacklog_sameThreads s p).pcs i, hpc] at hjob
    cases p with
    | enqueue job' => exact congrArg PutPc.enqueue (Option.some.inj hjob)
    | scan j | signal j => cases hjob

/-- Every access of an adder. -/
theorem workqueueAddWork_keepsItems (hstep : workqueueAddWork s k = some s') :
    KeepsItems s s' := by
  unfold workqueueAddWork at hstep
  cases hpc : s.adders k with
  | idle => simp only [hpc, reduceCtorEq] at hstep
  | requests job =>
    simp only [hpc, Option.some.injEq] at hstep
    subst hstep
    refine (KeepsItems.setRequests s job.work 0).trans (.setAdder fun job' hjob => .inl ?_)
    rw [← hjob]
    exact (congrArg AdderPc.job hpc).symm
  | status job =>
    simp only [hpc, Option.some.injEq] at hstep
    subst hstep
    refine (KeepsItems.setStatus s job.work .queued).trans (.setAdder fun job' hjob => .inl ?_)
    rw [← hjob]
    exact (congrArg AdderPc.job hpc).symm
  | put p =>
    simp only [hpc, Option.some.injEq] at hstep
    subst hstep
    obtain ⟨hkeeps, hqueued⟩ := KeepsItems.putBacklog s p
    refine hkeeps.trans (.setAdder fun job hjob => .inr (hqueued job ?_))
    rw [(putBacklog_sameThreads s p).adders, hpc] at hjob
    cases p with
    | enqueue job' => exact congrArg PutPc.enqueue (Option.some.inj hjob)
    | scan j | signal j => cases hjob

/-- A call of `workqueue_add_work` brings one item more. -/
theorem Accounted.add (h : Accounted s) (hk : k < s.numAdders) (hidle : s.adders k = .idle) :
    Accounted { (s.record (.added w)).setAdder k (.requests ⟨w, s.adds⟩) with
      adds := s.adds + 1 } where
  adds := by
    show (addedWorks (.added w :: s.log)).length = _
    rw [addedWorks_cons, List.length_append, h.adds]
    rfl
  job n v hv := by
    have hnew := Workqueue.setAdder_self (s.record (.added w)) k (.requests ⟨w, s.adds⟩)
    change (addedWorks (.added w :: s.log))[n]? = some v at hv
    rw [addedWorks_cons] at hv
    by_cases hn : n < s.adds
    · rw [List.getElem?_append_left (h.adds.symm ▸ hn)] at hv
      cases h.job n v hv with
      | inr hfinished => exact .inr fun hfn => List.mem_cons_of_mem _ (hfinished hfn)
      | inl hplace =>
        obtain ⟨p, hhas⟩ := hplace
        refine .inl ⟨p, ?_⟩
        cases p with
        | adder j =>
          -- the adder that is called had nothing in its hands
          have hjk : j ≠ k := by
            intro hjk
            rw [hjk] at hhas
            rw [Workqueue.Has, hidle] at hhas
            cases hhas.2
          have hold := Workqueue.setAdder_of_ne (s.record (.added w)) (.requests ⟨w, s.adds⟩) hjk
          exact ⟨hhas.1, (congrArg AdderPc.job hold).trans hhas.2⟩
        | backlog => exact hhas
        | worker j => exact hhas
    · rw [List.getElem?_append_right (h.adds.symm ▸ Nat.le_of_not_lt hn), h.adds] at hv
      change [w][n - s.adds]? = some v at hv
      obtain ⟨hlt, rfl⟩ := List.getElem?_eq_some_iff.mp hv
      rw [List.length_singleton] at hlt
      obtain rfl : n = s.adds := by omega
      refine .inl ⟨.adder k, hk, (congrArg AdderPc.job hnew).trans ?_⟩
      simp [AdderPc.job]

/-- Every step keeps the account. -/
theorem wqStep_accounted (s : Workqueue) (a : WqAct) (s' : Workqueue) (h : Accounted s)
    (hstep : wqStep s a = some s') : Accounted s' := by
  cases a with
  | worker i =>
    simp only [wqStep, Option.ite_none_right_eq_some] at hstep
    exact h.keeps (workqueueFactory_keepsItems hstep.1 hstep.2)
  | workReturns i rc =>
    simp only [wqStep, Option.ite_none_right_eq_some] at hstep
    obtain ⟨hi, hstep⟩ := hstep
    split at hstep
    · next job hpc =>
      obtain rfl := Option.some.inj hstep
      refine h.keeps (.setWorker fun job' hjob => .inl ?_)
      rw [hpc] at hjob
      exact hjob
    · cases hstep
  | add k w =>
    simp only [wqStep, Option.ite_none_right_eq_some] at hstep
    obtain ⟨⟨hk, hidle⟩, hstep⟩ := hstep
    split at hstep
    · obtain rfl := Option.some.inj hstep
      exact h.add hk hidle
    · obtain rfl := Option.some.inj hstep
      exact h
  | adder k =>
    simp only [wqStep, Option.ite_none_right_eq_some] at hstep
    exact h.keeps (workqueueAddWork_keepsItems hstep.2)
  | cancel w =>
    obtain rfl := Option.some.inj hstep
    exact h.keeps (.setRequests s w _)

theorem workqueueInit_accounted (numWorkers numAdders : Nat) (works : Nat → Work) :
    Accounted (workqueueInit numWorkers numAdders works) :=
  ⟨rfl, fun _ _ hw => by cases hw⟩

/-- In every state of every run, each add is in some place or finished. -/
theorem wqRun_accounted {numWorkers numAdders : Nat} {works : Nat → Work} {as : List WqAct}
    (hrun : run wqStep (workqueueInit numWorkers numAdders works) as = some s) : Accounted s :=
  inv_of_run wqStep_accounted (workqueueInit_accounted numWorkers numAdders works) hrun

end

end CUtils
