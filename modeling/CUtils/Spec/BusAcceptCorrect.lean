import CUtils.Native.BusAccept
import CUtils.Spec.WorkqueueLinksCorrect

/-!
# The accept thread and the owners of the work items

The accept thread clears, fills and adds a work item, and then waits until it reads
IN_PROGRESS from it.  While a worker has the item, nobody else writes its status.

- `AcceptInv`: no work item is cleared or added while a worker has it.
- `busAcceptStep_inv`: every access keeps the invariant.
- `busAcceptStep_missed`: an item is completed under a waiting accept thread only by the
  worker that stores COMPLETE.
-/

namespace CUtils

open StepSystem

/-! ## The works and who has them -/

/-- The item is in the backlog, or taken by a worker that has not completed it. -/
def Workqueue.Held (a : Workqueue) (job : Job) : Prop :=
  job ∈ a.backlog ∨ ∃ i < a.numWorkers, (a.workers i).pc.job = some job

/-- The work is about to be enqueued by the accept thread, in the backlog, or taken by a
    worker that has not completed it. -/
def Workqueue.Enqueued (a : Workqueue) (w : Nat) : Prop :=
  (∃ job, a.adders 0 = .put (.enqueue job) ∧ job.work = w) ∨ ∃ job, a.Held job ∧ job.work = w

section

variable {a a' : Workqueue} {i w : Nat} {job : Job}

/-- What an access of a worker writes apart from the workers and the backlog: the status
    of the work that it has. -/
theorem workqueueFactory_writes (h : workqueueFactory a i = some a') :
    a'.adders = a.adders ∧ a'.numAdders = a.numAdders ∧ a'.adds = a.adds ∧
      (a'.works = a.works ∨ ∃ job status, (a.workers i).pc.job = some job ∧
        a'.works = (a.setStatus job.work status).works ∧
        (((a.workers i).pc = .progress job ∧ status = .inProgress) ∨
          ((a.workers i).pc = .cancelStatus job ∧ status = .complete) ∨
          ((a.workers i).pc = .completeStatus job ∧ status = .complete ∧
            a'.log = .complete job.work :: a.log))) := by
  unfold workqueueFactory at h
  cases hpc : (a.workers i).pc with
  -- the three accesses that set a status
  | progress job =>
    simp only [hpc, Option.some.injEq] at h
    subst h
    exact ⟨rfl, rfl, rfl, .inr ⟨job, .inProgress, rfl, rfl, .inl ⟨rfl, rfl⟩⟩⟩
  | cancelStatus job =>
    simp only [hpc, Option.some.injEq] at h
    subst h
    exact ⟨rfl, rfl, rfl, .inr ⟨job, .complete, rfl, rfl, .inr (.inl ⟨rfl, rfl⟩)⟩⟩
  | completeStatus job =>
    simp only [hpc, Option.some.injEq] at h
    subst h
    exact ⟨rfl, rfl, rfl, .inr ⟨job, .complete, rfl, rfl, .inr (.inr ⟨rfl, rfl, rfl⟩)⟩⟩
  -- every other access leaves the works
  | get =>
    simp only [hpc] at h
    split at h
    · obtain rfl := Option.some.inj h
      exact ⟨rfl, rfl, rfl, .inl rfl⟩
    · obtain rfl := Option.some.inj h
      exact ⟨rfl, rfl, rfl, .inl rfl⟩
  | put p =>
    simp only [hpc] at h
    obtain rfl := Option.some.inj h
    have hsame := putBacklog_sameThreads a p
    exact ⟨hsame.adders, hsame.numAdders, hsame.adds, .inl hsame.works⟩
  | wait =>
    simp only [hpc, Option.ite_none_left_eq_some] at h
    obtain rfl := Option.some.inj h.2
    exact ⟨rfl, rfl, rfl, .inl rfl⟩
  | cancelFn job | completeFn job =>
    simp only [hpc] at h
    obtain rfl := Option.some.inj h
    unfold completeWorkFn
    split <;> exact ⟨rfl, rfl, rfl, .inl rfl⟩
  | running job => simp only [hpc, reduceCtorEq] at h
  | start | run | testCancel | call | test | idle =>
    simp only [hpc] at h
    obtain rfl := Option.some.inj h
    exact ⟨rfl, rfl, rfl, .inl rfl⟩

/-- A step that leaves the adders, and after which nothing new is held, enqueues nothing. -/
theorem Workqueue.Enqueued.of_held (hadders : a'.adders = a.adders)
    (hheld : ∀ job, a'.Held job → a.Held job) (hw : a'.Enqueued w) : a.Enqueued w := by
  rcases hw with ⟨job, hjob, hwork⟩ | ⟨job, hjob, hwork⟩
  · rw [hadders] at hjob
    exact .inl ⟨job, hjob, hwork⟩
  · exact .inr ⟨job, hheld job hjob, hwork⟩

/-- After a quiet step nothing new is held. -/
theorem QuietStep.held {o : Option Nat} (h : QuietStep o a a') (hjob : a'.Held job) :
    a.Held job := by
  rcases hjob with hmem | ⟨j, hj, hpc⟩
  · rw [h.backlog] at hmem
    exact .inl hmem
  · rw [h.numWorkers] at hj
    exact .inr ⟨j, hj, h.jobs j job hpc⟩

/-- The items that are held after the move of one worker. -/
theorem held_setPc {pc : WorkerPc} (hjob : (a'.setPc i pc).Held job)
    (hnum : a'.numWorkers = a.numWorkers) (hworkers : a'.workers = a.workers)
    (hbacklog : job ∈ a'.backlog → a.Held job) (hpc : pc.job = some job → a.Held job) :
    a.Held job := by
  rcases hjob with hmem | ⟨j, hj, hheld⟩
  · exact hbacklog hmem
  · by_cases hji : j = i
    · rw [hji, Workqueue.setPc, Workqueue.setWorker_self] at hheld
      exact hpc hheld
    · rw [Workqueue.setPc, Workqueue.setWorker_of_ne a' _ hji, hworkers] at hheld
      have hj' : j < a'.numWorkers := hj
      exact .inr ⟨j, hnum ▸ hj', hheld⟩

/-- After an access of a worker nothing new is held. -/
theorem workqueueFactory_held (hi : i < a.numWorkers) (h : workqueueFactory a i = some a')
    (hjob : a'.Held job) : a.Held job := by
  by_cases hget : (a.workers i).pc = .get
  · cases hbacklog : a.backlog with
    | nil =>
      simp only [workqueueFactory, hget, hbacklog, Option.some.injEq] at h
      subst h
      refine held_setPc hjob rfl rfl Or.inl fun hpc => ?_
      cases hpc
    | cons first backlog =>
      simp only [workqueueFactory, hget, hbacklog, Option.some.injEq] at h
      subst h
      have hjob' : (Workqueue.setPc { a with
          backlog, backlogCount := a.backlogCount - 1 } i (.testCancel first)).Held job := hjob
      -- the first item goes from the backlog to the worker
      refine held_setPc hjob' rfl rfl (fun hmem => ?_) fun hpc => ?_
      · refine .inl ?_
        rw [hbacklog]
        exact List.mem_cons_of_mem _ hmem
      · refine .inl ?_
        rw [hbacklog, ← Option.some.inj hpc]
        exact List.mem_cons_self
  by_cases hput : ∃ job, (a.workers i).pc = .put (.enqueue job)
  · obtain ⟨last, hput⟩ := hput
    simp only [workqueueFactory, hput, putBacklog, Option.some.injEq] at h
    subst h
    refine held_setPc hjob rfl rfl (fun hmem => ?_) fun hpc => by cases hpc
    -- the item goes from the worker to the backlog
    rcases List.mem_append.mp hmem with hold | hself
    · exact .inl hold
    · refine .inr ⟨i, hi, ?_⟩
      rw [hput, List.mem_singleton.mp hself]
      rfl
  · obtain ⟨_, hquiet⟩ := workqueueFactory_quiet hget (fun job heq => hput ⟨job, heq⟩) []
    exact (hquiet a' h).held hjob

/-- An access of `workqueue_add_work` in the accept thread: the writes of `requests` and of
    the status, the enqueue, or a part of the wakeup. -/
theorem adder_cases (hbusy : a.adders 0 ≠ .idle) (h : wqStep a (.adder 0) = some a') :
    (∃ job, a.adders 0 = .requests job ∧
      a' = (a.setRequests job.work 0).setAdder 0 (.status job)) ∨
    (∃ job, a.adders 0 = .status job ∧
      a' = (a.setStatus job.work .queued).setAdder 0 (.put (.enqueue job))) ∨
    (∃ job, a.adders 0 = .put (.enqueue job) ∧
      a' = Workqueue.setAdder { a with
        backlog := a.backlog ++ [job], backlogCount := a.backlogCount + 1 } 0 (.put (.scan 0))) ∨
    ((a.adders 0).job = none ∧ (a'.adders 0).job = none ∧ a'.works = a.works ∧
      a'.numAdders = a.numAdders ∧ a'.adds = a.adds ∧ ∀ job, a'.Held job → a.Held job) := by
  simp only [wqStep, Option.ite_none_right_eq_some] at h
  obtain ⟨_, h⟩ := h
  unfold workqueueAddWork at h
  cases hadder : a.adders 0 with
  | idle => exact absurd hadder hbusy
  | requests job =>
    simp only [hadder, Option.some.injEq] at h
    exact .inl ⟨job, rfl, h.symm⟩
  | status job =>
    simp only [hadder, Option.some.injEq] at h
    exact .inr (.inl ⟨job, rfl, h.symm⟩)
  | put p =>
    simp only [hadder, Option.some.injEq] at h
    by_cases hp : ∃ job, p = .enqueue job
    · obtain ⟨job, rfl⟩ := hp
      exact .inr (.inr (.inl ⟨job, rfl, h.symm⟩))
    · -- no access of the wakeup has an item
      have hnone : ∀ q : PutPc, (∀ job, q ≠ .enqueue job) → (AdderPc.put q).job = none := by
        intro q hq
        cases q with
        | enqueue job => exact absurd rfl (hq job)
        | scan j | signal j => rfl
      obtain ⟨hsame, hnext⟩ := putBacklog_sameJobs a fun job heq => hp ⟨job, heq⟩
      refine .inr (.inr (.inr ⟨hnone p fun job heq => hp ⟨job, heq⟩, ?_, ?_, ?_, ?_, ?_⟩))
      · rw [← h, Workqueue.setAdder_self]
        revert hnext
        cases (putBacklog a p).2 with
        | none => exact fun _ => rfl
        | some q => exact fun hnext => hnone q fun job heq => hnext job (by rw [heq])
      · rw [← h]
        exact (putBacklog_sameThreads a p).works
      · rw [← h]
        exact hsame.numAdders
      · rw [← h]
        exact hsame.adds
      · rw [← h]
        rintro job (hmem | ⟨j, hj, hheld⟩)
        · exact .inl (hsame.backlog ▸ hmem)
        · have hheld' : ((putBacklog a p).1.workers j).pc.job = some job := hheld
          rw [hsame.pcs] at hheld'
          exact .inr ⟨j, hsame.numWorkers ▸ hj, hheld'⟩

end

/-! ## The invariant -/

namespace BusAccept

/-- The accept thread has enqueued the work item and has not left the wait loop. -/
def Pending (s : BusAccept) (w : Nat) : Prop :=
  s.accept = .wait w ∨ s.accept = .adding w ∧ (s.wq.adders 0).job = none

/-- The work item is completed while the accept thread is in the wait loop for it. -/
def Stuck (s : BusAccept) : Prop :=
  ∃ w, s.accept = .wait w ∧ (s.wq.works w).status = .complete

/-- The same from the enqueue on. -/
def Missed (s : BusAccept) : Prop := ∃ w, s.Pending w ∧ (s.wq.works w).status = .complete

/-- What the accept thread knows about the work item that it handles. -/
def AcceptOk (s : BusAccept) : Prop :=
  match s.accept with
  | .accept | .scanNew _ _ | .scanComplete _ _ | .wait _ => s.wq.adders 0 = .idle
  | .clear _ w | .fill _ w => s.wq.adders 0 = .idle ∧ ¬ s.wq.Enqueued w
  | .add w => s.wq.adders 0 = .idle ∧ ¬ s.wq.Enqueued w ∧ (s.wq.works w).workFn = true
  | .adding w => s.wq.adders 0 ≠ .idle ∧ ∀ job, (s.wq.adders 0).job = some job → job.work = w

end BusAccept

/-- What holds in every run of the bus server. -/
structure AcceptInv (s : BusAccept) : Prop where
  complete : CompleteInv s.wq
  numAdders : s.wq.numAdders = 1
  requests : ∀ w, (s.wq.works w).requests = 0
  owned : ∀ w, s.wq.Enqueued w →
    (s.wq.works w).status = .queued ∨ (s.wq.works w).status = .inProgress
  accept : s.AcceptOk

/-! ## The accesses of a schedule -/

/-- A worker stores IN_PROGRESS into the work item. -/
def StoresInProgress (job : Job) (s : BusAccept) (act : BusAcceptAct) : Prop :=
  ∃ i, act = .worker i ∧ (s.wq.workers i).pc = .progress job

/-- A worker stores COMPLETE into it. -/
def StoresComplete (job : Job) (s : BusAccept) (act : BusAcceptAct) : Prop :=
  ∃ i, act = .worker i ∧ (s.wq.workers i).pc = .completeStatus job

/-- The wait loop reads the status of the work. -/
def SamplesStatus (w : Nat) (s : BusAccept) (act : BusAcceptAct) : Prop :=
  act = .accept ∧ s.accept = .wait w

section

variable {s s' : BusAccept} {i w : Nat}

theorem busAcceptInit_inv (maxClients : Nat) : AcceptInv (busAcceptInit maxClients) := by
  refine ⟨workqueueInit_complete maxClients 1 _, rfl, fun _ => rfl, ?_, rfl⟩
  rintro v (⟨job, hjob, _⟩ | ⟨job, hmem | ⟨j, _, hheld⟩, _⟩)
  · cases hjob
  · cases hmem
  · cases hheld

/-- Nobody has a work that is new or completed. -/
theorem AcceptInv.not_enqueued (h : AcceptInv s)
    (hstatus : (s.wq.works w).status = .new ∨ (s.wq.works w).status = .complete) :
    ¬ s.wq.Enqueued w := by
  intro hw
  rcases h.owned w hw with howned | howned <;> rcases hstatus with hstatus | hstatus <;>
    cases howned.symm.trans hstatus

/-- No worker finds a work cancelled. -/
theorem AcceptInv.takes (h : AcceptInv s) (i : Nat) : TakesUncancelled s.wq (.worker i) := by
  intro job _ hcancel
  rw [Workqueue.cancelled, h.requests] at hcancel
  exact hcancel rfl

/-- An idle accept thread whose work nobody has may add the work. -/
theorem AcceptInv.released (h : AcceptInv s) (hidle : s.wq.adders 0 = .idle)
    (hw : ¬ s.wq.Enqueued w) : ¬ s.wq.Busy w := by
  rintro (⟨k, hk, hjob⟩ | hmem | hheld)
  · rw [h.numAdders] at hk
    obtain rfl : k = 0 := by omega
    rw [hidle] at hjob
    cases hjob
  · obtain ⟨job, hjob, hwork⟩ := List.mem_map.mp hmem
    exact hw (.inr ⟨job, .inl hjob, hwork⟩)
  · obtain ⟨i, hi, hpc⟩ := hheld
    obtain ⟨job, hjob, hwork⟩ := Option.map_eq_some_iff.mp hpc
    exact hw (.inr ⟨job, .inr ⟨i, hi, hjob⟩, hwork⟩)

/-- A change of the work queue that enqueues nothing, lets the accept thread where it is,
    and writes at most a status. -/
theorem BusAccept.AcceptOk.mono (h : s.AcceptOk) (haccept : s'.accept = s.accept)
    (hadders : s'.wq.adders = s.wq.adders) (henqueued : ∀ w, s'.wq.Enqueued w → s.wq.Enqueued w)
    (hfn : ∀ w, (s'.wq.works w).workFn = (s.wq.works w).workFn) : s'.AcceptOk := by
  revert h
  simp only [BusAccept.AcceptOk, haccept, hadders, hfn]
  cases s.accept with
  | accept | scanNew | scanComplete | wait | adding => exact fun h => h
  | clear fd w | fill fd w => exact fun h => ⟨h.1, fun hw => h.2 (henqueued w hw)⟩
  | add w => exact fun h => ⟨h.1, fun hw => h.2.1 (henqueued w hw), h.2.2⟩

/-- An item that is held has its place, which is not an adder. -/
theorem Workqueue.Held.has {a : Workqueue} {job : Job} (h : a.Held job) :
    ∃ p, a.Has WorkerPc.job p job ∧ ∀ k, p ≠ .adder k := by
  rcases h with hmem | ⟨j, hj, hpc⟩
  · exact ⟨.backlog, hmem, fun _ heq => by cases heq⟩
  · exact ⟨.worker j, ⟨hj, hpc⟩, fun _ heq => by cases heq⟩

/-- An enqueued work is somewhere. -/
theorem Workqueue.Enqueued.has {a : Workqueue} (hnum : 0 < a.numAdders) (hw : a.Enqueued w) :
    ∃ p job, a.Has WorkerPc.job p job ∧ job.work = w := by
  rcases hw with ⟨job, hjob, hwork⟩ | ⟨job, hjob, hwork⟩
  · exact ⟨.adder 0, job, ⟨hnum, by rw [hjob]; rfl⟩, hwork⟩
  · obtain ⟨p, hhas, _⟩ := hjob.has
    exact ⟨p, job, hhas, hwork⟩

/-- A write of a status, seen from one work. -/
theorem works_setStatus {a a' : Workqueue} {v : Nat} {status : WorkStatus}
    (h : a'.works = (a.setStatus v status).works) (w : Nat) :
    (a'.works w).workFn = (a.works w).workFn ∧ (a'.works w).requests = (a.works w).requests ∧
      (a'.works w).status = if w = v then status else (a.works w).status := by
  rw [h]
  show (Function.update a.works v { a.works v with status } w).workFn = _ ∧
    (Function.update a.works v { a.works v with status } w).requests = _ ∧
    (Function.update a.works v { a.works v with status } w).status = _
  by_cases hw : w = v
  · rw [hw, Function.update_self, if_pos rfl]
    exact ⟨rfl, rfl, rfl⟩
  · rw [Function.update_of_ne hw, if_neg hw]
    exact ⟨rfl, rfl, rfl⟩

/-- An access of a worker, seen from one work.  Only the worker that has the work can
    complete it. -/
theorem AcceptInv.worker_work (h : AcceptInv s) {wq : Workqueue}
    (hstep : workqueueFactory s.wq i = some wq) (w : Nat) :
    (wq.works w).workFn = (s.wq.works w).workFn ∧
      (wq.works w).requests = (s.wq.works w).requests ∧
      ((wq.works w).status = (s.wq.works w).status ∨ (wq.works w).status = .inProgress ∨
        ∃ job, (s.wq.workers i).pc = .completeStatus job ∧ job.work = w ∧
          (wq.works w).status = .complete ∧ wq.log = .complete w :: s.wq.log) := by
  rcases (workqueueFactory_writes hstep).2.2.2 with hworks | ⟨job, status, _, hworks, hcases⟩
  · rw [hworks]
    exact ⟨rfl, rfl, .inl rfl⟩
  · obtain ⟨hfn, hrequests, hstatus⟩ := works_setStatus hworks w
    refine ⟨hfn, hrequests, ?_⟩
    by_cases hw : w = job.work
    · rw [if_pos hw] at hstatus
      rcases hcases with ⟨_, rfl⟩ | ⟨hcancel, _⟩ | ⟨hpc, rfl, hlog⟩
      · exact .inr (.inl hstatus)
      · exact absurd hcancel (h.complete.not_cancelling i job).1
      · exact .inr (.inr ⟨job, hpc, hw.symm, hstatus, hw ▸ hlog⟩)
    · rw [if_neg hw] at hstatus
      exact .inl hstatus

/-- An access of a worker keeps the invariant. -/
theorem AcceptInv.worker (h : AcceptInv s) (hstep : wqStep s.wq (.worker i) = some s'.wq)
    (haccept : s'.accept = s.accept) : AcceptInv s' := by
  have hcomplete : CompleteInv s'.wq :=
    wqStep_complete s.wq (.worker i) s'.wq h.complete ⟨trivial, h.takes i⟩ hstep
  simp only [wqStep, Option.ite_none_right_eq_some] at hstep
  obtain ⟨hi, hstep⟩ := hstep
  obtain ⟨hadders, hnum, _⟩ := workqueueFactory_writes hstep
  have henqueued : ∀ w, s'.wq.Enqueued w → s.wq.Enqueued w :=
    fun w => .of_held hadders fun job => workqueueFactory_held hi hstep
  refine ⟨hcomplete, hnum.trans h.numAdders, ?_, ?_, ?_⟩
  · intro w
    rw [(h.worker_work hstep w).2.1, h.requests]
  · intro w hw
    obtain ⟨_, _, hsame | hprogress | ⟨job, _, _, _, hlog⟩⟩ := h.worker_work hstep w
    · rw [hsame]
      exact h.owned w (henqueued w hw)
    · exact .inr hprogress
    · -- a work that is completed is nowhere
      obtain ⟨p, job', hhas, rfl⟩ := hw.has (by rw [hnum, h.numAdders]; exact Nat.one_pos)
      have hopen := hcomplete.work_open p job' hhas
      rw [hlog, completedSinceAdd, if_pos rfl] at hopen
      cases hopen
  · exact h.accept.mono haccept hadders henqueued fun w => (h.worker_work hstep w).1

/-- An access of a worker makes the accept thread miss a status exactly when it completes
    the item that the accept thread waits for. -/
theorem AcceptInv.worker_missed (h : AcceptInv s) (hmissed : ¬ s.Missed)
    (hstep : wqStep s.wq (.worker i) = some s'.wq) (haccept : s'.accept = s.accept) :
    ¬ s'.Missed ↔ ∀ job, StoresComplete job s (.worker i) → ¬ s.Pending job.work := by
  simp only [wqStep, Option.ite_none_right_eq_some] at hstep
  obtain ⟨_, hstep⟩ := hstep
  have hpending : ∀ w, s'.Pending w ↔ s.Pending w := by
    intro w
    rw [BusAccept.Pending, BusAccept.Pending, haccept, (workqueueFactory_writes hstep).1]
  constructor
  · rintro hnot job ⟨j, hact, hpc⟩ hpend
    obtain rfl := BusAcceptAct.worker.inj hact
    refine hnot ⟨job.work, (hpending _).mpr hpend, ?_⟩
    simp only [workqueueFactory, hpc, Option.some.injEq] at hstep
    rw [← hstep]
    show (Function.update s.wq.works job.work _ job.work).status = _
    rw [Function.update_self]
  · rintro hcond ⟨w, hpend, hstatus⟩
    rw [hpending] at hpend
    obtain ⟨_, _, hsame | hprogress | ⟨job, hpc, rfl, _⟩⟩ := h.worker_work hstep w
    · exact hmissed ⟨w, hpend, hsame ▸ hstatus⟩
    · cases hprogress.symm.trans hstatus
    · exact hcond job ⟨i, rfl, hpc⟩ hpend

/-! ## The steps of the workers -/

/-- An access of a worker is one of its work queue. -/
theorem busWorkerStep_wq (h : busWorkerStep s i = some s') :
    wqStep s.wq (.worker i) = some s'.wq ∧ s'.accept = s.accept := by
  simp only [busWorkerStep, Option.bind_eq_bind, Option.bind_eq_some_iff] at h
  obtain ⟨wq, hwq, h⟩ := h
  split at h
  · obtain ⟨fd, _, h⟩ := Option.bind_eq_some_iff.mp h
    obtain rfl := Option.some.inj h
    exact ⟨hwq, rfl⟩
  · obtain rfl := Option.some.inj h
    exact ⟨hwq, rfl⟩

/-- An access inside of `bus_server_work_fn` leaves the work queue, or returns. -/
theorem busFnStep_wq {ret : Int} (h : busFnStep s i ret = some s') :
    s'.accept = s.accept ∧
      (s'.wq = s.wq ∨ ∃ rc, wqStep s.wq (.workReturns i rc) = some s'.wq) := by
  simp only [busFnStep, Option.bind_eq_bind, Option.bind_eq_some_iff] at h
  obtain ⟨f, _, h⟩ := h
  cases hpc : f.pc with
  | setfl | publish | compare | copy =>
    simp only [hpc] at h
    obtain rfl := Option.some.inj h
    exact ⟨rfl, .inl rfl⟩
  | read =>
    simp only [hpc] at h
    split at h
    · obtain rfl := Option.some.inj h
      exact ⟨rfl, .inl rfl⟩
    · split at h <;> obtain rfl := Option.some.inj h <;> exact ⟨rfl, .inl rfl⟩
  | write =>
    simp only [hpc] at h
    split at h <;> obtain rfl := Option.some.inj h <;> exact ⟨rfl, .inl rfl⟩
  | close =>
    simp only [hpc, Option.bind_eq_some_iff] at h
    obtain ⟨wq, hwq, h⟩ := h
    obtain rfl := Option.some.inj h
    exact ⟨rfl, .inr ⟨f.rc, hwq⟩⟩

/-- The return of `bus_server_work_fn` moves one worker. -/
theorem workReturns_places {a a' : Workqueue} {rc : Int}
    (h : wqStep a (.workReturns i rc) = some a') :
    a'.works = a.works ∧ a'.adders = a.adders ∧ a'.numAdders = a.numAdders ∧ a'.adds = a.adds ∧
      ∀ job, a'.Held job → a.Held job := by
  have hquiet := (workReturns_quiet rc [] (a := a)).2 a' h
  simp only [wqStep, Option.ite_none_right_eq_some] at h
  obtain ⟨_, h⟩ := h
  split at h
  · obtain rfl := Option.some.inj h
    exact ⟨rfl, rfl, rfl, rfl, fun job => hquiet.held⟩
  · cases h

/-- A step that leaves the works, the adders and the accept thread. -/
theorem AcceptInv.same_works (h : AcceptInv s) (hcomplete : CompleteInv s'.wq)
    (hworks : s'.wq.works = s.wq.works) (hadders : s'.wq.adders = s.wq.adders)
    (hnum : s'.wq.numAdders = s.wq.numAdders)
    (henqueued : ∀ w, s'.wq.Enqueued w → s.wq.Enqueued w) (haccept : s'.accept = s.accept) :
    AcceptInv s' ∧ (s'.Missed ↔ s.Missed) := by
  refine ⟨⟨hcomplete, hnum.trans h.numAdders, ?_, ?_, ?_⟩, ?_⟩
  · rw [hworks]
    exact h.requests
  · rw [hworks]
    exact fun w hw => h.owned w (henqueued w hw)
  · exact h.accept.mono haccept hadders henqueued fun w => by rw [hworks]
  · rw [BusAccept.Missed, BusAccept.Missed]
    simp only [BusAccept.Pending, haccept, hadders, hworks]

/-- An access inside of `bus_server_work_fn`. -/
theorem AcceptInv.fn (h : AcceptInv s) {ret : Int} (hstep : busFnStep s i ret = some s') :
    AcceptInv s' ∧ (s'.Missed ↔ s.Missed) := by
  obtain ⟨haccept, hwq | ⟨rc, hreturns⟩⟩ := busFnStep_wq hstep
  · refine h.same_works ?_ ?_ ?_ ?_ ?_ haccept
    · rw [hwq]
      exact h.complete
    · rw [hwq]
    · rw [hwq]
    · rw [hwq]
    · rw [hwq]
      exact fun _ hw => hw
  · obtain ⟨hworks, hadders, hnum, _, hheld⟩ := workReturns_places hreturns
    have hcomplete : CompleteInv s'.wq :=
      wqStep_complete s.wq (.workReturns i rc) s'.wq h.complete ⟨trivial, trivial⟩ hreturns
    exact h.same_works hcomplete hworks hadders hnum (fun w => .of_held hadders hheld) haccept

/-! ## The steps of the accept thread -/

/-- The item that the accept thread adds or waits for. -/
def AcceptPc.waits : AcceptPc → Option Nat
  | .adding w | .wait w => some w
  | .accept | .scanNew _ _ | .scanComplete _ _ | .clear _ _ | .fill _ _ | .add _ => none

/-- An accept thread that waits for nothing misses nothing. -/
theorem BusAccept.not_missed (h : s.accept.waits = none) : ¬ s.Missed := by
  rintro ⟨w, hwait | ⟨hadding, _⟩, _⟩
  · rw [hwait] at h
    cases h
  · rw [hadding] at h
    cases h

/-- The accept thread moves on in front of `workqueue_add_work`. -/
theorem AcceptInv.moveAccept (h : AcceptInv s) {pc : AcceptPc}
    (hok : BusAccept.AcceptOk { s with accept := pc })
    (hpc : pc.waits = none) :
    AcceptInv { s with accept := pc } ∧ (¬ s.Missed → ¬ BusAccept.Missed { s with accept := pc }) :=
  ⟨⟨h.complete, h.numAdders, h.requests, h.owned, hok⟩, fun _ => BusAccept.not_missed hpc⟩

/-- The accept thread writes a work item that nobody has. -/
theorem AcceptInv.setWork (h : AcceptInv s) {work : Work} (hw : ¬ s.wq.Enqueued w)
    (hwork : work.requests = 0) (hwq : s'.wq = (s.setWork w work).wq) (hok : s'.AcceptOk) :
    AcceptInv s' := by
  have hsame : SameJobs s'.wq s.wq := by
    rw [hwq]
    exact ⟨rfl, rfl, rfl, rfl, fun _ => rfl, rfl, rfl⟩
  have hworks : s'.wq.works = Function.update s.wq.works w work := by
    rw [hwq]
    rfl
  refine ⟨h.complete.same hsame, hsame.numAdders.trans h.numAdders, ?_, ?_, hok⟩
  · intro v
    rw [hworks]
    by_cases hv : v = w
    · rw [hv, Function.update_self]
      exact hwork
    · rw [Function.update_of_ne hv]
      exact h.requests v
  · intro v hv
    have hv' : s.wq.Enqueued v := by
      rw [hwq] at hv
      exact hv
    -- the invariant is about the items that somebody has
    have hne : v ≠ w := fun heq => hw (heq ▸ hv')
    rw [hworks, Function.update_of_ne hne]
    exact h.owned v hv'

/-- The call of `workqueue_add_work` for an item that nobody has. -/
theorem AcceptInv.add (h : AcceptInv s) (hpc : s.accept = .add w)
    (hstep : wqStep s.wq (.add 0 w) = some s'.wq) (haccept : s'.accept = .adding w) :
    AcceptInv s' ∧ (¬ s.Missed → ¬ s'.Missed) := by
  have hok := h.accept
  rw [BusAccept.AcceptOk, hpc] at hok
  obtain ⟨hidle, hnone, hfn⟩ := hok
  -- nobody has the work, so it may be added
  have hcomplete : CompleteInv s'.wq :=
    wqStep_complete s.wq (.add 0 w) s'.wq h.complete ⟨h.released hidle hnone, trivial⟩ hstep
  have hcond : 0 < s.wq.numAdders ∧ s.wq.adders 0 = .idle := by
    rw [h.numAdders]
    exact ⟨Nat.one_pos, hidle⟩
  simp only [wqStep, hcond, and_self, hfn, ↓reduceIte, Option.some.injEq] at hstep
  have hadder : s'.wq.adders 0 = .requests ⟨w, s.wq.adds⟩ := by
    rw [← hstep]
    exact Workqueue.setAdder_self (s.wq.record (.added w)) 0 (.requests ⟨w, s.wq.adds⟩)
  refine ⟨⟨hcomplete, ?_, ?_, ?_, ?_⟩, ?_⟩
  · rw [← hstep]
    exact h.numAdders
  · rw [← hstep]
    exact h.requests
  · rintro v (⟨job, hjob, _⟩ | hrest)
    · cases hadder.symm.trans hjob
    · rw [← hstep] at hrest ⊢
      exact h.owned v (.inr hrest)
  · rw [BusAccept.AcceptOk, haccept, hadder]
    refine ⟨(fun heq => by cases heq), fun job hjob => ?_⟩
    rw [← Option.some.inj hjob]
  · -- the thread is not waiting yet, and its job is not in the backlog yet
    rintro _ ⟨v, hwait | ⟨_, hjob⟩, _⟩
    · cases haccept.symm.trans hwait
    · rw [hadder] at hjob
      cases hjob

/-- Where the accept thread is after an access inside of `workqueue_add_work`. -/
theorem AcceptInv.of_adding {job? : Option Job} (hcomplete : CompleteInv s'.wq)
    (hnum : s'.wq.numAdders = 1) (hrequests : ∀ v, (s'.wq.works v).requests = 0)
    (howned : ∀ v, s'.wq.Enqueued v →
      (s'.wq.works v).status = .queued ∨ (s'.wq.works v).status = .inProgress)
    (hjob : (s'.wq.adders 0).job = job?) (hwork : ∀ job ∈ job?, job.work = w)
    (hstatus : ¬ s.Missed → job? = none → (s'.wq.works w).status ≠ .complete)
    (haccept : s'.accept = if s'.wq.adders 0 = .idle then .wait w else .adding w) :
    AcceptInv s' ∧ (¬ s.Missed → ¬ s'.Missed) := by
  subst hjob
  -- the call has returned, or goes on
  by_cases hidle : s'.wq.adders 0 = .idle
  · rw [if_pos hidle] at haccept
    refine ⟨⟨hcomplete, hnum, hrequests, howned, ?_⟩, ?_⟩
    · rw [BusAccept.AcceptOk, haccept]
      exact hidle
    · rintro hmissed ⟨v, hwait | ⟨hadding, _⟩, hcomp⟩
      · obtain rfl := AcceptPc.wait.inj (haccept.symm.trans hwait)
        exact hstatus hmissed (by rw [hidle]; rfl) hcomp
      · cases haccept.symm.trans hadding
  · rw [if_neg hidle] at haccept
    refine ⟨⟨hcomplete, hnum, hrequests, howned, ?_⟩, ?_⟩
    · rw [BusAccept.AcceptOk, haccept]
      exact ⟨hidle, fun job hj => hwork job hj⟩
    · rintro hmissed ⟨v, hwait | ⟨hadding, hnone⟩, hcomp⟩
      · cases haccept.symm.trans hwait
      · obtain rfl := AcceptPc.adding.inj (haccept.symm.trans hadding)
        exact hstatus hmissed hnone hcomp

section Adding

variable {job : Job}

/-- `work->requests = 0`. -/
theorem AcceptInv.adding_requests (h : AcceptInv s) (hcomplete : CompleteInv s'.wq)
    (hwq : s'.wq = (s.wq.setRequests job.work 0).setAdder 0 (.status job))
    (haccept : s'.accept = if s'.wq.adders 0 = .idle then .wait job.work else .adding job.work) :
    AcceptInv s' ∧ (¬ s.Missed → ¬ s'.Missed) := by
  have hadder : s'.wq.adders 0 = .status job := by
    rw [hwq]
    exact Workqueue.setAdder_self _ _ _
  -- the other works are not touched
  have hworks : ∀ v, (s'.wq.works v).requests = 0 ∧
      (s'.wq.works v).status = (s.wq.works v).status := by
    intro v
    rw [hwq]
    show (Function.update s.wq.works job.work _ v).requests = 0 ∧
      (Function.update s.wq.works job.work _ v).status = _
    by_cases hv : v = job.work
    · rw [hv, Function.update_self]
      exact ⟨rfl, rfl⟩
    · rw [Function.update_of_ne hv]
      exact ⟨h.requests v, rfl⟩
  refine AcceptInv.of_adding hcomplete ?_ (fun v => (hworks v).1) ?_
    (congrArg AdderPc.job hadder) ?_ ?_ haccept
  · rw [hwq]
    exact h.numAdders
  · rintro v (⟨job', hjob', _⟩ | hheld)
    · cases hadder.symm.trans hjob'
    · rw [(hworks v).2]
      rw [hwq] at hheld
      exact h.owned v (.inr hheld)
  · intro job' hjob'
    rw [← Option.some.inj hjob']
  · exact fun _ hnone => by cases hnone

/-- `work->status = WQ_WORK_QUEUED`. -/
theorem AcceptInv.adding_status (h : AcceptInv s) (hcomplete : CompleteInv s'.wq)
    (hwq : s'.wq = (s.wq.setStatus job.work .queued).setAdder 0 (.put (.enqueue job)))
    (haccept : s'.accept = if s'.wq.adders 0 = .idle then .wait job.work else .adding job.work) :
    AcceptInv s' ∧ (¬ s.Missed → ¬ s'.Missed) := by
  have hadder : s'.wq.adders 0 = .put (.enqueue job) := by
    rw [hwq]
    exact Workqueue.setAdder_self _ _ _
  have hworks : s'.wq.works = (s.wq.setStatus job.work .queued).works := by
    rw [hwq]
    rfl
  refine AcceptInv.of_adding hcomplete ?_ ?_ ?_ (congrArg AdderPc.job hadder) ?_ ?_ haccept
  · rw [hwq]
    exact h.numAdders
  · intro v
    rw [(works_setStatus hworks v).2.1, h.requests]
  · intro v hv
    rw [(works_setStatus hworks v).2.2]
    by_cases hvw : v = job.work
    · rw [if_pos hvw]
      exact .inl rfl
    · rw [if_neg hvw]
      rcases hv with ⟨job', hjob', rfl⟩ | hheld
      · cases hadder.symm.trans hjob'
        exact absurd rfl hvw
      · rw [hwq] at hheld
        exact h.owned v (.inr hheld)
  · intro job' hjob'
    rw [← Option.some.inj hjob']
  · exact fun _ hnone => by cases hnone

/-- The critical section of `put_backlog`: the item enters the backlog QUEUED, and from now
    on a worker can take it. -/
theorem AcceptInv.adding_enqueue (h : AcceptInv s) (hcomplete : CompleteInv s'.wq)
    (hput : s.wq.adders 0 = .put (.enqueue job))
    (hwq : s'.wq = Workqueue.setAdder { s.wq with
      backlog := s.wq.backlog ++ [job], backlogCount := s.wq.backlogCount + 1 } 0
        (.put (.scan 0)))
    (haccept : s'.accept = if s'.wq.adders 0 = .idle then .wait job.work else .adding job.work) :
    AcceptInv s' ∧ (¬ s.Missed → ¬ s'.Missed) := by
  have henqueued : s.wq.Enqueued job.work := .inl ⟨job, hput, rfl⟩
  have hadder : s'.wq.adders 0 = .put (.scan 0) := by
    rw [hwq]
    exact Workqueue.setAdder_self _ _ _
  have hworks : s'.wq.works = s.wq.works := by rw [hwq]; rfl
  refine AcceptInv.of_adding hcomplete ?_ ?_ ?_ (congrArg AdderPc.job hadder) ?_ ?_ haccept
  · rw [hwq]
    exact h.numAdders
  · rw [hworks]
    exact h.requests
  · rw [hworks]
    rintro v (⟨job', hjob', _⟩ | ⟨job', hmem | hheld, hwork⟩)
    · cases hadder.symm.trans hjob'
    · rw [hwq] at hmem
      rcases List.mem_append.mp hmem with hold | hself
      · exact h.owned v (.inr ⟨job', .inl hold, hwork⟩)
      · rw [← hwork, List.mem_singleton.mp hself]
        exact h.owned _ henqueued
    · rw [hwq] at hheld
      exact h.owned v (.inr ⟨job', .inr hheld, hwork⟩)
  · exact fun job' hjob' => by cases hjob'
  · intro _ _ hcomp
    rw [hworks] at hcomp
    rcases h.owned _ henqueued with hqueued | hprogress
    · cases hqueued.symm.trans hcomp
    · cases hprogress.symm.trans hcomp

/-- The wakeup: the accept thread has no item any more. -/
theorem AcceptInv.adding_wakeup (h : AcceptInv s) (hpc : s.accept = .adding w)
    (hcomplete : CompleteInv s'.wq) (hnone : (s.wq.adders 0).job = none)
    (hnone' : (s'.wq.adders 0).job = none) (hworks : s'.wq.works = s.wq.works)
    (hnum : s'.wq.numAdders = s.wq.numAdders) (hheld : ∀ job, s'.wq.Held job → s.wq.Held job)
    (haccept : s'.accept = if s'.wq.adders 0 = .idle then .wait w else .adding w) :
    AcceptInv s' ∧ (¬ s.Missed → ¬ s'.Missed) := by
  refine AcceptInv.of_adding hcomplete (hnum.trans h.numAdders) ?_ ?_ hnone' ?_ ?_ haccept
  · rw [hworks]
    exact h.requests
  · rw [hworks]
    rintro v (⟨job, hjob, _⟩ | ⟨job, hjob, hwork⟩)
    · rw [hjob] at hnone'
      cases hnone'
    · exact h.owned v (.inr ⟨job, hheld job hjob, hwork⟩)
  · exact fun job hjob => by cases hjob
  · intro hmissed _ hcomp
    rw [hworks] at hcomp
    exact hmissed ⟨w, .inr ⟨hpc, hnone⟩, hcomp⟩

end Adding

/-- The accept thread inside of `workqueue_add_work`. -/
theorem AcceptInv.adding (h : AcceptInv s) (hpc : s.accept = .adding w)
    (hstep : wqStep s.wq (.adder 0) = some s'.wq)
    (haccept : s'.accept = if s'.wq.adders 0 = .idle then .wait w else .adding w) :
    AcceptInv s' ∧ (¬ s.Missed → ¬ s'.Missed) := by
  have hcomplete : CompleteInv s'.wq :=
    wqStep_complete s.wq (.adder 0) s'.wq h.complete ⟨trivial, trivial⟩ hstep
  have hok := h.accept
  rw [BusAccept.AcceptOk, hpc] at hok
  obtain ⟨hbusy, hwork⟩ := hok
  obtain ⟨job, hadder, hwq⟩ | ⟨job, hadder, hwq⟩ | ⟨job, hadder, hwq⟩ |
    ⟨hnone, hnone', hworks, hnum, _, hheld⟩ := adder_cases hbusy hstep
  · obtain rfl := hwork job (by rw [hadder]; rfl)
    exact h.adding_requests hcomplete hwq haccept
  · obtain rfl := hwork job (by rw [hadder]; rfl)
    exact h.adding_status hcomplete hwq haccept
  · obtain rfl := hwork job (by rw [hadder]; rfl)
    exact h.adding_enqueue hcomplete hadder hwq haccept
  · exact h.adding_wakeup hpc hcomplete hnone hnone' hworks hnum hheld haccept

/-- An access of the accept thread. -/
theorem AcceptInv.accept_step (h : AcceptInv s) (hstep : busServerQueueWork s = some s') :
    AcceptInv s' ∧ (¬ s.Missed → ¬ s'.Missed) := by
  have hok := h.accept
  unfold busServerQueueWork at hstep
  cases hpc : s.accept with
  | accept => simp only [hpc, reduceCtorEq] at hstep
  | scanNew fd j =>
    rw [BusAccept.AcceptOk, hpc] at hok
    simp only [hpc] at hstep
    split at hstep
    · split at hstep
      · -- a new item is in no queue and in no worker
        rename_i hnew
        obtain rfl := Option.some.inj hstep
        exact h.moveAccept ⟨hok, h.not_enqueued (.inl hnew)⟩ rfl
      · obtain rfl := Option.some.inj hstep
        exact h.moveAccept hok rfl
    · obtain rfl := Option.some.inj hstep
      exact h.moveAccept hok rfl
  | scanComplete fd j =>
    rw [BusAccept.AcceptOk, hpc] at hok
    simp only [hpc] at hstep
    split at hstep
    · -- nor is a completed one
      rename_i hcomp
      obtain rfl := Option.some.inj hstep
      exact h.moveAccept ⟨hok, h.not_enqueued (.inr hcomp)⟩ rfl
    · obtain rfl := Option.some.inj hstep
      exact h.moveAccept hok rfl
  | clear fd w =>
    rw [BusAccept.AcceptOk, hpc] at hok
    simp only [hpc, Option.some.injEq] at hstep
    subst hstep
    exact ⟨h.setWork hok.2 rfl rfl ⟨hok.1, hok.2⟩, fun _ => BusAccept.not_missed rfl⟩
  | fill fd w =>
    rw [BusAccept.AcceptOk, hpc] at hok
    simp only [hpc, Option.some.injEq] at hstep
    subst hstep
    have hwork : Work.requests { s.wq.works w with workFn := true } = 0 := h.requests w
    refine ⟨h.setWork hok.2 hwork rfl ⟨hok.1, hok.2, ?_⟩, fun _ => BusAccept.not_missed rfl⟩
    show (Function.update s.wq.works w _ w).workFn = true
    rw [Function.update_self]
  | add w =>
    simp only [hpc, Option.map_eq_some_iff] at hstep
    obtain ⟨wq, hwq, rfl⟩ := hstep
    exact h.add hpc hwq rfl
  | adding w =>
    simp only [hpc, Option.map_eq_some_iff] at hstep
    obtain ⟨wq, hwq, rfl⟩ := hstep
    exact h.adding hpc hwq rfl
  | wait w =>
    rw [BusAccept.AcceptOk, hpc] at hok
    simp only [hpc] at hstep
    split at hstep
    · obtain rfl := Option.some.inj hstep
      exact h.moveAccept hok rfl
    · obtain rfl := Option.some.inj hstep
      -- it goes on waiting
      exact ⟨h, fun hmissed => hmissed⟩

/-! ## Steps and runs -/

/-- Every step keeps the invariant. -/
theorem busAcceptStep_inv (s : BusAccept) (act : BusAcceptAct) (s' : BusAccept) (h : AcceptInv s)
    (hstep : busAcceptStep s act = some s') : AcceptInv s' := by
  cases act with
  | connect fd =>
    simp only [busAcceptStep, Option.ite_none_right_eq_some] at hstep
    obtain ⟨hpc, hstep⟩ := hstep
    obtain rfl := Option.some.inj hstep
    have hok : s.wq.adders 0 = .idle := by
      have hok := h.accept
      rw [BusAccept.AcceptOk, hpc] at hok
      exact hok
    have hscan : BusAccept.AcceptOk { s with accept := .scanNew fd 0 } := hok
    exact (h.moveAccept hscan rfl).1
  | accept => exact (h.accept_step hstep).1
  | worker i =>
    obtain ⟨hwq, haccept⟩ := busWorkerStep_wq hstep
    exact h.worker hwq haccept
  | fn i ret => exact (h.fn hstep).1

/-- A status is missed exactly in the steps that complete the item that the accept thread
    waits for. -/
theorem busAcceptStep_missed {act : BusAcceptAct} (h : AcceptInv s) (hmissed : ¬ s.Missed)
    (hstep : busAcceptStep s act = some s') :
    ¬ s'.Missed ↔ ∀ job, StoresComplete job s act → ¬ s.Pending job.work := by
  cases act with
  | connect fd =>
    simp only [busAcceptStep, Option.ite_none_right_eq_some] at hstep
    obtain rfl := Option.some.inj hstep.2
    exact iff_of_true (BusAccept.not_missed rfl) fun _ ⟨_, hact, _⟩ => by cases hact
  | accept => exact iff_of_true ((h.accept_step hstep).2 hmissed) fun _ ⟨_, hact, _⟩ => by cases hact
  | worker i =>
    obtain ⟨hwq, haccept⟩ := busWorkerStep_wq hstep
    exact h.worker_missed hmissed hwq haccept
  | fn i ret =>
    refine iff_of_true ?_ fun _ ⟨_, hact, _⟩ => by cases hact
    rw [(h.fn hstep).2]
    exact hmissed

/-- The accept thread alone never misses a status. -/
theorem AcceptInv.accept_run {n : Nat} (h : AcceptInv s) (hmissed : ¬ s.Missed)
    (hrun : run busAcceptStep s (List.replicate n .accept) = some s') : ¬ s'.Missed := by
  induction n generalizing s with
  | zero =>
    obtain rfl := Option.some.inj hrun
    exact hmissed
  | succ n ih =>
    rw [List.replicate_succ, run_cons_eq_some] at hrun
    obtain ⟨m, hm, hrest⟩ := hrun
    obtain ⟨hinv, hkeep⟩ := h.accept_step hm
    exact ih hinv (hkeep hmissed) hrest

end

end CUtils
