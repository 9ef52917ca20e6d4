import CUtils.Spec.BusAcceptCorrect

/-!
# When the accept thread misses a status

After `workqueue_add_work` the accept thread waits until it reads IN_PROGRESS from the
work item.  A worker whose client fails at once goes on to COMPLETE, and a waiter that
has not read the status in between waits for ever.

- `ScheduleInv`: the accept thread has left the wait loop for an item exactly when it has
  read the status in the wait loop since a worker stored IN_PROGRESS.
- `busServerQueueWork_leaves_iff`: the wait loop is never found with a completed item
  exactly in the runs in which that read comes before the worker stores COMPLETE.
- `busServerQueueWork_hangs`: a run that ends in the wait loop for ever.
-/

namespace CUtils

open StepSystem

/-! ## What a schedule has done -/

/-- A worker has stored IN_PROGRESS into the item. -/
def Started (maxClients : Nat) (job : Job) (as : List BusAcceptAct) : Prop :=
  Occurs busAcceptStep (busAcceptInit maxClients) (StoresInProgress job) as

/-- Since then, the accept thread has read the status of the work in the wait loop. -/
def Sampled (maxClients : Nat) (job : Job) (as : List BusAcceptAct) : Prop :=
  OccursThen busAcceptStep (busAcceptInit maxClients) (StoresInProgress job)
    (SamplesStatus job.work) as

/-- Between the stores of IN_PROGRESS and COMPLETE into an item, the accept thread reads the
    status in the wait loop. -/
def SampledBeforeComplete (maxClients : Nat) (as : List BusAcceptAct) : Prop :=
  ∀ pre act, pre ++ [act] <+: as →
    ∀ m job, run busAcceptStep (busAcceptInit maxClients) pre = some m →
      StoresComplete job m act → Sampled maxClients job pre

/-- How the state follows from the schedule `pre` that has led to it. -/
structure ScheduleInv (maxClients : Nat) (pre : List BusAcceptAct) (s : BusAccept) : Prop where
  inv : AcceptInv s
  old : ∀ job, Started maxClients job pre → job.add < s.wq.adds
  unstarted : ∀ job, (s.wq.adders 0).job = some job → ¬ Started maxClients job pre
  queued : ∀ job, s.wq.adders 0 = .put (.enqueue job) → (s.wq.works job.work).status = .queued
  started : ∀ job, s.wq.Held job →
    (Started maxClients job pre ↔ (s.wq.works job.work).status = .inProgress)
  sampled : ∀ job, s.wq.Held job → (Sampled maxClients job pre ↔ ¬ s.Pending job.work)

section

variable {s s' : BusAccept} {n i w : Nat} {pre : List BusAcceptAct} {act : BusAcceptAct}
  {job : Job}

theorem busAcceptInit_schedule (n : Nat) : ScheduleInv n [] (busAcceptInit n) where
  inv := busAcceptInit_inv n
  old _ hstarted := absurd hstarted not_occurs_nil
  unstarted _ _ := not_occurs_nil
  queued _ hput := by cases hput
  started _ hheld := by
    rcases hheld with hmem | ⟨_, _, hpc⟩
    · cases hmem
    · cases hpc
  sampled _ hheld := by
    rcases hheld with hmem | ⟨_, _, hpc⟩
    · cases hmem
    · cases hpc

/-! ## Whose item it is -/

/-- Two held items of one work are the same, also if one is still in the hands of the
    accept thread. -/
theorem AcceptInv.held_ne_adder (h : AcceptInv s) (hheld : s.wq.Held job) {job' : Job}
    (hjob' : (s.wq.adders 0).job = some job') : job.work ≠ job'.work := by
  intro heq
  obtain ⟨p, hp, hplace⟩ := hheld.has
  have hadder : s.wq.Has WorkerPc.job (.adder 0) job' :=
    ⟨by rw [h.numAdders]; exact Nat.one_pos, hjob'⟩
  exact hplace 0 (h.complete.work_unique p (.adder 0) job'.work ⟨job, hp, heq⟩ ⟨job', hadder, rfl⟩)

/-- The item of a worker is the only one of its work that is held. -/
theorem AcceptInv.held_eq_worker (h : AcceptInv s) (hheld : s.wq.Held job) {job' : Job}
    (hi : i < s.wq.numWorkers) (hjob' : (s.wq.workers i).pc.job = some job')
    (hwork : job.work = job'.work) : job = job' := by
  obtain ⟨p, hp, _⟩ := hheld.has
  have hworker : s.wq.Has WorkerPc.job (.worker i) job' := ⟨hi, hjob'⟩
  obtain rfl := h.complete.work_unique p (.worker i) job'.work ⟨job, hp, hwork⟩
    ⟨job', hworker, rfl⟩
  exact Option.some.inj (hp.2.symm.trans hjob')

/-- An item of a worker is not in the hands of the accept thread. -/
theorem AcceptInv.worker_ne_adder (h : AcceptInv s) {job' : Job} (hi : i < s.wq.numWorkers)
    (hjob : (s.wq.workers i).pc.job = some job) (hjob' : (s.wq.adders 0).job = some job') :
    job.work ≠ job'.work :=
  h.held_ne_adder (.inr ⟨i, hi, hjob⟩) hjob'

/-! ## One step -/

/-- A step that neither starts an item nor reads a status, after which nothing new is held,
    and that leaves the status of what is held and whether it is waited for. -/
theorem ScheduleInv.quiet (h : ScheduleInv n pre s)
    (hrun : run busAcceptStep (busAcceptInit n) pre = some s) (hinv : AcceptInv s')
    (hstart : ∀ job, ¬ StoresInProgress job s act) (hsample : ∀ w, ¬ SamplesStatus w s act)
    (hadds : s.wq.adds ≤ s'.wq.adds)
    (hadder : ∀ job, (s'.wq.adders 0).job = some job →
      (s.wq.adders 0).job = some job ∨ s.wq.adds ≤ job.add)
    (hqueued : ∀ job, s'.wq.adders 0 = .put (.enqueue job) →
      (s'.wq.works job.work).status = .queued)
    (hheld : ∀ job, s'.wq.Held job → s.wq.Held job ∧
      (s'.wq.works job.work).status = (s.wq.works job.work).status ∧
      (s'.Pending job.work ↔ s.Pending job.work)) : ScheduleInv n (pre ++ [act]) s' := by
  have hstarted : ∀ job, Started n job (pre ++ [act]) ↔ Started n job pre :=
    fun job => (occurs_concat act hrun).trans (or_iff_left (hstart job))
  have hsampled : ∀ job, Sampled n job (pre ++ [act]) ↔ Sampled n job pre :=
    fun job => (occursThen_concat act hrun).trans (or_iff_left fun hs => hsample _ hs.2)
  refine ⟨hinv, ?_, ?_, hqueued, ?_, ?_⟩
  · intro job hjob
    exact Nat.lt_of_lt_of_le (h.old job ((hstarted job).mp hjob)) hadds
  · intro job hjob hjob'
    rw [hstarted] at hjob'
    rcases hadder job hjob with hold | hnew
    · exact h.unstarted job hold hjob'
    · exact Nat.not_lt.mpr hnew (h.old job hjob')
  · intro job hjob
    obtain ⟨hold, hstatus, _⟩ := hheld job hjob
    rw [hstarted, h.started job hold, hstatus]
  · intro job hjob
    obtain ⟨hold, _, hpending⟩ := hheld job hjob
    rw [hsampled, h.sampled job hold, hpending]

/-- An access of a worker. -/
theorem ScheduleInv.worker (h : ScheduleInv n pre s)
    (hrun : run busAcceptStep (busAcceptInit n) pre = some s) (hinv : AcceptInv s')
    (hi : i < s.wq.numWorkers) (hstep : workqueueFactory s.wq i = some s'.wq)
    (haccept : s'.accept = s.accept) : ScheduleInv n (pre ++ [.worker i]) s' := by
  obtain ⟨hadders, _, hadds, hwrites⟩ := workqueueFactory_writes hstep
  have hstarts : ∀ job, StoresInProgress job s (.worker i) ↔
      (s.wq.workers i).pc = .progress job :=
    fun job => ⟨fun ⟨j, hact, hpc⟩ => (BusAcceptAct.worker.inj hact).symm ▸ hpc,
      fun hpc => ⟨i, rfl, hpc⟩⟩
  have hstarted : ∀ job, Started n job (pre ++ [.worker i]) ↔
      Started n job pre ∨ (s.wq.workers i).pc = .progress job :=
    fun job => (occurs_concat _ hrun).trans (or_congr_right (hstarts job))
  have hsampled : ∀ job, Sampled n job (pre ++ [.worker i]) ↔ Sampled n job pre :=
    fun job => (occursThen_concat _ hrun).trans (or_iff_left fun hs => by cases hs.2.1)
  have hhas : ∀ job, (s.wq.workers i).pc = .progress job → (s.wq.workers i).pc.job = some job :=
    fun job hpc => by rw [hpc]; rfl
  refine ⟨hinv, ?_, ?_, ?_, ?_, ?_⟩
  · intro job hjob
    rw [hadds]
    rcases (hstarted job).mp hjob with hold | hpc
    · exact h.old job hold
    · exact (h.inv.complete.job_new (.worker i) job (has_carried ⟨hi, hhas job hpc⟩)).1
  · intro job hjob hjob'
    rw [hadders] at hjob
    rcases (hstarted job).mp hjob' with hold | hpc
    · exact h.unstarted job hjob hold
    · exact h.inv.worker_ne_adder hi (hhas job hpc) hjob rfl
  · -- the worker does not write the status of the item that is about to be enqueued
    intro job hput
    rw [hadders] at hput
    have hold := h.queued job hput
    rcases hwrites with hworks | ⟨job', status, hjob', hworks, _⟩
    · rw [hworks]
      exact hold
    · have hne := h.inv.worker_ne_adder hi hjob' (congrArg AdderPc.job hput)
      rw [(works_setStatus hworks job.work).2.2, if_neg hne.symm]
      exact hold
  · intro job hjob
    have hheld := workqueueFactory_held hi hstep hjob
    rw [hstarted, h.started job hheld]
    have hprogress : (s.wq.workers i).pc = .progress job →
        (s'.wq.works job.work).status = .inProgress := by
      intro hpc
      simp only [workqueueFactory, hpc, Option.some.injEq] at hstep
      rw [← hstep]
      show (Function.update s.wq.works job.work _ job.work).status = _
      rw [Function.update_self]
    rcases hwrites with hworks | ⟨job', status, hjob', hworks, hcases⟩
    · rw [hworks] at hprogress ⊢
      exact or_iff_left_of_imp hprogress
    by_cases hwork : job.work = job'.work
    · obtain rfl := h.inv.held_eq_worker hheld hi hjob' hwork
      rcases hcases with ⟨hpc, _⟩ | ⟨hcancel, _⟩ | ⟨_, _, hlog⟩
      · exact iff_of_true (.inr hpc) (hprogress hpc)
      · exact absurd hcancel (h.inv.complete.not_cancelling i job).1
      · -- a work that is completed is not held any more
        obtain ⟨p, hp, _⟩ := hjob.has
        have hopen := hinv.complete.work_open p job hp
        rw [hlog, completedSinceAdd, if_pos rfl] at hopen
        cases hopen
    · rw [(works_setStatus hworks job.work).2.2, if_neg hwork]
      refine or_iff_left fun hpc => hwork ?_
      rw [Option.some.inj ((hhas job hpc).symm.trans hjob')]
  · intro job hjob
    rw [hsampled, h.sampled job (workqueueFactory_held hi hstep hjob), BusAccept.Pending,
      BusAccept.Pending, haccept, hadders]

/-- An access inside of `bus_server_work_fn`. -/
theorem ScheduleInv.fn (h : ScheduleInv n pre s)
    (hrun : run busAcceptStep (busAcceptInit n) pre = some s) {ret : Int}
    (hstep : busFnStep s i ret = some s') : ScheduleInv n (pre ++ [.fn i ret]) s' := by
  have hinv := (h.inv.fn hstep).1
  obtain ⟨haccept, hwq⟩ := busFnStep_wq hstep
  obtain ⟨hworks, hadders, hadds, hheld⟩ : s'.wq.works = s.wq.works ∧
      s'.wq.adders = s.wq.adders ∧ s'.wq.adds = s.wq.adds ∧
      ∀ job, s'.wq.Held job → s.wq.Held job := by
    rcases hwq with hwq | ⟨rc, hreturns⟩
    · rw [hwq]
      exact ⟨rfl, rfl, rfl, fun _ hheld => hheld⟩
    · obtain ⟨hworks, hadders, _, hadds, hheld⟩ := workReturns_places hreturns
      exact ⟨hworks, hadders, hadds, hheld⟩
  apply h.quiet hrun hinv
  · rintro job ⟨_, hact, _⟩
    cases hact
  · rintro w ⟨hact, _⟩
    cases hact
  · exact Nat.le_of_eq hadds.symm
  · intro job hjob
    exact .inl (hadders ▸ hjob)
  · rw [hadders, hworks]
    exact h.queued
  · intro job hjob
    rw [BusAccept.Pending, BusAccept.Pending, haccept, hadders, hworks]
    exact ⟨hheld job hjob, rfl, Iff.rfl⟩

/-- A step of the accept thread that only moves it on in front of `workqueue_add_work`. -/
theorem ScheduleInv.moveAccept (h : ScheduleInv n pre s)
    (hrun : run busAcceptStep (busAcceptInit n) pre = some s) (hinv : AcceptInv s')
    (hidle : s'.wq.adders 0 = .idle) (hwait : s.accept.waits = none)
    (hwait' : s'.accept.waits = none) (hact : ∀ i, act ≠ .worker i)
    (hadds : s'.wq.adds = s.wq.adds)
    (hheld : ∀ job, s'.wq.Held job → s.wq.Held job ∧
      (s'.wq.works job.work).status = (s.wq.works job.work).status) :
    ScheduleInv n (pre ++ [act]) s' := by
  have hnot : ∀ t : BusAccept, t.accept.waits = none → ∀ w, ¬ t.Pending w := by
    rintro t ht w (hpc | ⟨hpc, _⟩)
    · rw [hpc] at ht
      cases ht
    · rw [hpc] at ht
      cases ht
  apply h.quiet hrun hinv
  · rintro job ⟨i, hworker, _⟩
    exact hact i hworker
  · rintro w ⟨_, hpc⟩
    rw [hpc] at hwait
    cases hwait
  · exact Nat.le_of_eq hadds.symm
  · intro job hjob
    rw [hidle] at hjob
    cases hjob
  · intro job hput
    cases hidle.symm.trans hput
  · intro job hjob
    obtain ⟨hold, hstatus⟩ := hheld job hjob
    exact ⟨hold, hstatus, iff_of_false (hnot s' hwait' _) (hnot s hwait _)⟩

/-- The enqueue: from now on the accept thread waits for the item, which no worker has
    started. -/
theorem ScheduleInv.enqueue (h : ScheduleInv n pre s)
    (hrun : run busAcceptStep (busAcceptInit n) pre = some s) (hinv : AcceptInv s')
    (hpc : s.accept = .adding job.work) (hput : s.wq.adders 0 = .put (.enqueue job))
    (hwq : s'.wq = Workqueue.setAdder { s.wq with
      backlog := s.wq.backlog ++ [job], backlogCount := s.wq.backlogCount + 1 } 0
        (.put (.scan 0)))
    (hpc' : s'.accept = .adding job.work) : ScheduleInv n (pre ++ [.accept]) s' := by
  have hadder : s'.wq.adders 0 = .put (.scan 0) := by
    rw [hwq]
    exact Workqueue.setAdder_self _ _ _
  have hworks : s'.wq.works = s.wq.works := by rw [hwq]; rfl
  have hunstarted : ¬ Started n job pre := h.unstarted job (by rw [hput]; rfl)
  have hstarted : ∀ job, Started n job (pre ++ [.accept]) ↔ Started n job pre :=
    fun job => (occurs_concat _ hrun).trans (or_iff_left fun ⟨_, hact, _⟩ => by cases hact)
  have hsampled : ∀ job, Sampled n job (pre ++ [.accept]) ↔ Sampled n job pre :=
    fun job => (occursThen_concat _ hrun).trans
      (or_iff_left fun ⟨_, _, hwait⟩ => by cases hpc.symm.trans hwait)
  -- what was held before has another work
  have hheld : ∀ j, s'.wq.Held j → s.wq.Held j ∨ j = job := by
    rintro j (hmem | hworker)
    · rw [hwq] at hmem
      exact (List.mem_append.mp hmem).imp .inl List.mem_singleton.mp
    · rw [hwq] at hworker
      exact .inl (.inr hworker)
  have hother : ∀ j, s.wq.Held j → j.work ≠ job.work :=
    fun j hj => h.inv.held_ne_adder hj (by rw [hput]; rfl)
  refine ⟨hinv, ?_, ?_, ?_, ?_, ?_⟩
  · intro j hj
    rw [hwq]
    exact h.old j ((hstarted j).mp hj)
  · intro j hj
    rw [hadder] at hj
    cases hj
  · intro j hj
    cases hadder.symm.trans hj
  · intro j hj
    rw [hstarted, hworks]
    rcases hheld j hj with hold | rfl
    · exact h.started j hold
    · refine iff_of_false hunstarted fun hprogress => ?_
      cases (h.queued j hput).symm.trans hprogress
  · intro j hj
    rw [hsampled]
    rcases hheld j hj with hold | rfl
    · rw [h.sampled j hold, BusAccept.Pending, BusAccept.Pending, hpc, hpc']
      simp [(hother j hold).symm]
    · refine iff_of_false (fun hs => hunstarted hs.occurs) (not_not_intro ?_)
      exact .inr ⟨hpc', by rw [hadder]; rfl⟩

/-- The wait loop: the accept thread leaves it when the item has been started. -/
theorem ScheduleInv.wait (h : ScheduleInv n pre s)
    (hrun : run busAcceptStep (busAcceptInit n) pre = some s) (hinv : AcceptInv s')
    (hpc : s.accept = .wait w) (hwq : s'.wq = s.wq)
    (hpc' : s'.accept = if (s.wq.works w).status = .inProgress then .accept else .wait w) :
    ScheduleInv n (pre ++ [.accept]) s' := by
  have hstarted : ∀ job, Started n job (pre ++ [.accept]) ↔ Started n job pre :=
    fun job => (occurs_concat _ hrun).trans (or_iff_left fun ⟨_, hact, _⟩ => by cases hact)
  have hsampled : ∀ job, Sampled n job (pre ++ [.accept]) ↔
      Sampled n job pre ∨ Started n job pre ∧ job.work = w := by
    intro job
    refine (occursThen_concat _ hrun).trans (or_congr_right (and_congr_right fun _ => ?_))
    exact ⟨fun ⟨_, hwait⟩ => (AcceptPc.wait.inj (hpc.symm.trans hwait)).symm,
      fun heq => ⟨rfl, heq ▸ hpc⟩⟩
  refine ⟨hinv, ?_, ?_, ?_, ?_, ?_⟩
  · intro job hjob
    rw [hwq]
    exact h.old job ((hstarted job).mp hjob)
  · intro job hjob
    rw [hstarted]
    rw [hwq] at hjob
    exact h.unstarted job hjob
  · rw [hwq]
    exact h.queued
  · intro job hjob
    rw [hwq] at hjob ⊢
    rw [hstarted]
    exact h.started job hjob
  · intro job hjob
    rw [hwq] at hjob
    rw [hsampled, h.sampled job hjob, h.started job hjob]
    have hpending : s.Pending job.work ↔ job.work = w := by
      rw [BusAccept.Pending, hpc]
      simp [eq_comm]
    have hpending' : s'.Pending job.work ↔
        job.work = w ∧ (s.wq.works w).status ≠ .inProgress := by
      rw [BusAccept.Pending, hpc']
      split
      · simp [*]
      · simp [*, eq_comm (a := w)]
    rw [hpending, hpending']
    by_cases hw : job.work = w
    · simp [hw]
    · simp [hw]

/-- The accept thread clears or fills an item that nobody has. -/
theorem ScheduleInv.setWork (h : ScheduleInv n pre s)
    (hrun : run busAcceptStep (busAcceptInit n) pre = some s) (hinv : AcceptInv s')
    {work : Work} (hidle : s.wq.adders 0 = .idle) (hw : ¬ s.wq.Enqueued w)
    (hwq : s'.wq = (s.setWork w work).wq) (hwait : s.accept.waits = none)
    (hwait' : s'.accept.waits = none) : ScheduleInv n (pre ++ [.accept]) s' := by
  refine h.moveAccept hrun hinv ?_ hwait hwait' (fun _ hact => by cases hact) ?_ ?_
  · rw [hwq]
    exact hidle
  · rw [hwq]
    rfl
  · intro job hjob
    rw [hwq] at hjob ⊢
    have hne : job.work ≠ w := fun heq => hw (.inr ⟨job, hjob, heq⟩)
    refine ⟨hjob, ?_⟩
    show (Function.update s.wq.works w work job.work).status = _
    rw [Function.update_of_ne hne]

/-- The item that is waited for inside of `workqueue_add_work`. -/
theorem BusAccept.pending_adding_iff (hpc : s.accept = .adding w) (v : Nat) :
    s.Pending v ↔ w = v ∧ (s.wq.adders 0).job = none := by
  rw [BusAccept.Pending, hpc]
  simp

/-- The call of `workqueue_add_work`. -/
theorem ScheduleInv.add (h : ScheduleInv n pre s)
    (hrun : run busAcceptStep (busAcceptInit n) pre = some s) (hinv : AcceptInv s')
    (hpc : s.accept = .add w) (hstep : wqStep s.wq (.add 0 w) = some s'.wq)
    (hpc' : s'.accept = .adding w) : ScheduleInv n (pre ++ [.accept]) s' := by
  have hok := h.inv.accept
  rw [BusAccept.AcceptOk, hpc] at hok
  obtain ⟨hidle, _, hfn⟩ := hok
  have hcond : 0 < s.wq.numAdders ∧ s.wq.adders 0 = .idle := by
    rw [h.inv.numAdders]
    exact ⟨Nat.one_pos, hidle⟩
  simp only [wqStep, hcond, and_self, hfn, ↓reduceIte, Option.some.injEq] at hstep
  have hadder : s'.wq.adders 0 = .requests ⟨w, s.wq.adds⟩ := by
    rw [← hstep]
    exact Workqueue.setAdder_self (s.wq.record (.added w)) 0 (.requests ⟨w, s.wq.adds⟩)
  apply h.quiet hrun hinv
  · rintro job ⟨_, hact, _⟩
    cases hact
  · rintro v ⟨_, hwait⟩
    cases hpc.symm.trans hwait
  · rw [← hstep]
    exact Nat.le_succ _
  · -- the number of the add is new
    intro job hjob
    rw [hadder] at hjob
    exact .inr (Nat.le_of_eq (congrArg Job.add (Option.some.inj hjob)))
  · intro job hput
    cases hadder.symm.trans hput
  · intro job hjob
    rw [BusAccept.pending_adding_iff hpc', hadder, BusAccept.Pending, hpc]
    rw [← hstep] at hjob ⊢
    exact ⟨hjob, rfl, by simp [AdderPc.job]⟩

/-- A write of `workqueue_add_work` to the item that it is about to enqueue. -/
theorem ScheduleInv.adding_job (h : ScheduleInv n pre s)
    (hrun : run busAcceptStep (busAcceptInit n) pre = some s) (hinv : AcceptInv s')
    (hpc : s.accept = .adding w) (hpc' : s'.accept = .adding w)
    (hjob : (s.wq.adders 0).job = some job) (hjob' : (s'.wq.adders 0).job = some job)
    (hadds : s'.wq.adds = s.wq.adds)
    (hqueued : s'.wq.adders 0 = .put (.enqueue job) →
      (s'.wq.works job.work).status = .queued)
    (hheld : ∀ j, s'.wq.Held j → s.wq.Held j ∧
      (s'.wq.works j.work).status = (s.wq.works j.work).status) :
    ScheduleInv n (pre ++ [.accept]) s' := by
  apply h.quiet hrun hinv
  · rintro j ⟨_, hact, _⟩
    cases hact
  · rintro v ⟨_, hwait⟩
    cases hpc.symm.trans hwait
  · exact Nat.le_of_eq hadds.symm
  · intro j hj
    rw [hjob'] at hj
    exact .inl (hjob.trans hj)
  · intro j hput
    rw [hput] at hjob'
    obtain rfl := Option.some.inj hjob'
    exact hqueued hput
  · intro j hj
    obtain ⟨hold, hstatus⟩ := hheld j hj
    rw [BusAccept.pending_adding_iff hpc', BusAccept.pending_adding_iff hpc, hjob, hjob']
    exact ⟨hold, hstatus, Iff.rfl⟩

/-- The wakeup, after which the accept thread is or comes into the wait loop. -/
theorem ScheduleInv.wakeup (h : ScheduleInv n pre s)
    (hrun : run busAcceptStep (busAcceptInit n) pre = some s) (hinv : AcceptInv s')
    (hpc : s.accept = .adding w)
    (hpc' : s'.accept = if s'.wq.adders 0 = .idle then .wait w else .adding w)
    (hnone : (s.wq.adders 0).job = none) (hnone' : (s'.wq.adders 0).job = none)
    (hworks : s'.wq.works = s.wq.works) (hadds : s'.wq.adds = s.wq.adds)
    (hheld : ∀ j, s'.wq.Held j → s.wq.Held j) : ScheduleInv n (pre ++ [.accept]) s' := by
  have hpending' : ∀ v, s'.Pending v ↔ w = v := by
    intro v
    rw [BusAccept.Pending, hpc', hnone']
    split <;> simp
  apply h.quiet hrun hinv
  · rintro j ⟨_, hact, _⟩
    cases hact
  · rintro v ⟨_, hwait⟩
    cases hpc.symm.trans hwait
  · exact Nat.le_of_eq hadds.symm
  · intro j hj
    cases hnone'.symm.trans hj
  · intro j hput
    rw [hput] at hnone'
    cases hnone'
  · intro j hj
    rw [hworks, hpending', BusAccept.pending_adding_iff hpc]
    exact ⟨hheld j hj, rfl, by simp [hnone]⟩

/-- The accept thread inside of `workqueue_add_work`. -/
theorem ScheduleInv.adding (h : ScheduleInv n pre s)
    (hrun : run busAcceptStep (busAcceptInit n) pre = some s) (hinv : AcceptInv s')
    (hpc : s.accept = .adding w) (hstep : wqStep s.wq (.adder 0) = some s'.wq)
    (haccept : s'.accept = if s'.wq.adders 0 = .idle then .wait w else .adding w) :
    ScheduleInv n (pre ++ [.accept]) s' := by
  have hok := h.inv.accept
  rw [BusAccept.AcceptOk, hpc] at hok
  obtain ⟨hbusy, hwork⟩ := hok
  have hgoes : ∀ pc, s'.wq.adders 0 = pc → pc ≠ .idle → s'.accept = .adding w := by
    intro pc hadder hne
    rw [haccept, hadder, if_neg hne]
  obtain ⟨job, hadder, hwq⟩ | ⟨job, hadder, hwq⟩ | ⟨job, hadder, hwq⟩ |
    ⟨hnone, hnone', hworks, _, hadds, hheld⟩ := adder_cases hbusy hstep
  · have hadder' : s'.wq.adders 0 = .status job := by
      rw [hwq]
      exact Workqueue.setAdder_self _ _ _
    have hpc' := hgoes _ hadder' fun heq => by cases heq
    apply h.adding_job hrun hinv hpc hpc' (congrArg AdderPc.job hadder)
      (congrArg AdderPc.job hadder')
    · rw [hwq]
      rfl
    · intro hput
      cases hadder'.symm.trans hput
    · intro j hj
      rw [hwq] at hj ⊢
      refine ⟨hj, ?_⟩
      -- only `requests` has been written
      show (Function.update s.wq.works job.work _ j.work).status = _
      by_cases hjw : j.work = job.work
      · rw [hjw, Function.update_self]
      · rw [Function.update_of_ne hjw]
  · have hadder' : s'.wq.adders 0 = .put (.enqueue job) := by
      rw [hwq]
      exact Workqueue.setAdder_self _ _ _
    have hpc' := hgoes _ hadder' fun heq => by cases heq
    have hworks : s'.wq.works = (s.wq.setStatus job.work .queued).works := by
      rw [hwq]
      rfl
    apply h.adding_job hrun hinv hpc hpc' (congrArg AdderPc.job hadder)
      (congrArg AdderPc.job hadder')
    · rw [hwq]
      rfl
    · intro _
      rw [(works_setStatus hworks job.work).2.2, if_pos rfl]
    · intro j hj
      rw [hwq] at hj
      -- what is held has another work
      have hne : j.work ≠ job.work := h.inv.held_ne_adder hj (by rw [hadder]; rfl)
      rw [(works_setStatus hworks j.work).2.2, if_neg hne]
      exact ⟨hj, rfl⟩
  · obtain rfl := hwork job (by rw [hadder]; rfl)
    refine h.enqueue hrun hinv hpc hadder hwq ?_
    rw [haccept, hwq, Workqueue.setAdder_self]
    rfl
  · exact h.wakeup hrun hinv hpc haccept hnone hnone' hworks hadds hheld

/-- An access of the accept thread. -/
theorem ScheduleInv.accept_step (h : ScheduleInv n pre s)
    (hrun : run busAcceptStep (busAcceptInit n) pre = some s)
    (hstep : busServerQueueWork s = some s') : ScheduleInv n (pre ++ [.accept]) s' := by
  have hinv := (h.inv.accept_step hstep).1
  have hok := h.inv.accept
  -- the scan of the items leaves the work queue
  have hscan : s'.wq = s.wq → s.wq.adders 0 = .idle → s.accept.waits = none →
      s'.accept.waits = none → ScheduleInv n (pre ++ [.accept]) s' := by
    intro hwq hidle hwait hwait'
    refine h.moveAccept hrun hinv (hwq ▸ hidle) hwait hwait' (fun _ hact => by cases hact) ?_ ?_
    · rw [hwq]
    · rw [hwq]
      exact fun job hjob => ⟨hjob, rfl⟩
  unfold busServerQueueWork at hstep
  cases hpc : s.accept with
  | accept => simp only [hpc, reduceCtorEq] at hstep
  | scanNew fd j =>
    rw [BusAccept.AcceptOk, hpc] at hok
    simp only [hpc] at hstep
    split at hstep
    · split at hstep <;> obtain rfl := Option.some.inj hstep <;>
        exact hscan rfl hok (by rw [hpc]; rfl) rfl
    · obtain rfl := Option.some.inj hstep
      exact hscan rfl hok (by rw [hpc]; rfl) rfl
  | scanComplete fd j =>
    rw [BusAccept.AcceptOk, hpc] at hok
    simp only [hpc] at hstep
    split at hstep <;> obtain rfl := Option.some.inj hstep <;>
      exact hscan rfl hok (by rw [hpc]; rfl) rfl
  | clear fd w =>
    rw [BusAccept.AcceptOk, hpc] at hok
    simp only [hpc, Option.some.injEq] at hstep
    subst hstep
    exact h.setWork hrun hinv hok.1 hok.2 rfl (by rw [hpc]; rfl) rfl
  | fill fd w =>
    rw [BusAccept.AcceptOk, hpc] at hok
    simp only [hpc, Option.some.injEq] at hstep
    subst hstep
    exact h.setWork hrun hinv hok.1 hok.2 rfl (by rw [hpc]; rfl) rfl
  | add w =>
    simp only [hpc, Option.map_eq_some_iff] at hstep
    obtain ⟨wq, hwq, rfl⟩ := hstep
    exact h.add hrun hinv hpc hwq rfl
  | adding w =>
    simp only [hpc, Option.map_eq_some_iff] at hstep
    obtain ⟨wq, hwq, rfl⟩ := hstep
    exact h.adding hrun hinv hpc hwq rfl
  | wait w =>
    simp only [hpc] at hstep
    split at hstep
    · obtain rfl := Option.some.inj hstep
      exact h.wait hrun hinv hpc rfl (if_pos ‹_›).symm
    · obtain rfl := Option.some.inj hstep
      exact h.wait hrun hinv hpc rfl (hpc.trans (if_neg ‹_›).symm)

/-- Every step follows the schedule. -/
theorem ScheduleInv.step (h : ScheduleInv n pre s)
    (hrun : run busAcceptStep (busAcceptInit n) pre = some s)
    (hstep : busAcceptStep s act = some s') : ScheduleInv n (pre ++ [act]) s' := by
  have hinv := busAcceptStep_inv s act s' h.inv hstep
  cases act with
  | connect fd =>
    simp only [busAcceptStep, Option.ite_none_right_eq_some] at hstep
    obtain ⟨hpc, hstep⟩ := hstep
    obtain rfl := Option.some.inj hstep
    have hidle : s.wq.adders 0 = .idle := by
      have hok := h.inv.accept
      rw [BusAccept.AcceptOk, hpc] at hok
      exact hok
    exact h.moveAccept hrun hinv hidle (by rw [hpc]; rfl) rfl (fun _ hact => by cases hact) rfl
      fun job hjob => ⟨hjob, rfl⟩
  | accept => exact h.accept_step hrun hstep
  | worker i =>
    obtain ⟨hwq, haccept⟩ := busWorkerStep_wq hstep
    simp only [wqStep, Option.ite_none_right_eq_some] at hwq
    exact h.worker hrun hinv hwq.1 hwq.2 haccept
  | fn i ret => exact h.fn hrun hstep

/-- A step misses a status exactly when a worker completes an item that has not been read
    since it was started. -/
theorem ScheduleInv.missed_iff (h : ScheduleInv n pre s) (hmissed : ¬ s.Missed)
    (hstep : busAcceptStep s act = some s') :
    ¬ s'.Missed ↔ ∀ job, StoresComplete job s act → Sampled n job pre := by
  rw [busAcceptStep_missed h.inv hmissed hstep]
  refine forall_congr' fun job => forall_congr' fun ⟨i, hact, hpc⟩ => ?_
  subst hact
  have hi : i < s.wq.numWorkers := by
    obtain ⟨hwq, _⟩ := busWorkerStep_wq hstep
    simp only [wqStep, Option.ite_none_right_eq_some] at hwq
    exact hwq.1
  have hheld : s.wq.Held job := .inr ⟨i, hi, by rw [hpc]; rfl⟩
  exact (h.sampled job hheld).symm

/-! ## From the missed status into the wait loop -/

/-- A bound on the accesses of `put_backlog` with `n` workers. -/
def PutPc.left (n : Nat) : PutPc → Nat
  | .enqueue _ => n + 3
  | .scan i => n - i + 2
  | .signal _ => 1

/-- `put_backlog` ends. -/
theorem putBacklog_left {a : Workqueue} {p q : PutPc} (h : (putBacklog a p).2 = some q) :
    q.left a.numWorkers < p.left a.numWorkers := by
  cases p with
  | enqueue job =>
    obtain rfl := Option.some.inj h
    simp only [PutPc.left]
    omega
  | scan i =>
    by_cases hi : i < a.numWorkers
    · by_cases hidle : (a.workers i).state = .idle
      · simp only [putBacklog, hi, hidle, ↓reduceIte, Option.some.injEq] at h
        subst h
        simp only [PutPc.left]
        omega
      · simp only [putBacklog, hi, hidle, ↓reduceIte, Option.some.injEq] at h
        subst h
        simp only [PutPc.left]
        omega
    · simp only [putBacklog, hi, ↓reduceIte, reduceCtorEq] at h
  | signal i => simp only [putBacklog, reduceCtorEq] at h

/-- An access of the accept thread inside of `put_backlog`. -/
theorem accept_put {p : PutPc} (hpc : s.accept = .adding w) (hnum : 0 < s.wq.numAdders)
    (hput : s.wq.adders 0 = .put p) :
    ∃ s', busAcceptStep s .accept = some s' ∧ s'.wq.works = s.wq.works ∧
      s'.wq.numWorkers = s.wq.numWorkers ∧ s'.wq.numAdders = s.wq.numAdders ∧
      match (putBacklog s.wq p).2 with
      | none => s'.accept = .wait w
      | some q => s'.accept = .adding w ∧ s'.wq.adders 0 = .put q := by
  have hsame := putBacklog_sameThreads s.wq p
  cases hq : (putBacklog s.wq p).2 with
  | none =>
    refine ⟨{ s with wq := (putBacklog s.wq p).1.setAdder 0 .idle, accept := .wait w }, ?_,
      hsame.works, hsame.numWorkers, hsame.numAdders, rfl⟩
    simp only [busAcceptStep, busServerQueueWork, hpc, wqStep, hnum, ↓reduceIte,
      workqueueAddWork, hput, hq, Option.map_some, Workqueue.setAdder_self]
  | some q =>
    refine ⟨{ s with wq := (putBacklog s.wq p).1.setAdder 0 (.put q), accept := .adding w }, ?_,
      hsame.works, hsame.numWorkers, hsame.numAdders, rfl,
      Workqueue.setAdder_self _ _ _⟩
    simp only [busAcceptStep, busServerQueueWork, hpc, wqStep, hnum, ↓reduceIte,
      workqueueAddWork, hput, hq, Option.map_some, Workqueue.setAdder_self, reduceCtorEq]

/-- From `put_backlog` the accept thread gets into the wait loop by itself. -/
theorem accept_reaches_wait {p : PutPc} (hpc : s.accept = .adding w)
    (hnum : 0 < s.wq.numAdders) (hput : s.wq.adders 0 = .put p) :
    ∃ n t, run busAcceptStep s (List.replicate n .accept) = some t ∧ t.accept = .wait w ∧
      t.wq.works = s.wq.works := by
  -- by induction on the number of accesses that are left
  generalize hd : p.left s.wq.numWorkers = d
  induction d using Nat.strongRecOn generalizing s p with
  | ind d ih =>
    obtain ⟨m, hm, hworks, hworkers, hadders, hcases⟩ := accept_put hpc hnum hput
    cases hq : (putBacklog s.wq p).2 with
    | none =>
      simp only [hq] at hcases
      exact ⟨1, m, (run_cons_eq_some _ _ _ _ _).mpr ⟨m, hm, rfl⟩, hcases, hworks⟩
    | some q =>
      simp only [hq] at hcases
      have hleft : q.left m.wq.numWorkers < d := by
        rw [hworkers, ← hd]
        exact putBacklog_left hq
      have hnum' : 0 < m.wq.numAdders := by
        rw [hadders]
        exact hnum
      obtain ⟨n, t, hrun, hwait, hsame⟩ := ih _ hleft hcases.1 hnum' hcases.2 rfl
      exact ⟨n + 1, t, (run_cons_eq_some _ _ _ _ _).mpr ⟨m, hm, hrun⟩, hwait,
        hsame.trans hworks⟩

/-- A missed status leaves the accept thread in the wait loop, if it goes on alone. -/
theorem AcceptInv.missed_reaches_stuck (h : AcceptInv s) (hmissed : s.Missed) :
    ∃ n t, run busAcceptStep s (List.replicate n .accept) = some t ∧ t.Stuck := by
  obtain ⟨w, hwait | ⟨hadding, hjob⟩, hstatus⟩ := hmissed
  · exact ⟨0, s, rfl, w, hwait, hstatus⟩
  · have hok := h.accept
    rw [BusAccept.AcceptOk, hadding] at hok
    have hnum : 0 < s.wq.numAdders := by
      rw [h.numAdders]
      exact Nat.one_pos
    cases hadder : s.wq.adders 0 with
    | idle => exact absurd hadder hok.1
    | requests job | status job =>
      rw [hadder] at hjob
      cases hjob
    | put p =>
      obtain ⟨n, t, hrun, hwait, hworks⟩ := accept_reaches_wait hadding hnum hadder
      refine ⟨n, t, hrun, w, hwait, ?_⟩
      rw [hworks]
      exact hstatus

/-- The accept thread never leaves the wait loop for a completed item. -/
theorem busAcceptStep_stuck (s : BusAccept) (act : BusAcceptAct) (s' : BusAccept)
    (h : AcceptInv s ∧ s.Stuck) (hstep : busAcceptStep s act = some s') :
    AcceptInv s' ∧ s'.Stuck := by
  obtain ⟨hinv, w, hwait, hstatus⟩ := h
  refine ⟨busAcceptStep_inv s act s' hinv hstep, w, ?_⟩
  cases act with
  | connect fd => simp only [busAcceptStep, hwait, reduceCtorEq, ↓reduceIte] at hstep
  | accept =>
    simp only [busAcceptStep, busServerQueueWork, hwait, hstatus, reduceCtorEq, ↓reduceIte,
      Option.some.injEq] at hstep
    subst hstep
    exact ⟨hwait, hstatus⟩
  | worker i =>
    obtain ⟨hwq, haccept⟩ := busWorkerStep_wq hstep
    refine ⟨haccept.trans hwait, ?_⟩
    simp only [wqStep, Option.ite_none_right_eq_some] at hwq
    obtain ⟨hi, hwq⟩ := hwq
    rcases (workqueueFactory_writes hwq).2.2.2 with hworks | ⟨job, status, hjob, hworks, _⟩
    · rw [hworks]
      exact hstatus
    · rw [(works_setStatus hworks w).2.2]
      by_cases hw : w = job.work
      · -- the worker that writes the status has the work
        have henqueued : s.wq.Enqueued w := .inr ⟨job, .inr ⟨i, hi, hjob⟩, hw.symm⟩
        exact absurd henqueued (hinv.not_enqueued (.inr hstatus))
      · rw [if_neg hw]
        exact hstatus
  | fn i ret =>
    obtain ⟨haccept, hwq | ⟨rc, hreturns⟩⟩ := busFnStep_wq hstep
    · rw [hwq]
      exact ⟨haccept.trans hwait, hstatus⟩
    · rw [(workReturns_places hreturns).1]
      exact ⟨haccept.trans hwait, hstatus⟩

end

/-! ## Main theorem -/

/-- In every run, no state has the accept thread in the wait loop for a completed item,
    nor has it on its way there, if and only if between the stores of IN_PROGRESS and
    COMPLETE into every item the accept thread has read the status in the wait loop.  From
    such a state on it stays there. -/
theorem busServerQueueWork_leaves_iff (maxClients : Nat) (as : List BusAcceptAct) (s : BusAccept)
    (hrun : run busAcceptStep (busAcceptInit maxClients) as = some s) :
    ((∀ pre m, pre <+: as → run busAcceptStep (busAcceptInit maxClients) pre = some m →
        ∀ n t, run busAcceptStep m (List.replicate n .accept) = some t → ¬ t.Stuck) ↔
      SampledBeforeComplete maxClients as) ∧
    (s.Stuck → ∀ bs t, run busAcceptStep s bs = some t → t.Stuck) := by
  have hinit : AcceptInv (busAcceptInit maxClients) := busAcceptInit_inv maxClients
  have hmissed : ¬ (busAcceptInit maxClients).Missed := BusAccept.not_missed rfl
  have hnever : (∀ pre m, pre <+: as →
      run busAcceptStep (busAcceptInit maxClients) pre = some m → ¬ m.Missed) ↔
      SampledBeforeComplete maxClients as := by
    have hstep : ∀ pre m act m', run busAcceptStep (busAcceptInit maxClients) pre = some m →
        ScheduleInv maxClients pre m → ¬ m.Missed → busAcceptStep m act = some m' →
        ScheduleInv maxClients (pre ++ [act]) m' ∧ (¬ m'.Missed ↔
          ∀ t job, run busAcceptStep (busAcceptInit maxClients) pre = some t →
            StoresComplete job t act → Sampled maxClients job pre) := by
      intro pre m act m' hpre h hP hact
      refine ⟨h.step hpre hact, (h.missed_iff hP hact).trans ⟨fun hall t job ht => ?_, ?_⟩⟩
      · obtain rfl := Option.some.inj (hpre.symm.trans ht)
        exact hall job
      · exact fun hall job => hall m job hpre
    exact forall_prefix_iff_history hstep (busAcceptInit_schedule maxClients) hmissed hrun
  constructor
  · rw [← hnever]
    constructor
    · intro hall pre m hpre hm hmiss
      have hinv : AcceptInv m := inv_of_run busAcceptStep_inv hinit hm
      obtain ⟨n, t, ht, hstuck⟩ := hinv.missed_reaches_stuck hmiss
      exact hall pre m hpre hm n t ht hstuck
    · intro hall pre m hpre hm n t ht hstuck
      have hinv : AcceptInv m := inv_of_run busAcceptStep_inv hinit hm
      obtain ⟨w, hwait, hstatus⟩ := hstuck
      exact hinv.accept_run (hall pre m hpre hm) ht ⟨w, .inl hwait, hstatus⟩
  · intro hstuck bs t ht
    have hinv : AcceptInv s := inv_of_run busAcceptStep_inv hinit hrun
    exact (inv_of_run busAcceptStep_stuck ⟨hinv, hstuck⟩ ht).2

/-! ## A client that fails at once -/

/-- One worker takes the item of the client 3, whose first read fails, and completes it
    before the accept thread looks at the status. -/
def failingClientRun : List BusAcceptAct :=
  [.worker 0, .connect 3] ++ List.replicate 9 .accept ++
    List.replicate 6 (.worker 0) ++ [.fn 0 0, .fn 0 (-1), .fn 0 0] ++
    List.replicate 2 (.worker 0)

/-- The run ends with a completed item in the wait loop. -/
private theorem failingClientRun_stuck :
    ∃ s, run busAcceptStep (busAcceptInit 1) failingClientRun = some s ∧ s.Stuck :=
  ⟨_, rfl, 0, rfl, rfl⟩

/-- The same client, but the accept thread reads the status before the worker goes on. -/
def servedClientRun : List BusAcceptAct :=
  [.worker 0, .connect 3] ++ List.replicate 9 .accept ++
    List.replicate 6 (.worker 0) ++ [.accept, .fn 0 0, .fn 0 (-1), .fn 0 0, .worker 0]

/-- The item into which a step stores COMPLETE. -/
def completedJob (s : BusAccept) : BusAcceptAct → Option Job
  | .worker i => match (s.wq.workers i).pc with
    | .completeStatus job => some job
    | _ => none
  | .connect _ | .accept | .fn _ _ => none

/-- Only the next step completes the item, which has been read in progress. -/
theorem servedClientRun_sampled : SampledBeforeComplete 1 (servedClientRun ++ [.worker 0]) := by
  have hmeets : Meets busAcceptStep (fun s act => completedJob s act = none) (busAcceptInit 1)
      servedClientRun := by decide
  have hnone : ∀ job, ¬ Occurs busAcceptStep (busAcceptInit 1) (StoresComplete job)
      servedClientRun := by
    intro job
    refine not_occurs_of_meets ?_ hmeets
    rintro s act hcond ⟨i, rfl, hpc⟩
    rw [completedJob, hpc] at hcond
    cases hcond
  have hlast : (run busAcceptStep (busAcceptInit 1) servedClientRun).map
      (fun m => (m.wq.workers 0).pc) = some (.completeStatus ⟨0, 0⟩) := rfl
  intro pre act hpre m job hm hcomplete
  rcases List.prefix_concat_iff.mp hpre with heq | hpre
  · obtain ⟨rfl, hact⟩ := List.append_inj' heq rfl
    obtain rfl := List.singleton_inj.mp hact
    obtain ⟨i, hworker, hpc⟩ := hcomplete
    obtain rfl := BusAcceptAct.worker.inj hworker
    rw [hm, Option.map_some, hpc, Option.some.injEq, WorkerPc.completeStatus.injEq] at hlast
    subst hlast
    -- the store of IN_PROGRESS is the 16th step, the read the 18th
    exact ⟨servedClientRun.take 17, .accept, _, ⟨_, rfl⟩, rfl,
      ⟨servedClientRun.take 15, .worker 0, _, ⟨_, rfl⟩, rfl, 0, rfl, rfl⟩, rfl, rfl⟩
  · exact absurd ⟨pre, act, m, hpre, hm, hcomplete⟩ (hnone job)

/-- The condition fails in the first run and holds in the second, where the accept thread
    has left the loop. -/
theorem busServerQueueWork_leaves_iff_failing_client :
    ¬ SampledBeforeComplete 1 failingClientRun ∧
      ∃ s, run busAcceptStep (busAcceptInit 1) (servedClientRun ++ [.worker 0]) = some s ∧
        s.accept = .accept ∧ (s.wq.works 0).status = .complete ∧ ¬ s.Stuck := by
  constructor
  · obtain ⟨s, hrun, hstuck⟩ := failingClientRun_stuck
    intro hsampled
    exact (busServerQueueWork_leaves_iff 1 failingClientRun s hrun).1.mpr hsampled
      failingClientRun s List.prefix_rfl hrun 0 s rfl hstuck
  · obtain ⟨s, hrun, haccept, hstatus⟩ : ∃ s,
        run busAcceptStep (busAcceptInit 1) (servedClientRun ++ [.worker 0]) = some s ∧
        s.accept = .accept ∧ (s.wq.works 0).status = .complete := ⟨_, rfl, rfl, rfl⟩
    refine ⟨s, hrun, haccept, hstatus, ?_⟩
    exact (busServerQueueWork_leaves_iff 1 _ s hrun).1.mpr servedClientRun_sampled _ s
      List.prefix_rfl hrun 0 s rfl

/-- The accept thread can be in the wait loop for an item that has already been
    completed, and then stays there in every continuation. -/
theorem busServerQueueWork_hangs :
    ∃ s, run busAcceptStep (busAcceptInit 1) failingClientRun = some s ∧ s.Stuck ∧
      ∀ as t, run busAcceptStep s as = some t → t.Stuck := by
  obtain ⟨s, hrun, hstuck⟩ := failingClientRun_stuck
  have hinv : AcceptInv s := inv_of_run busAcceptStep_inv (busAcceptInit_inv 1) hrun
  refine ⟨s, hrun, hstuck, fun as t ht => ?_⟩
  exact (inv_of_run busAcceptStep_stuck ⟨hinv, hstuck⟩ ht).2

end CUtils
