import Mathlib.Data.List.Nodup
import CUtils.ForStd.Ownership
import CUtils.ForStd.StepSystem
import CUtils.Native.Workqueue

/-!
# When works are completed once

A worker that takes a cancelled work from the backlog completes it, and then goes on as
if it were not cancelled: the status goes back to IN_PROGRESS, and the work is run and
completed a second time.  Unless that happens, and while works are added only when the
queue is done with them, every add leads to at most one completion.

- `CompleteInv`: every work is in at most one place, and not completed while it is.
- `workqueue_completes_once`: the log of such a run.
- `workqueue_completes_twice`: cancelling a queued work.
-/

namespace CUtils

open StepSystem

/-! ## Places -/

/-- Where a work item can be. -/
inductive Place
  | adder (k : Nat)
  | backlog
  | worker (i : Nat)

/-- The item that an adder has not enqueued yet. -/
def AdderPc.job : AdderPc → Option Job
  | .requests job | .status job | .put (.enqueue job) => some job
  | .idle | .put _ => none

/-- The item that a worker has taken, until it has completed or enqueued it. -/
def WorkerPc.job : WorkerPc → Option Job
  | .testCancel job | .cancelStatus job | .cancelFn job | .progress job | .call job
  | .running job | .test job _ | .completeStatus job | .put (.enqueue job) => some job
  | .start | .wait | .run | .get | .completeFn _ | .put _ | .idle => none

/-- The same, until it has called `complete_fn`. -/
def WorkerPc.carried : WorkerPc → Option Job
  | .completeFn job => some job
  | pc => pc.job

/-- The item of a worker that is about to make the first test of its requests. -/
def WorkerPc.tested : WorkerPc → Option Job
  | .testCancel job => some job
  | _ => none

/-- The item is in that place; `taken` tells which item a worker has. -/
def Workqueue.Has (taken : WorkerPc → Option Job) (s : Workqueue) : Place → Job → Prop
  | .adder k, job => k < s.numAdders ∧ (s.adders k).job = some job
  | .backlog, job => job ∈ s.backlog
  | .worker i, job => i < s.numWorkers ∧ taken (s.workers i).pc = some job

/-- The work is on its way into the backlog, in it, or taken by a worker that has not
    completed it. -/
def Workqueue.Busy (s : Workqueue) (w : Nat) : Prop :=
  (∃ k < s.numAdders, (s.adders k).job.map Job.work = some w) ∨ w ∈ s.backlog.map Job.work ∨
    ∃ i < s.numWorkers, (s.workers i).pc.job.map Job.work = some w

instance (s : Workqueue) (w : Nat) : Decidable (s.Busy w) := inferInstanceAs (Decidable (_ ∨ _))

theorem Workqueue.Busy.of_has {s : Workqueue} {p : Place} {job : Job}
    (h : s.Has WorkerPc.job p job) : s.Busy job.work := by
  cases p with
  | adder k => exact .inl ⟨k, h.1, by rw [h.2]; rfl⟩
  | backlog => exact .inr (.inl (List.mem_map_of_mem h))
  | worker i => exact .inr (.inr ⟨i, h.1, by rw [h.2]; rfl⟩)

/-! ## The log -/

/-- The work was completed and has not been added since. -/
def completedSinceAdd (w : Nat) : List WorkEvent → Bool
  | [] => false
  | e :: log =>
    if e = .complete w then true else if e = .added w then false else completedSinceAdd w log

/-- No completed work is run, or goes back to IN_PROGRESS, before it is added again. -/
def LogOrdered (log : List WorkEvent) : Prop :=
  ∀ w post pre, log = post ++ .workFn w :: pre ∨ log = post ++ .inProgress w :: pre →
    completedSinceAdd w pre = false

theorem completedSinceAdd_cons {w : Nat} {e : WorkEvent} {log : List WorkEvent}
    (hcomplete : e ≠ .complete w) (hadded : e ≠ .added w) :
    completedSinceAdd w (e :: log) = completedSinceAdd w log := by
  rw [completedSinceAdd, if_neg hcomplete, if_neg hadded]

theorem LogOrdered.cons {e : WorkEvent} {log : List WorkEvent} (h : LogOrdered log)
    (he : ∀ w, e = .workFn w ∨ e = .inProgress w → completedSinceAdd w log = false) :
    LogOrdered (e :: log) := by
  intro w post pre hlog
  cases post with
  | nil =>
    simp only [List.nil_append, List.cons.injEq] at hlog
    rcases hlog with ⟨rfl, rfl⟩ | ⟨rfl, rfl⟩
    · exact he w (.inl rfl)
    · exact he w (.inr rfl)
  | cons e' post =>
    simp only [List.cons_append, List.cons.injEq] at hlog
    exact h w post pre (hlog.imp And.right And.right)

/-! ## The conditions -/

/-- A work is added only when the queue is done with it. -/
def AddsReleased (s : Workqueue) : WqAct → Prop
  | .add _ w => ¬ s.Busy w
  | _ => True

/-- A worker that tests the work it has just taken does not find it cancelled. -/
def TakesUncancelled (s : Workqueue) : WqAct → Prop
  | .worker i => ∀ job ∈ (s.workers i).pc.tested, ¬ s.cancelled job.work
  | _ => True

instance (s : Workqueue) (a : WqAct) : Decidable (AddsReleased s a) :=
  match a with
  | .add _ w => inferInstanceAs (Decidable (¬ s.Busy w))
  | .worker _ | .workReturns _ _ | .adder _ | .cancel _ => isTrue trivial

instance (s : Workqueue) (a : WqAct) : Decidable (TakesUncancelled s a) :=
  match a with
  | .worker i => inferInstanceAs (Decidable (∀ job ∈ (s.workers i).pc.tested, _))
  | .workReturns _ _ | .add _ _ | .adder _ | .cancel _ => isTrue trivial

/-! ## The invariant -/

/-- What holds while works are only added when released, and no worker takes a cancelled
    work. -/
structure CompleteInv (s : Workqueue) : Prop where
  not_cancelling : ∀ i job, (s.workers i).pc ≠ .cancelStatus job ∧ (s.workers i).pc ≠ .cancelFn job
  /-- every work is in at most one place, and once in the backlog -/
  backlog_nodup : (s.backlog.map Job.work).Nodup
  work_unique : UniqueOwner fun p w => ∃ job, s.Has WorkerPc.job p job ∧ job.work = w
  /-- so is every added item, which is completed when it is nowhere -/
  job_unique : UniqueOwner (s.Has WorkerPc.carried)
  job_new : ∀ p job, s.Has WorkerPc.carried p job → job.add < s.adds ∧ .completeFn job ∉ s.log
  completed_old : ∀ job, .completeFn job ∈ s.log → job.add < s.adds
  /-- a work that is somewhere has not been completed since its last add -/
  work_open : ∀ p job, s.Has WorkerPc.job p job → completedSinceAdd job.work s.log = false
  completed_once : ∀ job, s.log.count (.completeFn job) ≤ 1
  log_ordered : LogOrdered s.log

theorem workqueueInit_complete (numWorkers numAdders : Nat) (works : Nat → Work) :
    CompleteInv (workqueueInit numWorkers numAdders works) := by
  have hnone : ∀ taken : WorkerPc → Option Job, taken .start = none → ∀ p job,
      ¬ (workqueueInit numWorkers numAdders works).Has taken p job := by
    rintro taken htaken (k | _ | i) job h
    · exact nomatch h.2
    · exact nomatch h
    · exact nomatch htaken.symm.trans h.2
  exact
    { not_cancelling := fun _ _ => ⟨nofun, nofun⟩
      backlog_nodup := List.nodup_nil
      work_unique := fun p _ _ ⟨job, h, _⟩ => absurd h (hnone _ rfl p job)
      job_unique := fun p _ job h => absurd h (hnone _ rfl p job)
      job_new := fun p job h => absurd h (hnone _ rfl p job)
      completed_old := fun _ h => nomatch h
      work_open := fun p job h => absurd h (hnone _ rfl p job)
      completed_once := fun _ => Nat.zero_le _
      log_ordered := fun _ post pre h => by
        rcases h with h | h <;> exact absurd h.symm (List.append_ne_nil_of_right_ne_nil _ nofun) }

/-! ## Moving items -/

/-- The two states differ at most in the works, in the states and tokens of the workers
    and in the backlog count. -/
structure SameJobs (s' s : Workqueue) : Prop where
  numWorkers : s'.numWorkers = s.numWorkers
  numAdders : s'.numAdders = s.numAdders
  adders : s'.adders = s.adders
  backlog : s'.backlog = s.backlog
  pcs : ∀ j, (s'.workers j).pc = (s.workers j).pc
  adds : s'.adds = s.adds
  log : s'.log = s.log

section

variable {s s' : Workqueue} {taken : WorkerPc → Option Job} {p : Place} {job : Job} {i k w : Nat}

theorem SameJobs.has (h : SameJobs s' s) (hhas : s'.Has taken p job) : s.Has taken p job := by
  cases p with
  | adder j => exact ⟨h.numAdders ▸ hhas.1, h.adders ▸ hhas.2⟩
  | backlog => exact (h.backlog ▸ hhas : job ∈ s.backlog)
  | worker j => exact ⟨h.numWorkers ▸ hhas.1, h.pcs j ▸ hhas.2⟩

theorem has_setWorker_of_ne {x : Worker} (hp : p ≠ .worker i)
    (h : (s.setWorker i x).Has taken p job) : s.Has taken p job := by
  cases p with
  | adder j => exact h
  | backlog => exact h
  | worker j =>
    have hji : j ≠ i := fun heq => hp (heq ▸ rfl)
    rw [Workqueue.Has, Workqueue.setWorker_of_ne s x hji] at h
    exact h

theorem has_setWorker_self {x : Worker} (h : (s.setWorker i x).Has taken (.worker i) job) :
    taken x.pc = some job := by
  rw [Workqueue.Has, Workqueue.setWorker_self] at h
  exact h.2

/-- A worker that has moved on without an item has lost it. -/
theorem has_setWorker_none {x : Worker} (htaken : taken x.pc = none)
    (h : (s.setWorker i x).Has taken p job) : p ≠ .worker i ∧ s.Has taken p job := by
  have hp : p ≠ .worker i := by
    intro hp
    subst hp
    cases htaken.symm.trans (has_setWorker_self h)
  exact ⟨hp, has_setWorker_of_ne hp h⟩

theorem has_setAdder_of_ne {pc : AdderPc} (hp : p ≠ .adder k)
    (h : (s.setAdder k pc).Has taken p job) : s.Has taken p job := by
  cases p with
  | adder j =>
    have hjk : j ≠ k := fun heq => hp (heq ▸ rfl)
    rw [Workqueue.Has, Workqueue.setAdder_of_ne s pc hjk] at h
    exact h
  | backlog => exact h
  | worker j => exact h

theorem has_setAdder_self {pc : AdderPc} (h : (s.setAdder k pc).Has taken (.adder k) job) :
    pc.job = some job := by
  rw [Workqueue.Has, Workqueue.setAdder_self] at h
  exact h.2

/-- An adder that has moved on without an item has lost it. -/
theorem has_setAdder_none {pc : AdderPc} (hpc : pc.job = none)
    (h : (s.setAdder k pc).Has taken p job) : p ≠ .adder k ∧ s.Has taken p job := by
  have hp : p ≠ .adder k := by
    intro hp
    subst hp
    cases hpc.symm.trans (has_setAdder_self h)
  exact ⟨hp, has_setAdder_of_ne hp h⟩

/-- No worker gets into `complete_work` through the first test by the move of one worker
    to another access. -/
theorem not_cancelling_setWorker {x : Worker}
    (h : ∀ j job, (s.workers j).pc ≠ .cancelStatus job ∧ (s.workers j).pc ≠ .cancelFn job)
    (hx : ∀ job, x.pc ≠ .cancelStatus job ∧ x.pc ≠ .cancelFn job) (j : Nat) (job : Job) :
    ((s.setWorker i x).workers j).pc ≠ .cancelStatus job ∧
      ((s.setWorker i x).workers j).pc ≠ .cancelFn job := by
  by_cases hji : j = i
  · rw [hji, Workqueue.setWorker_self]
    exact hx job
  · rw [Workqueue.setWorker_of_ne s x hji]
    exact h j job

/-- What a worker has taken, it carries. -/
theorem has_carried (h : s.Has WorkerPc.job p job) : s.Has WorkerPc.carried p job := by
  cases p with
  | adder j => exact h
  | backlog => exact h
  | worker j =>
    refine ⟨h.1, ?_⟩
    have hjob := h.2
    revert hjob
    cases (s.workers j).pc <;> exact fun hjob => by first | exact hjob | exact nomatch hjob

/-- Items may be dropped. -/
theorem CompleteInv.mono (h : CompleteInv s)
    (hcancel : ∀ i job, (s'.workers i).pc ≠ .cancelStatus job ∧ (s'.workers i).pc ≠ .cancelFn job)
    (hbacklog : s'.backlog = s.backlog) (hadds : s'.adds = s.adds) (hlog : s'.log = s.log)
    (hjob : ∀ p job, s'.Has WorkerPc.job p job → s.Has WorkerPc.job p job)
    (hcarried : ∀ p job, s'.Has WorkerPc.carried p job → s.Has WorkerPc.carried p job) :
    CompleteInv s' where
  not_cancelling := hcancel
  backlog_nodup := hbacklog ▸ h.backlog_nodup
  work_unique := h.work_unique.mono fun p _ ⟨job, hhas, hw⟩ => ⟨job, hjob p job hhas, hw⟩
  job_unique := h.job_unique.mono hcarried
  job_new p job hhas := by
    rw [hadds, hlog]
    exact h.job_new p job (hcarried p job hhas)
  completed_old := by
    rw [hadds, hlog]
    exact h.completed_old
  work_open p job hhas := by
    rw [hlog]
    exact h.work_open p job (hjob p job hhas)
  completed_once := hlog ▸ h.completed_once
  log_ordered := hlog ▸ h.log_ordered

theorem CompleteInv.same (h : CompleteInv s) (hsame : SameJobs s' s) : CompleteInv s' :=
  h.mono (fun i job => hsame.pcs i ▸ h.not_cancelling i job) hsame.backlog hsame.adds hsame.log
    (fun _ _ => hsame.has) fun _ _ => hsame.has

/-- A worker moves on with the item that it has, or without it. -/
theorem CompleteInv.setWorker (h : CompleteInv s) {x : Worker}
    (hcancel : ∀ job, x.pc ≠ .cancelStatus job ∧ x.pc ≠ .cancelFn job)
    (hjob : ∀ job, x.pc.job = some job → (s.workers i).pc.job = some job)
    (hcarried : ∀ job, x.pc.carried = some job → (s.workers i).pc.carried = some job) :
    CompleteInv (s.setWorker i x) := by
  have hhas : ∀ taken : WorkerPc → Option Job,
      (∀ job, taken x.pc = some job → taken (s.workers i).pc = some job) →
      ∀ p job, (s.setWorker i x).Has taken p job → s.Has taken p job := by
    intro taken htaken p job hhas
    by_cases hp : p = .worker i
    · subst hp
      exact ⟨hhas.1, htaken job (has_setWorker_self hhas)⟩
    · exact has_setWorker_of_ne hp hhas
  exact h.mono (not_cancelling_setWorker h.not_cancelling hcancel) rfl rfl rfl (hhas _ hjob)
    (hhas _ hcarried)

/-- A worker moves on with the item that it has. -/
theorem CompleteInv.setPc (h : CompleteInv s) {pc pc' : WorkerPc} (hpc : (s.workers i).pc = pc)
    (hcancel : ∀ job, pc' ≠ .cancelStatus job ∧ pc' ≠ .cancelFn job) (hjob : pc'.job = pc.job)
    (hcarried : pc'.carried = pc.carried) : CompleteInv (s.setPc i pc') := by
  subst hpc
  apply h.setWorker hcancel
  · intro job hpc'
    rw [← hjob]
    exact hpc'
  · intro job hpc'
    rw [← hcarried]
    exact hpc'

/-- An adder moves on with the item that it has, or without it. -/
theorem CompleteInv.setAdder (h : CompleteInv s) {pc pc' : AdderPc} (hpc : s.adders k = pc)
    (hjob : ∀ job, pc'.job = some job → pc.job = some job) : CompleteInv (s.setAdder k pc') := by
  subst hpc
  have hhas : ∀ (taken : WorkerPc → Option Job) p job,
      (s.setAdder k pc').Has taken p job → s.Has taken p job := by
    intro taken p job hhas
    by_cases hp : p = .adder k
    · subst hp
      exact ⟨hhas.1, hjob job (has_setAdder_self hhas)⟩
    · exact has_setAdder_of_ne hp hhas
  exact h.mono h.not_cancelling rfl rfl rfl (hhas _) (hhas _)

/-- Apart from the enqueue, no access of `put_backlog` moves an item. -/
theorem putBacklog_sameJobs (s : Workqueue) {q : PutPc} (hq : ∀ job, q ≠ .enqueue job) :
    SameJobs (putBacklog s q).1 s ∧ ∀ job, (putBacklog s q).2 ≠ some (.enqueue job) := by
  have hsame := putBacklog_sameThreads s q
  have hbacklog : (putBacklog s q).1.backlog = s.backlog ∧
      ∀ job, (putBacklog s q).2 ≠ some (.enqueue job) := by
    cases q with
    | enqueue job => exact absurd rfl (hq job)
    | scan j =>
      simp only [putBacklog]
      by_cases hj : j < s.numWorkers
      · rw [if_pos hj]
        split <;> exact ⟨rfl, fun _ h => by cases h⟩
      · rw [if_neg hj]
        exact ⟨rfl, fun _ h => by cases h⟩
    | signal j => exact ⟨rfl, fun _ h => by cases h⟩
  exact ⟨⟨hsame.numWorkers, hsame.numAdders, hsame.adders, hbacklog.1, hsame.pcs, hsame.adds,
    hsame.log⟩, hbacklog.2⟩

/-! ## Recording events -/

/-- A work that was not completed is run, or goes to IN_PROGRESS. -/
theorem CompleteInv.record_run (h : CompleteInv s) {e : WorkEvent}
    (he : e = .inProgress w ∨ e = .workFn w) (hopen : completedSinceAdd w s.log = false) :
    CompleteInv (s.record e) := by
  have hne : (∀ w', e ≠ .complete w') ∧ (∀ w', e ≠ .added w') ∧ ∀ job, e ≠ .completeFn job := by
    rcases he with rfl | rfl <;> exact ⟨nofun, nofun, nofun⟩
  have hmem : ∀ job, .completeFn job ∈ e :: s.log → .completeFn job ∈ s.log :=
    fun job hmem => (List.mem_cons.mp hmem).resolve_left (hne.2.2 job).symm
  exact
    { not_cancelling := h.not_cancelling
      backlog_nodup := h.backlog_nodup
      work_unique := h.work_unique
      job_unique := h.job_unique
      job_new := fun p job hhas =>
        ⟨(h.job_new p job hhas).1, fun hin => (h.job_new p job hhas).2 (hmem job hin)⟩
      completed_old := fun job hin => h.completed_old job (hmem job hin)
      work_open := fun p job hhas =>
        (completedSinceAdd_cons (hne.1 _) (hne.2.1 _)).trans (h.work_open p job hhas)
      completed_once := fun job => by
        show (e :: s.log).count _ ≤ 1
        rw [List.count_cons_of_ne (hne.2.2 job)]
        exact h.completed_once job
      log_ordered := h.log_ordered.cons fun w' hw' => by
        rcases he with rfl | rfl <;> rcases hw' with hw' | hw' <;> cases hw' <;> exact hopen }

/-- The status of a work that is nowhere becomes COMPLETE. -/
theorem CompleteInv.record_complete (h : CompleteInv s)
    (hnone : ∀ p job, s.Has WorkerPc.job p job → job.work ≠ w) :
    CompleteInv (s.record (.complete w)) where
  not_cancelling := h.not_cancelling
  backlog_nodup := h.backlog_nodup
  work_unique := h.work_unique
  job_unique := h.job_unique
  job_new p job hhas := ⟨(h.job_new p job hhas).1, fun hin =>
    (h.job_new p job hhas).2 ((List.mem_cons.mp hin).resolve_left nofun)⟩
  completed_old job hin := h.completed_old job ((List.mem_cons.mp hin).resolve_left nofun)
  work_open p job hhas := by
    have hne : WorkEvent.complete w ≠ .complete job.work :=
      fun heq => hnone p job hhas (WorkEvent.complete.inj heq).symm
    exact (completedSinceAdd_cons hne nofun).trans (h.work_open p job hhas)
  completed_once job := by
    have hne : WorkEvent.complete w ≠ .completeFn job := nofun
    show (WorkEvent.complete w :: s.log).count _ ≤ 1
    rw [List.count_cons_of_ne hne]
    exact h.completed_once job
  log_ordered := h.log_ordered.cons fun _ hw => by rcases hw with hw | hw <;> exact nomatch hw

/-- The completion function of an item that is nowhere is called for the first time. -/
theorem CompleteInv.record_completeFn (h : CompleteInv s)
    (hnone : ∀ p, ¬ s.Has WorkerPc.carried p job) (hold : job.add < s.adds)
    (hnew : .completeFn job ∉ s.log) : CompleteInv (s.record (.completeFn job)) where
  not_cancelling := h.not_cancelling
  backlog_nodup := h.backlog_nodup
  work_unique := h.work_unique
  job_unique := h.job_unique
  job_new p job' hhas := by
    refine ⟨(h.job_new p job' hhas).1, fun hin => ?_⟩
    rcases List.mem_cons.mp hin with heq | hin
    · exact hnone p (WorkEvent.completeFn.inj heq ▸ hhas)
    · exact (h.job_new p job' hhas).2 hin
  completed_old job' hin := by
    rcases List.mem_cons.mp hin with heq | hin
    · exact WorkEvent.completeFn.inj heq ▸ hold
    · exact h.completed_old job' hin
  work_open p job' hhas := by
    have hcomplete : WorkEvent.completeFn job ≠ .complete job'.work := nofun
    have hadded : WorkEvent.completeFn job ≠ .added job'.work := nofun
    exact (completedSinceAdd_cons hcomplete hadded).trans (h.work_open p job' hhas)
  completed_once job' := by
    show (WorkEvent.completeFn job :: s.log).count _ ≤ 1
    by_cases heq : job = job'
    · subst heq
      -- the call is the first one with this job
      have hzero := List.count_eq_zero_of_not_mem hnew
      rw [List.count_cons_self]
      omega
    · rw [List.count_cons_of_ne fun hfn => heq (WorkEvent.completeFn.inj hfn)]
      exact h.completed_once job'
  log_ordered := h.log_ordered.cons fun _ hw => by rcases hw with hw | hw <;> exact nomatch hw

/-- A call of `workqueue_add_work` for a work that is nowhere. -/
theorem CompleteInv.add (h : CompleteInv s)
    (hnone : ∀ p job, s.Has WorkerPc.job p job → job.work ≠ w) :
    CompleteInv (Workqueue.setAdder { s.record (.added w) with adds := s.adds + 1 } k
      (.requests ⟨w, s.adds⟩)) := by
  have hhas : ∀ (taken : WorkerPc → Option Job) p job,
      (Workqueue.setAdder { s.record (.added w) with adds := s.adds + 1 } k
        (.requests ⟨w, s.adds⟩)).Has taken p job →
      s.Has taken p job ∨ (p = .adder k ∧ job = ⟨w, s.adds⟩) := by
    intro taken p job hhas
    by_cases hp : p = .adder k
    · subst hp
      exact .inr ⟨rfl, (Option.some.inj (has_setAdder_self hhas)).symm⟩
    · exact .inl (has_setAdder_of_ne hp hhas)
  have hmem : ∀ job, .completeFn job ∈ WorkEvent.added w :: s.log → .completeFn job ∈ s.log :=
    fun job hin => (List.mem_cons.mp hin).resolve_left nofun
  exact
    { not_cancelling := h.not_cancelling
      backlog_nodup := h.backlog_nodup
      work_unique := by
        refine h.work_unique.create (a := w) (q := .adder k) ?_ ?_
        · exact fun p ⟨job, hjob, hw⟩ => hnone p job hjob hw
        · rintro p v ⟨job, hjob, rfl⟩
          rcases hhas _ p job hjob with hold | ⟨hp, rfl⟩
          · exact .inl ⟨job, hold, rfl⟩
          · exact .inr ⟨hp, rfl⟩
      job_unique := by
        refine h.job_unique.create (a := ⟨w, s.adds⟩) (q := .adder k) ?_ fun p job => hhas _ p job
        -- the number of the add is new
        exact fun p hjob => Nat.lt_irrefl _ (h.job_new p _ hjob).1
      job_new := by
        intro p job hjob
        rcases hhas _ p job hjob with hold | ⟨_, rfl⟩
        · have hnew := h.job_new p job hold
          exact ⟨Nat.lt_succ_of_lt hnew.1, fun hin => hnew.2 (hmem job hin)⟩
        · exact ⟨Nat.lt_succ_self _, fun hin =>
            Nat.lt_irrefl _ (h.completed_old _ (hmem _ hin))⟩
      completed_old := fun job hin => Nat.lt_succ_of_lt (h.completed_old job (hmem job hin))
      work_open := by
        intro p job hjob
        show completedSinceAdd job.work (.added w :: s.log) = false
        rcases hhas _ p job hjob with hold | ⟨_, rfl⟩
        · have hne : WorkEvent.added w ≠ .added job.work :=
            fun heq => hnone p job hold (WorkEvent.added.inj heq).symm
          have hcomplete : WorkEvent.added w ≠ .complete job.work := nofun
          exact (completedSinceAdd_cons hcomplete hne).trans (h.work_open p job hold)
        · rw [completedSinceAdd, if_neg nofun, if_pos rfl]
      completed_once := fun job => by
        have hne : WorkEvent.added w ≠ .completeFn job := nofun
        show (WorkEvent.added w :: s.log).count _ ≤ 1
        rw [List.count_cons_of_ne hne]
        exact h.completed_once job
      log_ordered := h.log_ordered.cons fun _ hw => by
        rcases hw with hw | hw <;> exact nomatch hw }

/-- `get_backlog`: the first item moves to the worker. -/
theorem CompleteInv.get (h : CompleteInv s) {backlog : List Job}
    (hbacklog : s.backlog = job :: backlog) {count : Int} :
    CompleteInv (Workqueue.setPc { s with backlog := backlog, backlogCount := count } i
      (.testCancel job)) := by
  have hmem : s.Has WorkerPc.job .backlog job := by
    rw [Workqueue.Has, hbacklog]
    exact List.mem_cons_self
  have hnodup := h.backlog_nodup
  rw [hbacklog, List.map_cons, List.nodup_cons] at hnodup
  -- the item moves from the backlog to the worker, the others stay
  have hhas : ∀ taken : WorkerPc → Option Job, taken (.testCancel job) = some job → ∀ p job',
      (Workqueue.setPc { s with backlog := backlog, backlogCount := count } i
        (.testCancel job)).Has taken p job' →
      (p = .worker i ∧ job' = job) ∨
        (s.Has taken p job' ∧ ¬ (p = .backlog ∧ job'.work = job.work)) := by
    intro taken htaken p job' hhas
    by_cases hp : p = .worker i
    · subst hp
      exact .inl ⟨rfl, (Option.some.inj (htaken.symm.trans (has_setWorker_self hhas))).symm⟩
    · have hold := has_setWorker_of_ne hp hhas
      refine .inr ?_
      cases p with
      | adder j => exact ⟨hold, nofun⟩
      | backlog =>
        have hin : job' ∈ backlog := hold
        refine ⟨?_, fun heq => hnodup.1 (heq.2 ▸ List.mem_map_of_mem hin)⟩
        rw [Workqueue.Has, hbacklog]
        exact List.mem_cons_of_mem job hin
      | worker j => exact ⟨hold, nofun⟩
  have hjob := hhas WorkerPc.job rfl
  have hcarried := hhas WorkerPc.carried rfl
  exact
    { not_cancelling := not_cancelling_setWorker h.not_cancelling fun _ => ⟨nofun, nofun⟩
      backlog_nodup := hnodup.2
      work_unique := by
        refine h.work_unique.move (a := job.work) (q := .worker i) ⟨job, hmem, rfl⟩ ?_
        rintro p v ⟨job', hhas, rfl⟩
        rcases hjob p job' hhas with ⟨hp, rfl⟩ | ⟨hold, hne⟩
        · exact .inr ⟨hp, rfl⟩
        · exact .inl ⟨⟨job', hold, rfl⟩, hne⟩
      job_unique := by
        refine h.job_unique.move (q := .worker i) (has_carried hmem) fun p job' hhas => ?_
        rcases hcarried p job' hhas with hnew | ⟨hold, hne⟩
        · exact .inr hnew
        · exact .inl ⟨hold, fun heq => hne ⟨heq.1, congrArg Job.work heq.2⟩⟩
      job_new := by
        intro p job' hhas
        rcases hcarried p job' hhas with ⟨_, rfl⟩ | ⟨hold, _⟩
        · exact h.job_new _ _ (has_carried hmem)
        · exact h.job_new p job' hold
      completed_old := h.completed_old
      work_open := by
        intro p job' hhas
        rcases hjob p job' hhas with ⟨_, rfl⟩ | ⟨hold, _⟩
        · exact h.work_open _ _ hmem
        · exact h.work_open p job' hold
      completed_once := h.completed_once
      log_ordered := h.log_ordered }

/-- `put_backlog`: the item leaves its thread, to the end of the backlog. -/
theorem CompleteInv.enqueue (h : CompleteInv s) (hmem : s.Has WorkerPc.job p job)
    (hp : p ≠ .backlog)
    (hcancel : ∀ i job, (s'.workers i).pc ≠ .cancelStatus job ∧ (s'.workers i).pc ≠ .cancelFn job)
    (hbacklog : s'.backlog = s.backlog ++ [job]) (hadds : s'.adds = s.adds) (hlog : s'.log = s.log)
    (hjob : ∀ r job', s'.Has WorkerPc.job r job' →
      (r = .backlog ∧ job' = job) ∨ (r ≠ p ∧ s.Has WorkerPc.job r job'))
    (hcarried : ∀ r job', s'.Has WorkerPc.carried r job' →
      (r = .backlog ∧ job' = job) ∨ (r ≠ p ∧ s.Has WorkerPc.carried r job')) :
    CompleteInv s' where
  not_cancelling := hcancel
  backlog_nodup := by
    rw [hbacklog, List.map_append]
    refine List.Nodup.append h.backlog_nodup (List.nodup_singleton _) ?_
    -- an item with the same work would be in two places
    intro w hw hw'
    obtain ⟨job', hin, rfl⟩ := List.mem_map.mp hw
    have hwork : job.work = job'.work := (List.mem_singleton.mp hw').symm
    exact hp (h.work_unique p .backlog job'.work ⟨job, hmem, hwork⟩ ⟨job', hin, rfl⟩)
  work_unique := by
    refine h.work_unique.move (a := job.work) (q := .backlog) ⟨job, hmem, rfl⟩ ?_
    rintro r v ⟨job', hhas, rfl⟩
    rcases hjob r job' hhas with ⟨hr, rfl⟩ | ⟨hr, hold⟩
    · exact .inr ⟨hr, rfl⟩
    · exact .inl ⟨⟨job', hold, rfl⟩, fun heq => hr heq.1⟩
  job_unique := by
    refine h.job_unique.move (q := .backlog) (has_carried hmem) fun r job' hhas => ?_
    rcases hcarried r job' hhas with hnew | ⟨hr, hold⟩
    · exact .inr hnew
    · exact .inl ⟨hold, fun heq => hr heq.1⟩
  job_new r job' hhas := by
    rw [hadds, hlog]
    rcases hcarried r job' hhas with ⟨_, rfl⟩ | ⟨_, hold⟩
    · exact h.job_new _ _ (has_carried hmem)
    · exact h.job_new r job' hold
  completed_old := by
    rw [hadds, hlog]
    exact h.completed_old
  work_open r job' hhas := by
    rw [hlog]
    rcases hjob r job' hhas with ⟨_, rfl⟩ | ⟨_, hold⟩
    · exact h.work_open _ _ hmem
    · exact h.work_open r job' hold
  completed_once := hlog ▸ h.completed_once
  log_ordered := hlog ▸ h.log_ordered

/-- Who has an item after an enqueue. -/
theorem has_enqueue {job' : Job} {count : Int}
    (h : Workqueue.Has taken { s with backlog := s.backlog ++ [job], backlogCount := count } p job') :
    (p = .backlog ∧ job' = job) ∨ s.Has taken p job' := by
  cases p with
  | adder j => exact .inr h
  | backlog =>
    rcases List.mem_append.mp h with h | h
    · exact .inr h
    · exact .inl ⟨rfl, List.mem_singleton.mp h⟩
  | worker j => exact .inr h

/-! ## Steps -/

/-- Every access of a worker that does not find its work cancelled keeps the invariant. -/
private theorem workqueueFactory_complete (h : CompleteInv s) (hi : i < s.numWorkers)
    (hcond : TakesUncancelled s (.worker i)) (hstep : workqueueFactory s i = some s') :
    CompleteInv s' := by
  unfold workqueueFactory at hstep
  cases hpc : (s.workers i).pc with
  | start | run | idle =>
    simp only [hpc, Option.some.injEq] at hstep
    subst hstep
    exact h.setWorker (fun _ => ⟨nofun, nofun⟩) nofun nofun
  | wait =>
    simp only [hpc, Option.ite_none_left_eq_some, Option.some.injEq] at hstep
    obtain ⟨_, rfl⟩ := hstep
    exact h.setWorker (fun _ => ⟨nofun, nofun⟩) nofun nofun
  | get =>
    cases hbacklog : s.backlog with
    | nil =>
      simp only [hpc, hbacklog, Option.some.injEq] at hstep
      subst hstep
      exact h.setWorker (fun _ => ⟨nofun, nofun⟩) nofun nofun
    | cons job backlog =>
      simp only [hpc, hbacklog, Option.some.injEq] at hstep
      subst hstep
      exact h.get hbacklog
  | testCancel job =>
    -- the branch that completes the item and falls through is excluded
    have hnot : ¬ s.cancelled job.work := hcond job (by rw [hpc]; rfl)
    simp only [hpc, hnot, ↓reduceIte, Option.some.injEq] at hstep
    subst hstep
    exact h.setPc hpc (fun _ => ⟨nofun, nofun⟩) rfl rfl
  | cancelStatus job => exact absurd hpc (h.not_cancelling i job).1
  | cancelFn job => exact absurd hpc (h.not_cancelling i job).2
  | progress job =>
    simp only [hpc, Option.some.injEq] at hstep
    subst hstep
    -- the worker has the work, which is therefore not completed
    have hopen := h.work_open (.worker i) job ⟨hi, by rw [hpc]; rfl⟩
    have hrecord : CompleteInv
        ((s.setStatus job.work .inProgress).record (.inProgress job.work)) :=
      (h.record_run (.inl rfl) hopen).same ⟨rfl, rfl, rfl, rfl, fun _ => rfl, rfl, rfl⟩
    exact hrecord.setPc hpc (fun _ => ⟨nofun, nofun⟩) rfl rfl
  | call job =>
    simp only [hpc, Option.some.injEq] at hstep
    subst hstep
    have hopen := h.work_open (.worker i) job ⟨hi, by rw [hpc]; rfl⟩
    exact (h.record_run (.inr rfl) hopen).setPc hpc (fun _ => ⟨nofun, nofun⟩) rfl rfl
  | running job => simp only [hpc, reduceCtorEq] at hstep
  | test job rc =>
    simp only [hpc, Option.some.injEq] at hstep
    subst hstep
    apply h.setPc hpc
    · split <;> exact fun _ => ⟨nofun, nofun⟩
    · split <;> rfl
    · split <;> rfl
  | completeStatus job =>
    simp only [hpc, Option.some.injEq] at hstep
    subst hstep
    have hmem : s.Has WorkerPc.job (.worker i) job := ⟨hi, by rw [hpc]; rfl⟩
    have hleft : CompleteInv (s.setPc i (.completeFn job)) :=
      h.setWorker (fun _ => ⟨nofun, nofun⟩) nofun (by rw [hpc]; exact fun _ hjob => hjob)
    -- the work was only in the hands of this worker
    have hnone : ∀ p job', (s.setPc i (.completeFn job)).Has WorkerPc.job p job' →
        job'.work ≠ job.work := by
      intro p job' hhas heq
      obtain ⟨hp, hold⟩ := has_setWorker_none rfl hhas
      exact hp (h.work_unique p (.worker i) job.work ⟨job', hold, heq⟩ ⟨job, hmem, rfl⟩)
    exact (hleft.record_complete hnone).same ⟨rfl, rfl, rfl, rfl, fun _ => rfl, rfl, rfl⟩
  | completeFn job =>
    simp only [hpc, Option.some.injEq] at hstep
    subst hstep
    have hmem : s.Has WorkerPc.carried (.worker i) job := ⟨hi, by rw [hpc]; rfl⟩
    have hleft : CompleteInv (s.setPc i .get) :=
      h.setWorker (fun _ => ⟨nofun, nofun⟩) nofun nofun
    -- nobody else has the item, so its function was not called before
    have hnone : ∀ p, ¬ (s.setPc i .get).Has WorkerPc.carried p job := by
      intro p hhas
      obtain ⟨hp, hold⟩ := has_setWorker_none rfl hhas
      exact hp (h.job_unique p (.worker i) job hold hmem)
    unfold completeWorkFn
    split
    · exact hleft.record_completeFn hnone (h.job_new _ _ hmem).1 (h.job_new _ _ hmem).2
    · exact hleft
  | put p =>
    simp only [hpc, Option.some.injEq] at hstep
    subst hstep
    by_cases hp : ∃ job, p = .enqueue job
    · obtain ⟨job, rfl⟩ := hp
      show CompleteInv (Workqueue.setPc { s with
        backlog := s.backlog ++ [job], backlogCount := s.backlogCount + 1 } i (.put (.scan 0)))
      have hmem : s.Has WorkerPc.job (.worker i) job := ⟨hi, by rw [hpc]; rfl⟩
      have hhas : ∀ taken : WorkerPc → Option Job, taken (.put (.scan 0)) = none → ∀ r job',
          (Workqueue.setPc { s with
            backlog := s.backlog ++ [job], backlogCount := s.backlogCount + 1 } i
            (.put (.scan 0))).Has taken r job' →
          (r = .backlog ∧ job' = job) ∨ (r ≠ .worker i ∧ s.Has taken r job') := by
        intro taken htaken r job' hhas
        obtain ⟨hr, hold⟩ := has_setWorker_none htaken hhas
        exact (has_enqueue hold).imp_right fun hold => ⟨hr, hold⟩
      exact h.enqueue hmem nofun
        (not_cancelling_setWorker h.not_cancelling fun _ => ⟨nofun, nofun⟩) rfl rfl rfl
        (hhas _ rfl) (hhas _ rfl)
    · -- the wakeup scan moves no item, and does not go back to the enqueue
      obtain ⟨hsame, hnext⟩ := putBacklog_sameJobs s fun job heq => hp ⟨job, heq⟩
      revert hnext
      cases (putBacklog s p).2 with
      | none => exact fun _ => (h.same hsame).setWorker (fun _ => ⟨nofun, nofun⟩) nofun nofun
      | some q =>
        intro hnext
        cases q with
        | enqueue job => exact absurd rfl (hnext job)
        | scan j | signal j =>
          exact (h.same hsame).setWorker (fun _ => ⟨nofun, nofun⟩) nofun nofun

/-- Every access of an adder keeps the invariant. -/
private theorem workqueueAddWork_complete (h : CompleteInv s) (hk : k < s.numAdders)
    (hstep : workqueueAddWork s k = some s') : CompleteInv s' := by
  unfold workqueueAddWork at hstep
  cases hpc : s.adders k with
  | idle => simp only [hpc, reduceCtorEq] at hstep
  | requests job =>
    simp only [hpc, Option.some.injEq] at hstep
    subst hstep
    have hset : CompleteInv (s.setRequests job.work 0) :=
      h.same ⟨rfl, rfl, rfl, rfl, fun _ => rfl, rfl, rfl⟩
    exact hset.setAdder hpc fun _ hjob => hjob
  | status job =>
    simp only [hpc, Option.some.injEq] at hstep
    subst hstep
    have hset : CompleteInv (s.setStatus job.work .queued) :=
      h.same ⟨rfl, rfl, rfl, rfl, fun _ => rfl, rfl, rfl⟩
    exact hset.setAdder hpc fun _ hjob => hjob
  | put p =>
    simp only [hpc, Option.some.injEq] at hstep
    subst hstep
    by_cases hp : ∃ job, p = .enqueue job
    · obtain ⟨job, rfl⟩ := hp
      show CompleteInv (Workqueue.setAdder { s with
        backlog := s.backlog ++ [job], backlogCount := s.backlogCount + 1 } k (.put (.scan 0)))
      have hmem : s.Has WorkerPc.job (.adder k) job := ⟨hk, by rw [hpc]; rfl⟩
      -- the item moves from the adder to the backlog, the others stay
      have hhas : ∀ (taken : WorkerPc → Option Job) r job',
          (Workqueue.setAdder { s with
            backlog := s.backlog ++ [job], backlogCount := s.backlogCount + 1 } k
            (.put (.scan 0))).Has taken r job' →
          (r = .backlog ∧ job' = job) ∨ (r ≠ .adder k ∧ s.Has taken r job') := by
        intro taken r job' hhas
        obtain ⟨hr, hold⟩ := has_setAdder_none rfl hhas
        exact (has_enqueue hold).imp_right fun hold => ⟨hr, hold⟩
      exact h.enqueue hmem nofun h.not_cancelling rfl rfl rfl (hhas _) (hhas _)
    · obtain ⟨hsame, hnext⟩ := putBacklog_sameJobs s fun job heq => hp ⟨job, heq⟩
      revert hnext
      cases (putBacklog s p).2 with
      | none => exact fun _ => (h.same hsame).setAdder rfl nofun
      | some q =>
        intro hnext
        cases q with
        | enqueue job => exact absurd rfl (hnext job)
        | scan j | signal j => exact (h.same hsame).setAdder rfl nofun

/-- Every step keeps the invariant under the two conditions. -/
theorem wqStep_complete (s : Workqueue) (a : WqAct) (s' : Workqueue) (h : CompleteInv s)
    (hcond : AddsReleased s a ∧ TakesUncancelled s a) (hstep : wqStep s a = some s') :
    CompleteInv s' := by
  cases a with
  | worker i =>
    simp only [wqStep, Option.ite_none_right_eq_some] at hstep
    exact workqueueFactory_complete h hstep.1 hcond.2 hstep.2
  | workReturns i rc =>
    simp only [wqStep, Option.ite_none_right_eq_some] at hstep
    obtain ⟨_, hstep⟩ := hstep
    split at hstep
    · next job hpc =>
      -- the worker goes on with what the work has returned
      obtain rfl := Option.some.inj hstep
      exact h.setPc hpc (fun _ => ⟨nofun, nofun⟩) rfl rfl
    · exact nomatch hstep
  | add k w =>
    simp only [wqStep, Option.ite_none_right_eq_some] at hstep
    obtain ⟨_, hstep⟩ := hstep
    split at hstep
    · obtain rfl := Option.some.inj hstep
      exact h.add fun p job hhas heq => hcond.1 (heq ▸ .of_has hhas)
    · obtain rfl := Option.some.inj hstep
      exact h
  | adder k =>
    simp only [wqStep, Option.ite_none_right_eq_some] at hstep
    exact workqueueAddWork_complete h hstep.1 hstep.2
  | cancel w =>
    obtain rfl := Option.some.inj hstep
    exact h.same ⟨rfl, rfl, rfl, rfl, fun _ => rfl, rfl, rfl⟩

end

/-! ## Results -/

/-- In every interleaving in which works are only added when the queue is done with them
    and no worker finds a work cancelled when it takes it: every add leads to at most one
    call of `complete_fn`, and no work whose status has become COMPLETE is run, or goes
    back to IN_PROGRESS, before it is added again. -/
theorem workqueue_completes_once (numWorkers numAdders : Nat) (works : Nat → Work)
    (as : List WqAct) (s : Workqueue)
    (hmeets : Meets wqStep (fun s a => AddsReleased s a ∧ TakesUncancelled s a)
      (workqueueInit numWorkers numAdders works) as)
    (hrun : run wqStep (workqueueInit numWorkers numAdders works) as = some s) :
    (∀ job, s.log.count (.completeFn job) ≤ 1) ∧ LogOrdered s.log := by
  have hinv := inv_of_meets wqStep_complete (workqueueInit_complete numWorkers numAdders works)
    hmeets hrun
  exact ⟨hinv.completed_once, hinv.log_ordered⟩

/-- One worker. A work yields once and is then cancelled while it runs; it is completed,
    added again and completed again. -/
def yieldedRun : List WqAct :=
  [.add 0 5, .adder 0, .adder 0, .adder 0, .worker 0, .adder 0, .adder 0, .worker 0, .worker 0,
    .worker 0, .worker 0, .worker 0, .worker 0, .workReturns 0 1, .worker 0, .worker 0, .worker 0,
    .worker 0, .worker 0, .worker 0, .worker 0, .worker 0, .cancel 5, .workReturns 0 1, .worker 0,
    .worker 0, .worker 0, .add 0 5, .adder 0, .adder 0, .adder 0, .worker 0, .worker 0, .worker 0,
    .worker 0, .workReturns 0 0, .worker 0, .worker 0, .worker 0]

theorem workqueue_completes_once_run :
    ∃ s, run wqStep (workqueueInit 1 1 fun _ => ⟨.new, 0, true, true⟩) yieldedRun = some s ∧
      s.log = [.completeFn ⟨5, 1⟩, .complete 5, .workFn 5, .inProgress 5, .added 5,
        .completeFn ⟨5, 0⟩, .complete 5, .workFn 5, .inProgress 5, .workFn 5, .inProgress 5,
        .added 5] ∧
      (∀ job, s.log.count (.completeFn job) ≤ 1) ∧ LogOrdered s.log :=
  ⟨_, rfl, rfl, workqueue_completes_once 1 1 (fun _ => ⟨.new, 0, true, true⟩) yieldedRun _
    (by decide) rfl⟩

/-- A work is cancelled while it is in the backlog. -/
def cancelledRun : List WqAct :=
  [.worker 0, .add 0 5, .adder 0, .adder 0, .adder 0, .adder 0, .adder 0, .cancel 5, .worker 0,
    .worker 0, .worker 0, .worker 0, .worker 0, .worker 0, .worker 0, .worker 0, .workReturns 0 0,
    .worker 0, .worker 0, .worker 0]

/-- It is completed, and then run and completed again. -/
theorem workqueue_completes_twice :
    ∃ s, run wqStep (workqueueInit 1 1 fun _ => ⟨.new, 0, true, true⟩) cancelledRun = some s ∧
      Meets wqStep AddsReleased (workqueueInit 1 1 fun _ => ⟨.new, 0, true, true⟩) cancelledRun ∧
      s.log = [.completeFn ⟨5, 0⟩, .complete 5, .workFn 5, .inProgress 5, .completeFn ⟨5, 0⟩,
        .complete 5, .added 5] ∧
      ¬ ((∀ job, s.log.count (.completeFn job) ≤ 1) ∧ LogOrdered s.log) := by
  refine ⟨_, rfl, by decide, rfl, fun h => ?_⟩
  exact absurd (h.1 ⟨5, 0⟩) (by decide)

end CUtils
