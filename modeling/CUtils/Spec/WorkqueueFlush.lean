import CUtils.Spec.WorkqueueLinksCorrect

/-!
# What a flush leaves

`workqueue_destroy` takes the works out of the backlog before it cancels the threads, so the
workers may go on for a while after `flush_backlog`.

- `workqueue_flush_drains`: the flush in any state that the threads can reach.
- `workqueue_flushed_stay`: no interleaving afterwards touches a flushed work, unless it is
  added again.
-/

namespace CUtils

open StepSystem

/-! ## A work that nobody has -/

/-- The work that an event is about. -/
def WorkEvent.work : WorkEvent → Nat
  | .added w | .inProgress w | .workFn w | .complete w => w
  | .completeFn job => job.work

/-- No thread has the work in its hands, and it is not in the backlog. -/
def Workqueue.Released (s : Workqueue) (w : Nat) : Prop :=
  ∀ p job, s.Has WorkerPc.carried p job → job.work ≠ w

/-- From `s` to `s'` nobody got the work, its status stayed, and nothing happened to it. -/
structure LeftAlone (w : Nat) (s s' : Workqueue) : Prop where
  released : s'.Released w
  status : (s'.works w).status = (s.works w).status
  events : s'.log.filter (·.work = w) = s.log.filter (·.work = w)

section

variable {s s' : Workqueue} {i k v w : Nat} {job : Job}

theorem LeftAlone.refl (h : s.Released w) : LeftAlone w s s := ⟨h, rfl, rfl⟩

theorem LeftAlone.trans {s'' : Workqueue} (h : LeftAlone w s s') (h' : LeftAlone w s' s'') :
    LeftAlone w s s'' :=
  ⟨h'.released, h'.status.trans h.status, h'.events.trans h.events⟩

/-- A worker moves on with another work, or with none. -/
theorem LeftAlone.setWorker (h : LeftAlone w s s') {x : Worker}
    (hx : ∀ job, x.pc.carried = some job → job.work ≠ w) :
    LeftAlone w s (s'.setWorker i x) := by
  refine ⟨fun p job hhas => ?_, h.status, h.events⟩
  by_cases hp : p = .worker i
  · subst hp
    exact hx job (has_setWorker_self hhas)
  · exact h.released p job (has_setWorker_of_ne hp hhas)

/-- An adder moves on with another work, or with none. -/
theorem LeftAlone.setAdder (h : LeftAlone w s s') {pc : AdderPc}
    (hpc : ∀ job, pc.job = some job → job.work ≠ w) : LeftAlone w s (s'.setAdder k pc) := by
  refine ⟨fun p job hhas => ?_, h.status, h.events⟩
  by_cases hp : p = .adder k
  · subst hp
    exact hpc job (has_setAdder_self hhas)
  · exact h.released p job (has_setAdder_of_ne hp hhas)

theorem LeftAlone.setStatus (h : LeftAlone w s s') (hne : v ≠ w) (status : WorkStatus) :
    LeftAlone w s (s'.setStatus v status) := by
  refine ⟨h.released, ?_, h.events⟩
  rw [← h.status]
  show (Function.update s'.works v _ w).status = _
  rw [Function.update_of_ne hne.symm]

/-- Anybody may request anything. -/
theorem LeftAlone.setRequests (h : LeftAlone w s s') (v : Nat) (requests : UInt32) :
    LeftAlone w s (s'.setRequests v requests) := by
  refine ⟨h.released, ?_, h.events⟩
  rw [← h.status]
  show (Function.update s'.works v { s'.works v with requests } w).status = _
  by_cases hwv : w = v
  · rw [hwv, Function.update_self]
  · rw [Function.update_of_ne hwv]

theorem LeftAlone.record (h : LeftAlone w s s') (e : WorkEvent) (hne : e.work ≠ w) :
    LeftAlone w s (s'.record e) := by
  refine ⟨h.released, h.status, ?_⟩
  rw [← h.events]
  show (e :: s'.log).filter _ = _
  rw [List.filter_cons_of_neg (by simpa only [decide_eq_true_eq] using hne)]

/-- `put_backlog` of another work. -/
theorem LeftAlone.putBacklog (h : LeftAlone w s s') {p : PutPc}
    (hp : ∀ job, p = .enqueue job → job.work ≠ w) :
    LeftAlone w s (putBacklog s' p).1 ∧ ∀ job, (putBacklog s' p).2 ≠ some (.enqueue job) := by
  by_cases henq : ∃ job, p = .enqueue job
  · obtain ⟨job, rfl⟩ := henq
    refine ⟨⟨fun q job' hhas => ?_, h.status, h.events⟩, fun _ hq => by cases hq⟩
    rcases has_enqueue hhas with ⟨_, rfl⟩ | hold
    · exact hp job' rfl
    · exact h.released q job' hold
  · obtain ⟨hsame, hnext⟩ := putBacklog_sameJobs s' fun job heq => henq ⟨job, heq⟩
    refine ⟨⟨fun q job hhas => h.released q job (hsame.has hhas), ?_, ?_⟩, hnext⟩
    · rw [(putBacklog_sameThreads s' p).works]
      exact h.status
    · rw [hsame.log]
      exact h.events

/-! ## The steps of all threads -/

/-- An access of a worker. -/
theorem workqueueFactory_leftAlone (h : s.Released w) (hi : i < s.numWorkers)
    (hstep : workqueueFactory s i = some s') : LeftAlone w s s' := by
  have hself : LeftAlone w s s := .refl h
  -- what the worker carries is another work
  have hother : ∀ job, (s.workers i).pc.carried = some job → job.work ≠ w :=
    fun job hjob => h (.worker i) job ⟨hi, hjob⟩
  unfold workqueueFactory at hstep
  cases hpc : (s.workers i).pc with
  | start | run | idle =>
    simp only [hpc, Option.some.injEq] at hstep
    subst hstep
    exact hself.setWorker fun _ hjob => by cases hjob
  | wait =>
    simp only [hpc, Option.ite_none_left_eq_some, Option.some.injEq] at hstep
    obtain ⟨_, rfl⟩ := hstep
    exact hself.setWorker fun _ hjob => by cases hjob
  | get =>
    simp only [hpc] at hstep
    cases hbacklog : s.backlog with
    | nil =>
      simp only [hbacklog, Option.some.injEq] at hstep
      subst hstep
      exact hself.setWorker fun _ hjob => by cases hjob
    | cons job backlog =>
      simp only [hbacklog, Option.some.injEq] at hstep
      subst hstep
      have hmem : ∀ job' ∈ job :: backlog, job'.work ≠ w :=
        fun job' hjob' => h .backlog job' (show job' ∈ s.backlog by rwa [hbacklog])
      have hrest : LeftAlone w s { s with backlog, backlogCount := s.backlogCount - 1 } := by
        refine ⟨fun q job' hhas => ?_, rfl, rfl⟩
        cases q with
        | adder k => exact h (.adder k) job' hhas
        | backlog => exact hmem job' (List.mem_cons_of_mem job hhas)
        | worker j => exact h (.worker j) job' hhas
      refine hrest.setWorker fun job' hjob' => ?_
      obtain rfl := Option.some.inj hjob'
      exact hmem job List.mem_cons_self
  | testCancel job | test job rc =>
    simp only [hpc, Option.some.injEq] at hstep
    subst hstep
    rw [hpc] at hother
    apply hself.setWorker
    split <;> exact hother
  | cancelStatus job | completeStatus job =>
    simp only [hpc, Option.some.injEq] at hstep
    subst hstep
    rw [hpc] at hother
    have hne := hother job rfl
    exact ((hself.setStatus hne .complete).record (.complete job.work) hne).setWorker hother
  | cancelFn job | completeFn job =>
    simp only [hpc, Option.some.injEq] at hstep
    subst hstep
    rw [hpc] at hother
    have hfn : LeftAlone w s (completeWorkFn s job) := by
      unfold completeWorkFn
      split
      · exact hself.record (.completeFn job) (hother job rfl)
      · exact hself
    first
    | exact hfn.setWorker hother
    | exact hfn.setWorker fun _ hjob => by cases hjob
  | progress job =>
    simp only [hpc, Option.some.injEq] at hstep
    subst hstep
    rw [hpc] at hother
    have hne := hother job rfl
    exact ((hself.setStatus hne .inProgress).record (.inProgress job.work) hne).setWorker hother
  | call job =>
    simp only [hpc, Option.some.injEq] at hstep
    subst hstep
    rw [hpc] at hother
    exact (hself.record (.workFn job.work) (hother job rfl)).setWorker hother
  | running job => simp only [hpc, reduceCtorEq] at hstep
  | put p =>
    simp only [hpc, Option.some.injEq] at hstep
    subst hstep
    rw [hpc] at hother
    obtain ⟨hput, hnext⟩ := hself.putBacklog (p := p) fun job heq => hother job (by rw [heq]; rfl)
    -- the wakeup carries no work
    refine hput.setWorker fun job hjob => ?_
    revert hjob hnext
    cases (putBacklog s p).2 with
    | none => exact fun _ hjob => by cases hjob
    | some q =>
      intro hnext hjob
      cases q with
      | enqueue job' => exact absurd rfl (hnext job')
      | scan j | signal j => cases hjob

/-- An access of an adder. -/
theorem workqueueAddWork_leftAlone (h : s.Released w) (hk : k < s.numAdders)
    (hstep : workqueueAddWork s k = some s') : LeftAlone w s s' := by
  have hself : LeftAlone w s s := .refl h
  have hother : ∀ job, (s.adders k).job = some job → job.work ≠ w :=
    fun job hjob => h (.adder k) job ⟨hk, hjob⟩
  unfold workqueueAddWork at hstep
  cases hpc : s.adders k with
  | idle => simp only [hpc, reduceCtorEq] at hstep
  | requests job =>
    simp only [hpc, Option.some.injEq] at hstep
    subst hstep
    rw [hpc] at hother
    exact (hself.setRequests job.work 0).setAdder hother
  | status job =>
    simp only [hpc, Option.some.injEq] at hstep
    subst hstep
    rw [hpc] at hother
    exact (hself.setStatus (hother job rfl) .queued).setAdder hother
  | put p =>
    simp only [hpc, Option.some.injEq] at hstep
    subst hstep
    rw [hpc] at hother
    obtain ⟨hput, hnext⟩ := hself.putBacklog (p := p) fun job heq => hother job (by rw [heq]; rfl)
    refine hput.setAdder fun job hjob => ?_
    revert hjob hnext
    cases (putBacklog s p).2 with
    | none => exact fun _ hjob => by cases hjob
    | some q =>
      intro hnext hjob
      cases q with
      | enqueue job' => exact absurd rfl (hnext job')
      | scan j | signal j => cases hjob

/-- A step that does not add the work leaves it alone. -/
theorem wqStep_leftAlone {a : WqAct} (h : s.Released w) (hadd : ∀ k, a ≠ .add k w)
    (hstep : wqStep s a = some s') : LeftAlone w s s' := by
  have hself : LeftAlone w s s := .refl h
  cases a with
  | worker i =>
    simp only [wqStep, Option.ite_none_right_eq_some] at hstep
    exact workqueueFactory_leftAlone h hstep.1 hstep.2
  | workReturns i rc =>
    simp only [wqStep, Option.ite_none_right_eq_some] at hstep
    obtain ⟨hi, hstep⟩ := hstep
    split at hstep
    · rename_i job hpc
      obtain rfl := Option.some.inj hstep
      exact hself.setWorker fun job' hjob' => h (.worker i) job' ⟨hi, by rw [hpc]; exact hjob'⟩
    · cases hstep
  | add k v =>
    have hne : v ≠ w := fun heq => hadd k (heq ▸ rfl)
    simp only [wqStep, Option.ite_none_right_eq_some] at hstep
    obtain ⟨_, hstep⟩ := hstep
    split at hstep
    · obtain rfl := Option.some.inj hstep
      have hset : LeftAlone w s ((s.record (.added v)).setAdder k (.requests ⟨v, s.adds⟩)) := by
        refine (hself.record (.added v) hne).setAdder fun job hjob => ?_
        obtain rfl := Option.some.inj hjob
        exact hne
      exact ⟨hset.released, hset.status, hset.events⟩
    · obtain rfl := Option.some.inj hstep
      exact hself
  | adder k =>
    simp only [wqStep, Option.ite_none_right_eq_some] at hstep
    exact workqueueAddWork_leftAlone h hstep.1 hstep.2
  | cancel v =>
    obtain rfl := Option.some.inj hstep
    exact hself.setRequests v _

/-- So does a run. -/
theorem wqRun_leftAlone {as : List WqAct} (h : s.Released w) (hadd : ∀ k, .add k w ∉ as)
    (hrun : run wqStep s as = some s') : LeftAlone w s s' := by
  induction as generalizing s with
  | nil =>
    obtain rfl := Option.some.inj hrun
    exact .refl h
  | cons a as ih =>
    obtain ⟨m, hstep, hrest⟩ := (run_cons_eq_some wqStep s a as s').mp hrun
    have hfirst := wqStep_leftAlone h (fun k heq => hadd k (heq ▸ List.mem_cons_self)) hstep
    have hlast := ih hfirst.released (fun k hk => hadd k (List.mem_cons_of_mem a hk)) hrest
    exact hfirst.trans hlast

end

/-! ## The flush -/

/-- The state after a flush, on the list of items. -/
def Workqueue.flushed (a : Workqueue) : Workqueue :=
  { a with
    backlog := [], backlogCount := a.backlogCount - a.backlog.length,
    works := fun w =>
      if w ∈ a.backlog.map Job.work then { a.works w with status := .complete } else a.works w,
    log := (a.backlog.map fun job => .complete job.work).reverse ++ a.log }

section

variable {s s' t : LinkedWorkqueue} {a : Workqueue} {w : Nat} {job : Job}

theorem Workqueue.flushed_nil (h : a.backlog = []) : a.flushed = a := by
  obtain ⟨_, _, _, _, _, _, _, _, _⟩ := a
  subst h
  simp [Workqueue.flushed]

/-- The first item is completed, and then the others. -/
theorem Workqueue.flushed_cons {backlog : List Job} (h : a.backlog = job :: backlog) :
    a.flushed = (completeWorkStatus
      { a with backlog, backlogCount := a.backlogCount - 1 } job).flushed := by
  obtain ⟨_, _, _, _, items, count, works, _, log⟩ := a
  obtain rfl : items = job :: backlog := h
  simp only [Workqueue.flushed, completeWorkStatus, Workqueue.setStatus, Workqueue.record,
    Workqueue.mk.injEq, true_and]
  refine ⟨?_, funext fun w => ?_, ?_⟩
  · rw [List.length_cons]
    omega
  · by_cases hw : w = job.work
    · subst hw
      simp
    · simp [hw]
  · simp

/-- One round of the loop is a `get_backlog` that completes the item. -/
theorem flushBacklog_succ (fuel : Nat) (s : LinkedWorkqueue) :
    flushBacklog (fuel + 1) s = (getBacklogLinked s).bind fun r =>
      match r.2 with
      | some job => flushBacklog fuel { r.1 with wq := completeWorkStatus r.1.wq job }
      | none => some r.1 := by
  rw [flushBacklog, getBacklogLinked]
  obtain ⟨mem, queue, rc, node⟩ := queueDequeue s.mem s.queue
  by_cases hrc : rc = 0
  · cases node with
    | none => simp [hrc]
    | some node => simp only [hrc, ↓reduceIte, Option.bind_eq_bind, Option.bind_some]; rfl
  · simp [hrc]

/-- A dequeue does not change what has entered. -/
theorem getBacklogLinked_entered {item : Option Job} (h : getBacklogLinked s = some (s', item)) :
    s'.entered = s.entered := by
  rw [getBacklogLinked] at h
  generalize queueDequeue s.mem s.queue = r at h
  obtain ⟨mem, queue, rc, node⟩ := r
  by_cases hrc : rc = 0
  · cases node with
    | none => simp [hrc] at h
    | some node =>
      simp only [hrc, ↓reduceIte, Option.bind_eq_bind, Option.bind_some, Option.pure_def,
        Option.some.injEq, Prod.mk.injEq] at h
      rw [← h.1]
  · simp only [hrc, ↓reduceIte, Option.pure_def, Option.some.injEq, Prod.mk.injEq] at h
    rw [← h.1]

theorem LinkedRepr.complete (h : LinkedRepr s a) (job : Job) :
    LinkedRepr { s with wq := completeWorkStatus s.wq job } (completeWorkStatus a job) := by
  refine ⟨?_, h.list, h.add_eq, h.order⟩
  rw [h.wq_eq]
  rfl

/-- The loop takes every item, and touches neither the threads nor the other works. -/
theorem flushBacklog_spec {fuel : Nat} (h : LinkedRepr s a) (hfuel : a.backlog.length < fuel) :
    ∃ t, flushBacklog fuel s = some t ∧ LinkedRepr t a.flushed ∧ t.entered = s.entered := by
  induction fuel generalizing s a with
  | zero => exact absurd hfuel (Nat.not_lt_zero _)
  | succ fuel ih =>
    rw [flushBacklog_succ]
    cases hbacklog : a.backlog with
    | nil =>
      rw [getBacklogLinked_nil h hbacklog, Workqueue.flushed_nil hbacklog]
      exact ⟨s, rfl, h, rfl⟩
    | cons job backlog =>
      obtain ⟨s', hget, hrepr⟩ := getBacklogLinked_cons h hbacklog
      rw [hget, Workqueue.flushed_cons hbacklog]
      rw [hbacklog, List.length_cons] at hfuel
      obtain ⟨t, hflush, hend, hentered⟩ :=
        ih (hrepr.complete job) (Nat.lt_of_succ_lt_succ hfuel)
      have hfirst : s'.entered = s.entered := getBacklogLinked_entered hget
      exact ⟨t, hflush, hend, hentered.trans hfirst⟩

/-- A loop that ends has had a round for every item. -/
theorem flushBacklog_length {fuel : Nat} (h : LinkedRepr s a) (hflush : flushBacklog fuel s = some t) :
    a.backlog.length < fuel := by
  induction fuel generalizing s a with
  | zero => cases hflush
  | succ fuel ih =>
    rw [flushBacklog_succ] at hflush
    cases hbacklog : a.backlog with
    | nil => exact Nat.succ_pos fuel
    | cons job backlog =>
      obtain ⟨s', hget, hrepr⟩ := getBacklogLinked_cons h hbacklog
      rw [hget] at hflush
      exact Nat.succ_lt_succ (ih (hrepr.complete job) hflush)

/-- The items of different works are completed once each. -/
theorem filter_complete {items : List Job} (hnodup : (items.map Job.work).Nodup)
    (hw : w ∈ items.map Job.work) :
    (items.map fun job => WorkEvent.complete job.work).filter (·.work = w) = [.complete w] := by
  have hmap : (items.map fun job => WorkEvent.complete job.work) =
      (items.map Job.work).map .complete := by
    rw [List.map_map]
    rfl
  have hwork : (fun e : WorkEvent => decide (e.work = w)) ∘ .complete = (· == w) := by
    funext v
    rfl
  rw [hmap, List.filter_map, hwork, List.filter_beq, List.count_eq_one_of_mem hnodup hw]
  rfl

/-- Nobody owns a flushed work, and the others stay where they are. -/
theorem ConserveInv.flushed (h : ConserveInv a) : ConserveInv a.flushed := by
  refine ⟨List.nodup_nil, ?_, ?_⟩
  · refine h.unique.mono fun p w hown => ?_
    cases p with
    | adder k => exact hown
    | backlog => exact absurd hown List.not_mem_nil
    | worker i => exact hown
  · show a.backlogCount - a.backlog.length = 0
    rw [h.count_eq, Int.sub_self]

/-- A flushed work that no adder is about to enqueue is nowhere. -/
theorem released_flushed (h : ConserveInv a) (hw : w ∈ a.backlog.map Job.work)
    (hadders : ∀ k < a.numAdders, (a.adders k).job.map Job.work ≠ some w) :
    a.flushed.Released w := by
  intro p job hhas heq
  cases p with
  | adder k => exact hadders k hhas.1 (by rw [show (a.adders k).job = _ from hhas.2, ← heq]; rfl)
  | backlog => exact absurd hhas List.not_mem_nil
  | worker i =>
    -- the backlog was the only owner
    have hheld : a.Owns (.worker i) w :=
      ⟨hhas.1, by rw [show (a.workers i).pc.carried = _ from hhas.2, ← heq]; rfl⟩
    cases h.unique (.worker i) .backlog w hheld hw

end

/-! ## Results -/

/-- In every state that the threads can reach, `flush_backlog` ends after one round for each
    queued work and leaves an empty list: the queued works, and no others, become COMPLETE in
    their order, without a call of `complete_fn`; every thread stays where it is. -/
theorem workqueue_flush_drains (numWorkers numAdders : Nat) (works : Nat → Work) (mem : NodeMem)
    (as : List WqAct) (s : LinkedWorkqueue)
    (hmeets : Meets linkedStep AddsUnheld
      (linkedWorkqueueInit numWorkers numAdders works mem) as)
    (hrun : run linkedStep (linkedWorkqueueInit numWorkers numAdders works mem) as = some s) :
    ∃ backlog, ListRepr s.mem s.queue.list backlog ∧ ∀ fuel, backlog.length < fuel →
      ∃ t, flushBacklog fuel s = some t ∧ ListRepr t.mem t.queue.list [] ∧
        t.wq.backlogCount = 0 ∧ t.left = s.left ++ backlog ∧
        (∀ w, t.wq.works w = if w ∈ backlog then
          { s.wq.works w with status := .complete } else s.wq.works w) ∧
        t.wq.log = (backlog.map .complete).reverse ++ s.wq.log ∧
        t.wq.workers = s.wq.workers ∧ t.wq.adders = s.wq.adders := by
  obtain ⟨a, _, h, hinv⟩ := linkedRun_refines
    (linkedWorkqueueInit_repr numWorkers numAdders works mem)
    (workqueueInit_conserve numWorkers numAdders works) hmeets hrun
  refine ⟨a.backlog.map Job.work, h.list, fun fuel hfuel => ?_⟩
  rw [List.length_map] at hfuel
  obtain ⟨t, hflush, hrepr, hentered⟩ := flushBacklog_spec h hfuel
  have horder : t.left = s.left ++ a.backlog.map Job.work := by
    have hleft := hrepr.order
    rw [hentered, h.order] at hleft
    exact (hleft.trans (List.append_nil _)).symm
  refine ⟨t, hflush, hrepr.list, ?_, horder, ?_, ?_, ?_, ?_⟩
  · rw [hrepr.wq_eq]
    exact hinv.flushed.count_eq
  · rw [hrepr.wq_eq, h.wq_eq]
    exact fun _ => rfl
  · rw [hrepr.wq_eq, h.wq_eq, List.map_map]
    rfl
  · rw [hrepr.wq_eq, h.wq_eq]
    rfl
  · rw [hrepr.wq_eq, h.wq_eq]
    rfl

/-- Two works are added, and the worker takes none. -/
def queuedRun : List WqAct :=
  [.add 0 5, .adder 0, .adder 0, .adder 0, .worker 0, .adder 0, .adder 0, .add 0 6, .adder 0,
    .adder 0, .adder 0, .adder 0, .adder 0]

theorem workqueue_flush_drains_two : ∃ s backlog t,
    run linkedStep (linkedWorkqueueInit 1 1 (fun _ => ⟨.new, 0, true, true⟩)
      fun _ => ⟨none, none⟩) queuedRun = some s ∧
    ListRepr s.mem s.queue.list backlog ∧ flushBacklog (backlog.length + 1) s = some t ∧
    t.wq.backlogCount = 0 ∧ t.left = backlog ∧
    t.wq.log = (backlog.map .complete).reverse ++ [.added 6, .added 5] := by
  obtain ⟨backlog, hlist, hflush⟩ := workqueue_flush_drains 1 1
    (fun _ => ⟨.new, 0, true, true⟩) (fun _ => ⟨none, none⟩) queuedRun _ (by decide) rfl
  obtain ⟨t, ht, _, hcount, hleft, _, hlog, _⟩ := hflush _ (Nat.lt_succ_self _)
  exact ⟨_, backlog, t, rfl, hlist, ht, hcount, hleft, hlog⟩

/-- Whatever the threads do after `flush_backlog`, a flushed work stays COMPLETE, and is
    neither run nor completed again, unless some thread adds it or was adding it. -/
theorem workqueue_flushed_stay (numWorkers numAdders : Nat) (works : Nat → Work) (mem : NodeMem)
    (as bs : List WqAct) (s t u : LinkedWorkqueue) (fuel w : Nat)
    (hmeets : Meets linkedStep AddsUnheld
      (linkedWorkqueueInit numWorkers numAdders works mem) as)
    (hrun : run linkedStep (linkedWorkqueueInit numWorkers numAdders works mem) as = some s)
    (hqueued : s.Queued w) (hflush : flushBacklog fuel s = some t)
    (hadding : ∀ k < s.wq.numAdders, (s.wq.adders k).job.map Job.work ≠ some w)
    (hadd : ∀ k, .add k w ∉ bs) (hmeets' : Meets linkedStep AddsUnheld t bs)
    (hrun' : run linkedStep t bs = some u) :
    (u.wq.works w).status = .complete ∧ ¬ u.Queued w ∧ (∀ i, ¬ u.wq.HeldBy i w) ∧
      u.wq.log.filter (·.work = w) = .complete w :: s.wq.log.filter (·.work = w) := by
  obtain ⟨a, _, h, hinv⟩ := linkedRun_refines
    (linkedWorkqueueInit_repr numWorkers numAdders works mem)
    (workqueueInit_conserve numWorkers numAdders works) hmeets hrun
  obtain ⟨t', hflush', hrepr, _⟩ := flushBacklog_spec h (flushBacklog_length h hflush)
  obtain rfl : t' = t := Option.some.inj (hflush'.symm.trans hflush)
  have hw : w ∈ a.backlog.map Job.work := (h.queued_iff w).mp hqueued
  have hnone : a.flushed.Released w := by
    apply released_flushed hinv hw
    rw [h.wq_eq] at hadding
    exact hadding
  obtain ⟨a', hrun₂, h', _⟩ := linkedRun_refines hrepr hinv.flushed hmeets' hrun'
  have halone := wqRun_leftAlone hnone hadd hrun₂
  refine ⟨?_, ?_, ?_, ?_⟩
  · rw [h'.wq_eq]
    refine halone.status.trans ?_
    show (if w ∈ a.backlog.map Job.work then _ else _ : Work).status = _
    rw [if_pos hw]
  · rw [h'.queued_iff]
    intro hmem
    obtain ⟨job, hjob, hwork⟩ := List.mem_map.mp hmem
    exact halone.released .backlog job hjob hwork
  · rw [h'.wq_eq]
    intro i hheld
    obtain ⟨job, hjob, hwork⟩ := Option.map_eq_some_iff.mp hheld.2
    exact halone.released (.worker i) job ⟨hheld.1, hjob⟩ hwork
  · rw [h'.wq_eq, h.wq_eq]
    refine halone.events.trans ?_
    show ((a.backlog.map fun job => WorkEvent.complete job.work).reverse ++ a.log).filter _ = _
    rw [List.filter_append, List.filter_reverse, filter_complete hinv.backlog_nodup hw]
    rfl

/-- The worker wakes up after the flush, and finds no work. -/
theorem workqueue_flushed_stay_woken : ∃ s t u,
    run linkedStep (linkedWorkqueueInit 1 1 (fun _ => ⟨.new, 0, true, true⟩)
      fun _ => ⟨none, none⟩) queuedRun = some s ∧ flushBacklog 3 s = some t ∧
    run linkedStep t (List.replicate 4 (.worker 0)) = some u ∧
    (u.wq.works 5).status = .complete ∧
    u.wq.log.filter (·.work = 5) = [.complete 5, .added 5] := by
  obtain ⟨hstatus, _, _, hlog⟩ := workqueue_flushed_stay 1 1 (fun _ => ⟨.new, 0, true, true⟩)
    (fun _ => ⟨none, none⟩) queuedRun (List.replicate 4 (.worker 0)) _ _ _ 3 5 (by decide) rfl
    (by decide) rfl (by decide) (by simp) (by decide) rfl
  exact ⟨_, _, _, rfl, rfl, rfl, hstatus, hlog⟩

end CUtils
