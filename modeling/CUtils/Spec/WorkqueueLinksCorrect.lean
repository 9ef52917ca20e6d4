import CUtils.Native.WorkqueueLinks
import CUtils.Spec.ListCorrect
import CUtils.Spec.WorkqueueComplete

/-!
# Works are neither lost nor duplicated

As long as an adder enqueues only works that are neither queued nor held by a worker, the
node links of the backlog always form a list, and the linked queue and the list of items
of `CUtils.Native.Workqueue` do the same.

- `ConserveInv`: every work is held by one worker at most, or once in the backlog.
- `linkedRun_refines`: every such run of the linked machine is a run of the other one.
- `workqueue_conserves`: what holds in every state of such a run.

No condition is put on cancel requests, so the results do not depend on how often a
cancelled work is run.
-/

namespace CUtils

open StepSystem

/-! ## Who holds a work -/

/-- The worker has taken the work from the backlog, and has neither returned from
    `complete_fn` nor enqueued it again. -/
def Workqueue.HeldBy (a : Workqueue) (i w : Nat) : Prop :=
  i < a.numWorkers ∧ (a.workers i).pc.carried.map Job.work = some w

/-- The work is queued, or held by a worker. -/
def Workqueue.Owns (a : Workqueue) : Place → Nat → Prop
  | .adder _, _ => False
  | .backlog, w => w ∈ a.backlog.map Job.work
  | .worker i, w => a.HeldBy i w

/-- What holds while only works that nobody owns are enqueued by adders. -/
structure ConserveInv (a : Workqueue) : Prop where
  backlog_nodup : (a.backlog.map Job.work).Nodup
  unique : UniqueOwner a.Owns
  count_eq : a.backlogCount = a.backlog.length

/-- The same machine with another list of items. -/
def Workqueue.withBacklog (a : Workqueue) (backlog : List Job) : Workqueue := { a with backlog }

/-- An access outside of the critical sections, of the worker `i` or of another thread:
    the backlog stays, no worker gets a work, and no other worker moves. -/
structure QuietStep (i : Option Nat) (a a' : Workqueue) : Prop where
  backlog : a'.backlog = a.backlog
  backlogCount : a'.backlogCount = a.backlogCount
  numWorkers : a'.numWorkers = a.numWorkers
  pcs : ∀ j, some j ≠ i → (a'.workers j).pc = (a.workers j).pc
  carried : ∀ j job, (a'.workers j).pc.carried = some job → (a.workers j).pc.carried = some job
  jobs : ∀ j job, (a'.workers j).pc.job = some job → (a.workers j).pc.job = some job

section

variable {a a' : Workqueue} {i k w : Nat} {job : Job}

theorem QuietStep.of_pcs {o : Option Nat} (hbacklog : a'.backlog = a.backlog)
    (hcount : a'.backlogCount = a.backlogCount) (hnum : a'.numWorkers = a.numWorkers)
    (hpcs : ∀ j, (a'.workers j).pc = (a.workers j).pc) : QuietStep o a a' :=
  ⟨hbacklog, hcount, hnum, fun j _ => hpcs j, fun j job h => by rwa [← hpcs j],
    fun j job h => by rwa [← hpcs j]⟩

/-- A worker moves on with the work that it has, or without it. -/
theorem QuietStep.setWorker (h : QuietStep none a a') {x : Worker}
    (hcarried : ∀ job, x.pc.carried = some job → (a.workers i).pc.carried = some job)
    (hjob : ∀ job, x.pc.job = some job → (a.workers i).pc.job = some job) :
    QuietStep (some i) a (a'.setWorker i x) := by
  -- one argument for the two ways to have a work
  have htaken : ∀ taken : WorkerPc → Option Job,
      (∀ job, taken x.pc = some job → taken (a.workers i).pc = some job) → ∀ j job,
      taken ((a'.setWorker i x).workers j).pc = some job → taken (a.workers j).pc = some job := by
    intro taken hx j job hj
    by_cases hji : j = i
    · rw [hji, Workqueue.setWorker_self] at hj
      rw [hji]
      exact hx job hj
    · rw [Workqueue.setWorker_of_ne a' x hji, h.pcs j (Option.some_ne_none j)] at hj
      exact hj
  refine ⟨h.backlog, h.backlogCount, h.numWorkers, ?_, htaken _ hcarried, htaken _ hjob⟩
  intro j hj
  have hne : j ≠ i := fun heq => hj (congrArg some heq)
  rw [Workqueue.setWorker_of_ne a' x hne, h.pcs j (Option.some_ne_none j)]

/-- A worker moves on with the work that it has. -/
theorem QuietStep.setPc (h : QuietStep none a a') {pc pc' : WorkerPc}
    (hpc : (a.workers i).pc = pc) (hcarried : pc'.carried = pc.carried)
    (hjob : pc'.job = pc.job) : QuietStep (some i) a (a'.setPc i pc') := by
  subst hpc
  apply h.setWorker
  · intro job hpc'
    rw [← hcarried]
    exact hpc'
  · intro job hpc'
    rw [← hjob]
    exact hpc'

/-- A quiet step gives no work a new owner. -/
theorem QuietStep.conserve {o : Option Nat} (h : QuietStep o a a') (hinv : ConserveInv a) :
    ConserveInv a' := by
  refine ⟨?_, ?_, ?_⟩
  · rw [h.backlog]
    exact hinv.backlog_nodup
  · refine hinv.unique.mono fun p v hown => ?_
    cases p with
    | adder j => exact hown
    | backlog =>
      rw [Workqueue.Owns, h.backlog] at hown
      exact hown
    | worker j =>
      obtain ⟨hj, hheld⟩ := hown
      obtain ⟨job, hjob, hwork⟩ := Option.map_eq_some_iff.mp hheld
      rw [h.numWorkers] at hj
      exact ⟨hj, Option.map_eq_some_iff.mpr ⟨job, h.carried j job hjob, hwork⟩⟩
  · rw [h.backlogCount, h.backlog]
    exact hinv.count_eq

/-! ## The accesses outside of the critical sections -/

/-- The wakeup of `put_backlog` reads no backlog. -/
theorem putBacklog_quiet {p : PutPc} (hp : ∀ job, p ≠ .enqueue job) (backlog : List Job) :
    putBacklog (a.withBacklog backlog) p =
        ((putBacklog a p).1.withBacklog backlog, (putBacklog a p).2) ∧
      (putBacklog a p).1.backlogCount = a.backlogCount := by
  cases p with
  | enqueue job => exact absurd rfl (hp job)
  | scan j =>
    by_cases hj : j < a.numWorkers
    · by_cases hidle : (a.workers j).state = .idle
      · simp [putBacklog, Workqueue.withBacklog, hj, hidle]
      · simp [putBacklog, Workqueue.withBacklog, hj, hidle]
    · simp [putBacklog, Workqueue.withBacklog, hj]
  | signal j => exact ⟨rfl, rfl⟩

/-- The call of `complete_fn` leaves the backlog and the workers. -/
theorem completeWorkFn_quiet (a : Workqueue) (job : Job) (backlog : List Job) :
    completeWorkFn (a.withBacklog backlog) job = (completeWorkFn a job).withBacklog backlog ∧
      QuietStep none a (completeWorkFn a job) := by
  have hworks : (a.withBacklog backlog).works = a.works := rfl
  unfold completeWorkFn
  rw [hworks]
  split <;> exact ⟨rfl, .of_pcs rfl rfl rfl fun _ => rfl⟩

/-- An access of a worker outside of the critical sections. -/
theorem workqueueFactory_quiet (hget : (a.workers i).pc ≠ .get)
    (hput : ∀ job, (a.workers i).pc ≠ .put (.enqueue job)) (backlog : List Job) :
    workqueueFactory (a.withBacklog backlog) i =
        (workqueueFactory a i).map (Workqueue.withBacklog · backlog) ∧
      ∀ a', workqueueFactory a i = some a' → QuietStep (some i) a a' := by
  have hrefl : QuietStep none a a := .of_pcs rfl rfl rfl fun _ => rfl
  have hpcs : (a.withBacklog backlog).workers = a.workers := rfl
  unfold workqueueFactory
  cases hpc : (a.workers i).pc with
  | start | run | idle =>
    simp only [hpcs, hpc]
    refine ⟨rfl, fun a' h => ?_⟩
    obtain rfl := Option.some.inj h
    exact hrefl.setWorker (fun _ hjob => by cases hjob) fun _ hjob => by cases hjob
  | wait =>
    simp only [hpcs, hpc]
    split
    · exact ⟨rfl, fun a' h => by cases h⟩
    · refine ⟨rfl, fun a' h => ?_⟩
      obtain rfl := Option.some.inj h
      exact hrefl.setWorker (fun _ hjob => by cases hjob) fun _ hjob => by cases hjob
  | get => exact absurd hpc hget
  | testCancel job =>
    simp only [hpcs, hpc]
    refine ⟨rfl, fun a' h => ?_⟩
    obtain rfl := Option.some.inj h
    apply hrefl.setPc hpc
    · split <;> rfl
    · split <;> rfl
  | cancelStatus job | progress job | call job =>
    simp only [hpcs, hpc]
    refine ⟨rfl, fun a' h => ?_⟩
    obtain rfl := Option.some.inj h
    refine QuietStep.setPc ?_ hpc rfl rfl
    exact .of_pcs rfl rfl rfl fun _ => rfl
  | completeStatus job =>
    simp only [hpcs, hpc]
    refine ⟨rfl, fun a' h => ?_⟩
    obtain rfl := Option.some.inj h
    refine QuietStep.setWorker ?_ ?_ fun _ hjob => by cases hjob
    · exact .of_pcs rfl rfl rfl fun _ => rfl
    · rw [hpc]
      exact fun _ hjob => hjob
  | cancelFn job =>
    obtain ⟨hcomm, hsame⟩ := completeWorkFn_quiet a job backlog
    simp only [hpcs, hpc, hcomm]
    refine ⟨rfl, fun a' h => ?_⟩
    obtain rfl := Option.some.inj h
    exact hsame.setPc hpc rfl rfl
  | completeFn job =>
    obtain ⟨hcomm, hsame⟩ := completeWorkFn_quiet a job backlog
    simp only [hpcs, hpc, hcomm]
    refine ⟨rfl, fun a' h => ?_⟩
    obtain rfl := Option.some.inj h
    exact hsame.setWorker (fun _ hjob => by cases hjob) fun _ hjob => by cases hjob
  | running job =>
    simp only [hpcs, hpc]
    exact ⟨rfl, fun a' h => by cases h⟩
  | test job rc =>
    simp only [hpcs, hpc]
    refine ⟨rfl, fun a' h => ?_⟩
    obtain rfl := Option.some.inj h
    apply hrefl.setPc hpc
    · split <;> rfl
    · split <;> rfl
  | put p =>
    have hp : ∀ job, p ≠ .enqueue job := fun job heq => hput job (by rw [hpc, heq])
    obtain ⟨hcomm, hcount⟩ := putBacklog_quiet hp backlog (a := a)
    obtain ⟨hsame, hnext⟩ := putBacklog_sameJobs a hp
    simp only [hpcs, hpc, hcomm]
    refine ⟨rfl, fun a' h => ?_⟩
    obtain rfl := Option.some.inj h
    have hnone : QuietStep none a (putBacklog a p).1 :=
      .of_pcs hsame.backlog hcount hsame.numWorkers hsame.pcs
    -- the wakeup holds no work
    revert hnext
    cases (putBacklog a p).2 with
    | none =>
      exact fun _ => hnone.setWorker (fun _ hjob => by cases hjob) fun _ hjob => by cases hjob
    | some q =>
      cases q with
      | enqueue job' => exact fun hnext => absurd rfl (hnext job')
      | scan j | signal j =>
        exact fun _ => hnone.setWorker (fun _ hjob => by cases hjob) fun _ hjob => by cases hjob

/-- An access of an adder outside of the critical section. -/
theorem workqueueAddWork_quiet (hput : ∀ job, a.adders k ≠ .put (.enqueue job))
    (backlog : List Job) :
    workqueueAddWork (a.withBacklog backlog) k =
        (workqueueAddWork a k).map (Workqueue.withBacklog · backlog) ∧
      ∀ a', workqueueAddWork a k = some a' → QuietStep none a a' := by
  have hadders : (a.withBacklog backlog).adders = a.adders := rfl
  unfold workqueueAddWork
  cases hpc : a.adders k with
  | idle =>
    simp only [hadders, hpc]
    exact ⟨rfl, fun a' h => by cases h⟩
  | requests job | status job =>
    simp only [hadders, hpc]
    refine ⟨rfl, fun a' h => ?_⟩
    obtain rfl := Option.some.inj h
    exact .of_pcs rfl rfl rfl fun _ => rfl
  | put p =>
    have hp : ∀ job, p ≠ .enqueue job := fun job heq => hput job (by rw [hpc, heq])
    obtain ⟨hcomm, hcount⟩ := putBacklog_quiet hp backlog (a := a)
    obtain ⟨hsame, _⟩ := putBacklog_sameJobs a hp
    simp only [hadders, hpc, hcomm]
    refine ⟨rfl, fun a' h => ?_⟩
    obtain rfl := Option.some.inj h
    exact .of_pcs hsame.backlog hcount hsame.numWorkers hsame.pcs

/-- The return of a `work_fn`. -/
theorem workReturns_quiet (rc : Int) (backlog : List Job) :
    wqStep (a.withBacklog backlog) (.workReturns i rc) =
        (wqStep a (.workReturns i rc)).map (Workqueue.withBacklog · backlog) ∧
      ∀ a', wqStep a (.workReturns i rc) = some a' → QuietStep (some i) a a' := by
  have hpcs : (a.withBacklog backlog).workers = a.workers := rfl
  have hnum : (a.withBacklog backlog).numWorkers = a.numWorkers := rfl
  simp only [wqStep, hpcs, hnum]
  split
  · split
    · next job hpc =>
      refine ⟨rfl, fun a' h => ?_⟩
      obtain rfl := Option.some.inj h
      exact QuietStep.setPc (.of_pcs rfl rfl rfl fun _ => rfl) hpc rfl rfl
    · exact ⟨rfl, fun a' h => by cases h⟩
  · exact ⟨rfl, fun a' h => by cases h⟩

/-- The call of `workqueue_add_work`. -/
theorem add_quiet (backlog : List Job) :
    wqStep (a.withBacklog backlog) (.add k w) =
        (wqStep a (.add k w)).map (Workqueue.withBacklog · backlog) ∧
      ∀ a', wqStep a (.add k w) = some a' → QuietStep none a a' := by
  have hadders : (a.withBacklog backlog).adders = a.adders := rfl
  have hnum : (a.withBacklog backlog).numAdders = a.numAdders := rfl
  have hworks : (a.withBacklog backlog).works = a.works := rfl
  simp only [wqStep, hadders, hnum, hworks]
  split
  · split
    · refine ⟨rfl, fun a' h => ?_⟩
      obtain rfl := Option.some.inj h
      exact .of_pcs rfl rfl rfl fun _ => rfl
    · refine ⟨rfl, fun a' h => ?_⟩
      obtain rfl := Option.some.inj h
      exact .of_pcs rfl rfl rfl fun _ => rfl
  · exact ⟨rfl, fun a' h => by cases h⟩

/-- A cancel request. -/
theorem cancel_quiet (backlog : List Job) :
    wqStep (a.withBacklog backlog) (.cancel w) =
        (wqStep a (.cancel w)).map (Workqueue.withBacklog · backlog) ∧
      ∀ a', wqStep a (.cancel w) = some a' → QuietStep none a a' := by
  refine ⟨rfl, fun a' h => ?_⟩
  obtain rfl := Option.some.inj h
  exact .of_pcs rfl rfl rfl fun _ => rfl

/-! ## The critical sections on the list of items -/

theorem owns_setPc_of_ne {pc : WorkerPc} {p : Place} (hp : p ≠ .worker i)
    (h : (a.setPc i pc).Owns p w) : a.Owns p w := by
  cases p with
  | adder j => exact h
  | backlog => exact h
  | worker j =>
    have hji : j ≠ i := fun heq => hp (heq ▸ rfl)
    rw [Workqueue.Owns, Workqueue.HeldBy, Workqueue.setPc, Workqueue.setWorker_of_ne a _ hji] at h
    exact h

theorem owns_setPc_self {pc : WorkerPc} (h : (a.setPc i pc).Owns (.worker i) w) :
    i < a.numWorkers ∧ pc.carried.map Job.work = some w := by
  rw [Workqueue.Owns, Workqueue.HeldBy, Workqueue.setPc, Workqueue.setWorker_self] at h
  exact h

/-- `get_backlog` hands the first item to the worker. -/
theorem ConserveInv.take (h : ConserveInv a) {backlog : List Job} (hbacklog : a.backlog = job :: backlog) :
    ConserveInv (Workqueue.setPc { a with backlog, backlogCount := a.backlogCount - 1 } i
      (.testCancel job)) := by
  have hnodup := h.backlog_nodup
  rw [hbacklog, List.map_cons, List.nodup_cons] at hnodup
  refine ⟨hnodup.2, ?_, ?_⟩
  · have hold : a.Owns .backlog job.work := by
      rw [Workqueue.Owns, hbacklog]
      exact List.mem_cons_self
    -- the owner of the first item changes from the backlog to the worker
    refine h.unique.move (q := .worker i) hold fun p v hown => ?_
    by_cases hp : p = .worker i
    · subst hp
      exact .inr ⟨rfl, (Option.some.inj (owns_setPc_self hown).2).symm⟩
    · have hrest := owns_setPc_of_ne hp hown
      refine .inl ?_
      cases p with
      | adder j => exact ⟨hrest, fun heq => by cases heq.1⟩
      | backlog =>
        have hmem : v ∈ backlog.map Job.work := hrest
        refine ⟨?_, fun heq => hnodup.1 (heq.2 ▸ hmem)⟩
        rw [Workqueue.Owns, hbacklog]
        exact List.mem_cons_of_mem _ hmem
      | worker j => exact ⟨hrest, fun heq => by cases heq.1⟩
  · have hcount := h.count_eq
    rw [hbacklog, List.length_cons] at hcount
    show a.backlogCount - 1 = backlog.length
    omega

/-- Who owns what after an enqueue. -/
theorem owns_enqueue {count : Int} {p : Place}
    (h : Workqueue.Owns { a with backlog := a.backlog ++ [job], backlogCount := count } p w) :
    (p = .backlog ∧ w = job.work) ∨ a.Owns p w := by
  cases p with
  | adder j => exact .inr h
  | backlog =>
    have hmem : w ∈ (a.backlog ++ [job]).map Job.work := h
    rw [List.map_append, List.mem_append] at hmem
    rcases hmem with hmem | hmem
    · exact .inr hmem
    · exact .inl ⟨rfl, List.mem_singleton.mp hmem⟩
  | worker j => exact .inr h

/-- `put_backlog` of a work that is not in the backlog. -/
theorem ConserveInv.put (h : ConserveInv a) (hnew : job.work ∉ a.backlog.map Job.work)
    (hbacklog : a'.backlog = a.backlog ++ [job]) (hcount : a'.backlogCount = a.backlogCount + 1)
    (hunique : UniqueOwner a'.Owns) : ConserveInv a' := by
  refine ⟨?_, hunique, ?_⟩
  · rw [hbacklog, List.map_append]
    refine List.Nodup.append h.backlog_nodup (List.nodup_singleton _) ?_
    intro v hv hv'
    rw [List.mem_singleton.mp hv'] at hv
    exact hnew hv
  · rw [hcount, hbacklog, List.length_append, List.length_singleton, h.count_eq]
    rfl

/-- A worker enqueues the work that it holds. -/
theorem ConserveInv.putWorker (h : ConserveInv a) (hi : i < a.numWorkers)
    (hpc : (a.workers i).pc = .put (.enqueue job)) :
    job.work ∉ a.backlog.map Job.work ∧
      ConserveInv (Workqueue.setPc { a with
        backlog := a.backlog ++ [job], backlogCount := a.backlogCount + 1 } i (.put (.scan 0))) := by
  have hold : a.Owns (.worker i) job.work := ⟨hi, by rw [hpc]; rfl⟩
  -- a work that a worker holds is not in the backlog as well
  have hnew : job.work ∉ a.backlog.map Job.work := by
    intro hmem
    cases h.unique (.worker i) .backlog job.work hold hmem
  refine ⟨hnew, h.put hnew rfl rfl ?_⟩
  refine h.unique.move (q := .backlog) hold fun p v hown => ?_
  by_cases hp : p = .worker i
  · subst hp
    cases (owns_setPc_self hown).2
  · rcases owns_enqueue (owns_setPc_of_ne hp hown) with hbacklog | hrest
    · exact .inr hbacklog
    · exact .inl ⟨hrest, fun heq => hp heq.1⟩

/-- An adder enqueues a work that nobody owns. -/
theorem ConserveInv.putAdder (h : ConserveInv a) (hnone : ∀ p, ¬ a.Owns p job.work) :
    ConserveInv (Workqueue.setAdder { a with
      backlog := a.backlog ++ [job], backlogCount := a.backlogCount + 1 } k (.put (.scan 0))) := by
  refine h.put (hnone .backlog) rfl rfl ?_
  refine h.unique.create (q := .backlog) hnone fun p v hown => ?_
  have hown' : Workqueue.Owns { a with
      backlog := a.backlog ++ [job], backlogCount := a.backlogCount + 1 } p v := by
    cases p <;> exact hown
  exact (owns_enqueue hown').symm

end

/-! ## The linked machine -/

/-- The work has entered the backlog more often than it has left it. -/
def LinkedWorkqueue.Queued (s : LinkedWorkqueue) (w : Nat) : Prop :=
  s.left.count w < s.entered.count w

instance (s : LinkedWorkqueue) (w : Nat) : Decidable (s.Queued w) :=
  inferInstanceAs (Decidable (_ < _))

/-- The work that an adder is about to enqueue is neither queued nor held by a worker. -/
def LinkedWorkqueue.Enqueuable (s : LinkedWorkqueue) : AdderPc → Prop
  | .put (.enqueue job) => ¬ s.Queued job.work ∧
    ∀ i < s.wq.numWorkers, (s.wq.workers i).pc.carried.map Job.work ≠ some job.work
  | .put (.scan _) | .put (.signal _) | .idle | .requests _ | .status _ => True

instance (s : LinkedWorkqueue) (pc : AdderPc) : Decidable (s.Enqueuable pc) :=
  match pc with
  | .put (.enqueue _) => inferInstanceAs (Decidable (_ ∧ _))
  | .put (.scan _) | .put (.signal _) | .idle | .requests _ | .status _ => isTrue trivial

/-- Adders only enqueue works that are neither queued nor held by a worker. -/
def AddsUnheld (s : LinkedWorkqueue) : WqAct → Prop
  | .adder k => s.Enqueuable (s.wq.adders k)
  | .worker _ | .workReturns _ _ | .add _ _ | .cancel _ => True

instance (s : LinkedWorkqueue) (act : WqAct) : Decidable (AddsUnheld s act) :=
  match act with
  | .adder k => inferInstanceAs (Decidable (s.Enqueuable (s.wq.adders k)))
  | .worker _ | .workReturns _ _ | .add _ _ | .cancel _ => isTrue trivial

/-- The linked machine `s` has the items of the machine `a` in its queue. -/
structure LinkedRepr (s : LinkedWorkqueue) (a : Workqueue) : Prop where
  wq_eq : s.wq = a.withBacklog []
  list : ListRepr s.mem s.queue.list (a.backlog.map Job.work)
  add_eq : ∀ job ∈ a.backlog, s.addOf job.work = job.add
  order : s.entered = s.left ++ a.backlog.map Job.work

section

variable {s s' : LinkedWorkqueue} {a a' : Workqueue} {i k w : Nat} {job : Job}

/-- A work is queued exactly when it is in the backlog. -/
theorem LinkedRepr.queued_iff (h : LinkedRepr s a) (w : Nat) :
    s.Queued w ↔ w ∈ a.backlog.map Job.work := by
  rw [LinkedWorkqueue.Queued, h.order, List.count_append, ← List.count_pos_iff]
  omega

/-- Steps that leave the backlog. -/
theorem LinkedRepr.of_backlog_eq (h : LinkedRepr s a) (hbacklog : a'.backlog = a.backlog) :
    LinkedRepr { s with wq := a'.withBacklog [] } a' := by
  refine ⟨rfl, ?_, ?_, ?_⟩
  · rw [hbacklog]
    exact h.list
  · rw [hbacklog]
    exact h.add_eq
  · rw [hbacklog]
    exact h.order

/-- A worker moves on. -/
theorem LinkedRepr.setPc (h : LinkedRepr s a) (i : Nat) (pc : WorkerPc) :
    LinkedRepr { s with wq := s.wq.setPc i pc } (a.setPc i pc) := by
  refine ⟨?_, h.list, h.add_eq, h.order⟩
  rw [h.wq_eq]
  rfl

/-- An adder moves on. -/
theorem LinkedRepr.setAdder (h : LinkedRepr s a) (k : Nat) (pc : AdderPc) :
    LinkedRepr { s with wq := s.wq.setAdder k pc } (a.setAdder k pc) := by
  refine ⟨?_, h.list, h.add_eq, h.order⟩
  rw [h.wq_eq]
  rfl

/-- The enqueue of a work whose node is not in the list. -/
theorem putBacklogLinked_repr (h : LinkedRepr s a) (hnew : job.work ∉ a.backlog.map Job.work) :
    LinkedRepr (putBacklogLinked s job) { a with
      backlog := a.backlog ++ [job], backlogCount := a.backlogCount + 1 } := by
  refine ⟨?_, ?_, ?_, ?_⟩
  · show { s.wq with backlogCount := s.wq.backlogCount + 1 } = _
    rw [h.wq_eq]
    rfl
  · show ListRepr _ _ ((a.backlog ++ [job]).map Job.work)
    rw [List.map_append]
    exact listAppend_spec h.list hnew
  · intro job' hjob'
    show Function.update s.addOf job.work job.add job'.work = job'.add
    rcases List.mem_append.mp hjob' with hold | hself
    · have hne : job'.work ≠ job.work := fun heq => hnew (heq ▸ List.mem_map_of_mem hold)
      rw [Function.update_of_ne hne]
      exact h.add_eq job' hold
    · rw [List.mem_singleton.mp hself, Function.update_self]
  · show s.entered ++ [job.work] = s.left ++ (a.backlog ++ [job]).map Job.work
    rw [h.order, List.map_append, List.append_assoc]
    rfl

/-- The dequeue from an empty backlog. -/
theorem getBacklogLinked_nil (h : LinkedRepr s a) (hbacklog : a.backlog = []) :
    getBacklogLinked s = some (s, none) := by
  have hlist := h.list
  rw [hbacklog] at hlist
  simp only [getBacklogLinked, queueDequeue, listPopleft_nil hlist]
  rfl

/-- The dequeue of the first item. -/
theorem getBacklogLinked_cons (h : LinkedRepr s a) {backlog : List Job}
    (hbacklog : a.backlog = job :: backlog) :
    ∃ s', getBacklogLinked s = some (s', some job) ∧
      LinkedRepr s' { a with backlog, backlogCount := a.backlogCount - 1 } := by
  have hlist := h.list
  have horder := h.order
  rw [hbacklog] at hlist horder
  obtain ⟨mem, list, hpop, hrest⟩ := listPopleft_spec hlist
  have hadd : s.addOf job.work = job.add := h.add_eq job (by rw [hbacklog]; exact List.mem_cons_self)
  refine ⟨{ s with
    wq := { s.wq with backlogCount := s.wq.backlogCount - 1 }, mem, queue := ⟨list⟩,
    left := s.left ++ [job.work] }, ?_, ⟨?_, hrest, ?_, ?_⟩⟩
  · simp only [getBacklogLinked, queueDequeue, hpop, ↓reduceIte, Option.bind_eq_bind,
      Option.bind_some, hadd]
    rfl
  · show { s.wq with backlogCount := s.wq.backlogCount - 1 } = _
    rw [h.wq_eq]
    rfl
  · intro job' hjob'
    apply h.add_eq
    rw [hbacklog]
    exact List.mem_cons_of_mem job hjob'
  · show s.entered = s.left ++ [job.work] ++ backlog.map Job.work
    rw [horder, List.append_assoc]
    rfl

/-- What a step of the linked machine has in common with the step of the other machine:
    the relation and the invariant hold again, and only the worker that steps moves. -/
structure LinkedNext (act : WqAct) (s' : LinkedWorkqueue) (a a' : Workqueue) : Prop where
  step : wqStep a act = some a'
  repr : LinkedRepr s' a'
  conserve : ConserveInv a'
  pcs : ∀ j, act ≠ .worker j → (∀ rc, act ≠ .workReturns j rc) →
    (a'.workers j).pc = (a.workers j).pc

/-- An access outside of the critical sections. -/
theorem LinkedNext.of_quiet {act : WqAct} {o : Option Nat} {r : Option Workqueue}
    (h : LinkedRepr s a) (hinv : ConserveInv a)
    (hquiet : r = (wqStep a act).map (Workqueue.withBacklog · []) ∧
      ∀ a', wqStep a act = some a' → QuietStep o a a')
    (hmoves : ∀ j, some j = o → act = .worker j ∨ ∃ rc, act = .workReturns j rc)
    (hstep : r.map (fun wq => { s with wq }) = some s') :
    ∃ a', LinkedNext act s' a a' := by
  rw [hquiet.1, Option.map_map, Option.map_eq_some_iff] at hstep
  obtain ⟨a', ha', rfl⟩ := hstep
  have hq := hquiet.2 a' ha'
  refine ⟨a', ha', h.of_backlog_eq hq.backlog, hq.conserve hinv, fun j hworker hreturns => ?_⟩
  apply hq.pcs j
  intro ho
  rcases hmoves j ho with heq | ⟨rc, heq⟩
  · exact hworker heq
  · exact hreturns rc heq

/-- A worker that moves on moves no other one. -/
theorem pc_setPc_of_ne {a : Workqueue} {i j : Nat} (pc : WorkerPc) (h : WqAct.worker i ≠ .worker j) :
    ((a.setPc i pc).workers j).pc = (a.workers j).pc := by
  have hji : j ≠ i := fun heq => h (by rw [heq])
  rw [Workqueue.setPc, Workqueue.setWorker_of_ne a _ hji]

/-- An access of a worker. -/
theorem workqueueFactoryLinked_next (h : LinkedRepr s a) (hinv : ConserveInv a)
    (hi : i < a.numWorkers) (hstep : workqueueFactoryLinked s i = some s') :
    ∃ a', LinkedNext (.worker i) s' a a' := by
  have hpcs : s.wq.workers = a.workers := by rw [h.wq_eq]; rfl
  have hwq : wqStep a (.worker i) = workqueueFactory a i := if_pos hi
  unfold workqueueFactoryLinked at hstep
  rw [hpcs] at hstep
  split at hstep
  · -- `get_backlog`
    rename_i hpc
    cases hbacklog : a.backlog with
    | nil =>
      have hfactory : workqueueFactory a i = some (a.setPc i .idle) := by
        simp only [workqueueFactory, hpc, hbacklog]
      simp only [getBacklogLinked_nil h hbacklog, Option.bind_eq_bind, Option.bind_some] at hstep
      obtain rfl := Option.some.inj hstep
      have hquiet : QuietStep (some i) a (a.setPc i .idle) :=
        QuietStep.setWorker (.of_pcs rfl rfl rfl fun _ => rfl) (fun _ hjob => by cases hjob)
          fun _ hjob => by cases hjob
      exact ⟨_, hwq.trans hfactory, h.setPc i .idle, hquiet.conserve hinv,
        fun j hj _ => pc_setPc_of_ne _ hj⟩
    | cons job backlog =>
      have hfactory : workqueueFactory a i = some (Workqueue.setPc { a with
          backlog, backlogCount := a.backlogCount - 1 } i (.testCancel job)) := by
        simp only [workqueueFactory, hpc, hbacklog]
        rfl
      obtain ⟨s₁, hget, hrepr⟩ := getBacklogLinked_cons h hbacklog
      simp only [hget, Option.bind_eq_bind, Option.bind_some] at hstep
      obtain rfl := Option.some.inj hstep
      exact ⟨_, hwq.trans hfactory, hrepr.setPc i _, hinv.take hbacklog,
        fun j hj _ => pc_setPc_of_ne _ hj⟩
  · -- `put_backlog`
    rename_i job hpc
    have hfactory : workqueueFactory a i = some (Workqueue.setPc { a with
        backlog := a.backlog ++ [job], backlogCount := a.backlogCount + 1 } i
        (.put (.scan 0))) := by
      simp only [workqueueFactory, hpc, putBacklog]
    obtain rfl := Option.some.inj hstep
    obtain ⟨hnew, hconserve⟩ := hinv.putWorker hi hpc
    exact ⟨_, hwq.trans hfactory, (putBacklogLinked_repr h hnew).setPc i _, hconserve,
      fun j hj _ => pc_setPc_of_ne _ hj⟩
  · -- an access outside of the critical sections
    rename_i hget hput
    rw [h.wq_eq] at hstep
    refine LinkedNext.of_quiet (o := some i) h hinv ?_ (fun j hj => .inl ?_) hstep
    · rw [hwq]
      exact workqueueFactory_quiet hget hput []
    · rw [Option.some.inj hj]

/-- An access of an adder that enqueues no owned work. -/
theorem workqueueAddWorkLinked_next (h : LinkedRepr s a) (hinv : ConserveInv a)
    (hk : k < a.numAdders) (hcond : s.Enqueuable (s.wq.adders k))
    (hstep : workqueueAddWorkLinked s k = some s') : ∃ a', LinkedNext (.adder k) s' a a' := by
  have hadders : s.wq.adders = a.adders := by rw [h.wq_eq]; rfl
  have hwq : wqStep a (.adder k) = workqueueAddWork a k := if_pos hk
  unfold workqueueAddWorkLinked at hstep
  rw [hadders] at hstep hcond
  split at hstep
  · rename_i job hpc
    have hadd : workqueueAddWork a k = some (Workqueue.setAdder { a with
        backlog := a.backlog ++ [job], backlogCount := a.backlogCount + 1 } k
        (.put (.scan 0))) := by
      simp only [workqueueAddWork, hpc, putBacklog]
    obtain rfl := Option.some.inj hstep
    rw [hpc] at hcond
    obtain ⟨hqueued, hheld⟩ := hcond
    -- the condition of the step, in terms of the list of items
    have hnone : ∀ p, ¬ a.Owns p job.work := by
      intro p hown
      cases p with
      | adder j => exact hown
      | backlog => exact hqueued ((h.queued_iff job.work).mpr hown)
      | worker j =>
        rw [h.wq_eq] at hheld
        exact hheld j hown.1 hown.2
    exact ⟨_, hwq.trans hadd, (putBacklogLinked_repr h (hnone .backlog)).setAdder k _,
      hinv.putAdder hnone, fun _ _ _ => rfl⟩
  · rename_i hput
    rw [h.wq_eq] at hstep
    refine LinkedNext.of_quiet (o := none) h hinv ?_ (fun j hj => by cases hj) hstep
    rw [hwq]
    exact workqueueAddWork_quiet hput []

/-- Every step of the linked machine that enqueues no owned work is a step of the other
    machine. -/
theorem linkedStep_next {act : WqAct} (h : LinkedRepr s a) (hinv : ConserveInv a)
    (hcond : AddsUnheld s act) (hstep : linkedStep s act = some s') :
    ∃ a', LinkedNext act s' a a' := by
  cases act with
  | worker i =>
    simp only [linkedStep, Option.ite_none_right_eq_some] at hstep
    have hnum : s.wq.numWorkers = a.numWorkers := by rw [h.wq_eq]; rfl
    exact workqueueFactoryLinked_next h hinv (hnum ▸ hstep.1) hstep.2
  | workReturns i rc =>
    simp only [linkedStep, h.wq_eq] at hstep
    exact LinkedNext.of_quiet h hinv (workReturns_quiet rc [])
      (fun j hj => .inr ⟨rc, by rw [Option.some.inj hj]⟩) hstep
  | add k w =>
    simp only [linkedStep, h.wq_eq] at hstep
    exact LinkedNext.of_quiet h hinv (add_quiet []) (fun j hj => by cases hj) hstep
  | adder k =>
    simp only [linkedStep, Option.ite_none_right_eq_some] at hstep
    have hnum : s.wq.numAdders = a.numAdders := by rw [h.wq_eq]; rfl
    exact workqueueAddWorkLinked_next h hinv (hnum ▸ hstep.1) hcond hstep.2
  | cancel w =>
    simp only [linkedStep, h.wq_eq] at hstep
    exact LinkedNext.of_quiet h hinv (cancel_quiet []) (fun j hj => by cases hj) hstep

/-! ## Runs -/

theorem linkedWorkqueueInit_repr (numWorkers numAdders : Nat) (works : Nat → Work)
    (mem : NodeMem) :
    LinkedRepr (linkedWorkqueueInit numWorkers numAdders works mem)
      (workqueueInit numWorkers numAdders works) :=
  ⟨rfl, listInit_repr mem, fun _ h => absurd h List.not_mem_nil, rfl⟩

theorem workqueueInit_conserve (numWorkers numAdders : Nat) (works : Nat → Work) :
    ConserveInv (workqueueInit numWorkers numAdders works) := by
  refine ⟨List.nodup_nil, ?_, rfl⟩
  intro p q v hp _
  cases p with
  | adder j => cases hp
  | backlog => cases hp
  | worker j => cases hp.2

/-- Every run of the linked machine whose adders enqueue no owned work is a run of the
    other machine. -/
theorem linkedRun_refines {as : List WqAct} (h : LinkedRepr s a) (hinv : ConserveInv a)
    (hmeets : Meets linkedStep AddsUnheld s as) (hrun : run linkedStep s as = some s') :
    ∃ a', run wqStep a as = some a' ∧ LinkedRepr s' a' ∧ ConserveInv a' := by
  have hsim : ∀ s a act s', (LinkedRepr s a ∧ ConserveInv a) → AddsUnheld s act →
      linkedStep s act = some s' →
      ∃ a', wqStep a act = some a' ∧ LinkedRepr s' a' ∧ ConserveInv a' := by
    rintro s a act s' ⟨h, hinv⟩ hcond hstep
    obtain ⟨a', hnext⟩ := linkedStep_next h hinv hcond hstep
    exact ⟨a', hnext.step, hnext.repr, hnext.conserve⟩
  exact run_simulation hsim ⟨h, hinv⟩ hmeets hrun

/-- A worker that is about to enqueue a work and comes to its next `get_backlog` has
    appended the work to the backlog in between. -/
theorem linkedRun_enqueues {as : List WqAct} (h : LinkedRepr s a) (hinv : ConserveInv a)
    (hpc : (a.workers i).pc = .put (.enqueue job))
    (hmeets : Meets linkedStep AddsUnheld s as) (hrun : run linkedStep s as = some s')
    (hend : (s'.wq.workers i).pc = .get) :
    ∃ pre post t t' before, as = pre ++ .worker i :: post ∧ run linkedStep s pre = some t ∧
      linkedStep t (.worker i) = some t' ∧
      ListRepr t'.mem t'.queue.list (before ++ [job.work]) := by
  -- by induction on the run, up to the first access of the worker
  induction as generalizing s a with
  | nil =>
    obtain rfl := Option.some.inj hrun
    rw [h.wq_eq] at hend
    cases hpc.symm.trans hend
  | cons act as ih =>
    obtain ⟨m, hstep, hrest⟩ := (run_cons_eq_some linkedStep s act as s').mp hrun
    obtain ⟨a', hnext⟩ := linkedStep_next h hinv hmeets.1 hstep
    by_cases hact : act = .worker i
    · subst hact
      have hi : i < a.numWorkers := by
        have hlt := hnext.step
        simp only [wqStep, Option.ite_none_right_eq_some] at hlt
        exact hlt.1
      have ha' := hnext.step
      simp only [wqStep, hi, ↓reduceIte, workqueueFactory, hpc, putBacklog,
        Option.some.injEq] at ha'
      have hlist := hnext.repr.list
      rw [← ha'] at hlist
      refine ⟨[], as, s, m, a.backlog.map Job.work, rfl, rfl, hstep, ?_⟩
      simpa only [Workqueue.setPc, Workqueue.setWorker, List.map_append, List.map_cons,
        List.map_nil] using hlist
    · -- the worker does not move
      have hreturns : ∀ rc, act ≠ .workReturns i rc := by
        rintro rc rfl
        have hlt := hnext.step
        simp only [wqStep, hpc, ite_self, reduceCtorEq] at hlt
      have hpc' : (a'.workers i).pc = .put (.enqueue job) :=
        (hnext.pcs i hact hreturns).trans hpc
      obtain ⟨pre, post, t, t', before, rfl, hpre, ht, hbefore⟩ :=
        ih hnext.repr hnext.conserve hpc' (hmeets.2 m hstep) hrest
      refine ⟨act :: pre, post, t, t', before, rfl, ?_, ht, hbefore⟩
      exact (run_cons_eq_some linkedStep s act pre t).mpr ⟨m, hstep, hpre⟩

/-- The access after a `work_fn` that returned a positive value without a cancel
    request. -/
theorem linkedStep_yields {rc : Int} (hpc : (s.wq.workers i).pc = .test job rc)
    (hrc : 0 < rc) (hcancel : ¬ s.wq.cancelled job.work)
    (hstep : linkedStep s (.worker i) = some s') :
    (s'.wq.workers i).pc = .put (.enqueue job) := by
  simp only [linkedStep, Option.ite_none_right_eq_some] at hstep
  have hnot : ¬ (rc ≤ 0 ∨ s.wq.cancelled job.work) := by
    rintro (hle | hc)
    · omega
    · exact hcancel hc
  simp only [workqueueFactoryLinked, hpc, workqueueFactory, hnot, ↓reduceIte,
    Option.map_some, Option.some.injEq] at hstep
  rw [← hstep.2]
  show ((s.wq.setPc i (.put (.enqueue job))).workers i).pc = _
  rw [Workqueue.setPc, Workqueue.setWorker_self]

end

/-! ## Results -/

/-- In every interleaving in which adders only enqueue works that are neither queued nor
    held by a worker, whatever is cancelled: the links of the backlog form a list; every
    work is in the backlog once or held by one worker, so no two workers run it; the
    counter is the length of the backlog; works leave it in the order in which they
    entered; and a work that yielded without a cancel request is back in the backlog
    before its worker takes another one. -/
theorem workqueue_conserves (numWorkers numAdders : Nat) (works : Nat → Work) (mem : NodeMem)
    (as : List WqAct) (s : LinkedWorkqueue)
    (hmeets : Meets linkedStep AddsUnheld
      (linkedWorkqueueInit numWorkers numAdders works mem) as)
    (hrun : run linkedStep (linkedWorkqueueInit numWorkers numAdders works mem) as = some s) :
    (∃ backlog, ListRepr s.mem s.queue.list backlog ∧ backlog.Nodup ∧
      (∀ i w, s.wq.HeldBy i w → w ∉ backlog) ∧
      (∀ i j w, s.wq.HeldBy i w → s.wq.HeldBy j w → i = j) ∧
      (∀ i < s.wq.numWorkers, ∀ j < s.wq.numWorkers, ∀ job job',
        (s.wq.workers i).pc = .running job → (s.wq.workers j).pc = .running job' →
        job.work = job'.work → i = j) ∧
      s.wq.backlogCount = backlog.length ∧ s.entered = s.left ++ backlog) ∧
    ∀ i job rc bs t, (s.wq.workers i).pc = .test job rc → 0 < rc → ¬ s.wq.cancelled job.work →
      Meets linkedStep AddsUnheld s (.worker i :: bs) →
      run linkedStep s (.worker i :: bs) = some t → (t.wq.workers i).pc = .get →
      ∃ pre post u u' before, bs = pre ++ .worker i :: post ∧
        run linkedStep s (.worker i :: pre) = some u ∧ linkedStep u (.worker i) = some u' ∧
        ListRepr u'.mem u'.queue.list (before ++ [job.work]) := by
  obtain ⟨a, _, h, hinv⟩ := linkedRun_refines
    (linkedWorkqueueInit_repr numWorkers numAdders works mem)
    (workqueueInit_conserve numWorkers numAdders works) hmeets hrun
  -- the owners are those of the queue without links
  have hheld : ∀ i w, s.wq.HeldBy i w → a.Owns (.worker i) w := by
    intro i w hw
    rw [h.wq_eq] at hw
    exact hw
  have honce : ∀ i j w, s.wq.HeldBy i w → s.wq.HeldBy j w → i = j := by
    intro i j w hi hj
    have hplace := hinv.unique _ _ w (hheld i w hi) (hheld j w hj)
    injection hplace
  refine ⟨⟨a.backlog.map Job.work, h.list, hinv.backlog_nodup, ?_, honce, ?_, ?_, h.order⟩, ?_⟩
  · intro i w hw hmem
    cases hinv.unique (.worker i) .backlog w (hheld i w hw) hmem
  · intro i hi j hj job job' hrun hrun' hwork
    refine honce i j job.work ⟨hi, by rw [hrun]; rfl⟩ ⟨hj, ?_⟩
    rw [hrun', hwork]
    rfl
  · rw [List.length_map, h.wq_eq]
    exact hinv.count_eq
  · intro i job rc bs t hpc hrc hcancel hmeets' hrun' hend
    -- the worker puts the work back before it takes another one
    obtain ⟨m, hstep, hrest⟩ := (run_cons_eq_some linkedStep s _ bs t).mp hrun'
    obtain ⟨a', hnext⟩ := linkedStep_next h hinv hmeets'.1 hstep
    have hput := linkedStep_yields hpc hrc hcancel hstep
    rw [hnext.repr.wq_eq] at hput
    obtain ⟨pre, post, u, u', before, hsplit, hpre, hu, hlist⟩ :=
      linkedRun_enqueues hnext.repr hnext.conserve hput (hmeets'.2 m hstep) hrest hend
    exact ⟨pre, post, u, u', before, hsplit,
      (run_cons_eq_some linkedStep s _ pre u).mpr ⟨m, hstep, hpre⟩, hu, hlist⟩

/-- One worker and two works. The first one yields; the second one is taken before the
    first one is taken again. -/
def requeueRun : List WqAct :=
  [.add 0 5, .adder 0, .adder 0, .adder 0, .worker 0, .adder 0, .adder 0, .add 0 6, .adder 0,
    .adder 0, .adder 0, .worker 0, .worker 0, .worker 0, .worker 0, .worker 0, .worker 0,
    .workReturns 0 1, .worker 0, .worker 0, .worker 0, .worker 0, .worker 0, .worker 0, .worker 0]

theorem workqueue_conserves_run :
    ∃ s, run linkedStep (linkedWorkqueueInit 1 1 (fun _ => ⟨.new, 0, true, true⟩)
        fun _ => ⟨none, none⟩) requeueRun = some s ∧
      s.entered = [5, 6, 5] ∧ s.left = [5, 6] ∧
      ∃ backlog, ListRepr s.mem s.queue.list backlog ∧ s.wq.backlogCount = backlog.length ∧
        s.entered = s.left ++ backlog := by
  obtain ⟨⟨backlog, hlist, _, _, _, _, hcount, horder⟩, _⟩ := workqueue_conserves 1 1
    (fun _ => ⟨.new, 0, true, true⟩) (fun _ => ⟨none, none⟩) requeueRun _ (by decide) rfl
  exact ⟨_, rfl, rfl, rfl, backlog, hlist, hcount, horder⟩

end CUtils
