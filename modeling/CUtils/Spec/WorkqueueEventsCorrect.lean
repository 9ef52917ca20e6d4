import CUtils.ForStd.StepSystem
import CUtils.Native.WorkqueueEvents
import CUtils.Spec.WorkqueueComplete

/-!
# A worker without an event

The thread of such a worker marks itself IDLE and ends.  A scan of the workers that comes to
it goes no further, and its wakeup goes nowhere, so the workers behind it are never woken.

- `Asleep`: what keeps them asleep.
- `workqueue_dead_worker`: after the start-up, in every interleaving.
-/

namespace CUtils

open StepSystem

/-- The scan has not passed worker `d`. -/
def PutPc.UpTo (d : Nat) : PutPc → Prop
  | .enqueue _ => True
  | .scan i | .signal i => i ≤ d

/-- Worker `d` is IDLE, it and the workers behind it wait, those behind it have no token, and
    no thread is going to wake one of them. -/
structure Asleep (d : Nat) (s : Workqueue) : Prop where
  lt : d < s.numWorkers
  idle : (s.workers d).state = .idle
  pc : ∀ i, d ≤ i → i < s.numWorkers → (s.workers i).pc = .wait
  tokens : ∀ i, d < i → i < s.numWorkers → (s.workers i).tokens = 0
  worker_put : ∀ i p, (s.workers i).pc = .put p → p.UpTo d
  adder_put : ∀ k p, s.adders k = .put p → p.UpTo d

namespace Asleep

variable {d : Nat} {s s' : Workqueue}

theorem of_same (h : Asleep d s) (hn : s'.numWorkers = s.numWorkers)
    (hw : s'.workers = s.workers) (ha : s'.adders = s.adders) : Asleep d s' := by
  obtain ⟨hlt, hidle, hpc, htokens, hworker, hadder⟩ := h
  rw [← hn, ← hw] at *
  rw [← ha] at hadder
  exact ⟨hlt, hidle, hpc, htokens, hworker, hadder⟩

/-- A worker changes that is not behind `d`; worker `d` itself goes on waiting. -/
theorem setWorker (h : Asleep d s) {i : Nat} (hi : i ≤ d) {w : Worker}
    (hself : i = d → w.state = .idle ∧ w.pc = .wait) (hput : ∀ p, w.pc = .put p → p.UpTo d) :
    Asleep d (s.setWorker i w) where
  lt := h.lt
  idle := by
    by_cases hid : i = d
    · rw [← hid, Workqueue.setWorker_self]
      exact (hself hid).1
    · rw [Workqueue.setWorker_of_ne s w (Ne.symm hid)]
      exact h.idle
  pc j hj hlt := by
    by_cases hji : j = i
    · rw [hji, Workqueue.setWorker_self]
      exact (hself (by omega)).2
    · rw [Workqueue.setWorker_of_ne s w hji]
      exact h.pc j hj hlt
  tokens j hj hlt := by
    rw [Workqueue.setWorker_of_ne s w (by omega)]
    exact h.tokens j hj hlt
  worker_put j p hpc := by
    by_cases hji : j = i
    · rw [hji, Workqueue.setWorker_self] at hpc
      exact hput p hpc
    · rw [Workqueue.setWorker_of_ne s w hji] at hpc
      exact h.worker_put j p hpc
  adder_put := h.adder_put

theorem setAdder (h : Asleep d s) (k : Nat) {pc : AdderPc} (hput : ∀ p, pc = .put p → p.UpTo d) :
    Asleep d (s.setAdder k pc) where
  lt := h.lt
  idle := h.idle
  pc := h.pc
  tokens := h.tokens
  worker_put := h.worker_put
  adder_put j p hpc := by
    by_cases hjk : j = k
    · rw [hjk, Workqueue.setAdder_self] at hpc
      exact hput p hpc
    · rw [Workqueue.setAdder_of_ne s pc hjk] at hpc
      exact h.adder_put j p hpc

/-- A scan that comes to `d` stops there. -/
theorem putBacklog (h : Asleep d s) {p : PutPc} (hp : p.UpTo d) :
    Asleep d (putBacklog s p).1 ∧ ∀ q, (CUtils.putBacklog s p).2 = some q → q.UpTo d := by
  cases p with
  | enqueue job =>
    refine ⟨h.of_same rfl rfl rfl, fun q hq => ?_⟩
    obtain rfl := Option.some.inj hq
    exact Nat.zero_le d
  | scan i =>
    have hi : i ≤ d := hp
    have hlt : i < s.numWorkers := Nat.lt_of_le_of_lt hi h.lt
    by_cases hidle : (s.workers i).state = .idle
    · simp only [CUtils.putBacklog, hlt, hidle, ↓reduceIte]
      refine ⟨h, fun q hq => ?_⟩
      obtain rfl := Option.some.inj hq
      exact hi
    · simp only [CUtils.putBacklog, hlt, hidle, ↓reduceIte]
      refine ⟨h, fun q hq => ?_⟩
      obtain rfl := Option.some.inj hq
      have hne : i ≠ d := fun hid => hidle (hid ▸ h.idle)
      show i + 1 ≤ d
      omega
  | signal i =>
    refine ⟨?_, fun q hq => by cases hq⟩
    apply h.setWorker hp
    · intro hid
      rw [hid]
      exact ⟨h.idle, h.pc d (Nat.le_refl d) h.lt⟩
    · exact h.worker_put i

/-- Worker `d` cannot move without a token, nor can those behind it. -/
theorem factory_lt (h : Asleep d s) (hd : (s.workers d).tokens = 0) {i : Nat}
    (hi : i < s.numWorkers) (hstep : workqueueFactory s i = some s') : i < d := by
  apply Nat.lt_of_not_le
  intro hle
  have htokens : (s.workers i).tokens = 0 := by
    by_cases hid : i = d
    · rw [hid, hd]
    · exact h.tokens i (by omega) hi
  simp only [workqueueFactory, h.pc i hle hi, htokens, ↓reduceIte] at hstep
  cases hstep

/-- An access of a worker. -/
theorem factory (h : Asleep d s) (hd : (s.workers d).tokens = 0) {i : Nat}
    (hi : i < s.numWorkers) (hstep : workqueueFactory s i = some s') : Asleep d s' := by
  have hlt := h.factory_lt hd hi hstep
  -- only a worker in front of `d` has moved
  have hmove : ∀ {t : Workqueue} {w : Worker}, Asleep d t → (∀ p, w.pc = .put p → p.UpTo d) →
      Asleep d (t.setWorker i w) := by
    intro t w ht hput
    exact ht.setWorker (Nat.le_of_lt hlt) (fun hid => absurd hid (Nat.ne_of_lt hlt)) hput
  unfold workqueueFactory at hstep
  cases hpc : (s.workers i).pc with
  | wait =>
    simp only [hpc, Option.ite_none_left_eq_some, Option.some.injEq] at hstep
    obtain ⟨_, rfl⟩ := hstep
    exact hmove h fun p hp => by cases hp
  | start | run | idle =>
    simp only [hpc, Option.some.injEq] at hstep
    subst hstep
    exact hmove h fun p hp => by cases hp
  | get =>
    simp only [hpc] at hstep
    cases hbacklog : s.backlog with
    | nil =>
      simp only [hbacklog, Option.some.injEq] at hstep
      subst hstep
      exact hmove h fun p hp => by cases hp
    | cons job backlog =>
      simp only [hbacklog, Option.some.injEq] at hstep
      subst hstep
      exact (hmove h fun p hp => by cases hp).of_same rfl rfl rfl
  | testCancel job =>
    simp only [hpc, Option.some.injEq] at hstep
    subst hstep
    apply hmove h
    split <;> exact fun p hp => by cases hp
  | test job rc =>
    simp only [hpc, Option.some.injEq] at hstep
    subst hstep
    apply hmove h
    split
    · exact fun p hp => by cases hp
    · intro p hp
      obtain rfl := WorkerPc.put.inj hp
      trivial
  | cancelStatus job | completeStatus job | progress job | call job =>
    simp only [hpc, Option.some.injEq] at hstep
    subst hstep
    exact hmove (h.of_same rfl rfl rfl) fun p hp => by cases hp
  | cancelFn job | completeFn job =>
    simp only [hpc, Option.some.injEq] at hstep
    subst hstep
    have hfn : Asleep d (completeWorkFn s job) := by
      unfold completeWorkFn
      split
      · exact h.of_same rfl rfl rfl
      · exact h
    exact hmove hfn fun p hp => by cases hp
  | running job => simp only [hpc, reduceCtorEq] at hstep
  | put p =>
    simp only [hpc, Option.some.injEq] at hstep
    subst hstep
    obtain ⟨hput, hnext⟩ := h.putBacklog (h.worker_put i p hpc)
    apply hmove hput
    intro q hq
    cases hr : (CUtils.putBacklog s p).2 with
    | none =>
      rw [hr] at hq
      cases hq
    | some r =>
      rw [hr] at hq
      obtain rfl := WorkerPc.put.inj hq
      exact hnext r hr

/-- An access of an adder. -/
theorem addWork (h : Asleep d s) {k : Nat} (hstep : workqueueAddWork s k = some s') :
    Asleep d s' := by
  unfold workqueueAddWork at hstep
  cases hpc : s.adders k with
  | idle => simp only [hpc, reduceCtorEq] at hstep
  | requests job =>
    simp only [hpc, Option.some.injEq] at hstep
    subst hstep
    have hsame : Asleep d (s.setRequests job.work 0) := h.of_same rfl rfl rfl
    exact hsame.setAdder k fun p hp => by cases hp
  | status job =>
    simp only [hpc, Option.some.injEq] at hstep
    subst hstep
    have hsame : Asleep d (s.setStatus job.work .queued) := h.of_same rfl rfl rfl
    apply hsame.setAdder k
    intro p hp
    obtain rfl := AdderPc.put.inj hp
    trivial
  | put p =>
    simp only [hpc, Option.some.injEq] at hstep
    subst hstep
    obtain ⟨hput, hnext⟩ := h.putBacklog (h.adder_put k p hpc)
    apply hput.setAdder k
    intro q hq
    cases hr : (CUtils.putBacklog s p).2 with
    | none =>
      rw [hr] at hq
      cases hq
    | some r =>
      rw [hr] at hq
      obtain rfl := AdderPc.put.inj hq
      exact hnext r hr

theorem step (h : Asleep d s) (hd : (s.workers d).tokens = 0) {a : WqAct}
    (hstep : wqStep s a = some s') : Asleep d s' := by
  cases a with
  | worker i =>
    simp only [wqStep, Option.ite_none_right_eq_some] at hstep
    exact h.factory hd hstep.1 hstep.2
  | workReturns i rc =>
    simp only [wqStep, Option.ite_none_right_eq_some] at hstep
    obtain ⟨hi, hstep⟩ := hstep
    split at hstep
    · next job hrunning =>
      obtain rfl := Option.some.inj hstep
      have hlt : i < d := by
        apply Nat.lt_of_not_le
        intro hle
        rw [h.pc i hle hi] at hrunning
        cases hrunning
      exact h.setWorker (Nat.le_of_lt hlt) (fun hid => absurd hid (Nat.ne_of_lt hlt))
        fun p hp => by cases hp
    · cases hstep
  | add k w =>
    simp only [wqStep, Option.ite_none_right_eq_some] at hstep
    obtain ⟨_, hstep⟩ := hstep
    split at hstep
    · obtain rfl := Option.some.inj hstep
      exact (h.setAdder k fun p hp => by cases hp).of_same rfl rfl rfl
    · obtain rfl := Option.some.inj hstep
      exact h
  | adder k =>
    simp only [wqStep, Option.ite_none_right_eq_some] at hstep
    exact h.addWork hstep.2
  | cancel w =>
    obtain rfl := Option.some.inj hstep
    exact h.of_same rfl rfl rfl

end Asleep

/-! ## No token for a worker without an event -/

section

variable {initialized : Nat → Bool} {d : Nat} {s s' : Workqueue}

theorem dropTokens_dead (hd : initialized d = false) (s : Workqueue) :
    ((s.dropTokens initialized).workers d).tokens = 0 := by
  simp [Workqueue.dropTokens, hd]

theorem dropTokens_pc (i : Nat) : ((s.dropTokens initialized).workers i).pc = (s.workers i).pc := by
  simp only [Workqueue.dropTokens]
  split <;> rfl

theorem dropTokens_state (i : Nat) :
    ((s.dropTokens initialized).workers i).state = (s.workers i).state := by
  simp only [Workqueue.dropTokens]
  split <;> rfl

theorem dropTokens_tokens {i : Nat} (h : (s.workers i).tokens = 0) :
    ((s.dropTokens initialized).workers i).tokens = 0 := by
  simp only [Workqueue.dropTokens]
  split
  · exact h
  · rfl

theorem Asleep.dropTokens (h : Asleep d s) : Asleep d (s.dropTokens initialized) where
  lt := h.lt
  idle := by
    rw [dropTokens_state]
    exact h.idle
  pc i hi hlt := by
    rw [dropTokens_pc]
    exact h.pc i hi hlt
  tokens i hi hlt := dropTokens_tokens (h.tokens i hi hlt)
  worker_put i p hpc := h.worker_put i p (dropTokens_pc i ▸ hpc)
  adder_put := h.adder_put

/-- Every step keeps the workers from `d` on asleep. -/
theorem wqEventStep_asleep (hdead : initialized d = false) (h : Asleep d s)
    (hd : (s.workers d).tokens = 0) {a : WqAct} (hstep : wqEventStep initialized s a = some s') :
    Asleep d s' ∧ (s'.workers d).tokens = 0 := by
  obtain ⟨t, ht, rfl⟩ := Option.map_eq_some_iff.mp hstep
  exact ⟨(h.step hd ht).dropTokens, dropTokens_dead hdead t⟩

/-! ## Nobody is woken at all -/

/-- Nothing has happened but adds, and each of them is in the backlog or on its way into it. -/
structure Unserved (s : Workqueue) : Prop where
  log : ∀ e ∈ s.log, ∃ w, e = .added w
  adds : ∀ n < s.adds, (∃ job ∈ s.backlog, job.add = n) ∨
    ∃ k < s.numAdders, ∃ job, (s.adders k).job = some job ∧ job.add = n

/-- An adder moves, and what it had in its hands is still there or in the backlog. -/
theorem Unserved.of_setAdder (h : Unserved s) {k : Nat} {pc : AdderPc} (hlog : s'.log = s.log)
    (hadds : s'.adds = s.adds) (hn : s'.numAdders = s.numAdders) (ha : s'.adders = s.adders)
    (hbacklog : ∀ job ∈ s.backlog, job ∈ s'.backlog)
    (hjob : ∀ job, (s.adders k).job = some job → pc.job = some job ∨ job ∈ s'.backlog) :
    Unserved (s'.setAdder k pc) where
  log := by
    show ∀ e ∈ s'.log, _
    rw [hlog]
    exact h.log
  adds n hlt := by
    have hlt' : n < s.adds := hadds ▸ hlt
    cases h.adds n hlt' with
    | inl hqueued =>
      obtain ⟨job, hmem, hn'⟩ := hqueued
      exact .inl ⟨job, hbacklog job hmem, hn'⟩
    | inr hheld =>
      obtain ⟨j, hj, job, hsome, hn'⟩ := hheld
      have hj' : j < (s'.setAdder k pc).numAdders := hn.symm ▸ hj
      by_cases hjk : j = k
      · subst hjk
        cases hjob job hsome with
        | inl hstill => exact .inr ⟨j, hj', job, by rwa [Workqueue.setAdder_self], hn'⟩
        | inr hmem => exact .inl ⟨job, hmem, hn'⟩
      · refine .inr ⟨j, hj', job, ?_, hn'⟩
        rwa [Workqueue.setAdder_of_ne s' pc hjk, ha]

/-- An access of an adder. -/
theorem Unserved.addWork (h : Unserved s) {k : Nat} (hstep : workqueueAddWork s k = some s') :
    Unserved s' := by
  have hkeep : ∀ job ∈ s.backlog, job ∈ s.backlog := fun _ hmem => hmem
  unfold workqueueAddWork at hstep
  cases hpc : s.adders k with
  | idle => simp only [hpc, reduceCtorEq] at hstep
  | requests job | status job =>
    simp only [hpc, Option.some.injEq] at hstep
    subst hstep
    refine h.of_setAdder rfl rfl rfl rfl hkeep fun job' hjob => ?_
    rw [hpc] at hjob
    exact .inl hjob
  | put p =>
    simp only [hpc, Option.some.injEq] at hstep
    subst hstep
    have hsame := putBacklog_sameThreads s p
    apply h.of_setAdder hsame.log hsame.adds hsame.numAdders hsame.adders
    · intro job hmem
      cases p with
      | enqueue job' => exact List.mem_append_left _ hmem
      | scan i =>
        by_cases hi : i < s.numWorkers
        · by_cases hidle : (s.workers i).state = .idle
          · simpa only [putBacklog, hi, hidle, ↓reduceIte] using hmem
          · simpa only [putBacklog, hi, hidle, ↓reduceIte] using hmem
        · simpa only [putBacklog, hi, ↓reduceIte] using hmem
      | signal i => exact hmem
    · intro job hjob
      rw [hpc] at hjob
      cases p with
      | enqueue job' =>
        obtain rfl := Option.some.inj hjob
        exact .inr (List.mem_append_right _ List.mem_cons_self)
      | scan i | signal i => cases hjob

/-- With all workers asleep, only the adders move. -/
theorem Unserved.step (h : Unserved s) (hasleep : Asleep 0 s) (h0 : (s.workers 0).tokens = 0)
    {a : WqAct} (hstep : wqStep s a = some s') : Unserved s' := by
  cases a with
  | worker i =>
    simp only [wqStep, Option.ite_none_right_eq_some] at hstep
    exact absurd (hasleep.factory_lt h0 hstep.1 hstep.2) (Nat.not_lt_zero i)
  | workReturns i rc =>
    simp only [wqStep, Option.ite_none_right_eq_some] at hstep
    obtain ⟨hi, hstep⟩ := hstep
    rw [hasleep.pc i (Nat.zero_le i) hi] at hstep
    cases hstep
  | add k w =>
    simp only [wqStep, Option.ite_none_right_eq_some] at hstep
    obtain ⟨⟨hk, hidle⟩, hstep⟩ := hstep
    split at hstep
    · obtain rfl := Option.some.inj hstep
      refine ⟨fun e he => ?_, fun n hn => ?_⟩
      · cases he with
        | head => exact ⟨w, rfl⟩
        | tail _ he => exact h.log e he
      · have hnew := Workqueue.setAdder_self (s.record (.added w)) k (.requests ⟨w, s.adds⟩)
        by_cases hlast : n = s.adds
        · exact .inr ⟨k, hk, ⟨w, s.adds⟩, congrArg AdderPc.job hnew, hlast.symm⟩
        · have hlt : n < s.adds := Nat.lt_of_le_of_ne (Nat.le_of_lt_succ hn) hlast
          cases h.adds n hlt with
          | inl hqueued => exact .inl hqueued
          | inr hheld =>
            obtain ⟨j, hj, job, hjob, hn'⟩ := hheld
            -- the adder that is called had nothing in its hands
            have hjk : j ≠ k := by
              intro hjk
              rw [hjk, hidle] at hjob
              cases hjob
            have hold := Workqueue.setAdder_of_ne (s.record (.added w)) (.requests ⟨w, s.adds⟩) hjk
            exact .inr ⟨j, hj, job, (congrArg AdderPc.job hold).trans hjob, hn'⟩
    · obtain rfl := Option.some.inj hstep
      exact h
  | adder k =>
    simp only [wqStep, Option.ite_none_right_eq_some] at hstep
    exact h.addWork hstep.2
  | cancel w =>
    obtain rfl := Option.some.inj hstep
    exact ⟨h.log, h.adds⟩

end

/-! ## The start-up -/

/-- The first `k` workers have marked themselves IDLE, and nothing else has happened. -/
structure StartedUpTo (numWorkers k : Nat) (s : Workqueue) : Prop where
  numWorkers_eq : s.numWorkers = numWorkers
  started : ∀ i < k, (s.workers i).state = .idle ∧ (s.workers i).pc = .wait
  rest : ∀ i, k ≤ i → (s.workers i).pc = .start
  tokens : ∀ i, (s.workers i).tokens = 0
  adders : ∀ k, s.adders k = .idle
  adds : s.adds = 0
  log : s.log = []

theorem StartedUpTo.next {numWorkers k : Nat} {s : Workqueue}
    (h : StartedUpTo numWorkers k s) (initialized : Nat → Bool) :
    StartedUpTo numWorkers (k + 1)
      ((s.setWorker k { s.workers k with state := .idle, pc := .wait }).dropTokens
        initialized) where
  numWorkers_eq := h.numWorkers_eq
  started i hi := by
    rw [dropTokens_pc, dropTokens_state]
    by_cases hik : i = k
    · rw [hik, Workqueue.setWorker_self]
      exact ⟨rfl, rfl⟩
    · rw [Workqueue.setWorker_of_ne s _ hik]
      exact h.started i (by omega)
  rest i hi := by
    rw [dropTokens_pc, Workqueue.setWorker_of_ne s _ (by omega)]
    exact h.rest i (Nat.le_of_succ_le hi)
  tokens i := by
    apply dropTokens_tokens
    by_cases hik : i = k
    · rw [hik, Workqueue.setWorker_self]
      exact h.tokens k
    · rw [Workqueue.setWorker_of_ne s _ hik]
      exact h.tokens i
  adders := h.adders
  adds := h.adds
  log := h.log

theorem startUp_run (initialized : Nat → Bool) (numWorkers numAdders : Nat) (works : Nat → Work) :
    ∃ s, run (wqEventStep initialized) (workqueueInit numWorkers numAdders works)
        (startUp numWorkers) = some s ∧
      StartedUpTo numWorkers numWorkers s := by
  have hprefix : ∀ k ≤ numWorkers, ∃ s,
      run (wqEventStep initialized) (workqueueInit numWorkers numAdders works)
        ((List.range k).map .worker) = some s ∧ StartedUpTo numWorkers k s := by
    intro k
    induction k with
    | zero =>
      intro _
      exact ⟨_, rfl, rfl, fun i hi => absurd hi (Nat.not_lt_zero i), fun _ _ => rfl, fun _ => rfl,
        fun _ => rfl, rfl, rfl⟩
    | succ k ih =>
      intro hk
      obtain ⟨s, hrun, hs⟩ := ih (Nat.le_of_succ_le hk)
      have hstep : wqEventStep initialized s (.worker k) = some
          ((s.setWorker k { s.workers k with state := .idle, pc := .wait }).dropTokens
            initialized) := by
        have hlt : k < s.numWorkers := hs.numWorkers_eq ▸ hk
        simp only [wqEventStep, wqStep, hlt, ↓reduceIte, workqueueFactory, hs.rest k (Nat.le_refl k),
          Option.map_some]
      refine ⟨_, ?_, hs.next initialized⟩
      rw [List.range_succ, List.map_append]
      exact run_concat_eq_some.mpr ⟨s, hrun, hstep⟩
  exact hprefix numWorkers (Nat.le_refl _)

theorem StartedUpTo.asleep {numWorkers d : Nat} {s : Workqueue}
    (h : StartedUpTo numWorkers numWorkers s) (hd : d < numWorkers) : Asleep d s where
  lt := h.numWorkers_eq.symm ▸ hd
  idle := (h.started d hd).1
  pc i _ hlt := (h.started i (h.numWorkers_eq ▸ hlt)).2
  tokens i _ _ := h.tokens i
  worker_put i p hpc := by
    by_cases hi : i < numWorkers
    · rw [(h.started i hi).2] at hpc
      cases hpc
    · rw [h.rest i (Nat.le_of_not_lt hi)] at hpc
      cases hpc
  adder_put k p hpc := by
    rw [h.adders k] at hpc
    cases hpc

/-! ## Result -/

/-- If the event of worker `d` could not be made, then after the start-up no interleaving wakes
    a worker from `d` on.  With `d = 0` no work is ever run or completed: every add is in the
    backlog or in the hands of the thread that adds it. -/
theorem workqueue_dead_worker (initialized : Nat → Bool) (numWorkers numAdders d : Nat)
    (works : Nat → Work) (as : List WqAct) (s : Workqueue) (hd : d < numWorkers)
    (hdead : initialized d = false)
    (hrun : run (wqEventStep initialized) (workqueueInit numWorkers numAdders works)
      (startUp numWorkers ++ as) = some s) :
    (∀ i, d ≤ i → i < s.numWorkers → (s.workers i).pc = .wait) ∧
      (d = 0 → (∀ e ∈ s.log, ∃ w, e = .added w) ∧
        ∀ n < s.adds, (∃ job ∈ s.backlog, job.add = n) ∨
          ∃ k < s.numAdders, ∃ job, (s.adders k).job = some job ∧ job.add = n) := by
  obtain ⟨t, hstart, ht⟩ := startUp_run initialized numWorkers numAdders works
  rw [run_append as hstart] at hrun
  have hbase : Unserved t := by
    apply Unserved.mk
    · rw [ht.log]
      exact fun e he => by cases he
    · rw [ht.adds]
      exact fun n hn => absurd hn (Nat.not_lt_zero n)
  have hinv : (Asleep d s ∧ (s.workers d).tokens = 0) ∧ (d = 0 → Unserved s) := by
    apply inv_of_run _ ⟨⟨ht.asleep hd, ht.tokens d⟩, fun _ => hbase⟩ hrun
    intro u a u' ⟨⟨hasleep, htokens⟩, hunserved⟩ hstep
    refine ⟨wqEventStep_asleep hdead hasleep htokens hstep, fun hzero => ?_⟩
    subst hzero
    obtain ⟨v, hv, rfl⟩ := Option.map_eq_some_iff.mp hstep
    have hnext := (hunserved rfl).step hasleep htokens hv
    exact ⟨hnext.log, hnext.adds⟩
  exact ⟨hinv.1.1.pc, fun hzero => ⟨(hinv.2 hzero).log, (hinv.2 hzero).adds⟩⟩

/-- Two workers, the event of the first one is missing, and a work is added. -/
theorem workqueue_dead_worker_add : ∃ s,
    run (wqEventStep (· ≠ 0)) (workqueueInit 2 1 fun _ => ⟨.new, 0, true, true⟩)
      (startUp 2 ++ .add 0 5 :: List.replicate 5 (.adder 0)) = some s ∧
    (s.workers 1).pc = .wait ∧ s.backlog = [⟨5, 0⟩] ∧ ∀ e ∈ s.log, ∃ w, e = .added w := by
  obtain ⟨hpc, hzero⟩ := workqueue_dead_worker (· ≠ 0) 2 1 0 (fun _ => ⟨.new, 0, true, true⟩)
    (.add 0 5 :: List.replicate 5 (.adder 0)) _ (by decide) rfl rfl
  exact ⟨_, rfl, hpc 1 (by decide) (by decide), rfl, (hzero rfl).1⟩

end CUtils
