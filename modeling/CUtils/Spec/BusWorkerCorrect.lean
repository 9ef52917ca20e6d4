import CUtils.ForStd.StepSystem
import CUtils.Native.BusAccept
import CUtils.Native.BusWorker

/-!
# When a worker of the bus server lets its client go

`read_loop` returns 0 both when there is nothing to read and when the client has closed,
and `bus_server_work_fn` goes round its loop on 0.  Only a failing write ends it then.

- `busServerIteration_eof`: an iteration that reads the end of file.
- `busServerWork_eof_iff`: the calls that release their client.
- `busServerIteration_accesses`: the accesses of an iteration are those of `busFnStep`.
-/

namespace CUtils

open StepSystem

/-! ## The loop -/

section Loop

variable {w w' : BusWorker} {es : List BusIteration}

/-- The write ends the iteration. -/
theorem BusWorker.send_eq (w : BusWorker) (write : SysCalls Nat) (busData : List UInt8) :
    ∃ written, w.send write busData =
      if write.result = .error then .leaves { w with written } (-1)
      else .again { w with written } := by
  refine ⟨w.written ++ (write.writeLoop busData).1, ?_⟩
  unfold BusWorker.send
  dsimp only
  simp only [write.writeLoop_neg_iff]

/-- A message is forwarded if there is one. -/
theorem BusWorker.forward_eq (w : BusWorker) (e : BusIteration) :
    ∃ written, w.forward e =
      if (w.others e.beforeCompare).globals.messageId > w.p.messageId then
        if e.write.result = .error then
          .leaves { ((w.others e.beforeCompare).others e.beforeCopy).copy with written } (-1)
        else .again { ((w.others e.beforeCompare).others e.beforeCopy).copy with written }
      else .again (w.others e.beforeCompare) := by
  obtain ⟨written, hsend⟩ := ((w.others e.beforeCompare).others e.beforeCopy).copy.send_eq e.write
    ((w.others e.beforeCompare).others e.beforeCopy).globals.data
  refine ⟨written, ?_⟩
  rw [← hsend]
  rfl

/-- An iteration keeps the descriptor, and leaves the loop only with -1. -/
theorem busServerIteration_cases (w : BusWorker) (e : BusIteration) :
    ∃ w', w'.p.fd = w.p.fd ∧
      (busServerIteration w e = .again w' ∨ busServerIteration w e = .leaves w' (-1)) := by
  unfold busServerIteration
  dsimp only
  by_cases herror : e.read.readLoop.2 < 0
  · exact ⟨w, rfl, .inr (if_pos herror)⟩
  · rw [if_neg herror]
    generalize hw₁ : (if e.read.readLoop.2 > 0 then w.publish e.read.readLoop.1 else w) = w₁
    have hfd : w₁.p.fd = w.p.fd := by
      rw [← hw₁]
      split <;> rfl
    obtain ⟨written, hforward⟩ := w₁.forward_eq e
    rw [hforward]
    split
    · refine ⟨{ ((w₁.others e.beforeCompare).others e.beforeCopy).copy with written }, hfd, ?_⟩
      split
      · exact .inr rfl
      · exact .inl rfl
    · exact ⟨w₁.others e.beforeCompare, hfd, .inl rfl⟩

/-- The loop goes on with the worker that the iteration leaves, or the call returns. -/
theorem busServerLoop_cons (w : BusWorker) (e : BusIteration) (es : List BusIteration) :
    (∃ w', w'.p.fd = w.p.fd ∧ busServerIteration w e = .again w' ∧
      busServerLoop w (e :: es) = busServerLoop w' es) ∨
    ((∃ w', busServerIteration w e = .leaves w' (-1)) ∧
      busServerLoop w (e :: es) = .returned ⟨-1, [w.p.fd], 1⟩) := by
  obtain ⟨w', hfd, hagain | hleaves⟩ := busServerIteration_cases w e
  · exact .inl ⟨w', hfd, hagain, by rw [busServerLoop, hagain]⟩
  · refine .inr ⟨⟨w', hleaves⟩, ?_⟩
    simp only [busServerLoop, hleaves, hfd]

/-- What is left of a call that has come to `w'`. -/
theorem busServerLoop_append (es' : List BusIteration) (h : busServerLoop w es = .running w') :
    busServerLoop w (es ++ es') = busServerLoop w' es' ∧ w'.p.fd = w.p.fd := by
  induction es generalizing w with
  | nil =>
    obtain rfl := BusOutcome.running.inj h
    exact ⟨rfl, rfl⟩
  | cons e es ih =>
    obtain ⟨w₁, hfd, hagain, hloop⟩ | ⟨_, hloop⟩ := busServerLoop_cons w e es
    · rw [hloop] at h
      obtain ⟨happend, hfd'⟩ := ih h
      refine ⟨?_, hfd'.trans hfd⟩
      rw [List.cons_append, ← happend, busServerLoop, hagain]
    · rw [hloop] at h
      cases h

/-- The client has closed: the iteration leaves the loop exactly when there is a message to
    forward and writing it fails. -/
theorem busServerIteration_eof {e : BusIteration} (h : e.read.result = .ok []) :
    (∃ w', busServerIteration w e = .leaves w' (-1)) ↔
      (e.beforeCompare.getD w.globals).messageId > w.p.messageId ∧ e.write.result = .error := by
  have hiter : busServerIteration w e = w.forward e := by
    simp only [busServerIteration, SysCalls.readLoop_eof h, Int.lt_irrefl, gt_iff_lt, ↓reduceIte]
  have hglobals : (w.others e.beforeCompare).globals = e.beforeCompare.getD w.globals := rfl
  obtain ⟨written, hforward⟩ := w.forward_eq e
  rw [hiter, hforward, hglobals]
  by_cases hnew : (e.beforeCompare.getD w.globals).messageId > w.p.messageId
  · by_cases herror : e.write.result = .error
    · simp [hnew, herror]
    · simp [hnew, herror]
  · simp [hnew]

end Loop

/-! ## The client -/

/-- A work function that returns `rc` gives its slot up: the worker that has called it then
    completes the work. -/
def FreesSlot (rc : Int) : Prop :=
  ∀ (s : Workqueue) (i : Nat) (job : Job), i < s.numWorkers → (s.workers i).pc = .running job →
    ∃ s', run wqStep s [.workReturns i rc, .worker i, .worker i] = some s' ∧
      (s'.works job.work).status = .complete

theorem freesSlot {rc : Int} (hrc : rc ≤ 0) : FreesSlot rc := by
  intro s i job hi hpc
  have hself : ∀ (a : Workqueue) pc, ((a.setPc i pc).workers i).pc = pc := by
    intro a pc
    rw [Workqueue.setPc, Workqueue.setWorker_self]
  have hnum : ∀ (a : Workqueue) pc, (a.setPc i pc).numWorkers = a.numWorkers := fun _ _ => rfl
  have hreturn : wqStep s (.workReturns i rc) = some (s.setPc i (.test job rc)) := by
    simp only [wqStep, hi, ↓reduceIte, hpc]
  have htest : wqStep (s.setPc i (.test job rc)) (.worker i) =
      some ((s.setPc i (.test job rc)).setPc i (.completeStatus job)) := by
    simp only [wqStep, hnum, hi, ↓reduceIte, workqueueFactory, hself, hrc, true_or]
  have hcomplete : ∀ a : Workqueue, i < a.numWorkers → (a.workers i).pc = .completeStatus job →
      ∃ s', wqStep a (.worker i) = some s' ∧ (s'.works job.work).status = .complete := by
    intro a hia hpca
    refine ⟨(completeWorkStatus a job).setPc i (.completeFn job), ?_, ?_⟩
    · simp only [wqStep, hia, ↓reduceIte, workqueueFactory, hpca]
    · simp [completeWorkStatus, Workqueue.setPc, Workqueue.setWorker, Workqueue.setStatus,
        Workqueue.record]
  obtain ⟨s', hlast, hstatus⟩ := hcomplete ((s.setPc i (.test job rc)).setPc i
    (.completeStatus job)) (by rwa [hnum, hnum]) (hself _ _)
  exact ⟨s', by simp only [run, hreturn, htest, hlast, Option.bind_some], hstatus⟩

/-- In the iteration `e`, after the iterations `pre`, the call reads the end of file. -/
structure ReadsEof (fd : Int) (globals : BusGlobals) (es pre : List BusIteration)
    (e : BusIteration) (w : BusWorker) : Prop where
  split : ∃ post, es = pre ++ e :: post
  running : busServerWork fd globals pre = .running w
  eof : e.read.result = .ok []

/-- Whenever a call of `bus_server_work_fn` reads the end of file, it returns at the end of
    that iteration, has closed its descriptor and freed its client data once, and gives its
    slot up, exactly when there is then a message to forward and writing it fails. -/
theorem busServerWork_eof_iff (fd : Int) (globals : BusGlobals) (es : List BusIteration) :
    (∀ pre e w, ReadsEof fd globals es pre e w →
      ∃ rc, busServerWork fd globals (pre ++ [e]) = .returned ⟨rc, [fd], 1⟩ ∧ FreesSlot rc) ↔
    ∀ pre e w, ReadsEof fd globals es pre e w →
      (e.beforeCompare.getD w.globals).messageId > w.p.messageId ∧ e.write.result = .error := by
  have hiff : ∀ pre e w, ReadsEof fd globals es pre e w →
      ((∃ rc, busServerWork fd globals (pre ++ [e]) = .returned ⟨rc, [fd], 1⟩ ∧ FreesSlot rc) ↔
        (e.beforeCompare.getD w.globals).messageId > w.p.messageId ∧ e.write.result = .error) := by
    -- for one iteration
    intro pre e w h
    obtain ⟨happend, hfd⟩ := busServerLoop_append [e] h.running
    rw [← busServerIteration_eof h.eof, busServerWork, happend]
    obtain ⟨w', _, hagain, hloop⟩ | ⟨hleaves, hloop⟩ := busServerLoop_cons w e []
    · rw [hloop, hagain]
      simp [busServerLoop]
    · rw [hloop, hfd]
      constructor
      · intro _
        exact hleaves
      · intro _
        exact ⟨-1, rfl, freesSlot (by decide)⟩
  constructor
  · intro h pre e w heof
    exact (hiff pre e w heof).mp (h pre e w heof)
  · intro h pre e w heof
    exact (hiff pre e w heof).mpr (h pre e w heof)

example : busServerWork 5 ⟨0, []⟩ [⟨⟨1, .ok []⟩, some ⟨1, [7]⟩, none, ⟨0, .error⟩⟩] =
    .returned ⟨-1, [5], 1⟩ := by decide

/-- The end of file, with nothing to forward. -/
def quietEof : BusIteration := ⟨⟨0, .ok []⟩, none, none, ⟨0, .ok 0⟩⟩

/-- The call goes on after the end of file, and takes as many iterations as it is given. -/
theorem busServerWork_spins (n : Nat) (fd : Int) :
    busServerWork fd ⟨0, []⟩ (List.replicate n quietEof) = .running ⟨⟨fd, 0⟩, ⟨0, []⟩, []⟩ := by
  induction n with
  | zero => rfl
  | succ n ih => exact ih

/-- The client 5 closes, and nothing is ever published. -/
theorem busServerWork_eof_ignored :
    ReadsEof 5 ⟨0, []⟩ [quietEof] [] quietEof ⟨⟨5, 0⟩, ⟨0, []⟩, []⟩ ∧
      busServerWork 5 ⟨0, []⟩ [quietEof] = .running ⟨⟨5, 0⟩, ⟨0, []⟩, []⟩ ∧
      ¬∃ rc, busServerWork 5 ⟨0, []⟩ ([] ++ [quietEof]) = .returned ⟨rc, [5], 1⟩ := by
  refine ⟨⟨⟨[], rfl⟩, rfl, rfl⟩, busServerWork_spins 1 5, ?_⟩
  rintro ⟨rc, h⟩
  cases h

/-! ## The accesses of an iteration -/

/-- The worker `i` is at `pc` in the call `w`. -/
structure BusAccept.At (s : BusAccept) (i : Nat) (w : BusWorker) (pc : BusFnPc) : Prop where
  fn_eq : s.fns i = some ⟨w.p.fd, w.p.messageId, -1, pc⟩
  globals_eq : s.gMessageId = w.globals.messageId

/-- An access of the worker `i` that finds the id `a.1` in the globals, and gets `a.2` from a
    system call. -/
def fnAccess (i : Nat) (s : BusAccept) (a : Int × Int) : Option BusAccept :=
  busFnStep { s with gMessageId := a.1 } i a.2

namespace BusAccept.At

variable {s : BusAccept} {i : Nat} {w : BusWorker}

theorem of_setFn (s : BusAccept) (i : Nat) {w : BusWorker} (pc : BusFnPc)
    (hg : s.gMessageId = w.globals.messageId) :
    (s.setFn i (some ⟨w.p.fd, w.p.messageId, -1, pc⟩)).At i w pc :=
  ⟨Function.update_self _ _ _, hg⟩

theorem read (h : s.At i w .read) {ret : Int} (hret : ¬ret > 0) :
    ∃ s', fnAccess i s (w.globals.messageId, ret) = some s' ∧
      s'.At i w (if ret < 0 then .close else .compare) := by
  refine ⟨_, ?_, of_setFn { s with gMessageId := w.globals.messageId } i _ rfl⟩
  simp only [fnAccess, busFnStep, h.fn_eq, hret, ↓reduceIte, Option.bind_eq_bind, Option.bind_some]
  split <;> rfl

theorem publish (h : s.At i w .read) {ret : Int} (hret : ret > 0) (busData : List UInt8) :
    ∃ s', run (fnAccess i) s [(w.globals.messageId, ret), (w.globals.messageId, 0)] = some s' ∧
      s'.At i (w.publish busData) .compare := by
  have hneg : ¬ret < 0 := by omega
  obtain ⟨s₁, hread, hfn⟩ : ∃ s₁, fnAccess i s (w.globals.messageId, ret) = some s₁ ∧
      s₁.fns i = some ⟨w.p.fd, w.p.messageId + 1, -1, .publish⟩ := by
    refine ⟨BusAccept.setFn { s with gMessageId := w.globals.messageId } i _, ?_,
      Function.update_self _ _ _⟩
    simp only [fnAccess, busFnStep, h.fn_eq, hneg, hret, ↓reduceIte, Option.bind_eq_bind,
      Option.bind_some, Option.pure_def]
  have hpublish : fnAccess i s₁ (w.globals.messageId, 0) =
      some { BusAccept.setFn { s₁ with gMessageId := w.globals.messageId } i
        (some ⟨w.p.fd, w.p.messageId + 1, -1, .compare⟩) with
          gMessageId := w.p.messageId + 1 } := by
    simp only [fnAccess, busFnStep, hfn, Option.bind_eq_bind, Option.bind_some, Option.pure_def]
  exact ⟨_, by rw [run, hread, Option.bind_some, run, hpublish, Option.bind_some, run],
    Function.update_self _ _ _, rfl⟩

theorem compare (h : s.At i w .compare) (o : Option BusGlobals) :
    ∃ s', fnAccess i s ((w.others o).globals.messageId, 0) = some s' ∧
      s'.At i (w.others o)
        (if (w.others o).globals.messageId > w.p.messageId then .copy else .read) := by
  refine ⟨_, ?_, of_setFn { s with gMessageId := (w.others o).globals.messageId } i _ rfl⟩
  simp only [fnAccess, busFnStep, h.fn_eq, Option.bind_eq_bind, Option.bind_some, Option.pure_def]
  rfl

theorem copy (h : s.At i w .copy) (o : Option BusGlobals) :
    ∃ s', fnAccess i s ((w.others o).globals.messageId, 0) = some s' ∧
      s'.At i (w.others o).copy .write := by
  refine ⟨_, ?_, of_setFn { s with gMessageId := (w.others o).globals.messageId } i _ rfl⟩
  simp only [fnAccess, busFnStep, h.fn_eq, Option.bind_eq_bind, Option.bind_some, Option.pure_def]
  rfl

theorem write (h : s.At i w .write) (ret : Int) :
    ∃ s', fnAccess i s (w.globals.messageId, ret) = some s' ∧
      s'.At i w (if ret < 0 then .close else .read) := by
  refine ⟨_, ?_, of_setFn { s with gMessageId := w.globals.messageId } i _ rfl⟩
  simp only [fnAccess, busFnStep, h.fn_eq, Option.bind_eq_bind, Option.bind_some]
  split <;> rfl

/-- From the comparison on. -/
theorem forward (h : s.At i w .compare) (e : BusIteration) :
    ∃ as s', run (fnAccess i) s as = some s' ∧
      ((∃ w', w.forward e = .again w' ∧ s'.At i w' .read) ∨
        ∃ w', w.forward e = .leaves w' (-1) ∧ s'.At i w' .close) := by
  obtain ⟨s₁, hcompare, hat₁⟩ := h.compare e.beforeCompare
  obtain ⟨written, hforward⟩ := w.forward_eq e
  rw [hforward]
  by_cases hnew : (w.others e.beforeCompare).globals.messageId > w.p.messageId
  · rw [if_pos hnew] at hat₁ ⊢
    obtain ⟨s₂, hcopy, hat₂⟩ := hat₁.copy e.beforeCopy
    obtain ⟨s₃, hwrite, hat₃⟩ := hat₂.write (e.write.writeLoop []).2
    refine ⟨[_, _, _], s₃, by rw [run, hcompare, Option.bind_some, run, hcopy, Option.bind_some,
      run, hwrite, Option.bind_some, run], ?_⟩
    simp only [e.write.writeLoop_neg_iff] at hat₃
    by_cases herror : e.write.result = .error
    · rw [if_pos herror] at hat₃ ⊢
      exact .inr ⟨_, rfl, hat₃.fn_eq, hat₃.globals_eq⟩
    · rw [if_neg herror] at hat₃ ⊢
      exact .inl ⟨_, rfl, hat₃.fn_eq, hat₃.globals_eq⟩
  · rw [if_neg hnew] at hat₁ ⊢
    exact ⟨[_], s₁, by rw [run, hcompare, Option.bind_some, run], .inl ⟨_, rfl, hat₁⟩⟩

end BusAccept.At

/-- The accesses of one iteration are steps of `busFnStep`, which leave the worker at the
    top of the loop again, or before it closes the descriptor. -/
theorem busServerIteration_accesses {s : BusAccept} {i : Nat} {w : BusWorker}
    (h : s.At i w .read) (e : BusIteration) :
    ∃ as s', run (fnAccess i) s as = some s' ∧
      ((∃ w', busServerIteration w e = .again w' ∧ s'.At i w' .read) ∨
        ∃ w', busServerIteration w e = .leaves w' (-1) ∧ s'.At i w' .close) := by
  unfold busServerIteration
  dsimp only
  by_cases hpos : e.read.readLoop.2 > 0
  · have hneg : ¬e.read.readLoop.2 < 0 := by omega
    rw [if_neg hneg, if_pos hpos]
    obtain ⟨s₁, hpublish, hat₁⟩ := h.publish hpos e.read.readLoop.1
    obtain ⟨as, s', hforward, hend⟩ := hat₁.forward e
    exact ⟨_, s', by rw [run_append as hpublish, hforward], hend⟩
  · obtain ⟨s₁, hread, hat₁⟩ := h.read hpos
    by_cases hneg : e.read.readLoop.2 < 0
    · rw [if_pos hneg] at hat₁ ⊢
      exact ⟨[_], s₁, by rw [run, hread, Option.bind_some, run], .inr ⟨w, rfl, hat₁⟩⟩
    · rw [if_neg hneg] at hat₁ ⊢
      rw [if_neg hpos]
      obtain ⟨as, s', hforward, hend⟩ := hat₁.forward e
      exact ⟨_ :: as, s', by rw [run, hread, Option.bind_some, hforward], hend⟩

end CUtils
