import CUtils.Native.ChannelFifo

/-!
# What a failed `channel_fifo_setup` releases

The clean-up of `channel_fifo_setup` tests descriptors with `> 0`, closes the first one for
both tests, and unlinks the paths in both roles.

- `channelFifoSetup_released_iff`: for which outcomes of the system calls a failed setup
  releases exactly what it has acquired.
- `channelFifoTeardown_released`: `channel_fifo_teardown` does so after every successful one.
-/

namespace CUtils

/-! ## What the acts acquire and release -/

/-- The descriptors that were opened. -/
def fifoOpens (acts : List FifoAct) : List Int :=
  acts.filterMap fun
    | .opened fd => some fd
    | _ => none

/-- The descriptors that were closed. -/
def fifoCloses (acts : List FifoAct) : List Int :=
  acts.filterMap fun
    | .closed fd => some fd
    | _ => none

/-- The objects that were allocated. -/
def fifoAllocs (acts : List FifoAct) : List FifoObj :=
  acts.filterMap fun
    | .alloc obj => some obj
    | _ => none

/-- The objects that were freed. -/
def fifoFrees (acts : List FifoAct) : List FifoObj :=
  acts.filterMap fun
    | .free obj => some obj
    | _ => none

/-- The files that were removed. -/
def fifoRemovals (acts : List FifoAct) : List (List Int8) :=
  acts.filterMap fun
    | .unlink path true => some path
    | _ => none

/-- Each descriptor that was opened has been closed exactly once and no other one has, each
    object that was allocated has been freed exactly once and no other one has, and a
    client has removed no file: the FIFOs at its paths are the server's. -/
structure FifoReleased (isServer : Bool) (acts : List FifoAct) : Prop where
  closed : ∀ fd, (fifoCloses acts).count fd = if fd ∈ fifoOpens acts then 1 else 0
  freed : ∀ obj, (fifoFrees acts).count obj = if obj ∈ fifoAllocs acts then 1 else 0
  kept : isServer = false → fifoRemovals acts = []

section

variable (xs ys : List FifoAct)

@[simp] theorem fifoOpens_append : fifoOpens (xs ++ ys) = fifoOpens xs ++ fifoOpens ys :=
  List.filterMap_append

@[simp] theorem fifoCloses_append : fifoCloses (xs ++ ys) = fifoCloses xs ++ fifoCloses ys :=
  List.filterMap_append

@[simp] theorem fifoAllocs_append : fifoAllocs (xs ++ ys) = fifoAllocs xs ++ fifoAllocs ys :=
  List.filterMap_append

@[simp] theorem fifoFrees_append : fifoFrees (xs ++ ys) = fifoFrees xs ++ fifoFrees ys :=
  List.filterMap_append

@[simp] theorem fifoRemovals_append :
    fifoRemovals (xs ++ ys) = fifoRemovals xs ++ fifoRemovals ys :=
  List.filterMap_append

end

/-! ## Stages -/

/-- A triple for a stage: `P` holds where it goes on, and `Q` at the label `error`. -/
def FifoStage.Ends (P Q : ChannelFifo × List FifoAct → Prop) : FifoStage → Prop
  | .ok s => P s
  | .error s => Q s

namespace FifoStage.Ends

variable {P P' Q Q' : ChannelFifo × List FifoAct → Prop} {r : FifoStage}
  {f : ChannelFifo × List FifoAct → FifoStage}

/-- The rule for stages in sequence. -/
theorem bind (h : FifoStage.Ends P Q r) (hf : ∀ s, P s → FifoStage.Ends P' Q (f s)) :
    FifoStage.Ends P' Q (r >>= f) := by
  cases r with
  | ok s => exact hf s h
  | error s => exact h

/-- The rule of consequence. -/
theorem mono (h : FifoStage.Ends P Q r) (hP : ∀ s, P s → P' s) (hQ : ∀ s, Q s → Q' s) :
    FifoStage.Ends P' Q' r := by
  cases r with
  | ok s => exact hP s h
  | error s => exact hQ s h

/-- The rule of consequence at the label `error`. -/
theorem mono_error (h : FifoStage.Ends P Q r) (hQ : ∀ s, Q s → Q' s) :
    FifoStage.Ends P Q' r := h.mono (fun _ hP => hP) hQ

end FifoStage.Ends

/-- The context owns what was allocated, nothing was released, and a client has removed
    nothing. -/
structure FifoHeld (isServer : Bool) (s : ChannelFifo × List FifoAct) : Prop where
  isServer_eq : s.1.isServer = isServer
  allocs_eq : ∀ obj, obj ∈ fifoAllocs s.2 ↔
    obj = .ctx ∨ (obj = .fifo0 ∧ s.1.fifo0 ≠ none) ∨ (obj = .fifo1 ∧ s.1.fifo1 ≠ none)
  frees_eq : fifoFrees s.2 = []
  closes_eq : fifoCloses s.2 = []
  removals_eq : isServer = false → fifoRemovals s.2 = []

namespace FifoHeld

variable {isServer : Bool} {s : ChannelFifo × List FifoAct}

theorem init (isServer : Bool) :
    FifoHeld isServer (⟨none, none, isServer, 0, 0⟩, [.alloc .ctx]) where
  isServer_eq := rfl
  allocs_eq := by simp [fifoAllocs]
  frees_eq := rfl
  closes_eq := rfl
  removals_eq _ := rfl

/-- Acts that neither allocate nor release anything. -/
theorem append (h : FifoHeld isServer s) {acts : List FifoAct} (hallocs : fifoAllocs acts = [])
    (hfrees : fifoFrees acts = []) (hcloses : fifoCloses acts = [])
    (hremovals : isServer = false → fifoRemovals acts = []) :
    FifoHeld isServer (s.1, s.2 ++ acts) where
  isServer_eq := h.isServer_eq
  allocs_eq obj := by rw [fifoAllocs_append, hallocs, List.append_nil, h.allocs_eq]
  frees_eq := by rw [fifoFrees_append, hfrees, h.frees_eq, List.append_nil]
  closes_eq := by rw [fifoCloses_append, hcloses, h.closes_eq, List.append_nil]
  removals_eq hc := by rw [fifoRemovals_append, hremovals hc, h.removals_eq hc, List.append_nil]

/-- Acts on paths in a server. -/
theorem fifoMake (h : FifoHeld isServer s) (path : List Int8) (stale : Bool) (rc : Int) :
    FifoStage.Ends (FifoHeld isServer) (FifoHeld isServer) (CUtils.fifoMake path stale rc s) := by
  unfold CUtils.fifoMake
  split
  · next hs =>
    rw [h.isServer_eq] at hs
    subst hs
    split
    · exact h.append rfl rfl rfl fun hc => by cases hc
    · exact h.append rfl rfl rfl fun hc => by cases hc
  · exact h

/-- A duplicated path is the context's, where `set` stores it. -/
theorem fifoDup (h : FifoHeld isServer s) {set : ChannelFifo → List Int8 → ChannelFifo}
    {obj : FifoObj} {path : List Int8} (hserver : (set s.1 path).isServer = s.1.isServer)
    (hset : ∀ o, o ∈ fifoAllocs s.2 ∨ o = obj ↔ o = .ctx ∨
      (o = .fifo0 ∧ (set s.1 path).fifo0 ≠ none) ∨ (o = .fifo1 ∧ (set s.1 path).fifo1 ≠ none))
    (found : Bool) : FifoHeld isServer (CUtils.fifoDup set obj path found s) := by
  unfold CUtils.fifoDup
  split
  · constructor
    · exact hserver.trans h.isServer_eq
    · intro o
      rw [← hset o, fifoAllocs_append, List.mem_append]
      simp [fifoAllocs]
    · rw [fifoFrees_append, h.frees_eq]
      rfl
    · rw [fifoCloses_append, h.closes_eq]
      rfl
    · intro hc
      rw [fifoRemovals_append, h.removals_eq hc]
      rfl
  · exact h

theorem fifoDup0 (h : FifoHeld isServer s) (path : List Int8) (found : Bool) :
    FifoHeld isServer (CUtils.fifoDup0 path found s) := by
  apply h.fifoDup rfl
  intro o
  rw [h.allocs_eq o]
  cases o <;> simp

theorem fifoDup1 (h : FifoHeld isServer s) (path : List Int8) (found : Bool) :
    FifoHeld isServer (CUtils.fifoDup1 path found s) := by
  apply h.fifoDup rfl
  intro o
  rw [h.allocs_eq o]
  cases o <;> simp

/-- The descriptors are not part of what is allocated. -/
theorem setDescriptors (h : FifoHeld isServer s) (rfd wfd : Int) :
    FifoHeld isServer ({ s.1 with rfd, wfd }, s.2) :=
  ⟨h.isServer_eq, h.allocs_eq, h.frees_eq, h.closes_eq, h.removals_eq⟩

theorem fifoOpen {set : ChannelFifo → Int → ChannelFifo}
    (hset : ∀ fd, FifoHeld isServer (set s.1 fd, s.2)) (path : Option (List Int8)) (fd : Int) :
    FifoStage.Ends (FifoHeld isServer) (FifoHeld isServer) (CUtils.fifoOpen set path fd s) := by
  simp only [CUtils.fifoOpen]
  split
  · exact hset _
  · exact (hset _).append rfl rfl rfl fun _ => rfl

theorem fifoOpenR (h : FifoHeld isServer s) (path : Option (List Int8)) (fd : Int) :
    FifoStage.Ends (FifoHeld isServer) (FifoHeld isServer) (CUtils.fifoOpenR path fd s) :=
  fifoOpen (fun fd => h.setDescriptors fd s.1.wfd) path fd

theorem fifoOpenW (h : FifoHeld isServer s) (path : Option (List Int8)) (fd : Int) :
    FifoStage.Ends (FifoHeld isServer) (FifoHeld isServer) (CUtils.fifoOpenW path fd s) :=
  fifoOpen (fun fd => h.setDescriptors s.1.rfd fd) path fd

theorem fifoSetfl (h : FifoHeld isServer s) (rc : Int) :
    FifoStage.Ends (FifoHeld isServer) (FifoHeld isServer) (CUtils.fifoSetfl rc s) := by
  unfold CUtils.fifoSetfl
  split
  · exact h
  · exact h

/-- All stages together. -/
theorem channelFifoBody (h : FifoHeld isServer s) (o : FifoOutcomes) (device : CString) :
    FifoStage.Ends (FifoHeld isServer) (FifoHeld isServer) (CUtils.channelFifoBody o device s) := by
  refine (h.fifoMake _ _ _).bind fun s₁ h₁ => ?_
  refine ((h₁.fifoDup0 _ _).fifoMake _ _ _).bind fun s₂ h₂ => ?_
  refine ((h₂.fifoDup1 _ _).fifoOpenR _ _).bind fun s₃ h₃ => ?_
  refine (h₃.fifoOpenW _ _).bind fun s₄ h₄ => ?_
  exact (h₄.fifoSetfl _).bind fun s₅ h₅ => h₅.fifoSetfl _

end FifoHeld

/-! ## Descriptors -/

namespace FifoOutcomes

variable (o : FifoOutcomes) (isServer : Bool)

/-- The first `open` is reached and yields a descriptor: a server has made both FIFOs, and
    the path has been duplicated. -/
def OpensR : Prop :=
  (isServer = true → 0 ≤ o.mkfifo0 ∧ 0 ≤ o.mkfifo1) ∧
    (if isServer then o.strdup0 else o.strdup1) = true ∧ 0 ≤ o.openR

/-- So does the second `open`. -/
def OpensW : Prop :=
  o.OpensR isServer ∧ (if isServer then o.strdup1 else o.strdup0) = true ∧ 0 ≤ o.openW

/-- Both calls of `fcntl_setfl` succeed. -/
def Setfl : Prop := fcntlSetfl o.getflR o.setflR = 0 ∧ fcntlSetfl o.getflW o.setflW = 0

end FifoOutcomes

/-- How far the descriptors of a failed setup have got. -/
inductive FifoOpened (o : FifoOutcomes) (isServer : Bool) (s : ChannelFifo × List FifoAct) : Prop
  | none (fails : ¬ o.OpensR isServer) (rfd_le : s.1.rfd ≤ 0) (wfd_le : s.1.wfd ≤ 0)
    (opens : fifoOpens s.2 = [])
  | first (first : o.OpensR isServer) (fails : ¬ o.OpensW isServer)
    (rfd_eq : s.1.rfd = o.openR) (wfd_lt : s.1.wfd < 0) (opens : fifoOpens s.2 = [o.openR])
  | both (both : o.OpensW isServer) (fails : ¬ o.Setfl) (rfd_eq : s.1.rfd = o.openR)
    (wfd_eq : s.1.wfd = o.openW) (opens : fifoOpens s.2 = [o.openR, o.openW])

/-- A failed setup; a client has tried to duplicate both paths. -/
structure FifoFailed (o : FifoOutcomes) (isServer : Bool) (s : ChannelFifo × List FifoAct) :
    Prop where
  opened : FifoOpened o isServer s
  fifo0_iff : isServer = false → (s.1.fifo0 ≠ none ↔ o.strdup0 = true)
  fifo1_iff : isServer = false → (s.1.fifo1 ≠ none ↔ o.strdup1 = true)

/-- What a successful setup has stored. -/
structure FifoReady (o : FifoOutcomes) (isServer : Bool) (s : ChannelFifo × List FifoAct) :
    Prop where
  opens : o.OpensW isServer
  setfl : o.Setfl
  rfd_eq : s.1.rfd = o.openR
  wfd_eq : s.1.wfd = o.openW
  opens_eq : fifoOpens s.2 = [o.openR, o.openW]
  fifo0_ne : s.1.fifo0 ≠ none
  fifo1_ne : s.1.fifo1 ≠ none

section

variable {s : ChannelFifo × List FifoAct}

theorem fifoMake_ends (path : List Int8) (stale : Bool) (rc : Int) :
    FifoStage.Ends
      (fun s' => (s.1.isServer = true → 0 ≤ rc) ∧ s'.1 = s.1 ∧ fifoOpens s'.2 = fifoOpens s.2)
      (fun s' => s.1.isServer = true ∧ rc < 0 ∧ s'.1 = s.1 ∧ fifoOpens s'.2 = fifoOpens s.2)
      (fifoMake path stale rc s) := by
  unfold fifoMake
  split
  · next hs =>
    split
    · next hrc => exact ⟨hs, hrc, rfl, by simp [fifoOpens]⟩
    · next hrc => exact ⟨fun _ => Int.not_lt.mp hrc, rfl, by simp [fifoOpens]⟩
  · next hs => exact ⟨fun h => absurd h hs, rfl, rfl⟩

theorem fifoDup0_eq (h : s.1.fifo0 = none) (path : List Int8) (found : Bool) :
    (fifoDup0 path found s).1 = { s.1 with fifo0 := if found then some path else none } ∧
      fifoOpens (fifoDup0 path found s).2 = fifoOpens s.2 := by
  cases found with
  | true => exact ⟨rfl, by simp [fifoDup0, fifoDup, fifoOpens]⟩
  | false => exact ⟨by simp [fifoDup0, fifoDup, ← h], rfl⟩

theorem fifoDup1_eq (h : s.1.fifo1 = none) (path : List Int8) (found : Bool) :
    (fifoDup1 path found s).1 = { s.1 with fifo1 := if found then some path else none } ∧
      fifoOpens (fifoDup1 path found s).2 = fifoOpens s.2 := by
  cases found with
  | true => exact ⟨rfl, by simp [fifoDup1, fifoDup, fifoOpens]⟩
  | false => exact ⟨by simp [fifoDup1, fifoDup, ← h], rfl⟩

theorem cOpen_neg_iff (path : Option (List Int8)) (fd : Int) :
    cOpen path fd < 0 ↔ ¬ (path ≠ none ∧ 0 ≤ fd) := by
  cases path with
  | none => simp [cOpen]
  | some p => simp [cOpen]

/-- An `open` that fails leaves a negative number in the context. -/
theorem fifoOpen_ends (set : ChannelFifo → Int → ChannelFifo) (path : Option (List Int8))
    (fd : Int) :
    FifoStage.Ends
      (fun s' => (path ≠ none ∧ 0 ≤ fd) ∧ s'.1 = set s.1 fd ∧
        fifoOpens s'.2 = fifoOpens s.2 ++ [fd])
      (fun s' => ¬ (path ≠ none ∧ 0 ≤ fd) ∧ (∃ r < 0, s'.1 = set s.1 r) ∧
        fifoOpens s'.2 = fifoOpens s.2)
      (fifoOpen set path fd s) := by
  simp only [fifoOpen]
  split
  · next hneg => exact ⟨(cOpen_neg_iff path fd).mp hneg, ⟨_, hneg, rfl⟩, rfl⟩
  · next hpos =>
    obtain ⟨hpath, hfd⟩ := not_not.mp ((cOpen_neg_iff path fd).not.mp hpos)
    have hopen : cOpen path fd = fd := if_neg hpath
    exact ⟨⟨hpath, hfd⟩, by rw [hopen], by rw [hopen, fifoOpens_append]; rfl⟩

theorem fifoSetfl_ends (getfl setfl : Int) :
    FifoStage.Ends (fun s' => fcntlSetfl getfl setfl = 0 ∧ s' = s)
      (fun s' => fcntlSetfl getfl setfl ≠ 0 ∧ s' = s) (fifoSetfl (fcntlSetfl getfl setfl) s) := by
  have hrange : fcntlSetfl getfl setfl = 0 ∨ fcntlSetfl getfl setfl = -1 := by
    unfold fcntlSetfl
    split
    · exact .inr rfl
    · split
      · exact .inr rfl
      · exact .inl rfl
  unfold fifoSetfl
  split
  · exact ⟨by omega, rfl⟩
  · exact ⟨by omega, rfl⟩

end

/-- What the stages in front of the first `open` have done. -/
structure FifoPaths (o : FifoOutcomes) (isServer : Bool) (s : ChannelFifo × List FifoAct) :
    Prop where
  made : isServer = true → 0 ≤ o.mkfifo0 ∧ 0 ≤ o.mkfifo1
  isServer_eq : s.1.isServer = isServer
  fifo0_iff : s.1.fifo0 ≠ none ↔ o.strdup0 = true
  fifo1_iff : s.1.fifo1 ≠ none ↔ o.strdup1 = true
  wfd_eq : s.1.wfd = 0
  opens_eq : fifoOpens s.2 = []

namespace FifoPaths

variable {o : FifoOutcomes} {isServer : Bool} {s : ChannelFifo × List FifoAct}

/-- The path of the first `open` is there if it was duplicated. -/
theorem opensR_iff (h : FifoPaths o isServer s) :
    o.OpensR isServer ↔ (if isServer then s.1.fifo0 else s.1.fifo1) ≠ none ∧ 0 ≤ o.openR := by
  rw [FifoOutcomes.OpensR, and_iff_right h.made]
  cases isServer with
  | true => simp only [if_true, h.fifo0_iff]
  | false => simp only [Bool.false_eq_true, if_false, h.fifo1_iff]

theorem opensW_iff (h : FifoPaths o isServer s) (hR : o.OpensR isServer) :
    o.OpensW isServer ↔ (if isServer then s.1.fifo1 else s.1.fifo0) ≠ none ∧ 0 ≤ o.openW := by
  rw [FifoOutcomes.OpensW, and_iff_right hR]
  cases isServer with
  | true => simp only [if_true, h.fifo1_iff]
  | false => simp only [Bool.false_eq_true, if_false, h.fifo0_iff]

/-- Behind these stages the paths stay. -/
theorem failed {s' : ChannelFifo × List FifoAct} (h : FifoPaths o isServer s)
    (hopened : FifoOpened o isServer s') (hfifo0 : s'.1.fifo0 = s.1.fifo0)
    (hfifo1 : s'.1.fifo1 = s.1.fifo1) : FifoFailed o isServer s' where
  opened := hopened
  fifo0_iff _ := by rw [hfifo0, h.fifo0_iff]
  fifo1_iff _ := by rw [hfifo1, h.fifo1_iff]

/-- The stages behind, from the first `open` on. -/
theorem opens_ends (h : FifoPaths o isServer s) :
    FifoStage.Ends (FifoReady o isServer) (FifoFailed o isServer) (do
      let s ← fifoOpenR (if s.1.isServer then s.1.fifo0 else s.1.fifo1) o.openR s
      let s ← fifoOpenW (if s.1.isServer then s.1.fifo1 else s.1.fifo0) o.openW s
      let s ← fifoSetfl (fcntlSetfl o.getflR o.setflR) s
      fifoSetfl (fcntlSetfl o.getflW o.setflW) s) := by
  rw [h.isServer_eq]
  refine ((fifoOpen_ends _ _ o.openR).mono_error ?_).bind fun s₁ ⟨hR, hctx₁, hopens₁⟩ => ?_
  · intro s' ⟨hfail, ⟨r, hneg, hctx⟩, hopens⟩
    have hrfd : s'.1.rfd ≤ 0 := by
      rw [hctx]
      exact Int.le_of_lt hneg
    have hwfd : s'.1.wfd ≤ 0 := by
      rw [hctx]
      exact Int.le_of_eq h.wfd_eq
    have hopened := FifoOpened.none (h.opensR_iff.not.mpr hfail) hrfd hwfd (hopens.trans h.opens_eq)
    exact h.failed hopened (by rw [hctx]) (by rw [hctx])
  have hopensR := h.opensR_iff.mpr hR
  rw [h.opens_eq, List.nil_append] at hopens₁
  have hserver : s₁.1.isServer = isServer := by rw [hctx₁, ← h.isServer_eq]
  have hpath : (if s₁.1.isServer then s₁.1.fifo1 else s₁.1.fifo0) =
      if isServer then s.1.fifo1 else s.1.fifo0 := by rw [hserver, hctx₁]
  rw [hpath]
  refine ((fifoOpen_ends _ _ o.openW).mono_error ?_).bind fun s₂ ⟨hW, hctx₂, hopens₂⟩ => ?_
  · intro s' ⟨hfail, ⟨w, hneg, hctx⟩, hopens⟩
    rw [hctx₁] at hctx
    have hrfd : s'.1.rfd = o.openR := by rw [hctx]
    have hwfd : s'.1.wfd < 0 := by
      rw [hctx]
      exact hneg
    have hopened := FifoOpened.first hopensR ((h.opensW_iff hopensR).not.mpr hfail) hrfd hwfd
      (hopens.trans hopens₁)
    exact h.failed hopened (by rw [hctx]) (by rw [hctx])
  have hopensW := (h.opensW_iff hopensR).mpr hW
  rw [hopens₁, List.singleton_append] at hopens₂
  have hrfd : s₂.1.rfd = o.openR := by rw [hctx₂, hctx₁]
  have hwfd : s₂.1.wfd = o.openW := by rw [hctx₂]
  have hfifo0 : s₂.1.fifo0 = s.1.fifo0 := by rw [hctx₂, hctx₁]
  have hfifo1 : s₂.1.fifo1 = s.1.fifo1 := by rw [hctx₂, hctx₁]
  -- `fcntl_setfl` changes nothing in the context
  have hboth : ¬ o.Setfl → FifoFailed o isServer s₂ := fun hset =>
    h.failed (.both hopensW hset hrfd hwfd hopens₂) hfifo0 hfifo1
  refine ((fifoSetfl_ends _ _).mono_error ?_).bind fun s₃ ⟨hsetR, heq₃⟩ => ?_
  · intro s' ⟨hfail, heq⟩
    subst heq
    exact hboth fun hset => hfail hset.1
  subst heq₃
  refine (fifoSetfl_ends _ _).mono ?_ ?_
  · intro s' ⟨hsetW, heq⟩
    subst heq
    have hpaths : s'.1.fifo0 ≠ none ∧ s'.1.fifo1 ≠ none := by
      rw [hfifo0, hfifo1]
      cases isServer with
      | true => exact ⟨hR.1, hW.1⟩
      | false => exact ⟨hW.1, hR.1⟩
    exact ⟨hopensW, ⟨hsetR, hsetW⟩, hrfd, hwfd, hopens₂, hpaths.1, hpaths.2⟩
  · intro s' ⟨hfail, heq⟩
    subst heq
    exact hboth fun hset => hfail hset.2

end FifoPaths

/-- A server that could not make a FIFO has opened nothing. -/
theorem FifoFailed.of_fifoMake {o : FifoOutcomes} {isServer : Bool}
    {s : ChannelFifo × List FifoAct} (hserver : isServer = true) (hfail : ¬ o.OpensR isServer)
    (hrfd : s.1.rfd = 0) (hwfd : s.1.wfd = 0) (hopens : fifoOpens s.2 = []) :
    FifoFailed o isServer s where
  opened := .none hfail (Int.le_of_eq hrfd) (Int.le_of_eq hwfd) hopens
  fifo0_iff hclient := absurd (hserver.symm.trans hclient) (by decide)
  fifo1_iff hclient := absurd (hserver.symm.trans hclient) (by decide)

/-- What the body has opened where it ends. -/
theorem channelFifoBody_ends (o : FifoOutcomes) (device : CString) (isServer : Bool) :
    FifoStage.Ends (FifoReady o isServer) (FifoFailed o isServer)
      (channelFifoBody o device (⟨none, none, isServer, 0, 0⟩, [.alloc .ctx])) := by
  have hdup : ∀ (found : Bool) (path : List Int8),
      (if found then some path else none) ≠ none ↔ found = true := by
    intro found path
    cases found <;> simp
  refine ((fifoMake_ends _ o.stale0 o.mkfifo0).mono_error ?_).bind
    fun s₁ ⟨hmake0, hctx₁, hopens₁⟩ => ?_
  · intro s' ⟨hserver, hrc, hctx, hopens⟩
    have hfail : ¬ o.OpensR isServer := by
      intro hR
      have hmade := (hR.1 hserver).1
      omega
    exact .of_fifoMake hserver hfail (by rw [hctx]) (by rw [hctx]) hopens
  obtain ⟨hdup0, hopens₂⟩ := fifoDup0_eq (by rw [hctx₁]) (fifoPath device 48) o.strdup0 (s := s₁)
  rw [hctx₁] at hdup0
  rw [hopens₁] at hopens₂
  refine ((fifoMake_ends _ o.stale1 o.mkfifo1).mono_error ?_).bind
    fun s₃ ⟨hmake1, hctx₃, hopens₃⟩ => ?_
  · intro s' ⟨hserver, hrc, hctx, hopens⟩
    rw [hdup0] at hctx hserver
    have hfail : ¬ o.OpensR isServer := by
      intro hR
      have hmade := (hR.1 hserver).2
      omega
    exact .of_fifoMake hserver hfail (by rw [hctx]) (by rw [hctx]) (hopens.trans hopens₂)
  rw [hdup0] at hctx₃ hmake1
  obtain ⟨hdup1, hopens₄⟩ := fifoDup1_eq (by rw [hctx₃]) (fifoPath device 49) o.strdup1 (s := s₃)
  rw [hctx₃] at hdup1
  -- both FIFOs are made and both paths tried
  have hpaths : FifoPaths o isServer (fifoDup1 (fifoPath device 49) o.strdup1 s₃) := by
    constructor
    · exact fun h => ⟨hmake0 h, hmake1 h⟩
    · rw [hdup1]
    · rw [hdup1]
      exact hdup _ _
    · rw [hdup1]
      exact hdup _ _
    · rw [hdup1]
    · exact hopens₄.trans (hopens₃.trans hopens₂)
  exact hpaths.opens_ends

/-! ## The clean-up -/

section

variable (o : FifoOutcomes) (ctx : ChannelFifo)

theorem fifoOpens_error : fifoOpens (channelFifoError o ctx) = [] := by
  unfold channelFifoError
  cases ctx.fifo0 <;> cases ctx.fifo1 <;> split <;> split <;> rfl

theorem fifoAllocs_error : fifoAllocs (channelFifoError o ctx) = [] := by
  unfold channelFifoError
  cases ctx.fifo0 <;> cases ctx.fifo1 <;> split <;> split <;> rfl

/-- Both tests close the first descriptor. -/
theorem fifoCloses_error : fifoCloses (channelFifoError o ctx) =
    (if ctx.rfd > 0 then [ctx.rfd] else []) ++ (if ctx.wfd > 0 then [ctx.rfd] else []) := by
  unfold channelFifoError
  cases ctx.fifo0 <;> cases ctx.fifo1 <;> split <;> split <;> rfl

/-- What the context owns is freed. -/
theorem count_fifoFrees_error (obj : FifoObj) : (fifoFrees (channelFifoError o ctx)).count obj =
    if obj = .ctx ∨ (obj = .fifo0 ∧ ctx.fifo0 ≠ none) ∨ (obj = .fifo1 ∧ ctx.fifo1 ≠ none) then 1
    else 0 := by
  have hfrees : fifoFrees (channelFifoError o ctx) =
      (if ctx.fifo0 ≠ none then [.fifo0] else []) ++ (if ctx.fifo1 ≠ none then [.fifo1] else []) ++
        [.ctx] := by
    unfold channelFifoError
    cases ctx.fifo0 <;> cases ctx.fifo1 <;> split <;> split <;> rfl
  rw [hfrees]
  cases ctx.fifo0 <;> cases ctx.fifo1 <;> cases obj <;> simp

theorem fifoRemovals_error : fifoRemovals (channelFifoError o ctx) = [] ↔
    ¬ (ctx.fifo0 ≠ none ∧ o.unlink0 = true) ∧ ¬ (ctx.fifo1 ≠ none ∧ o.unlink1 = true) := by
  have hremovals : fifoRemovals (channelFifoError o ctx) =
      (if o.unlink0 then ctx.fifo0.toList else []) ++
        (if o.unlink1 then ctx.fifo1.toList else []) := by
    unfold channelFifoError
    cases ctx.fifo0 <;> cases ctx.fifo1 <;> cases o.unlink0 <;> cases o.unlink1 <;> split <;>
      split <;> rfl
  rw [hremovals]
  cases ctx.fifo0 <;> cases ctx.fifo1 <;> cases o.unlink0 <;> cases o.unlink1 <;> simp

end

/-- The clean-up frees what is held; descriptors and files depend on the outcomes. -/
theorem FifoHeld.released_error_iff {isServer : Bool} {s : ChannelFifo × List FifoAct}
    (h : FifoHeld isServer s) (o : FifoOutcomes) :
    FifoReleased isServer (s.2 ++ channelFifoError o s.1) ↔
      (∀ fd, (fifoCloses (channelFifoError o s.1)).count fd =
        if fd ∈ fifoOpens s.2 then 1 else 0) ∧
      (isServer = false → ¬ (s.1.fifo0 ≠ none ∧ o.unlink0 = true) ∧
        ¬ (s.1.fifo1 ≠ none ∧ o.unlink1 = true)) := by
  have hopens : fifoOpens (s.2 ++ channelFifoError o s.1) = fifoOpens s.2 := by
    rw [fifoOpens_append, fifoOpens_error, List.append_nil]
  have hcloses : fifoCloses (s.2 ++ channelFifoError o s.1) =
      fifoCloses (channelFifoError o s.1) := by
    rw [fifoCloses_append, h.closes_eq, List.nil_append]
  have hremovals : isServer = false → fifoRemovals (s.2 ++ channelFifoError o s.1) =
      fifoRemovals (channelFifoError o s.1) := by
    intro hc
    rw [fifoRemovals_append, h.removals_eq hc, List.nil_append]
  constructor
  · intro hrel
    refine ⟨fun fd => ?_, fun hc => ?_⟩
    · rw [← hcloses, ← hopens]
      exact hrel.closed fd
    · rw [← fifoRemovals_error, ← hremovals hc]
      exact hrel.kept hc
  · intro ⟨hclosed, hkept⟩
    refine ⟨fun fd => ?_, fun obj => ?_, fun hc => ?_⟩
    · rw [hcloses, hopens]
      exact hclosed fd
    · rw [fifoFrees_append, h.frees_eq, List.nil_append, fifoAllocs_append, fifoAllocs_error,
        List.append_nil, count_fifoFrees_error]
      simp only [h.allocs_eq obj]
    · rw [hremovals hc, fifoRemovals_error]
      exact hkept hc

/-- Nothing was opened, and nothing is closed. -/
theorem fifoCloses_none {o : FifoOutcomes} {ctx : ChannelFifo} (hrfd : ctx.rfd ≤ 0)
    (hwfd : ctx.wfd ≤ 0) (fd : Int) : (fifoCloses (channelFifoError o ctx)).count fd = 0 := by
  rw [fifoCloses_error, if_neg (by omega), if_neg (by omega)]
  rfl

/-- One descriptor is closed if it is not 0. -/
theorem fifoCloses_first_iff {o : FifoOutcomes} {ctx : ChannelFifo} (hrfd : 0 ≤ ctx.rfd)
    (hwfd : ctx.wfd < 0) :
    (∀ fd, (fifoCloses (channelFifoError o ctx)).count fd = if fd ∈ [ctx.rfd] then 1 else 0) ↔
      ctx.rfd ≠ 0 := by
  rw [fifoCloses_error, if_neg (show ¬ ctx.wfd > 0 by omega), List.append_nil]
  constructor
  · intro hall hzero
    have hcount := hall ctx.rfd
    rw [if_neg (by omega), if_pos List.mem_cons_self] at hcount
    cases hcount
  · intro hne fd
    rw [if_pos (by omega)]
    by_cases hfd : fd = ctx.rfd
    · subst hfd
      simp
    · simp [hfd, Ne.symm hfd]

/-- Of two descriptors the second is never closed, and the first twice if it is equal. -/
theorem fifoCloses_both (o : FifoOutcomes) (ctx : ChannelFifo) :
    ¬ ∀ fd, (fifoCloses (channelFifoError o ctx)).count fd =
      if fd ∈ [ctx.rfd, ctx.wfd] then 1 else 0 := by
  intro hall
  have hcount := hall ctx.wfd
  rw [if_pos (List.mem_cons_of_mem _ List.mem_cons_self), fifoCloses_error] at hcount
  by_cases heq : ctx.rfd = ctx.wfd
  · rw [heq] at hcount
    by_cases hpos : ctx.wfd > 0
    · simp [hpos] at hcount
    · simp [hpos] at hcount
  · have hnone : (fifoCloses (channelFifoError o ctx)).count ctx.wfd = 0 := by
      rw [fifoCloses_error]
      split <;> split <;> simp [heq]
    rw [fifoCloses_error] at hnone
    rw [hnone] at hcount
    cases hcount

/-! ## Setup and teardown -/

/-- When a failed setup releases what it has acquired: not with two descriptors, not with
    the descriptor 0, and in a client only if the clean-up removes no file. -/
def FifoOutcomes.CleansUp (o : FifoOutcomes) (device : CString) (isServer : Bool) : Prop :=
  castInt device.chars.length ≤ 120 → o.calloc = true →
    (o.OpensW isServer → o.Setfl) ∧
    (o.OpensR isServer → ¬ o.OpensW isServer → o.openR ≠ 0) ∧
    (isServer = false → ¬ o.OpensW isServer →
      ¬ (o.strdup0 = true ∧ o.unlink0 = true) ∧ ¬ (o.strdup1 = true ∧ o.unlink1 = true))

/-- The descriptors that are closed are the ones that were opened. -/
theorem FifoOpened.closes_iff {o : FifoOutcomes} {isServer : Bool} {s : ChannelFifo × List FifoAct}
    (h : FifoOpened o isServer s) :
    (∀ fd, (fifoCloses (channelFifoError o s.1)).count fd =
      if fd ∈ fifoOpens s.2 then 1 else 0) ↔
    ¬ o.OpensW isServer ∧ (o.OpensR isServer → o.openR ≠ 0) := by
  cases h with
  | none fails rfd_le wfd_le opens =>
    rw [opens]
    refine iff_of_true (fun fd => fifoCloses_none rfd_le wfd_le fd) ?_
    exact ⟨fun hW => fails hW.1, fun hR => absurd hR fails⟩
  | first first fails rfd_eq wfd_lt opens =>
    have hnonneg : 0 ≤ s.1.rfd := rfd_eq ▸ first.2.2
    rw [opens, ← rfd_eq, fifoCloses_first_iff hnonneg wfd_lt]
    exact ⟨fun hne => ⟨fails, fun _ => hne⟩, fun hcond => hcond.2 first⟩
  | both both fails rfd_eq wfd_eq opens =>
    rw [opens, ← rfd_eq, ← wfd_eq]
    exact iff_of_false (fifoCloses_both o s.1) fun hcond => hcond.1 both

/-- A setup that fails behind the allocation of the context. -/
theorem FifoFailed.released_iff {o : FifoOutcomes} {isServer : Bool}
    {s : ChannelFifo × List FifoAct} (h : FifoFailed o isServer s) (hheld : FifoHeld isServer s) :
    FifoReleased isServer (s.2 ++ channelFifoError o s.1) ↔
      (o.OpensW isServer → o.Setfl) ∧
      (o.OpensR isServer → ¬ o.OpensW isServer → o.openR ≠ 0) ∧
      (isServer = false → ¬ o.OpensW isServer →
        ¬ (o.strdup0 = true ∧ o.unlink0 = true) ∧ ¬ (o.strdup1 = true ∧ o.unlink1 = true)) := by
  -- a setup with two descriptors fails at `fcntl_setfl`
  have hsetfl : o.OpensW isServer → ¬ o.Setfl := by
    intro hW
    cases h.opened with
    | none fails => exact absurd hW.1 fails
    | first _ fails => exact absurd hW fails
    | both _ fails => exact fails
  rw [hheld.released_error_iff o, h.opened.closes_iff]
  constructor
  · intro ⟨⟨hW, hR⟩, hkept⟩
    refine ⟨fun hW' => absurd hW' hW, fun hR' _ => hR hR', fun hc _ => ?_⟩
    rw [← h.fifo0_iff hc, ← h.fifo1_iff hc]
    exact hkept hc
  · intro ⟨hW, hR, hkept⟩
    have hnot : ¬ o.OpensW isServer := fun hW' => hsetfl hW' (hW hW')
    refine ⟨⟨hnot, fun hR' => hR hR' hnot⟩, fun hc => ?_⟩
    rw [h.fifo0_iff hc, h.fifo1_iff hc]
    exact hkept hc hnot

/-- For which outcomes of the system calls a setup that returns -1 has released exactly what
    it acquired. -/
theorem channelFifoSetup_released_iff (o : FifoOutcomes) (device : CString) (isServer : Bool) :
    ((channelFifoSetup o device isServer).1 = -1 →
      FifoReleased isServer (channelFifoSetup o device isServer).2.2) ↔
    o.CleansUp device isServer := by
  have hnothing : FifoReleased isServer [] := ⟨fun _ => rfl, fun _ => rfl, fun _ => rfl⟩
  -- the first two failures have acquired nothing
  unfold FifoOutcomes.CleansUp channelFifoSetup
  split
  · exact iff_of_true (fun _ => hnothing) fun hle => absurd hle (by omega)
  · next hlen =>
    split
    · next hcalloc => exact iff_of_true (fun _ => hnothing) fun _ hc => absurd hc hcalloc
    · next hcalloc =>
      rw [forall_prop_of_true (Int.not_lt.mp hlen), forall_prop_of_true (not_not.mp hcalloc)]
      have hends := channelFifoBody_ends o device isServer
      have hheld := (FifoHeld.init isServer).channelFifoBody o device
      cases hbody : channelFifoBody o device (⟨none, none, isServer, 0, 0⟩, [.alloc .ctx]) with
      | ok s =>
        rw [hbody] at hends
        refine iff_of_true (fun hrc => by cases hrc) ?_
        exact ⟨fun _ => hends.setfl, fun _ hW => absurd hends.opens hW,
          fun _ hW => absurd hends.opens hW⟩
      | error s =>
        rw [hbody] at hends hheld
        rw [forall_prop_of_true rfl]
        exact hends.released_iff hheld

/-- A server whose `fcntl_setfl` fails with the descriptors 5 and 6 open closes 5 twice. -/
theorem channelFifoSetup_closes_twice :
    ∃ acts, channelFifoSetup
        { calloc := true, stale0 := false, mkfifo0 := 0, strdup0 := true, stale1 := false,
          mkfifo1 := 0, strdup1 := true, openR := 5, openW := 6, getflR := 0, setflR := -1,
          getflW := 0, setflW := 0, unlink0 := true, unlink1 := true }
        ⟨[100], by decide⟩ true = (-1, none, acts) ∧
      fifoOpens acts = [5, 6] ∧ fifoCloses acts = [5, 5] ∧ ¬ FifoReleased true acts := by
  refine ⟨_, rfl, rfl, rfl, fun hrel => ?_⟩
  have hcount := hrel.closed 6
  exact absurd hcount (by decide)

section

variable (ctx : ChannelFifo) (unlink0 unlink1 : Bool)

theorem fifoOpens_teardown : fifoOpens (channelFifoTeardown ctx unlink0 unlink1) = [] := by
  unfold channelFifoTeardown
  split <;> rfl

theorem fifoAllocs_teardown : fifoAllocs (channelFifoTeardown ctx unlink0 unlink1) = [] := by
  unfold channelFifoTeardown
  split <;> rfl

theorem fifoCloses_teardown :
    fifoCloses (channelFifoTeardown ctx unlink0 unlink1) = [ctx.rfd, ctx.wfd] := by
  unfold channelFifoTeardown
  split <;> rfl

theorem fifoFrees_teardown :
    fifoFrees (channelFifoTeardown ctx unlink0 unlink1) = [.fifo0, .fifo1, .ctx] := by
  unfold channelFifoTeardown
  split <;> rfl

theorem fifoRemovals_teardown (hclient : ctx.isServer = false) :
    fifoRemovals (channelFifoTeardown ctx unlink0 unlink1) = [] := by
  rw [channelFifoTeardown, hclient]
  rfl

end

/-- After a successful setup `channel_fifo_teardown` releases everything; the kernel gives
    two open files different descriptors. -/
theorem channelFifoTeardown_released {o : FifoOutcomes} {device : CString} {isServer : Bool}
    {ctx : ChannelFifo} {acts : List FifoAct}
    (h : channelFifoSetup o device isServer = (0, some ctx, acts)) (hfds : o.openR ≠ o.openW)
    (unlink0 unlink1 : Bool) :
    FifoReleased isServer (acts ++ channelFifoTeardown ctx unlink0 unlink1) := by
  unfold channelFifoSetup at h
  split at h
  · cases h
  split at h
  · cases h
  have hends := channelFifoBody_ends o device isServer
  have hheld := (FifoHeld.init isServer).channelFifoBody o device
  cases hbody : channelFifoBody o device (⟨none, none, isServer, 0, 0⟩, [.alloc .ctx]) with
  | error s =>
    rw [hbody] at h
    cases h
  | ok s =>
    rw [hbody] at h hends hheld
    obtain ⟨_, _, hrfd, hwfd, hopens, hfifo0, hfifo1⟩ := hends
    obtain ⟨rfl, rfl⟩ : s.1 = ctx ∧ s.2 = acts := by simpa using h
    -- each number, object and file in turn
    constructor
    · intro fd
      rw [fifoCloses_append, hheld.closes_eq, List.nil_append, fifoCloses_teardown,
        fifoOpens_append, hopens, fifoOpens_teardown, List.append_nil, hrfd, hwfd]
      by_cases hR : fd = o.openR
      · subst hR
        simp [Ne.symm hfds]
      · by_cases hW : fd = o.openW
        · subst hW
          simp [hfds]
        · simp [hR, hW, Ne.symm hR, Ne.symm hW]
    · intro obj
      have hmem : obj ∈ fifoAllocs s.2 := by
        rw [hheld.allocs_eq]
        cases obj <;> simp [hfifo0, hfifo1]
      rw [fifoFrees_append, hheld.frees_eq, fifoFrees_teardown, fifoAllocs_append,
        fifoAllocs_teardown, List.append_nil, if_pos hmem]
      cases obj <;> rfl
    · intro hclient
      rw [fifoRemovals_append, hheld.removals_eq hclient,
        fifoRemovals_teardown s.1 unlink0 unlink1 (hheld.isServer_eq.trans hclient),
        List.append_nil]

end CUtils
