import CUtils.Spec.ChannelFifoGuard

/-!
# Channels and their descriptors

- `channelFifoStep_setup`: the two ways in which a setup ends, with what it does to the kernel.
- `channelFifoStep_wf`: the descriptors of every channel stay open, and no two channels share one.
-/

namespace CUtils

/-! ## What a setup and a teardown do -/

theorem FifoStage.bind_eq_ok {r : FifoStage} {f : ChannelFifo × List FifoAct → FifoStage}
    {s : ChannelFifo × List FifoAct} (h : r >>= f = .ok s) : ∃ m, r = .ok m ∧ f m = .ok s := by
  cases r with
  | ok m => exact ⟨m, rfl, h⟩
  | error m => cases h

theorem fifoMake_eq_ok {path : List Int8} {stale : Bool} {rc : Int}
    {s s' : ChannelFifo × List FifoAct} (h : fifoMake path stale rc s = .ok s') :
    s' = (s.1, s.2 ++ if s.1.isServer then [.unlink path stale, .mkfifo path] else []) := by
  unfold fifoMake at h
  split at h
  · next hs =>
    split at h
    · cases h
    · rw [hs]
      exact (Except.ok.inj h).symm
  · next hs =>
    rw [if_neg hs, List.append_nil]
    exact (Except.ok.inj h).symm

theorem fifoOpen_eq_ok {set : ChannelFifo → Int → ChannelFifo} {path : Option (List Int8)}
    {fd : Int} {s s' : ChannelFifo × List FifoAct} (h : fifoOpen set path fd s = .ok s') :
    path ≠ none ∧ s' = (set s.1 fd, s.2 ++ [.opened fd]) := by
  unfold fifoOpen at h
  simp only at h
  split at h
  · cases h
  · next hfd =>
    obtain ⟨hpath, _⟩ := not_not.mp ((cOpen_neg_iff path fd).not.mp hfd)
    rw [cOpen, if_neg hpath] at h
    exact ⟨hpath, (Except.ok.inj h).symm⟩

theorem fifoSetfl_eq_ok {rc : Int} {s s' : ChannelFifo × List FifoAct}
    (h : fifoSetfl rc s = .ok s') : s' = s := by
  unfold fifoSetfl at h
  split at h
  · cases h
  · exact (Except.ok.inj h).symm

/-- A server makes the FIFO at a path anew. -/
def fifoMakeActs (isServer : Bool) (path : List Int8) (stale : Bool) : List FifoAct :=
  if isServer then [FifoAct.unlink path stale, FifoAct.mkfifo path] else []

/-- The acts of a setup that succeeds. -/
def fifoReadyActs (o : FifoOutcomes) (device : CString) (isServer : Bool) : List FifoAct :=
  (FifoAct.alloc .ctx :: fifoMakeActs isServer (fifoPath device 48) o.stale0) ++
    (FifoAct.alloc .fifo0 :: fifoMakeActs isServer (fifoPath device 49) o.stale1) ++
    [FifoAct.alloc .fifo1, FifoAct.opened o.openR, FifoAct.opened o.openW]

/-- The context and the acts of a successful setup. -/
theorem channelFifoBody_eq_ok {o : FifoOutcomes} {device : CString} {isServer : Bool}
    {s : ChannelFifo × List FifoAct}
    (h : channelFifoBody o device (⟨none, none, isServer, 0, 0⟩, [.alloc .ctx]) = .ok s) :
    s = (⟨some (fifoPath device 48), some (fifoPath device 49), isServer, o.openR, o.openW⟩,
      fifoReadyActs o device isServer) := by
  obtain ⟨s₁, h₁, h⟩ := FifoStage.bind_eq_ok h
  obtain rfl := fifoMake_eq_ok h₁
  obtain ⟨s₂, h₂, h⟩ := FifoStage.bind_eq_ok h
  obtain rfl := fifoMake_eq_ok h₂
  obtain ⟨s₃, h₃, h⟩ := FifoStage.bind_eq_ok h
  obtain ⟨s₄, h₄, h⟩ := FifoStage.bind_eq_ok h
  obtain ⟨s₅, h₅, h₆⟩ := FifoStage.bind_eq_ok h
  obtain rfl := fifoSetfl_eq_ok h₅
  obtain rfl := fifoSetfl_eq_ok h₆
  obtain ⟨hR, rfl⟩ := fifoOpen_eq_ok h₃
  obtain ⟨hW, rfl⟩ := fifoOpen_eq_ok h₄
  -- an open that has succeeded has found the copy of its path
  cases hd0 : o.strdup0 <;> cases hd1 : o.strdup1 <;> cases isServer <;>
    simp [fifoReadyActs, fifoMakeActs, fifoDup0, fifoDup1, fifoDup, hd0, hd1] at hR hW ⊢

/-- The acts make FIFOs at the paths of the device only. -/
def MakesOwn (device : CString) (acts : List FifoAct) : Prop :=
  ∀ act ∈ acts, ∀ path ∈ act.makes, path = fifoPath device 48 ∨ path = fifoPath device 49

namespace MakesOwn

variable {device : CString} {acts acts' : List FifoAct} {s : ChannelFifo × List FifoAct}

theorem append (h : MakesOwn device acts) (h' : MakesOwn device acts') :
    MakesOwn device (acts ++ acts') := by
  intro act hact
  exact (List.mem_append.mp hact).elim (h act) (h' act)

/-- Acts of another kind. -/
theorem of_makes_nil (h : ∀ act ∈ acts, act.makes = []) : MakesOwn device acts := by
  intro act hact path hpath
  rw [h act hact] at hpath
  cases hpath

theorem fifoMake (h : MakesOwn device s.2) {path : List Int8}
    (hpath : path = fifoPath device 48 ∨ path = fifoPath device 49) (stale : Bool) (rc : Int) :
    FifoStage.Ends (MakesOwn device ·.2) (MakesOwn device ·.2)
      (CUtils.fifoMake path stale rc s) := by
  unfold CUtils.fifoMake
  split
  · split
    · exact h.append (of_makes_nil (by simp [FifoAct.makes]))
    · apply h.append
      simpa [MakesOwn, FifoAct.makes] using hpath
  · exact h

theorem fifoDup (h : MakesOwn device s.2) (set : ChannelFifo → List Int8 → ChannelFifo)
    (obj : FifoObj) (path : List Int8) (found : Bool) :
    MakesOwn device (CUtils.fifoDup set obj path found s).2 := by
  unfold CUtils.fifoDup
  split
  · exact h.append (of_makes_nil (by simp [FifoAct.makes]))
  · exact h

theorem fifoOpen (h : MakesOwn device s.2) (set : ChannelFifo → Int → ChannelFifo)
    (path : Option (List Int8)) (fd : Int) :
    FifoStage.Ends (MakesOwn device ·.2) (MakesOwn device ·.2) (CUtils.fifoOpen set path fd s) := by
  simp only [CUtils.fifoOpen]
  split
  · exact h
  · exact h.append (of_makes_nil (by simp [FifoAct.makes]))

theorem fifoSetfl (h : MakesOwn device s.2) (rc : Int) :
    FifoStage.Ends (MakesOwn device ·.2) (MakesOwn device ·.2) (CUtils.fifoSetfl rc s) := by
  unfold CUtils.fifoSetfl
  split
  · exact h
  · exact h

theorem channelFifoBody (h : MakesOwn device s.2) (o : FifoOutcomes) :
    FifoStage.Ends (MakesOwn device ·.2) (MakesOwn device ·.2)
      (CUtils.channelFifoBody o device s) := by
  apply (h.fifoMake (.inl rfl) _ _).bind
  intro s₁ h₁
  apply ((h₁.fifoDup _ _ _ _).fifoMake (.inr rfl) _ _).bind
  intro s₂ h₂
  apply ((h₂.fifoDup _ _ _ _).fifoOpen _ _ _).bind
  intro s₃ h₃
  apply (h₃.fifoOpen _ _ _).bind
  intro s₄ h₄
  exact (h₄.fifoSetfl _).bind fun s₅ h₅ => h₅.fifoSetfl _

/-- The error path makes nothing. -/
theorem error (o : FifoOutcomes) (ctx : ChannelFifo) :
    MakesOwn device (channelFifoError o ctx) := by
  apply of_makes_nil
  intro act hact
  cases act with
  | mkfifo path =>
    cases h0 : ctx.fifo0 <;> cases h1 : ctx.fifo1 <;> simp [channelFifoError, h0, h1] at hact
  | _ => rfl

end MakesOwn

/-- The two ways in which a setup ends. -/
inductive FifoSetupCase (o : FifoOutcomes) (device : CString) (isServer : Bool) :
    Int × Option ChannelFifo × List FifoAct → Prop
  | ready : FifoSetupCase o device isServer (0,
      some ⟨some (fifoPath device 48), some (fifoPath device 49), isServer, o.openR, o.openW⟩,
      fifoReadyActs o device isServer)
  | failed (acts : List FifoAct) (makes : MakesOwn device acts) (closes : ClosesOwn [] acts) :
    FifoSetupCase o device isServer (-1, none, acts)

/-- What the failed body has opened is all that the error path closes. -/
theorem FifoOpened.closes_subset {o : FifoOutcomes} {isServer : Bool}
    {s : ChannelFifo × List FifoAct} (h : FifoOpened o isServer s) (o' : FifoOutcomes) :
    ∀ fd ∈ fifoCloses (channelFifoError o' s.1), fd ∈ fifoOpens s.2 := by
  intro fd hfd
  have hrfd : fd = s.1.rfd ∧ (s.1.rfd > 0 ∨ s.1.wfd > 0) := by
    rw [fifoCloses_error] at hfd
    by_cases hr : s.1.rfd > 0 <;> by_cases hw : s.1.wfd > 0 <;> simp [hr, hw] at hfd ⊢ <;> exact hfd
  cases h with
  | none _ hr hw _ => omega
  | first _ _ heq _ hopens =>
    rw [hopens, hrfd.1, heq]
    exact List.mem_singleton_self _
  | both _ _ heq _ hopens =>
    rw [hopens, hrfd.1, heq]
    exact List.mem_cons_self

theorem channelFifoSetup_cases (o : FifoOutcomes) (device : CString) (isServer : Bool) :
    FifoSetupCase o device isServer (channelFifoSetup o device isServer) := by
  have hnone : MakesOwn device [] := fun _ hact => by cases hact
  unfold channelFifoSetup
  split
  · exact .failed [] hnone trivial
  · split
    · exact .failed [] hnone trivial
    · have hinit : MakesOwn device [.alloc .ctx] := .of_makes_nil (by simp [FifoAct.makes])
      have hmakes := MakesOwn.channelFifoBody
        (show MakesOwn device ((⟨none, none, isServer, 0, 0⟩, [.alloc .ctx]) : ChannelFifo × _).2
          from hinit) o
      have hheld := (FifoHeld.init isServer).channelFifoBody o device
      have hends := channelFifoBody_ends o device isServer
      cases hbody : channelFifoBody o device (⟨none, none, isServer, 0, 0⟩, [.alloc .ctx]) with
      | ok s =>
        obtain rfl := channelFifoBody_eq_ok hbody
        exact .ready
      | error s =>
        rw [hbody] at hmakes hheld hends
        have hown : MakesOwn device s.2 := hmakes
        have hclosed : fifoCloses s.2 = [] := FifoHeld.closes_eq hheld
        have hfailed : FifoFailed o isServer s := hends
        exact .failed _ (hown.append (.error o s.1)) (closesOwn_append hclosed fun fd hfd =>
          .inr (hfailed.opened.closes_subset o fd hfd))

section

variable {alloc : Allocator (List UInt8)} {proc : Nat} {paths paths' : List (List Int8)}
variable {k k' : FifoKernel}

theorem fifoActs_append {acts acts' : List FifoAct} {s : List (List Int8) × FifoKernel} :
    fifoActs alloc proc (acts ++ acts') s =
      (fifoActs alloc proc acts s).bind (fifoActs alloc proc acts') := by
  induction acts generalizing s with
  | nil => rfl
  | cons act acts ih =>
    rw [List.cons_append, fifoActs, fifoActs, Option.bind_assoc]
    congr 1
    funext s'
    exact ih

/-- A server makes a FIFO anew: it is empty, and nothing else has its address. -/
theorem fifoActs_make {path : List Int8} {stale : Bool}
    (h : fifoActs alloc proc [.unlink path stale, .mkfifo path] (paths, k) = some (paths', k')) :
    paths' = paths ∧ ∃ q, k.fifos.cells q = none ∧
      k'.names = Function.update k.names path (some q) ∧
      k'.fifos.cells = Function.update k.fifos.cells q (some []) ∧ k'.fds = k.fds := by
  obtain ⟨⟨paths₁, k₁⟩, hun, h⟩ := Option.bind_eq_some_iff.mp h
  obtain ⟨⟨paths₂, k₂⟩, hmake, h⟩ := Option.bind_eq_some_iff.mp h
  obtain ⟨rfl, rfl⟩ := Prod.mk.inj (Option.some.inj h)
  obtain ⟨k₃, hmk, heq⟩ := Option.map_eq_some_iff.mp hmake
  obtain ⟨rfl, rfl⟩ := Prod.mk.inj heq
  obtain ⟨q, hfresh, _, hnames, hcells, hfds⟩ := FifoKernel.mkfifo_eq_some hmk
  cases stale with
  | false =>
    obtain ⟨rfl, rfl⟩ := Prod.mk.inj (Option.some.inj hun)
    exact ⟨rfl, q, hfresh, hnames, hcells, hfds⟩
  | true =>
    obtain ⟨k₄, hremove, heq⟩ := Option.map_eq_some_iff.mp hun
    obtain ⟨rfl, rfl⟩ := Prod.mk.inj heq
    obtain rfl := FifoKernel.unlink_eq_some hremove
    refine ⟨rfl, q, hfresh, ?_, hcells, hfds⟩
    rw [hnames, Function.update_idem]

/-- The two descriptors of a channel, behind everything else. -/
theorem fifoActs_open {pathR pathW : List Int8} {rfd wfd : Int}
    (h : fifoActs alloc proc [.alloc .fifo1, .opened rfd, .opened wfd] ([pathR, pathW], k) =
      some (paths', k')) :
    ∃ qr qw, k.names pathR = some qr ∧ k.names pathW = some qw ∧ k.lookup proc rfd = none ∧
      k.lookup proc wfd = none ∧ rfd ≠ wfd ∧ k'.names = k.names ∧ k'.fifos = k.fifos ∧
      ∀ p num, k'.lookup p num = if p = proc ∧ num = wfd then some qw
        else if p = proc ∧ num = rfd then some qr else k.lookup p num := by
  obtain ⟨_, halloc, h⟩ := Option.bind_eq_some_iff.mp h
  obtain rfl := Option.some.inj halloc
  obtain ⟨_, hR, h⟩ := Option.bind_eq_some_iff.mp h
  obtain ⟨k₁, hopenR, rfl⟩ := Option.map_eq_some_iff.mp hR
  obtain ⟨_, hW, h⟩ := Option.bind_eq_some_iff.mp h
  obtain ⟨k₂, hopenW, rfl⟩ := Option.map_eq_some_iff.mp hW
  obtain ⟨_, rfl⟩ := Prod.mk.inj (Option.some.inj h)
  obtain ⟨qr, hqr, hnoneR, rfl⟩ := FifoKernel.openAt_eq_some hopenR
  obtain ⟨qw, hqw, hnoneW, rfl⟩ := FifoKernel.openAt_eq_some hopenW
  rw [FifoKernel.lookup_cons] at hnoneW
  have hne : rfd ≠ wfd := by
    intro heq
    rw [if_pos ⟨rfl, heq⟩] at hnoneW
    cases hnoneW
  rw [if_neg fun heq => hne heq.2] at hnoneW
  refine ⟨qr, qw, hqr, hqw, hnoneR, hnoneW, hne, rfl, rfl, ?_⟩
  intro p num
  rw [FifoKernel.lookup_cons, FifoKernel.lookup_cons]
  simp only [eq_comm]

/-- A setup that succeeds: the channel has two descriptors that were not in use, and the
    others are as they were. -/
theorem fifoActs_ready {o : FifoOutcomes} {device : CString} {isServer : Bool}
    (h : fifoActs alloc proc (fifoReadyActs o device isServer)
      (fifoOpenPaths device isServer, k) = some (paths', k')) :
    ∃ k₁, (if isServer then
        ∃ q₀ q₁, k.fifos.cells q₀ = none ∧ k.fifos.cells q₁ = none ∧ q₀ ≠ q₁ ∧
          k₁.names = Function.update (Function.update k.names (fifoPath device 48) (some q₀))
            (fifoPath device 49) (some q₁) ∧
          k₁.fifos.cells = Function.update (Function.update k.fifos.cells q₀ (some [])) q₁ (some [])
      else k₁.names = k.names ∧ k₁.fifos = k.fifos) ∧ k₁.fds = k.fds ∧
      fifoActs alloc proc [.alloc .fifo1, .opened o.openR, .opened o.openW]
        (fifoOpenPaths device isServer, k₁) = some (paths', k') := by
  rw [fifoReadyActs, fifoActs_append] at h
  obtain ⟨⟨paths₁, k₁⟩, hmake, hopen⟩ := Option.bind_eq_some_iff.mp h
  cases isServer with
  | false =>
    obtain ⟨rfl, rfl⟩ := Prod.mk.inj (Option.some.inj hmake)
    exact ⟨k, ⟨rfl, rfl⟩, rfl, hopen⟩
  | true =>
    rw [fifoActs_append] at hmake
    -- an allocation leaves the kernel as it is
    obtain ⟨⟨paths₂, k₂⟩, hmake0, hmake1⟩ := Option.bind_eq_some_iff.mp hmake
    obtain ⟨rfl, q₀, hfresh₀, hnames₀, hcells₀, hfds₀⟩ := fifoActs_make hmake0
    obtain ⟨rfl, q₁, hfresh₁, hnames₁, hcells₁, hfds₁⟩ := fifoActs_make hmake1
    have hne : q₀ ≠ q₁ := by
      intro heq
      rw [hcells₀, ← heq, Function.update_self] at hfresh₁
      cases hfresh₁
    rw [hcells₀, Function.update_of_ne hne.symm] at hfresh₁
    rw [hnames₀] at hnames₁
    rw [hcells₀] at hcells₁
    exact ⟨k₁, ⟨q₀, q₁, hfresh₀, hfresh₁, hne, hnames₁, hcells₁⟩, hfds₁.trans hfds₀, hopen⟩

end

/-! ## The channels -/

/-- The descriptors of a channel. -/
def FifoChannel.nums (c : FifoChannel) : List Int := [c.ctx.rfd, c.ctx.wfd]

/-- The descriptors of every channel are open, and no two channels share one. -/
structure FifoState.Wf (s : FifoState) : Prop where
  live : s.kernel.Live
  isOpen : ∀ m c, s.channels m = some c → ∀ num ∈ c.nums, (s.kernel.lookup c.proc num).isSome
  distinct : ∀ m n c d, m ≠ n → s.channels m = some c → s.channels n = some d →
    c.proc = d.proc → ∀ num ∈ c.nums, num ∉ d.nums

theorem FifoState.wf_empty : FifoState.empty.Wf where
  live := ⟨fun _ _ h => (by cases h), fun _ _ _ h => (by cases h)⟩
  isOpen _ _ h := by cases h
  distinct _ _ _ _ _ h := by cases h

/-- The kernel may change as long as the descriptors of the channels stay open. -/
theorem FifoState.Wf.setKernel {s : FifoState} (h : s.Wf) {k : FifoKernel} (hlive : k.Live)
    (hkeep : ∀ m c, s.channels m = some c → ∀ num ∈ c.nums, ∀ q,
      s.kernel.lookup c.proc num = some q → k.lookup c.proc num = some q) :
    ({ s with kernel := k } : FifoState).Wf where
  live := hlive
  isOpen m c hc num hnum := by
    obtain ⟨q, hq⟩ := Option.isSome_iff_exists.mp (h.isOpen m c hc num hnum)
    rw [show ({ s with kernel := k } : FifoState).kernel = k from rfl, hkeep m c hc num hnum q hq]
    rfl
  distinct := h.distinct

section

variable {alloc : Allocator (List UInt8)} {s s' : FifoState} {k k' : FifoKernel} {out : FifoOut}

/-- A server reads the first FIFO and writes the second one. -/
theorem fifoOpenPaths_eq (device : CString) (isServer : Bool) : fifoOpenPaths device isServer =
    [fifoPath device (if isServer then 48 else 49),
      fifoPath device (if isServer then 49 else 48)] := by
  cases isServer with
  | true => rfl
  | false => rfl

/-- What a setup does, in the state. -/
inductive FifoSetupStep (alloc : Allocator (List UInt8)) (s : FifoState) (i proc : Nat)
    (o : FifoOutcomes) (device : CString) (isServer : Bool) : FifoState × FifoOut → Prop
  | ready (paths : List (List Int8)) (k₁ k' : FifoKernel)
    (hmake : if isServer then
        ∃ q₀ q₁, s.kernel.fifos.cells q₀ = none ∧ s.kernel.fifos.cells q₁ = none ∧ q₀ ≠ q₁ ∧
          k₁.names = Function.update (Function.update s.kernel.names (fifoPath device 48) (some q₀))
            (fifoPath device 49) (some q₁) ∧
          k₁.fifos.cells =
            Function.update (Function.update s.kernel.fifos.cells q₀ (some [])) q₁ (some [])
      else k₁.names = s.kernel.names ∧ k₁.fifos = s.kernel.fifos)
    (hfds : k₁.fds = s.kernel.fds)
    (hopen : fifoActs alloc proc [.alloc .fifo1, .opened o.openR, .opened o.openW]
        (fifoOpenPaths device isServer, k₁) = some (paths, k'))
    (hlive : k'.Live) (acts : List FifoAct) (hmakes : MakesOwn device acts)
    (hcloses : ClosesOwn [] acts)
    (hacts : fifoActs alloc proc acts (fifoOpenPaths device isServer, s.kernel) =
      some (paths, k')) :
    FifoSetupStep alloc s i proc o device isServer (⟨k', Function.update s.channels i
      (some ⟨proc, some (fifoPath device 48), some (fifoPath device 49), isServer, o.openR,
        o.openW⟩)⟩, ⟨0, []⟩)
  | failed (paths : List (List Int8)) (k' : FifoKernel) (hlive : k'.Live) (acts : List FifoAct)
    (hmakes : MakesOwn device acts) (hcloses : ClosesOwn [] acts)
    (hacts : fifoActs alloc proc acts (fifoOpenPaths device isServer, s.kernel) =
      some (paths, k')) :
    FifoSetupStep alloc s i proc o device isServer
      (⟨k', Function.update s.channels i none⟩, ⟨-1, []⟩)

theorem channelFifoStep_setup {i proc : Nat} {o : FifoOutcomes} {device : CString} {isServer : Bool}
    (hlive : s.kernel.Live)
    (h : channelFifoStep alloc s (.setup i proc o device isServer) = some (s', out)) :
    s.channels i = none ∧ FifoSetupStep alloc s i proc o device isServer (s', out) := by
  rw [channelFifoStep] at h
  split at h
  · cases h
  · next hfree =>
    refine ⟨Option.not_isSome_iff_eq_none.mp hfree, ?_⟩
    have hcase := channelFifoSetup_cases o device isServer
    generalize channelFifoSetup o device isServer = r at h hcase
    cases hcase with
    | ready =>
      obtain ⟨⟨paths, k'⟩, hacts, heq⟩ := Option.map_eq_some_iff.mp h
      obtain ⟨rfl, rfl⟩ := Prod.mk.inj heq
      obtain ⟨k₁, hmake, hfds, hopen⟩ := fifoActs_ready hacts
      refine .ready paths k₁ k' hmake hfds hopen (hlive.fifoActs hacts) _ ?_ ?_ hacts
      · cases isServer <;> simp [fifoReadyActs, fifoMakeActs, MakesOwn, FifoAct.makes]
      · cases isServer <;> exact trivial
    | failed acts hmakes hcloses =>
      obtain ⟨⟨paths, k'⟩, hacts, heq⟩ := Option.map_eq_some_iff.mp h
      obtain ⟨rfl, rfl⟩ := Prod.mk.inj heq
      exact .failed paths k' (hlive.fifoActs hacts) acts hmakes hcloses hacts

/-! ### Steps -/

/-- A kernel that differs in the bytes of at most one FIFO. -/
inductive SameFiles (k : FifoKernel) : FifoKernel → Prop
  | refl : SameFiles k k
  | setBytes (q : Ptr) (bs : List UInt8) : SameFiles k (k.setBytes q bs)

theorem SameFiles.lookup_eq (h : SameFiles k k') (proc : Nat) (num : Int) :
    k'.lookup proc num = k.lookup proc num := by
  cases h with
  | refl => rfl
  | setBytes q bs => rfl

/-- What a write adds. -/
theorem wrote_spec {proc : Nat} {num : Int} {bs : List UInt8} (h : k.wrote proc num bs = some k') :
    SameFiles k k' ∧
      ∀ x, k'.bytes x = k.bytes x ++ if k.lookup proc num = some x then bs else [] := by
  unfold FifoKernel.wrote at h
  split at h
  · next hnone =>
    split at h
    · obtain rfl := Option.some.inj h
      refine ⟨.refl, fun x => ?_⟩
      simp [hnone]
    · cases h
  · next q hq =>
    obtain rfl := Option.some.inj h
    refine ⟨.setBytes q _, fun x => ?_⟩
    rw [FifoKernel.bytes_setBytes, hq]
    by_cases hx : x = q
    · subst hx
      simp
    · have hne : some q ≠ some x := fun heq => hx (Option.some.inj heq).symm
      rw [if_neg hx, if_neg hne, List.append_nil]

/-- What a read takes away. -/
theorem read_spec (interrupts : Nat) {proc : Nat} {num : Int} {n : Nat}
    {result : SysResult (List UInt8)} (h : k.read proc num n = (result, k')) :
    SameFiles k k' ∧ ∀ x, (if k.lookup proc num = some x then
      (channelFdRecv ⟨interrupts, result⟩).2 else []) ++ k'.bytes x = k.bytes x := by
  have hrecv : (channelFdRecv ⟨interrupts, result⟩).2 = (channelFdRecv ⟨0, result⟩).2 := by
    simp only [channelFdRecv, SysCalls.readLoop, SysCalls.loop_eq _ interrupts]
  rw [hrecv]
  unfold FifoKernel.read at h
  split at h
  · next hnone =>
    obtain ⟨rfl, rfl⟩ := Prod.mk.inj h
    refine ⟨.refl, fun x => ?_⟩
    simp [hnone]
  · next q hq =>
    split at h
    · obtain ⟨rfl, rfl⟩ := Prod.mk.inj h
      refine ⟨.refl, fun x => ?_⟩
      simp [channelFdRecv, SysCalls.readLoop, SysCalls.loop]
    · split at h
      · obtain ⟨rfl, rfl⟩ := Prod.mk.inj h
        refine ⟨.refl, fun x => ?_⟩
        simp [channelFdRecv, SysCalls.readLoop, SysCalls.loop]
      · obtain ⟨rfl, rfl⟩ := Prod.mk.inj h
        refine ⟨.setBytes q _, fun x => ?_⟩
        rw [FifoKernel.bytes_setBytes, hq]
        by_cases hx : x = q
        · subst hx
          rw [if_pos rfl, if_pos rfl]
          exact List.take_append_drop n _
        · have hne : some q ≠ some x := fun heq => hx (Option.some.inj heq).symm
          rw [if_neg hx, if_neg hne, List.nil_append]

theorem FifoState.Wf.sameFiles (h : s.Wf) (hk : SameFiles s.kernel k) :
    ({ s with kernel := k } : FifoState).Wf := by
  apply h.setKernel
  · cases hk with
    | refl => exact h.live
    | setBytes q bs => exact h.live.setBytes bs
  · intro m c _ num _ q hq
    rwa [hk.lookup_eq]

/-- The new channel has descriptors that nobody else uses. -/
theorem FifoState.Wf.setup (h : s.Wf) {i proc : Nat} {o : FifoOutcomes} {device : CString}
    {isServer : Bool} (hfree : s.channels i = none)
    (hstep : FifoSetupStep alloc s i proc o device isServer (s', out)) : s'.Wf := by
  -- the descriptors of the others stay open
  have hkeep : ∀ {acts : List FifoAct} {paths : List (List Int8)} {k' : FifoKernel},
      ClosesOwn [] acts →
      fifoActs alloc proc acts (fifoOpenPaths device isServer, s.kernel) = some (paths, k') →
      ∀ m c, s.channels m = some c → ∀ num ∈ c.nums, ∀ q,
        s.kernel.lookup c.proc num = some q → k'.lookup c.proc num = some q :=
    fun hcloses hacts m c _ num _ q hq => fifoActs_lookup hacts hcloses hq fun _ => List.not_mem_nil
  cases hstep with
  | failed paths k' hlive acts _ hcloses hacts =>
    have hsame : Function.update s.channels i none = s.channels := by
      rw [← hfree, Function.update_eq_self]
    rw [hsame]
    exact h.setKernel hlive (hkeep hcloses hacts)
  | ready paths k₁ k' hmake hfds hopen hlive acts _ hcloses hacts =>
    have hold := h.setKernel hlive (hkeep hcloses hacts)
    rw [fifoOpenPaths_eq] at hopen
    obtain ⟨qr, qw, _, _, hnoneR, hnoneW, _, _, _, hlookup⟩ := fifoActs_open hopen
    -- nobody used the two numbers
    have hfresh : ∀ num ∈ [o.openR, o.openW], s.kernel.lookup proc num = none := by
      have hk : ∀ num, s.kernel.lookup proc num = k₁.lookup proc num := by
        intro num
        exact (FifoKernel.lookup_congr hfds).symm
      intro num hnum
      rw [hk num]
      rcases List.mem_cons.mp hnum with rfl | hnum
      · exact hnoneR
      · rw [List.mem_singleton.mp hnum]
        exact hnoneW
    have hother : ∀ n d, s.channels n = some d → d.proc = proc →
        ∀ num ∈ [o.openR, o.openW], num ∉ d.nums := by
      intro n d hd hproc num hnum hmem
      have hsome := h.isOpen n d hd num hmem
      rw [hproc, hfresh num hnum] at hsome
      cases hsome
    apply FifoState.Wf.mk
    · exact hlive
    · intro m c hc num hnum
      have hchan : Function.update s.channels i _ m = some c := hc
      by_cases hm : m = i
      · subst hm
        rw [Function.update_self] at hchan
        obtain rfl := Option.some.inj hchan
        show (k'.lookup proc num).isSome
        rw [hlookup]
        rcases List.mem_cons.mp hnum with rfl | hnum
        · split
          · rfl
          · rw [if_pos ⟨rfl, rfl⟩]
            rfl
        · rw [if_pos ⟨rfl, List.mem_singleton.mp hnum⟩]
          rfl
      · rw [Function.update_of_ne hm] at hchan
        exact hold.isOpen m c hchan num hnum
    · intro m n c d hmn hc hd hproc num hnum hmem
      have hchanc : Function.update s.channels i _ m = some c := hc
      have hchand : Function.update s.channels i _ n = some d := hd
      by_cases hm : m = i
      · subst hm
        rw [Function.update_self] at hchanc
        rw [Function.update_of_ne hmn.symm] at hchand
        obtain rfl := Option.some.inj hchanc
        exact hother n d hchand hproc.symm num hnum hmem
      · rw [Function.update_of_ne hm] at hchanc
        by_cases hn : n = i
        · subst hn
          rw [Function.update_self] at hchand
          obtain rfl := Option.some.inj hchand
          exact hother m c hchanc hproc num hmem hnum
        · rw [Function.update_of_ne hn] at hchand
          exact h.distinct m n c d hmn hchanc hchand hproc num hnum hmem

/-- A teardown closes its own descriptors only. -/
theorem closesOwn_teardown (c : FifoChannel) (unlink0 unlink1 : Bool) :
    ClosesOwn c.nums (channelFifoTeardown c.ctx unlink0 unlink1) := by
  apply closesOwn_of_mem
  rw [fifoCloses_teardown]
  exact fun fd hfd => hfd

theorem FifoState.Wf.teardown (h : s.Wf) {i : Nat} {c : FifoChannel} {unlink0 unlink1 : Bool}
    {paths : List (List Int8)} (hc : s.channels i = some c)
    (hacts : fifoActs alloc c.proc (channelFifoTeardown c.ctx unlink0 unlink1) ([], s.kernel) =
      some (paths, k)) : (⟨k, Function.update s.channels i none⟩ : FifoState).Wf := by
  have hchan : ∀ {m d}, Function.update s.channels i none m = some d →
      m ≠ i ∧ s.channels m = some d := by
    intro m d hd
    by_cases hm : m = i
    · rw [hm, Function.update_self] at hd
      cases hd
    · exact ⟨hm, by rwa [Function.update_of_ne hm] at hd⟩
  apply FifoState.Wf.mk
  · exact h.live.fifoActs hacts
  · intro m d hd num hnum
    obtain ⟨hm, hd⟩ := hchan hd
    obtain ⟨q, hq⟩ := Option.isSome_iff_exists.mp (h.isOpen m d hd num hnum)
    have hkeep := fifoActs_lookup hacts (closesOwn_teardown c unlink0 unlink1) hq
      fun hproc => h.distinct m i d c hm hd hc hproc num hnum
    show (k.lookup d.proc num).isSome
    rw [hkeep]
    rfl
  · intro m n d e hmn hd he
    exact h.distinct m n d e hmn (hchan hd).2 (hchan he).2

theorem channelFifoStep_wf {call : FifoCall} (h : s.Wf)
    (hstep : channelFifoStep alloc s call = some (s', out)) : s'.Wf := by
  cases call with
  | setup i proc o device isServer =>
    obtain ⟨hfree, hcase⟩ := channelFifoStep_setup h.live hstep
    exact h.setup hfree hcase
  | send i write buf =>
    obtain ⟨c, _, hstep⟩ := Option.bind_eq_some_iff.mp hstep
    obtain ⟨k, hk, hstep⟩ := Option.bind_eq_some_iff.mp hstep
    obtain ⟨rfl, rfl⟩ := Prod.mk.inj (Option.some.inj hstep)
    exact h.sameFiles (wrote_spec hk).1
  | recv i interrupts maxLen =>
    obtain ⟨c, _, hstep⟩ := Option.bind_eq_some_iff.mp hstep
    obtain ⟨rfl, rfl⟩ := Prod.mk.inj (Option.some.inj hstep)
    exact h.sameFiles (read_spec interrupts rfl).1
  | flushRead i =>
    obtain ⟨c, _, hstep⟩ := Option.bind_eq_some_iff.mp hstep
    obtain ⟨rfl, rfl⟩ := Prod.mk.inj (Option.some.inj hstep)
    exact h.sameFiles (read_spec 0 rfl).1
  | teardown i unlink0 unlink1 =>
    obtain ⟨c, hc, hstep⟩ := Option.bind_eq_some_iff.mp hstep
    obtain ⟨⟨paths, k'⟩, hacts, hstep⟩ := Option.bind_eq_some_iff.mp hstep
    obtain ⟨rfl, rfl⟩ := Prod.mk.inj (Option.some.inj hstep)
    exact h.teardown hc hacts

end

end CUtils
