import CUtils.ForStd.StepSystem
import CUtils.Spec.ChannelFifoStates

/-!
# Channels over FIFOs are pairs of byte streams

A server makes the FIFOs of its device anew, and reads the first and writes the second one; a
client opens them the other way round.

- `fifo_duplex`: what the ends of a device send and receive, with any other channels around.
-/

namespace CUtils

section

variable {alloc : Allocator (List UInt8)} {s s' : FifoState} {k : FifoKernel} {out : FifoOut}

/-! ## The ends of one device -/

theorem fifoPath_of_le {device : CString} (h : device.chars.length ≤ 120) (digit : Int8) :
    fifoPath device digit = device.chars ++ [45, digit] := by
  rw [fifoPath, List.take_of_length_le]
  rw [List.length_append]
  exact Nat.add_le_add_right (Nat.le_trans h (by decide)) 2

/-- Another device has other paths, however long its name is. -/
theorem fifoPath_ne {device other : CString} (h : device.chars.length ≤ 120) (hne : other ≠ device)
    (digit digit' : Int8) : fifoPath other digit ≠ fifoPath device digit' := by
  rw [fifoPath_of_le h]
  intro heq
  by_cases hlen : other.chars.length ≤ 125
  · have hfit : (other.chars ++ [45, digit]).length ≤ 127 := by
      rw [List.length_append]
      exact Nat.add_le_add_right hlen 2
    rw [fifoPath, List.take_of_length_le hfit] at heq
    obtain ⟨hchars, _⟩ := List.append_inj' heq rfl
    apply hne
    cases other
    cases device
    cases hchars
    rfl
  · have hlens := congrArg List.length heq
    rw [fifoPath, List.length_take, List.length_append, List.length_append, List.length_cons,
      List.length_singleton, List.length_cons, List.length_singleton] at hlens
    omega

/-- The FIFO that a call reads. -/
def FifoState.readsFrom (s : FifoState) : FifoCall → Option Ptr
  | .recv i _ _ => (s.channels i).bind fun c => s.kernel.lookup c.proc c.ctx.rfd
  | .flushRead i => (s.channels i).bind fun c => s.kernel.lookup c.proc c.ctx.rfd
  | _ => none

/-- The FIFO that a call writes. -/
def FifoState.writesTo (s : FifoState) : FifoCall → Option Ptr
  | .send i _ _ => (s.channels i).bind fun c => s.kernel.lookup c.proc c.ctx.wfd
  | _ => none

/-- Setups of other devices, and no teardown of a member. -/
def FifoCall.Keeps (device : CString) (member : Nat → Prop) : FifoCall → Prop
  | .setup _ _ _ other _ => other ≠ device
  | .teardown m _ _ => ¬ member m
  | _ => True

/-- The FIFOs `a` and `b` of a device are open at descriptors of members only. -/
structure FifoPair (device : CString) (member : Nat → Prop) (held : FifoFd → Prop) (a b : Ptr)
    (s : FifoState) : Prop where
  wf : s.Wf
  guard : FifoGuard held (fifoPath device 48) (fifoPath device 49) a b s.kernel
  members : ∀ proc num q, q = a ∨ q = b → held ⟨proc, num, q⟩ →
    ∃ m c, member m ∧ s.channels m = some c ∧ c.proc = proc ∧ num ∈ c.nums

/-- Members go on, and what is read from one of the two FIFOs or written to it is what is
    missing or new there. -/
structure FifoPairStep (device : CString) (member : Nat → Prop) (held : FifoFd → Prop) (a b : Ptr)
    (s s' : FifoState) (call : FifoCall) (out : FifoOut) : Prop where
  pair : FifoPair device member held a b s'
  channels : ∀ m, member m → s'.channels m = s.channels m
  bytes : ∀ q, q = a ∨ q = b →
    (if s.readsFrom call = some q then out.bytes else []) ++ s'.kernel.bytes q =
      s.kernel.bytes q ++ if s.writesTo call = some q then out.bytes else []

section

variable {device : CString} {member : Nat → Prop} {held : FifoFd → Prop} {a b : Ptr}

theorem FifoPair.sameFiles (h : FifoPair device member held a b s) (hk : SameFiles s.kernel k) :
    FifoPair device member held a b { s with kernel := k } where
  wf := h.wf.sameFiles hk
  guard := by
    cases hk with
    | refl => exact h.guard
    | setBytes q bs => exact h.guard.setBytes q bs
  members := h.members

/-- The setup of a channel of another device. -/
theorem FifoPair.setup (h : FifoPair device member held a b s) (hdevice : device.chars.length ≤ 120)
    (hex : ∀ m, member m → s.channels m ≠ none) {i proc : Nat} {o : FifoOutcomes} {other : CString}
    {isServer : Bool} (hne : other ≠ device)
    (hstep : channelFifoStep alloc s (.setup i proc o other isServer) = some (s', out)) :
    FifoPairStep device member held a b s s' (.setup i proc o other isServer) out := by
  obtain ⟨hfree, hcase⟩ := channelFifoStep_setup h.wf.live hstep
  have hwf := h.wf.setup hfree hcase
  have hpath : ∀ digit, fifoPath other digit ≠ fifoPath device 48 ∧
      fifoPath other digit ≠ fifoPath device 49 :=
    fun digit => ⟨fifoPath_ne hdevice hne _ _, fifoPath_ne hdevice hne _ _⟩
  -- neither the paths that are made nor those that are opened are the device's
  have hguard : ∀ {acts : List FifoAct} {paths : List (List Int8)} {k' : FifoKernel},
      MakesOwn other acts → ClosesOwn [] acts →
      fifoActs alloc proc acts (fifoOpenPaths other isServer, s.kernel) = some (paths, k') →
      FifoGuard held (fifoPath device 48) (fifoPath device 49) a b k' ∧
        ∀ q, q = a ∨ q = b → k'.bytes q = s.kernel.bytes q := by
    intro acts paths k' hmakes hcloses hacts
    apply h.guard.fifoActs hacts hcloses (fun _ hnum => by cases hnum)
    · intro act hact path hmem
      rcases hmakes act hact path hmem with rfl | rfl
      · exact hpath 48
      · exact hpath 49
    · intro path hmem
      rw [fifoOpenPaths_eq] at hmem
      rcases List.mem_cons.mp hmem with rfl | hmem
      · exact hpath _
      · rw [List.mem_singleton.mp hmem]
        exact hpath _
  have hchannels : ∀ (c : Option FifoChannel) m, member m →
      Function.update s.channels i c m = s.channels m := by
    intro c m hm
    apply Function.update_of_ne
    intro heq
    exact hex m hm (heq ▸ hfree)
  have hmembers : ∀ c proc num q, q = a ∨ q = b → held ⟨proc, num, q⟩ → ∃ m d, member m ∧
      Function.update s.channels i c m = some d ∧ d.proc = proc ∧ num ∈ d.nums := by
    intro c proc num q hq hheld
    obtain ⟨m, d, hm, hd, hrest⟩ := h.members proc num q hq hheld
    exact ⟨m, d, hm, (hchannels c m hm).trans hd, hrest⟩
  cases hcase with
  | ready paths k₁ k' _ _ _ _ acts hmakes hcloses hacts =>
    obtain ⟨hnext, hbytes⟩ := hguard hmakes hcloses hacts
    refine ⟨⟨hwf, hnext, hmembers _⟩, hchannels _, fun q hq => ?_⟩
    show [] ++ k'.bytes q = s.kernel.bytes q ++ []
    rw [hbytes q hq, List.nil_append, List.append_nil]
  | failed paths k' _ acts hmakes hcloses hacts =>
    obtain ⟨hnext, hbytes⟩ := hguard hmakes hcloses hacts
    refine ⟨⟨hwf, hnext, hmembers _⟩, hchannels _, fun q hq => ?_⟩
    show [] ++ k'.bytes q = s.kernel.bytes q ++ []
    rw [hbytes q hq, List.nil_append, List.append_nil]

/-- The teardown of a channel that is not a member. -/
theorem FifoPair.teardown (h : FifoPair device member held a b s) {i : Nat} {unlink0 unlink1 : Bool}
    (hi : ¬ member i)
    (hstep : channelFifoStep alloc s (.teardown i unlink0 unlink1) = some (s', out)) :
    FifoPairStep device member held a b s s' (.teardown i unlink0 unlink1) out := by
  obtain ⟨c, hc, hstep⟩ := Option.bind_eq_some_iff.mp hstep
  obtain ⟨⟨paths, k'⟩, hacts, hstep⟩ := Option.bind_eq_some_iff.mp hstep
  obtain ⟨rfl, rfl⟩ := Prod.mk.inj (Option.some.inj hstep)
  have hfree : ∀ num ∈ c.nums, ∀ q, q = a ∨ q = b → ¬ held ⟨c.proc, num, q⟩ := by
    intro num hnum q hq hheld
    obtain ⟨m, d, hm, hd, hproc, hmem⟩ := h.members c.proc num q hq hheld
    have hne : m ≠ i := fun heq => hi (heq ▸ hm)
    exact h.wf.distinct m i d c hne hd hc hproc num hmem hnum
  have hnone : ∀ act ∈ channelFifoTeardown c.ctx unlink0 unlink1, act.makes = [] := by
    unfold channelFifoTeardown
    cases c.ctx.isServer <;> simp [FifoAct.makes]
  obtain ⟨hguard, hbytes⟩ := h.guard.fifoActs hacts (closesOwn_teardown c unlink0 unlink1) hfree
    (fun act hact path hpath => by rw [hnone act hact] at hpath; cases hpath)
    (fun _ hpath => by cases hpath)
  have hchannels : ∀ m, member m → Function.update s.channels i none m = s.channels m := by
    intro m hm
    apply Function.update_of_ne
    intro heq
    exact hi (heq ▸ hm)
  refine ⟨⟨h.wf.teardown hc hacts, hguard, ?_⟩, hchannels, fun q hq => ?_⟩
  · intro proc num q hq hheld
    obtain ⟨m, d, hm, hd, hrest⟩ := h.members proc num q hq hheld
    exact ⟨m, d, hm, (hchannels m hm).trans hd, hrest⟩
  · show [] ++ k'.bytes q = s.kernel.bytes q ++ []
    rw [hbytes q hq, List.nil_append, List.append_nil]

theorem FifoPair.step (h : FifoPair device member held a b s) (hdevice : device.chars.length ≤ 120)
    (hex : ∀ m, member m → s.channels m ≠ none) {call : FifoCall} (hkeep : call.Keeps device member)
    (hstep : channelFifoStep alloc s call = some (s', out)) :
    FifoPairStep device member held a b s s' call out := by
  cases call with
  | send i write buf =>
    obtain ⟨c, hc, hstep⟩ := Option.bind_eq_some_iff.mp hstep
    obtain ⟨k, hk, hstep⟩ := Option.bind_eq_some_iff.mp hstep
    obtain ⟨rfl, rfl⟩ := Prod.mk.inj (Option.some.inj hstep)
    obtain ⟨hfiles, hbytes⟩ := wrote_spec hk
    refine ⟨h.sameFiles hfiles, fun _ _ => rfl, fun q _ => ?_⟩
    show [] ++ k.bytes q = _ ++ if ((s.channels i).bind _) = some q then _ else []
    rw [hbytes q, hc]
    rfl
  | recv i interrupts maxLen =>
    obtain ⟨c, hc, hstep⟩ := Option.bind_eq_some_iff.mp hstep
    obtain ⟨rfl, rfl⟩ := Prod.mk.inj (Option.some.inj hstep)
    obtain ⟨hfiles, hbytes⟩ := read_spec interrupts
      (show s.kernel.read c.proc c.ctx.rfd maxLen = (_, _) from rfl)
    refine ⟨h.sameFiles hfiles, fun _ _ => rfl, fun q _ => ?_⟩
    show (if ((s.channels i).bind _) = some q then _ else []) ++ _ = _ ++ []
    rw [List.append_nil, ← hbytes q, hc]
    rfl
  | flushRead i =>
    obtain ⟨c, hc, hstep⟩ := Option.bind_eq_some_iff.mp hstep
    obtain ⟨rfl, rfl⟩ := Prod.mk.inj (Option.some.inj hstep)
    obtain ⟨hfiles, hbytes⟩ := read_spec 0
      (show s.kernel.read c.proc c.ctx.rfd 64 = (_, _) from rfl)
    refine ⟨h.sameFiles hfiles, fun _ _ => rfl, fun q _ => ?_⟩
    show (if ((s.channels i).bind _) = some q then _ else []) ++ _ = _ ++ []
    rw [List.append_nil, ← hbytes q, hc]
    rfl
  | setup i proc o other isServer => exact h.setup hdevice hex hkeep hstep
  | teardown i unlink0 unlink1 => exact h.teardown hkeep hstep

/-- The channel of a call that sends. -/
def FifoCall.sender : FifoCall → Option Nat
  | .send i _ _ => some i
  | _ => none

/-- The channel of a call that takes bytes out. -/
def FifoCall.reader : FifoCall → Option Nat
  | .recv i _ _ => some i
  | .flushRead i => some i
  | _ => none

/-- The channel `i` reads the FIFO `x` and writes the FIFO `y`. -/
def FifoEnd (held : FifoFd → Prop) (s : FifoState) (i : Nat) (x y : Ptr) : Prop :=
  ∃ c, s.channels i = some c ∧ held ⟨c.proc, c.ctx.rfd, x⟩ ∧ held ⟨c.proc, c.ctx.wfd, y⟩

/-- A channel with a descriptor of one of the two FIFOs is a member. -/
theorem FifoPair.member_of_lookup (h : FifoPair device member held a b s) {m : Nat}
    {c : FifoChannel} (hc : s.channels m = some c) {num : Int} (hnum : num ∈ c.nums) {q : Ptr}
    (hq : q = a ∨ q = b) (hlook : s.kernel.lookup c.proc num = some q) : member m := by
  obtain ⟨n, d, hn, hd, hproc, hmem⟩ := h.members c.proc num q hq ((h.guard.fds _ _ q hq).mp hlook)
  by_cases hmn : m = n
  · exact hmn ▸ hn
  · exact absurd hmem (h.wf.distinct m n c d hmn hc hd hproc.symm num hnum)

theorem FifoPair.reader_of_readsFrom (h : FifoPair device member held a b s) {call : FifoCall}
    {q : Ptr} (hq : q = a ∨ q = b) (hreads : s.readsFrom call = some q) :
    ∃ m, member m ∧ call.reader = some m := by
  cases call with
  | recv i interrupts maxLen =>
    obtain ⟨c, hc, hlook⟩ := Option.bind_eq_some_iff.mp hreads
    exact ⟨i, h.member_of_lookup hc List.mem_cons_self hq hlook, rfl⟩
  | flushRead i =>
    obtain ⟨c, hc, hlook⟩ := Option.bind_eq_some_iff.mp hreads
    exact ⟨i, h.member_of_lookup hc List.mem_cons_self hq hlook, rfl⟩
  | setup _ _ _ _ _ => cases hreads
  | send _ _ _ => cases hreads
  | teardown _ _ _ => cases hreads

theorem FifoPair.sender_of_writesTo (h : FifoPair device member held a b s) {call : FifoCall}
    {q : Ptr} (hq : q = a ∨ q = b) (hwrites : s.writesTo call = some q) :
    ∃ m, member m ∧ call.sender = some m := by
  cases call with
  | send i write buf =>
    obtain ⟨c, hc, hlook⟩ := Option.bind_eq_some_iff.mp hwrites
    exact ⟨i, h.member_of_lookup hc (List.mem_cons_of_mem _ List.mem_cons_self) hq hlook, rfl⟩
  | setup _ _ _ _ _ => cases hwrites
  | recv _ _ _ => cases hwrites
  | flushRead _ => cases hwrites
  | teardown _ _ _ => cases hwrites

theorem FifoPair.readsFrom_of_end (h : FifoPair device member held a b s) {i : Nat} {x y : Ptr}
    (hx : x = a ∨ x = b) (hend : FifoEnd held s i x y) {call : FifoCall}
    (hreader : call.reader = some i) : s.readsFrom call = some x := by
  obtain ⟨c, hc, hr, _⟩ := hend
  have hlook := (h.guard.fds _ _ x hx).mpr hr
  have hbind : ((s.channels i).bind fun c => s.kernel.lookup c.proc c.ctx.rfd) = some x := by
    rw [hc]
    exact hlook
  cases call with
  | recv m interrupts maxLen =>
    obtain rfl := Option.some.inj hreader
    exact hbind
  | flushRead m =>
    obtain rfl := Option.some.inj hreader
    exact hbind
  | setup _ _ _ _ _ => cases hreader
  | send _ _ _ => cases hreader
  | teardown _ _ _ => cases hreader

theorem FifoPair.writesTo_of_end (h : FifoPair device member held a b s) {i : Nat} {x y : Ptr}
    (hy : y = a ∨ y = b) (hend : FifoEnd held s i x y) {call : FifoCall}
    (hsender : call.sender = some i) : s.writesTo call = some y := by
  obtain ⟨c, hc, _, hw⟩ := hend
  have hlook := (h.guard.fds _ _ y hy).mpr hw
  cases call with
  | send m write buf =>
    obtain rfl := Option.some.inj hsender
    show ((s.channels m).bind fun c => s.kernel.lookup c.proc c.ctx.wfd) = some y
    rw [hc]
    exact hlook
  | setup _ _ _ _ _ => cases hsender
  | recv _ _ _ => cases hsender
  | flushRead _ => cases hsender
  | teardown _ _ _ => cases hsender

end

/-! ## Logs -/

/-- The bytes that a channel has sent, and those that it has received or flushed, since its
    setup. -/
structure FifoLog where
  sent : Nat → List UInt8
  got : Nat → List UInt8

/-- Nothing has been sent. -/
def FifoLog.empty : FifoLog := ⟨fun _ => [], fun _ => []⟩

/-- What a call adds to the log. -/
def FifoLog.follow (l : FifoLog) : FifoCall × FifoOut → FifoLog
  | (.setup i _ _ _ _, out) =>
    if out.ret = 0 then ⟨Function.update l.sent i [], Function.update l.got i []⟩ else l
  | (.send i _ _, out) => { l with sent := Function.update l.sent i (l.sent i ++ out.bytes) }
  | (.recv i _ _, out) => { l with got := Function.update l.got i (l.got i ++ out.bytes) }
  | (.flushRead i, out) => { l with got := Function.update l.got i (l.got i ++ out.bytes) }
  | (.teardown _ _ _, _) => l

theorem FifoLog.follow_eq (l : FifoLog) {m : Nat} {call : FifoCall} (out : FifoOut)
    (h : ∀ proc o device isServer, call ≠ .setup m proc o device isServer) :
    (l.follow (call, out)).sent m = (l.sent m ++ if call.sender = some m then out.bytes else []) ∧
      (l.follow (call, out)).got m =
        l.got m ++ if call.reader = some m then out.bytes else [] := by
  have hupd : ∀ (f : Nat → List UInt8) (i : Nat) (bs : List UInt8),
      Function.update f i (f i ++ bs) m = f m ++ if some i = some m then bs else [] := by
    intro f i bs
    by_cases him : i = m
    · rw [him, Function.update_self, if_pos rfl]
    · rw [Function.update_of_ne (Ne.symm him), if_neg fun heq => him (Option.some.inj heq),
        List.append_nil]
  have hnil : ∀ bs : List UInt8, bs = bs ++ [] := fun bs => (List.append_nil bs).symm
  cases call with
  | setup i proc o device isServer =>
    have him : m ≠ i := fun heq => h proc o device isServer (heq ▸ rfl)
    unfold FifoLog.follow
    simp only
    split
    · exact ⟨(Function.update_of_ne him [] l.sent).trans (hnil _),
        (Function.update_of_ne him [] l.got).trans (hnil _)⟩
    · exact ⟨hnil _, hnil _⟩
  | send i write buf => exact ⟨hupd _ _ _, hnil _⟩
  | recv i interrupts maxLen => exact ⟨hnil _, hupd _ _ _⟩
  | flushRead i => exact ⟨hnil _, hupd _ _ _⟩
  | teardown i unlink0 unlink1 => exact ⟨hnil _, hnil _⟩

/-! ## A server, and then a client -/

section

variable {device : CString} {held : FifoFd → Prop} {a b : Ptr} {i j : Nat} {l : FifoLog}

/-- The server is alone: nothing was read of what it has sent, and there is nothing to read. -/
structure ServerAlone (device : CString) (i : Nat) (held : FifoFd → Prop) (a b : Ptr)
    (s : FifoState) (l : FifoLog) : Prop where
  pair : FifoPair device (· = i) held a b s
  ne : a ≠ b
  server : FifoEnd held s i a b
  sent : l.sent i = s.kernel.bytes b
  got : l.got i = []
  nothing : s.kernel.bytes a = []

/-- Both ends are there: each has received what the other one has sent, up to what is on the
    way. -/
structure FifoDuplex (device : CString) (i j : Nat) (held : FifoFd → Prop) (a b : Ptr)
    (s : FifoState) (l : FifoLog) : Prop where
  pair : FifoPair device (fun m => m = i ∨ m = j) held a b s
  ne : a ≠ b
  distinct : i ≠ j
  server : FifoEnd held s i a b
  client : FifoEnd held s j b a
  forth : l.sent i = l.got j ++ s.kernel.bytes b
  back : l.sent j = l.got i ++ s.kernel.bytes a

/-- A channel in use is not set up again. -/
theorem channelFifoStep_ne_setup {call : FifoCall}
    (hstep : channelFifoStep alloc s call = some (s', out))
    (hlive : s.kernel.Live) {m : Nat} (hm : s.channels m ≠ none) (proc : Nat) (o : FifoOutcomes)
    (device : CString) (isServer : Bool) : call ≠ .setup m proc o device isServer := by
  intro heq
  subst heq
  exact hm (channelFifoStep_setup hlive hstep).1

theorem FifoEnd.ne_none {x y : Ptr} (h : FifoEnd held s i x y) : s.channels i ≠ none := by
  obtain ⟨c, hc, _⟩ := h
  rw [hc]
  exact Option.some_ne_none c

theorem FifoEnd.of_channels {x y : Ptr} (h : FifoEnd held s i x y)
    (hchan : s'.channels i = s.channels i) : FifoEnd held s' i x y := by
  obtain ⟨c, hc, hrest⟩ := h
  exact ⟨c, hchan.trans hc, hrest⟩

theorem ServerAlone.step (h : ServerAlone device i held a b s l)
    (hdevice : device.chars.length ≤ 120) {call : FifoCall}
    (hkeep : call.Keeps device fun m => m = i ∨ m = j)
    (hstep : channelFifoStep alloc s call = some (s', out)) :
    ServerAlone device i held a b s' (l.follow (call, out)) := by
  have hex : ∀ m, m = i → s.channels m ≠ none := fun m hm => hm ▸ h.server.ne_none
  have hkeep' : call.Keeps device (· = i) := by
    cases call with
    | teardown m unlink0 unlink1 => exact fun hm => hkeep (.inl hm)
    | setup _ _ _ _ _ => exact hkeep
    | _ => trivial
  have hnext := h.pair.step hdevice hex hkeep' hstep
  obtain ⟨hsent, hgot⟩ := l.follow_eq out (fun proc o device isServer =>
    channelFifoStep_ne_setup hstep h.pair.wf.live h.server.ne_none proc o device isServer)
  -- only the server reads `a` or writes `b`, and nobody reads `b` or writes `a`
  have hreads : s.readsFrom call = some b → False := by
    intro hb
    obtain ⟨m, rfl, hreader⟩ := h.pair.reader_of_readsFrom (.inr rfl) hb
    have ha := h.pair.readsFrom_of_end (.inl rfl) h.server hreader
    exact h.ne (Option.some.inj (ha.symm.trans hb))
  have hwrites : s.writesTo call = some a → False := by
    intro ha
    obtain ⟨m, rfl, hsender⟩ := h.pair.sender_of_writesTo (.inl rfl) ha
    have hb := h.pair.writesTo_of_end (.inr rfl) h.server hsender
    exact h.ne (Option.some.inj (ha.symm.trans hb))
  have hforth := hnext.bytes b (.inr rfl)
  have hback := hnext.bytes a (.inl rfl)
  rw [if_neg hreads, List.nil_append] at hforth
  rw [if_neg hwrites, h.nothing, List.append_nil] at hback
  obtain ⟨hnone, hempty⟩ := List.append_eq_nil_iff.mp hback
  apply ServerAlone.mk hnext.pair h.ne (h.server.of_channels (hnext.channels i rfl))
  · rw [hsent, hforth, h.sent]
    congr 1
    by_cases hs : call.sender = some i
    · rw [if_pos hs, if_pos (h.pair.writesTo_of_end (.inr rfl) h.server hs)]
    · rw [if_neg hs, if_neg]
      intro hb
      obtain ⟨m, rfl, hsender⟩ := h.pair.sender_of_writesTo (.inr rfl) hb
      exact hs hsender
  · rw [hgot, h.got, List.nil_append]
    by_cases hr : call.reader = some i
    · rw [if_pos hr]
      rwa [if_pos (h.pair.readsFrom_of_end (.inl rfl) h.server hr)] at hnone
    · rw [if_neg hr]
  · exact hempty

theorem FifoDuplex.step (h : FifoDuplex device i j held a b s l)
    (hdevice : device.chars.length ≤ 120) {call : FifoCall}
    (hkeep : call.Keeps device fun m => m = i ∨ m = j)
    (hstep : channelFifoStep alloc s call = some (s', out)) :
    FifoDuplex device i j held a b s' (l.follow (call, out)) := by
  have hex : ∀ m, m = i ∨ m = j → s.channels m ≠ none := by
    intro m hm
    rcases hm with rfl | rfl
    · exact h.server.ne_none
    · exact h.client.ne_none
  have hnext := h.pair.step hdevice hex hkeep hstep
  obtain ⟨hsentI, hgotI⟩ := l.follow_eq out (fun proc o device isServer =>
    channelFifoStep_ne_setup hstep h.pair.wf.live h.server.ne_none proc o device isServer)
  obtain ⟨hsentJ, hgotJ⟩ := l.follow_eq out (fun proc o device isServer =>
    channelFifoStep_ne_setup hstep h.pair.wf.live h.client.ne_none proc o device isServer)
  -- each FIFO has one reader and one writer
  have hreads : ∀ m n x y, FifoEnd held s m x y → FifoEnd held s n y x → x = a ∨ x = b →
      y = a ∨ y = b → x ≠ y → (∀ p, p = i ∨ p = j → p = m ∨ p = n) →
      (s.readsFrom call = some x ↔ call.reader = some m) := by
    intro m n x y hm hn hx hy hxy hall
    apply Iff.intro
    · intro hreads
      obtain ⟨p, hp, hreader⟩ := h.pair.reader_of_readsFrom hx hreads
      rcases hall p hp with rfl | rfl
      · exact hreader
      · have hother := h.pair.readsFrom_of_end hy hn hreader
        exact absurd (Option.some.inj (hreads.symm.trans hother)) hxy
    · exact h.pair.readsFrom_of_end hx hm
  have hwrites : ∀ m n x y, FifoEnd held s m x y → FifoEnd held s n y x → x = a ∨ x = b →
      y = a ∨ y = b → x ≠ y → (∀ p, p = i ∨ p = j → p = m ∨ p = n) →
      (s.writesTo call = some y ↔ call.sender = some m) := by
    intro m n x y hm hn hx hy hxy hall
    apply Iff.intro
    · intro hwrites
      obtain ⟨p, hp, hsender⟩ := h.pair.sender_of_writesTo hy hwrites
      rcases hall p hp with rfl | rfl
      · exact hsender
      · have hother := h.pair.writesTo_of_end hx hn hsender
        exact absurd (Option.some.inj (hother.symm.trans hwrites)) hxy
    · exact h.pair.writesTo_of_end hy hm
  have hself : ∀ p, p = i ∨ p = j → p = i ∨ p = j := fun _ hp => hp
  have hswap : ∀ p, p = i ∨ p = j → p = j ∨ p = i := fun _ hp => hp.symm
  have hforth := hnext.bytes b (.inr rfl)
  have hback := hnext.bytes a (.inl rfl)
  simp only [hreads j i b a h.client h.server (.inr rfl) (.inl rfl) h.ne.symm hswap,
    hwrites i j a b h.server h.client (.inl rfl) (.inr rfl) h.ne hself] at hforth
  simp only [hreads i j a b h.server h.client (.inl rfl) (.inr rfl) h.ne hself,
    hwrites j i b a h.client h.server (.inr rfl) (.inl rfl) h.ne.symm hswap] at hback
  apply FifoDuplex.mk hnext.pair h.ne h.distinct
    (h.server.of_channels (hnext.channels i (.inl rfl)))
    (h.client.of_channels (hnext.channels j (.inr rfl)))
  · rw [hsentI, hgotJ, h.forth, List.append_assoc, List.append_assoc, hforth]
  · rw [hsentJ, hgotI, h.back, List.append_assoc, List.append_assoc, hback]

theorem fifoPath_self_ne (hdevice : device.chars.length ≤ 120) :
    fifoPath device 48 ≠ fifoPath device 49 := by
  rw [fifoPath_of_le hdevice, fifoPath_of_le hdevice]
  intro heq
  cases List.append_cancel_left heq

/-- Two new FIFOs at two paths, each open at one descriptor. -/
theorem FifoGuard.start {k k' : FifoKernel} (hlive : k.Live) {path0 path1 : List Int8}
    (hpaths : path0 ≠ path1) (hne : a ≠ b) (hfreshA : k.fifos.cells a = none)
    (hfreshB : k.fifos.cells b = none)
    (hnames : k'.names = Function.update (Function.update k.names path0 (some a)) path1 (some b))
    (hcells : ∀ q, q = a ∨ q = b → k'.fifos.cells q = some []) {proc : Nat} {rfd wfd : Int}
    (hRW : rfd ≠ wfd)
    (hlookup : ∀ p num, k'.lookup p num = if p = proc ∧ num = wfd then some b
      else if p = proc ∧ num = rfd then some a else k.lookup p num) :
    FifoGuard (fun e => e = ⟨proc, rfd, a⟩ ∨ e = ⟨proc, wfd, b⟩) path0 path1 a b k' := by
  -- what was there before is another FIFO
  have hold : ∀ q, (k.fifos.cells q).isSome → q ≠ a ∧ q ≠ b := by
    intro q hq
    apply And.intro
    · intro heq
      rw [heq, hfreshA] at hq
      cases hq
    · intro heq
      rw [heq, hfreshB] at hq
      cases hq
  apply FifoGuard.mk
  · intro path q hq
    rw [hnames] at hq
    by_cases h1 : path = path1
    · rw [h1, Function.update_self] at hq
      rw [h1, ← Option.some.inj hq]
      exact ⟨iff_of_false hpaths.symm hne.symm, iff_of_true rfl rfl⟩
    · rw [Function.update_of_ne h1] at hq
      by_cases h0 : path = path0
      · rw [h0, Function.update_self] at hq
        rw [h0, ← Option.some.inj hq]
        exact ⟨iff_of_true rfl rfl, iff_of_false hpaths hne⟩
      · rw [Function.update_of_ne h0] at hq
        obtain ⟨ha, hb⟩ := hold q (hlive.names path q hq)
        exact ⟨iff_of_false h0 ha, iff_of_false h1 hb⟩
  · intro p num q hq
    have hrest : k.lookup p num ≠ some q := by
      intro hlook
      obtain ⟨ha, hb⟩ := hold q (hlive.fds p num q hlook)
      exact hq.elim ha hb
    rw [hlookup]
    simp only [FifoFd.mk.injEq]
    by_cases hw : p = proc ∧ num = wfd
    · rw [if_pos hw, Option.some.injEq, hw.1, hw.2]
      simp [hRW.symm, eq_comm]
    · rw [if_neg hw]
      by_cases hr : p = proc ∧ num = rfd
      · rw [if_pos hr, Option.some.injEq, hr.1, hr.2]
        simp [hRW, eq_comm]
      · rw [if_neg hr]
        apply iff_of_false hrest
        intro hheld
        rcases hheld with hheld | hheld
        · exact hr ⟨hheld.1, hheld.2.1⟩
        · exact hw ⟨hheld.1, hheld.2.1⟩
  · intro q hq
    rw [hcells q hq]
    rfl
  · intro q hq
    rcases hq with rfl | rfl
    · exact ⟨proc, rfd, .inl rfl⟩
    · exact ⟨proc, wfd, .inr rfl⟩

/-- After the setup of a server the two FIFOs are new, and only the server has them open. -/
theorem ServerAlone.start (hwf : s.Wf) (hdevice : device.chars.length ≤ 120) {proc : Nat}
    {o : FifoOutcomes}
    (hstep : channelFifoStep alloc s (.setup i proc o device true) = some (s', ⟨0, []⟩)) :
    ∃ held a b, ServerAlone device i held a b s'
      (l.follow (.setup i proc o device true, ⟨0, []⟩)) := by
  obtain ⟨hfree, hcase⟩ := channelFifoStep_setup hwf.live hstep
  have hwf' := hwf.setup hfree hcase
  have hpaths := fifoPath_self_ne hdevice
  cases hcase with
  | ready paths k₁ k' hmake hfds hopen hlive acts _ _ hacts =>
    rw [if_pos rfl] at hmake
    obtain ⟨a, b, hfreshA, hfreshB, hne, hnames, hcells⟩ := hmake
    rw [fifoOpenPaths_eq] at hopen
    obtain ⟨qr, qw, hqr, hqw, _, _, hRW, hnames', hfifos', hlookup⟩ := fifoActs_open hopen
    have hA : k₁.names (fifoPath device 48) = some a := by
      rw [hnames, Function.update_of_ne hpaths, Function.update_self]
    have hB : k₁.names (fifoPath device 49) = some b := by rw [hnames, Function.update_self]
    obtain rfl : a = qr := Option.some.inj (hA.symm.trans hqr)
    obtain rfl : b = qw := Option.some.inj (hB.symm.trans hqw)
    have hcells' : ∀ q, q = a ∨ q = b → k'.fifos.cells q = some [] := by
      intro q hq
      rw [hfifos', hcells]
      rcases hq with rfl | rfl
      · rw [Function.update_of_ne hne, Function.update_self]
      · rw [Function.update_self]
    have hguard := FifoGuard.start hwf.live hpaths hne hfreshA hfreshB (hnames'.trans hnames)
      hcells' hRW fun p num => by rw [hlookup, FifoKernel.lookup_congr hfds]
    refine ⟨_, a, b, ⟨⟨hwf', hguard, ?_⟩, hne, ⟨_, Function.update_self .., .inl rfl, .inr rfl⟩,
      ?_, ?_, ?_⟩⟩
    · intro p num q _ hheld
      refine ⟨i, _, rfl, Function.update_self .., ?_⟩
      rcases hheld with h | h
      · obtain ⟨rfl, rfl, rfl⟩ := FifoFd.mk.inj h
        exact ⟨rfl, List.mem_cons_self⟩
      · obtain ⟨rfl, rfl, rfl⟩ := FifoFd.mk.inj h
        exact ⟨rfl, List.mem_cons_of_mem _ List.mem_cons_self⟩
    · show Function.update l.sent i [] i = (k'.fifos.cells b).getD []
      rw [Function.update_self, hcells' b (.inr rfl)]
      rfl
    · exact Function.update_self ..
    · show (k'.fifos.cells a).getD [] = []
      rw [hcells' a (.inl rfl)]
      rfl

/-- Two more descriptors of the two FIFOs, the other way round. -/
theorem FifoGuard.join {k k' : FifoKernel} {path0 path1 : List Int8}
    (h : FifoGuard held path0 path1 a b k) (hnames : k'.names = k.names)
    (hfifos : k'.fifos = k.fifos) {proc : Nat} {rfd wfd : Int} (hRW : rfd ≠ wfd)
    (hnoneR : k.lookup proc rfd = none) (hnoneW : k.lookup proc wfd = none)
    (hlookup : ∀ p num, k'.lookup p num = if p = proc ∧ num = wfd then some a
      else if p = proc ∧ num = rfd then some b else k.lookup p num) :
    FifoGuard (fun e => held e ∨ e = ⟨proc, rfd, b⟩ ∨ e = ⟨proc, wfd, a⟩) path0 path1 a b k' := by
  -- the two numbers were not in use
  have hnew : ∀ num q, q = a ∨ q = b → k.lookup proc num = none → ¬ held ⟨proc, num, q⟩ := by
    intro num q hq hnone hheld
    rw [(h.fds proc num q hq).mpr hheld] at hnone
    cases hnone
  apply FifoGuard.mk
  · intro path q hq
    rw [hnames] at hq
    exact h.names path q hq
  · intro p num q hq
    rw [hlookup]
    simp only [FifoFd.mk.injEq]
    by_cases hw : p = proc ∧ num = wfd
    · rw [if_pos hw, Option.some.injEq, hw.1, hw.2]
      simp [hRW.symm, eq_comm, hnew wfd q hq hnoneW]
    · rw [if_neg hw]
      by_cases hr : p = proc ∧ num = rfd
      · rw [if_pos hr, Option.some.injEq, hr.1, hr.2]
        simp [hRW, eq_comm, hnew rfd q hq hnoneR]
      · rw [if_neg hr, h.fds p num q hq]
        apply Iff.intro
        · exact .inl
        · intro hheld
          rcases hheld with hheld | hheld | hheld
          · exact hheld
          · exact absurd ⟨hheld.1, hheld.2.1⟩ hr
          · exact absurd ⟨hheld.1, hheld.2.1⟩ hw
  · intro q hq
    rw [hfifos]
    exact h.live q hq
  · intro q hq
    obtain ⟨p, num, hheld⟩ := h.anchor q hq
    exact ⟨p, num, .inl hheld⟩

/-- A client that is set up then has the other ends. -/
theorem ServerAlone.join (h : ServerAlone device i held a b s l) {proc : Nat} {o : FifoOutcomes}
    (hstep : channelFifoStep alloc s (.setup j proc o device false) = some (s', ⟨0, []⟩)) :
    ∃ held', FifoDuplex device i j held' a b s'
      (l.follow (.setup j proc o device false, ⟨0, []⟩)) := by
  obtain ⟨hfree, hcase⟩ := channelFifoStep_setup h.pair.wf.live hstep
  have hwf' := h.pair.wf.setup hfree hcase
  have hij : i ≠ j := by
    intro heq
    exact h.server.ne_none (heq ▸ hfree)
  have hguard := h.pair.guard
  cases hcase with
  | ready paths k₁ k' hmake hfds hopen hlive acts _ _ hacts =>
    rw [if_neg (by decide)] at hmake
    obtain ⟨hnames, hfifos⟩ := hmake
    rw [fifoOpenPaths_eq] at hopen
    obtain ⟨qr, qw, hqr, hqw, hnoneR, hnoneW, hRW, hnames', hfifos', hlookup⟩ := fifoActs_open hopen
    rw [hnames] at hqr hqw
    obtain rfl : qr = b := (hguard.names _ qr hqr).2.mp rfl
    obtain rfl : qw = a := (hguard.names _ qw hqw).1.mp rfl
    have hsame : ∀ p num, k₁.lookup p num = s.kernel.lookup p num :=
      fun p num => FifoKernel.lookup_congr hfds
    have hkbytes : ∀ q, k'.bytes q = s.kernel.bytes q := by
      intro q
      rw [FifoKernel.bytes, hfifos', hfifos]
      rfl
    have hchan : Function.update s.channels j (some ⟨proc, some (fifoPath device 48),
        some (fifoPath device 49), false, o.openR, o.openW⟩) i = s.channels i :=
      Function.update_of_ne hij _ s.channels
    obtain ⟨c, hc, hr, hw⟩ := h.server
    have hnext := hguard.join (hnames'.trans hnames) (hfifos'.trans hfifos) hRW
      (by rw [← hsame, hnoneR]) (by rw [← hsame, hnoneW]) (fun p num => by rw [hlookup, hsame])
    refine ⟨_, ⟨⟨hwf', hnext, ?_⟩, h.ne, hij, ⟨c, hchan.trans hc, .inl hr, .inl hw⟩,
      ⟨_, Function.update_self .., .inr (.inl rfl), .inr (.inr rfl)⟩, ?_, ?_⟩⟩
    · intro p num q hq hheld
      rcases hheld with hheld | hheld
      · obtain ⟨m, d, rfl, hd, hrest⟩ := h.pair.members p num q hq hheld
        exact ⟨m, d, .inl rfl, hchan.trans hd, hrest⟩
      · refine ⟨j, _, .inr rfl, Function.update_self .., ?_⟩
        rcases hheld with heq | heq
        · obtain ⟨rfl, rfl, rfl⟩ := FifoFd.mk.inj heq
          exact ⟨rfl, List.mem_cons_self⟩
        · obtain ⟨rfl, rfl, rfl⟩ := FifoFd.mk.inj heq
          exact ⟨rfl, List.mem_cons_of_mem _ List.mem_cons_self⟩
    · show Function.update l.sent j [] i = Function.update l.got j [] j ++ k'.bytes qr
      rw [Function.update_of_ne hij, Function.update_self, hkbytes, h.sent, List.nil_append]
    · show Function.update l.sent j [] j = Function.update l.got j [] i ++ k'.bytes qw
      rw [Function.update_self, Function.update_of_ne hij, hkbytes, h.got, h.nothing]
      rfl

end

end

/-! ## Duplex -/

/-- The bytes that a channel can read now. -/
def FifoState.waiting (s : FifoState) (i : Nat) : List UInt8 :=
  match (s.channels i).bind fun c => s.kernel.lookup c.proc c.ctx.rfd with
  | some q => s.kernel.bytes q
  | none => []

theorem FifoPair.waiting_eq {device : CString} {member : Nat → Prop} {held : FifoFd → Prop}
    {a b : Ptr} {s : FifoState} (h : FifoPair device member held a b s) {i : Nat} {x y : Ptr}
    (hx : x = a ∨ x = b) (hend : FifoEnd held s i x y) : s.waiting i = s.kernel.bytes x := by
  obtain ⟨c, hc, hr, _⟩ := hend
  have hlook := (h.guard.fds _ _ x hx).mpr hr
  rw [FifoState.waiting, hc, Option.bind_some, hlook]

/-- Each of two channels has taken the first bytes that the other one has sent, in order, and the
    rest of them is waiting for it. -/
structure FifoLog.Balanced (i j : Nat) (s : FifoState) (log : FifoLog) : Prop where
  forth : log.sent i = log.got j ++ s.waiting j
  back : log.sent j = log.got i ++ s.waiting i

/-- A server and then a client of its device are the ends of two byte streams, whatever channels
    were there before, and whatever others do on other devices or on the old FIFOs of this one. -/
theorem fifo_duplex {alloc : Allocator (List UInt8)} {device : CString}
    (hdevice : device.chars.length ≤ 120) {i j procI procJ : Nat} {oI oJ : FifoOutcomes}
    {before between after : List FifoCall} {s₀ s₁ s₂ s₃ s₄ : FifoState}
    {outs₀ outs₂ outs₄ : List FifoOut}
    (hbefore : StepSystem.runOut (channelFifoStep alloc) .empty before = some (s₀, outs₀))
    (hserver : channelFifoStep alloc s₀ (.setup i procI oI device true) = some (s₁, ⟨0, []⟩))
    (hbetween : StepSystem.runOut (channelFifoStep alloc) s₁ between = some (s₂, outs₂))
    (hclient : channelFifoStep alloc s₂ (.setup j procJ oJ device false) = some (s₃, ⟨0, []⟩))
    (hafter : StepSystem.runOut (channelFifoStep alloc) s₃ after = some (s₄, outs₄))
    (hkeep : ∀ call ∈ between ++ after, call.Keeps device fun m => m = i ∨ m = j) :
    FifoLog.Balanced i j s₄ (((.setup i procI oI device true, ⟨0, []⟩) :: (between.zip outs₂ ++
      (.setup j procJ oJ device false, ⟨0, []⟩) :: after.zip outs₄)).foldl FifoLog.follow
        .empty) := by
  have hstepWf : ∀ (s : FifoState) (_ : Unit) call s' out, s.Wf →
      channelFifoStep alloc s call = some (s', out) → s'.Wf := fun s _ call s' out h hstep =>
    channelFifoStep_wf h hstep
  have hwf : s₀.Wf := @StepSystem.inv_of_runOut _ Unit _ _ _ (fun t _ => t) _ hstepWf _ _ ()
    _ _ FifoState.wf_empty hbefore
  obtain ⟨held, a, b, hstart⟩ := ServerAlone.start hwf hdevice hserver
  have hkeeps := List.forall_mem_append.mp hkeep
  have hstepAlone : ∀ s l call s' out, call.Keeps device (fun m => m = i ∨ m = j) →
      ServerAlone device i held a b s l → channelFifoStep alloc s call = some (s', out) →
      ServerAlone device i held a b s' (l.follow (call, out)) :=
    fun s l call s' out hk h hstep => h.step hdevice hk hstep
  have halone := StepSystem.inv_of_runOut_mem hstepAlone hstart hkeeps.1 hbetween
  obtain ⟨held', hjoin⟩ := halone.join hclient
  have hstepDuplex : ∀ s l call s' out, call.Keeps device (fun m => m = i ∨ m = j) →
      FifoDuplex device i j held' a b s l → channelFifoStep alloc s call = some (s', out) →
      FifoDuplex device i j held' a b s' (l.follow (call, out)) :=
    fun s l call s' out hk h hstep => h.step hdevice hk hstep
  have hduplex := StepSystem.inv_of_runOut_mem hstepDuplex hjoin hkeeps.2 hafter
  rw [List.foldl_cons, List.foldl_append, List.foldl_cons]
  apply FifoLog.Balanced.mk
  · rw [hduplex.pair.waiting_eq (.inr rfl) hduplex.client]
    exact hduplex.forth
  · rw [hduplex.pair.waiting_eq (.inl rfl) hduplex.server]
    exact hduplex.back

/-- All calls succeed, and the two opens return these descriptors. -/
def fifoWorks (rfd wfd : Int) : FifoOutcomes :=
  ⟨true, false, 0, true, false, 0, true, rfd, wfd, 0, 0, 0, 0, false, false⟩

/-- The device of the example. -/
def hiDevice : CString := ⟨[47, 104, 105], by decide⟩

theorem fifo_duplex_hello : ∃ s₁ s₂ s₃ s₄ : FifoState,
    channelFifoStep (Allocator.bump _) .empty (.setup 1 10 (fifoWorks 3 4) hiDevice true) =
      some (s₁, ⟨0, []⟩) ∧
    StepSystem.runOut (channelFifoStep (Allocator.bump _)) s₁ [.send 1 ⟨1, .ok 2⟩ [72, 105, 33]] =
      some (s₂, [⟨2, [72, 105]⟩]) ∧
    channelFifoStep (Allocator.bump _) s₂ (.setup 2 11 (fifoWorks 3 4) hiDevice false) =
      some (s₃, ⟨0, []⟩) ∧
    StepSystem.runOut (channelFifoStep (Allocator.bump _)) s₃
      [.recv 2 0 1, .send 2 ⟨0, .ok 1⟩ [89], .flushRead 1, .recv 1 0 8] =
      some (s₄, [⟨1, [72]⟩, ⟨1, [89]⟩, ⟨0, [89]⟩, ⟨0, []⟩]) ∧
    FifoLog.Balanced 1 2 s₄ ([(.setup 1 10 (fifoWorks 3 4) hiDevice true, ⟨0, []⟩),
      (.send 1 ⟨1, .ok 2⟩ [72, 105, 33], ⟨2, [72, 105]⟩),
      (.setup 2 11 (fifoWorks 3 4) hiDevice false, ⟨0, []⟩), (.recv 2 0 1, ⟨1, [72]⟩),
      (.send 2 ⟨0, .ok 1⟩ [89], ⟨1, [89]⟩), (.flushRead 1, ⟨0, [89]⟩), (.recv 1 0 8, ⟨0, []⟩)].foldl
        FifoLog.follow .empty) := by
  have hrun : ∃ s₁ s₂ s₃ s₄ : FifoState,
      channelFifoStep (Allocator.bump _) .empty (.setup 1 10 (fifoWorks 3 4) hiDevice true) =
        some (s₁, ⟨0, []⟩) ∧
      StepSystem.runOut (channelFifoStep (Allocator.bump _)) s₁ [.send 1 ⟨1, .ok 2⟩ [72, 105, 33]] =
        some (s₂, [⟨2, [72, 105]⟩]) ∧
      channelFifoStep (Allocator.bump _) s₂ (.setup 2 11 (fifoWorks 3 4) hiDevice false) =
        some (s₃, ⟨0, []⟩) ∧
      StepSystem.runOut (channelFifoStep (Allocator.bump _)) s₃
        [.recv 2 0 1, .send 2 ⟨0, .ok 1⟩ [89], .flushRead 1, .recv 1 0 8] =
        some (s₄, [⟨1, [72]⟩, ⟨1, [89]⟩, ⟨0, [89]⟩, ⟨0, []⟩]) := ⟨_, _, _, _, rfl, rfl, rfl, rfl⟩
  obtain ⟨s₁, s₂, s₃, s₄, hserver, hbetween, hclient, hafter⟩ := hrun
  have hbefore : StepSystem.runOut (channelFifoStep (Allocator.bump _)) .empty [] =
    some (.empty, []) := rfl
  exact ⟨s₁, s₂, s₃, s₄, hserver, hbetween, hclient, hafter,
    fifo_duplex (by decide) hbefore hserver hbetween hclient hafter (by simp [FifoCall.Keeps])⟩

end CUtils
