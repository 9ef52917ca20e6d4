import CUtils.Spec.HashMapForeach

/-!
# Every channel that is set up is torn down once

The successful opens of a run owe one call of a backend teardown each.  Together the closes
of the run and `channel_manager_teardown` make exactly these calls, and free every object.

- `channel_manager_balanced`: for every run from `channel_manager_init`.
-/

namespace CUtils

open StepSystem

/-! ## What is owed and what is called -/

/-- A call of a backend teardown. -/
def BackendCall.isTeardown : BackendCall → Bool
  | .teardown _ _ => true
  | _ => false

/-- The teardowns that a history of calls has made. -/
def tornDown (outs : List ChannelOut) : List BackendCall :=
  outs.flatMap fun out => out.calls.filter BackendCall.isTeardown

/-- The teardown that a successful open owes: the one of its backend, with the data that its
    setup has left. -/
def owedBy : ChannelCall × ChannelOut → Option (Option BackendCall)
  | (.opening env type _ _ _, out) =>
    if out.rc = .none then
      some do
        let ops ← channelOps type
        let teardown ← ops.teardown
        return .teardown teardown env.data
    else none
  | _ => none

/-- The teardowns that a history of calls owes. -/
def owed (history : List (ChannelCall × ChannelOut)) : List (Option BackendCall) :=
  history.filterMap owedBy

/-- The live objects are those of the open channels. -/
def OnlyOpened (s : ChannelState) (opened : List OpenChannel) : Prop :=
  ∀ p, s.objects.cells p ≠ none → ∃ o ∈ opened, o.object = p

/-! ## One call -/

section

variable {dense : DensityTest} {itemAlloc : Allocator (HashMapItem Ptr)} {alloc : Allocator Channel}
variable {s s' : ChannelState} {opened : List OpenChannel} {out : ChannelOut}

/-- `channel_open` calls no teardown. -/
theorem channelOpen_tornDown {env : OpenEnv} {type : ChannelType} {device : Option CString}
    {speed isServer : Int}
    (hrun : channelOpen dense itemAlloc alloc s env type device speed isServer = some (s', out)) :
    tornDown [out] = [] := by
  have hcalls : out.calls.filter BackendCall.isTeardown = [] := by
    unfold channelOpen at hrun
    split at hrun
    · obtain ⟨rfl, rfl⟩ := Prod.mk.inj (Option.some.inj hrun)
      rfl
    · cases device with
      | none =>
        obtain ⟨rfl, rfl⟩ := Prod.mk.inj (Option.some.inj hrun)
        rfl
      | some name =>
        simp only [Option.bind_eq_bind, Option.bind_eq_some_iff] at hrun
        obtain ⟨val, _, hrun⟩ := hrun
        split at hrun
        · obtain ⟨rfl, rfl⟩ := Prod.mk.inj (Option.some.inj hrun)
          rfl
        · split at hrun
          · obtain ⟨rfl, rfl⟩ := Prod.mk.inj (Option.some.inj hrun)
            rfl
          · simp only [Option.bind_eq_some_iff] at hrun
            obtain ⟨ops, _, setup, _, hrun⟩ := hrun
            split at hrun
            · obtain ⟨rfl, rfl⟩ := Prod.mk.inj (Option.some.inj hrun)
              rfl
            · simp only [Option.bind_eq_some_iff] at hrun
              obtain ⟨s₁, _, hrun⟩ := hrun
              obtain ⟨rfl, rfl⟩ := Prod.mk.inj (Option.some.inj hrun)
              -- at most one flush behind the setup
              cases ops.flush <;> rfl
  rw [tornDown, List.flatMap_singleton, hcalls]

/-- Registering a channel only writes its object. -/
theorem channelRegister_objects {c : Ptr} {chan : Channel}
    (hrun : channelRegister dense itemAlloc s c chan = some s') (p : Ptr) (hp : p ≠ c) :
    s'.objects.cells p = s.objects.cells p := by
  simp only [channelRegister, Option.bind_eq_bind, Option.bind_eq_some_iff] at hrun
  obtain ⟨openChannels, _, key, _, ⟨channels, hash⟩, _, hrun⟩ := hrun
  obtain rfl := Option.some.inj hrun
  exact Function.update_of_ne hp _ _

/-- A successful open adds a channel that owes its teardown. -/
theorem channelOpen_owes (h : ChannelRepr s opened) (hlive : OnlyOpened s opened) {env : OpenEnv}
    {type : ChannelType} {device : Option CString} {speed isServer : Int}
    (hrun : channelOpen dense itemAlloc alloc s env type device speed isServer = some (s', out)) :
    OnlyOpened s' (recordCall opened (.opening env type device speed isServer, out)) ∧
      ((tornDown [out]).map some ++
          (recordCall opened (.opening env type device speed isServer, out)).map teardownOf).Perm
        (opened.map teardownOf ++ owed [(.opening env type device speed isServer, out)]) := by
  rw [channelOpen_tornDown hrun, List.map_nil, List.nil_append]
  obtain ⟨_, herror, hsame, _⟩ | ⟨name, setup, c, flushed, _, rfl, hnew, hknown, hfresh, hregister,
    rfl⟩ := channelOpen_cases h hrun
  · rw [recordCall_of_error herror]
    have hnone : owed [(.opening env type device speed isServer, out)] = [] := by
      simp only [owed, owedBy, if_neg herror, List.filterMap_cons_none, List.filterMap_nil]
    rw [hnone, List.append_nil]
    refine ⟨fun p hp => hlive p ?_, List.Perm.refl _⟩
    rwa [hsame.2] at hp
  · constructor
    · intro p hp
      by_cases hpc : p = c
      · exact ⟨_, List.mem_cons_self, hpc.symm⟩
      · rw [channelRegister_objects hregister p hpc] at hp
        obtain ⟨o, ho, hobject⟩ := hlive p (by
          rwa [Heap.cells_set, Function.update_of_ne hpc] at hp)
        exact ⟨o, List.mem_cons_of_mem _ ho, hobject⟩
    · exact (List.perm_append_singleton _ _).symm

/-- A successful close makes the call that its channel owes. -/
theorem channelClose_pays (h : ChannelRepr s opened) (hlive : OnlyOpened s opened)
    {device : Option CString} (hrun : channelClose s device = some (s', out)) :
    OnlyOpened s' (recordCall opened (.close device, out)) ∧
      ((tornDown [out]).map some ++ (recordCall opened (.close device, out)).map teardownOf).Perm
        (opened.map teardownOf ++ owed [(.close device, out)]) := by
  have howed : owed [(ChannelCall.close device, out)] = [] := rfl
  rw [howed, List.append_nil]
  cases ho : latestOpen opened device with
  | none =>
    -- no channel is open on the device: nothing changes
    simp only [channelClose, Option.bind_eq_bind, Option.bind_eq_some_iff] at hrun
    obtain ⟨r, hget, hrun⟩ := hrun
    rw [h.of_hashMapGet hget, ho] at hrun
    obtain ⟨rfl, rfl⟩ := Prod.mk.inj (Option.some.inj hrun)
    exact ⟨hlive, List.Perm.refl _⟩
  | some o =>
    cases device with
    | none =>
      rw [h.latestOpen_null] at ho
      cases ho
    | some name =>
      obtain ⟨channels, val, fns, setup, _, _, _, hops, hclose⟩ := channelClose_open h ho
      obtain ⟨rfl, rfl⟩ := Prod.mk.inj (Option.some.inj (hrun.symm.trans hclose))
      obtain ⟨hmem, hdevice⟩ := mem_of_latestOpen ho
      obtain ⟨a, l₁, l₂, _, ha, hsplit, herase⟩ := List.exists_of_eraseP
        (p := fun o : OpenChannel => decide (o.channel.device = some name)) hmem (by simpa using hdevice)
      -- the channel that leaves the list is the one that was closed
      obtain rfl : a = o := by
        have hdevices : a.channel.device = o.channel.device := by
          rw [hdevice]
          simpa using ha
        exact List.inj_on_of_nodup_map h.nodup_devices (by rw [hsplit]; simp) hmem hdevices
      have hcall : teardownOf a = some (.teardown fns.teardown a.channel.data) := by
        simp only [teardownOf, hops, Option.bind_eq_bind, Option.bind_some,
          Option.pure_def]
      constructor
      · intro p hp
        change Function.update s.objects.cells a.object none p ≠ none at hp
        have hpa : p ≠ a.object := by
          rintro rfl
          rw [Function.update_self] at hp
          exact hp rfl
        rw [Function.update_of_ne hpa] at hp
        obtain ⟨o, ho, rfl⟩ := hlive p hp
        refine ⟨o, ?_, rfl⟩
        show o ∈ opened.eraseP _
        rw [herase]
        rw [hsplit] at ho
        have hoa : o ≠ a := fun heq => hpa (by rw [heq])
        simpa [hoa] using ho
      · show ([some (BackendCall.teardown fns.teardown a.channel.data)] ++
          (opened.eraseP _).map teardownOf).Perm _
        rw [herase, hsplit, List.map_append, List.map_append, List.map_cons, ← hcall,
          List.singleton_append]
        exact List.perm_middle.symm

/-- Every call keeps the account. -/
theorem channelStep_balanced (h : ChannelRepr s opened) (hlive : OnlyOpened s opened)
    {call : ChannelCall} (hrun : channelStep dense itemAlloc alloc s call = some (s', out)) :
    OnlyOpened s' (recordCall opened (call, out)) ∧
      ((tornDown [out]).map some ++ (recordCall opened (call, out)).map teardownOf).Perm
        (opened.map teardownOf ++ owed [(call, out)]) := by
  cases call with
  | opening env type device speed isServer => exact channelOpen_owes h hlive hrun
  | close device => exact channelClose_pays h hlive hrun
  | get device args =>
    simp only [channelStep, Option.map_eq_some_iff, Prod.mk.injEq] at hrun
    obtain ⟨out, hget, rfl, rfl⟩ := hrun
    have hnone : tornDown [out] = [] := by
      have hcalls : out.calls = [] := by
        simp only [channelGet, Option.bind_eq_bind, Option.bind_eq_some_iff] at hget
        obtain ⟨c, _, hget⟩ := hget
        cases c with
        | none => rw [← Option.some.inj hget]; rfl
        | some c =>
          simp only [Option.bind_eq_some_iff] at hget
          obtain ⟨chan, _, view, _, hget⟩ := hget
          rw [← Option.some.inj hget]
      rw [tornDown, List.flatMap_singleton, hcalls]
      rfl
    rw [hnone]
    exact ⟨hlive, by rw [owed, List.filterMap_cons_none rfl, List.filterMap_nil, List.append_nil]; rfl⟩

end

/-! ## Runs -/

/-- A run keeps the account. -/
theorem channelRun_balanced {dense : DensityTest} {itemAlloc : Allocator (HashMapItem Ptr)}
    {alloc : Allocator Channel} {calls : List ChannelCall} {s c : ChannelState}
    {opened : List OpenChannel} {outs : List ChannelOut} (h : ChannelRepr s opened)
    (hlive : OnlyOpened s opened)
    (hrun : runOut (channelStep dense itemAlloc alloc) s calls = some (c, outs)) :
    ∃ left, ChannelRepr c left ∧ OnlyOpened c left ∧ left.length ≤ opened.length + calls.length ∧
      ((tornDown outs).map some ++ left.map teardownOf).Perm
        (opened.map teardownOf ++ owed (calls.zip outs)) := by
  induction calls generalizing s opened outs with
  | nil =>
    simp only [runOut, Option.some.injEq, Prod.mk.injEq] at hrun
    obtain ⟨rfl, rfl⟩ := hrun
    refine ⟨opened, h, hlive, Nat.le_refl _, ?_⟩
    show (opened.map teardownOf).Perm (opened.map teardownOf ++ [])
    rw [List.append_nil]
  | cons call calls ih =>
    simp only [runOut, Option.bind_eq_some_iff, Option.map_eq_some_iff, Prod.mk.injEq] at hrun
    obtain ⟨⟨m, out⟩, hstep, ⟨q, outs⟩, hrest, rfl, rfl⟩ := hrun
    obtain ⟨hlive', hperm⟩ := channelStep_balanced h hlive hstep
    obtain ⟨left, hleft, hlast, hlen, hrun⟩ := ih (channelStep_spec h hstep).1 hlive' hrest
    refine ⟨left, hleft, hlast, ?_, ?_⟩
    · have hrecord : (recordCall opened (call, out)).length ≤ opened.length + 1 := by
        unfold recordCall
        split
        · rw [List.length_cons]
        · exact Nat.le_succ_of_le (List.length_eraseP_le)
        · omega
      rw [List.length_cons]
      omega
    · -- what the call has made and owed is moved past the rest of the run
      have htorn : tornDown (out :: outs) = tornDown [out] ++ tornDown outs := by
        rw [← List.singleton_append, tornDown, List.flatMap_append]
        rfl
      have howed : owed ((call, out) :: calls.zip outs) =
          owed [(call, out)] ++ owed (calls.zip outs) := by
        rw [← List.singleton_append, owed, List.filterMap_append]
        rfl
      rw [List.zip_cons_cons, htorn, howed, List.map_append, List.append_assoc,
        ← List.append_assoc (opened.map teardownOf)]
      refine (List.Perm.append_left _ hrun).trans ?_
      rw [← List.append_assoc]
      exact List.Perm.append_right _ hperm

/-! ## The end of a manager -/

/-- What the body of `HASH_MAP_FOREACH` keeps, the loop keeps. -/
theorem hashMapForeach_inv {V σ : Type} {map : σ → HashMapState V}
    {body : σ → CString → Option V → Option σ} {P : σ → Prop}
    (hbody : ∀ t key val t', P t → body t key val = some t' → P t') {fuel : Nat} {t t' : σ}
    {it : HashMapIterator} (ht : P t) (h : hashMapForeach map body fuel t it = some t') : P t' := by
  induction fuel generalizing t it with
  | zero => cases h
  | succ fuel ih =>
    simp only [hashMapForeach, Option.bind_eq_bind, Option.bind_eq_some_iff] at h
    obtain ⟨⟨it', result⟩, _, h⟩ := h
    simp only at h
    split at h
    · simp only [Option.bind_eq_some_iff] at h
      obtain ⟨⟨key, val⟩, _, t₁, hstep, hrest⟩ := h
      exact ih (hbody t key val t₁ ht hstep) hrest
    · rw [← Option.some.inj h]
      exact ht

/-- The loop of `channel_manager_teardown` makes no object. -/
theorem channelTeardownLoop_frees {fuel : Nat} {s c : ChannelState} {calls : List BackendCall}
    {p : Ptr} (hp : s.objects.cells p = none)
    (h : hashMapForeach (fun t => t.1.ctx.channels) channelTeardownBody fuel (s, [])
      hashMapItInit = some (c, calls)) : c.objects.cells p = none := by
  refine hashMapForeach_inv (P := fun t : ChannelState × List BackendCall =>
    t.1.objects.cells p = none) ?_ hp h
  rintro ⟨t, ts⟩ device val ⟨t', ts'⟩ ht hbody
  simp only [channelTeardownBody, channelClose, Option.bind_eq_bind, Option.bind_eq_some_iff] at hbody
  obtain ⟨⟨t₁, out⟩, ⟨c, _, hclose⟩, hbody⟩ := hbody
  obtain ⟨rfl, _⟩ := Prod.mk.inj (Option.some.inj hbody)
  cases c with
  | none =>
    obtain ⟨rfl, _⟩ := Prod.mk.inj (Option.some.inj hclose)
    exact ht
  | some c =>
    simp only [Option.bind_eq_some_iff] at hclose
    obtain ⟨chan, _, ops, _, teardown, _, ⟨channels, _⟩, _, openChannels, _, hclose⟩ := hclose
    obtain ⟨rfl, _⟩ := Prod.mk.inj (Option.some.inj hclose)
    show Function.update t.objects.cells c none p = none
    by_cases hpc : p = c
    · rw [hpc, Function.update_self]
    · rw [Function.update_of_ne hpc, ht]

/-- Whatever is opened, fails to open and is closed: after `channel_manager_teardown` the calls
    of the backend teardowns are, one for one, those that the successful opens owe, with the
    data of their setups, and no channel object is left. -/
theorem channel_manager_balanced {dense : DensityTest} {itemAlloc : Allocator (HashMapItem Ptr)}
    {alloc : Allocator Channel} {calls : List ChannelCall} {c : ChannelState}
    {outs : List ChannelOut}
    (hrun : runOut (channelStep dense itemAlloc alloc) channelManagerInit calls = some (c, outs))
    {fuel : Nat} (hfuel : calls.length < fuel) :
    ∃ c' teardowns, channelManagerTeardown fuel c = some (c', teardowns) ∧
      ((tornDown outs ++ teardowns).map some).Perm (owed (calls.zip outs)) ∧
      ∀ p, c'.objects.cells p = none := by
  have hempty : OnlyOpened channelManagerInit [] := fun p hp => absurd rfl hp
  obtain ⟨left, hrepr, hlive, hlen, hperm⟩ :=
    channelRun_balanced channelManagerInit_repr hempty hrun
  rw [List.length_nil, Nat.zero_add] at hlen
  obtain ⟨c', teardowns, hloop, hleft, _, hfreed, hwf⟩ := channelTeardownLoop_spec hrepr
    (Nat.lt_of_le_of_lt hlen hfuel)
  have hteardown : ∃ c'', channelManagerTeardown fuel c = some (c'', teardowns) ∧
      c''.objects = c'.objects := by
    simp only [channelManagerTeardown, hloop, Option.bind_eq_bind, Option.bind_some,
      hashMapFree_empty hwf, Option.pure_def]
    exact ⟨_, rfl, rfl⟩
  obtain ⟨c'', hteardown, hobjects⟩ := hteardown
  refine ⟨c'', teardowns, hteardown, ?_, ?_⟩
  · rw [List.map_append]
    exact (List.Perm.append_left _ hleft).trans hperm
  · intro p
    rw [hobjects]
    cases hp : c.objects.cells p with
    | none => exact channelTeardownLoop_frees hp hloop
    | some chan =>
      obtain ⟨o, ho, rfl⟩ := hlive p (by rw [hp]; exact Option.some_ne_none chan)
      exact hfreed o ho

/-- Two opens, of which the first channel is closed, and a third that fails. -/
def lifecycleCalls : List ChannelCall :=
  [.opening ⟨true, true, 0, some 5⟩ .fifo (some ⟨[47, 97], by decide⟩) 0 1,
    .opening ⟨true, true, 0, some 6⟩ .msgq (some ⟨[47, 98], by decide⟩) 0 0,
    .opening ⟨true, true, -1, none⟩ .uart (some ⟨[47, 99], by decide⟩) 9600 0,
    .close (some ⟨[47, 97], by decide⟩)]

theorem channel_manager_balanced_three :
    ∃ c outs c' teardowns, runOut (channelStep mapDensityExceeds (Allocator.bump _)
        (Allocator.bump _)) channelManagerInit lifecycleCalls = some (c, outs) ∧
      channelManagerTeardown 5 c = some (c', teardowns) ∧
      ((tornDown outs ++ teardowns).map some).Perm
        [some (.teardown .fifoTeardown (some 5)), some (.teardown .msgqTeardown (some 6))] := by
  have hrun : runOut (channelStep mapDensityExceeds (Allocator.bump _) (Allocator.bump _))
      channelManagerInit lifecycleCalls = some (_, _) := rfl
  obtain ⟨c', teardowns, hteardown, hperm, _⟩ := channel_manager_balanced hrun
    (show lifecycleCalls.length < 5 by decide)
  exact ⟨_, _, c', teardowns, hrun, hteardown, hperm⟩

end CUtils
