import CUtils.ForStd.StepSystem
import CUtils.Native.Channel
import CUtils.Spec.HashMapCorrect

/-!
# What the channel manager keeps

The manager is compared with the list of the channels opened and not yet closed, newest
first, which the history of calls and results determines (`openedBy`).

- `ChannelRepr`: the counter, the map and the objects of a manager store that list.
- `channelStep_spec`: every call keeps the relation and does what the list says.
- `channel_manager_correct`: the counter, the map, and the results of every call after
  any run from `channel_manager_init`.
- `channel_ids_distinct_iff`: open channels have distinct ids exactly in the runs that never
  open a channel while one is open that was opened when as many channels were open.
-/

namespace CUtils

open StepSystem

/-! ## The channels that a history leaves open -/

/-- An open channel: the address of its object and the object. -/
structure OpenChannel where
  object : Ptr
  channel : Channel

/-- The functions of a backend that the manager hands out or tears down with. -/
structure BackendFns where
  send : ChannelFn
  receive : ChannelFn
  flush : ChannelFn
  teardown : ChannelFn

/-- The backend of each type of channel. -/
def backendFns (type : ChannelType) : Option BackendFns :=
  if type = .uart then some ⟨.uartSend, .uartRecv, .uartFlush, .uartTeardown⟩
  else if type = .msgq then some ⟨.msgqSend, .msgqRecv, .msgqFlush, .msgqTeardown⟩
  else if type = .fifo then some ⟨.fifoSend, .fifoRecv, .fifoFlush, .fifoTeardown⟩
  else if type = .unixBus then
    some ⟨.unixBusSend, .unixBusRecv, .unixBusFlush, .unixBusTeardown⟩
  else none

/-- The open channels after one more call: a successful open adds the object that was
    set up, with the data that `setup` has left and the next id; a successful close
    removes the channel of the device. -/
def recordCall (opened : List OpenChannel) : ChannelCall × ChannelOut → List OpenChannel
  | (.opening env type (some device) speed isServer, ⟨.none, _, .setup _ c :: _⟩) =>
    ⟨c, { id := opened.length + 1, speed, device := some device, isServer, type,
          data := env.data }⟩ :: opened
  | (.close device, ⟨.none, _, _⟩) =>
    opened.eraseP fun o => decide (o.channel.device = device)
  | _ => opened

/-- The channels opened and not yet closed in a history, newest first. -/
def openedBy (history : List (ChannelCall × ChannelOut)) : List OpenChannel :=
  history.foldl recordCall []

/-- The channel of the latest open of a device. -/
def latestOpen (opened : List OpenChannel) (device : Option CString) : Option OpenChannel :=
  opened.find? fun o => decide (o.channel.device = device)

/-- Two states with the same manager and the same live objects. -/
def Unchanged (s s' : ChannelState) : Prop :=
  s'.ctx = s.ctx ∧ s'.objects.cells = s.objects.cells

/-- What a call does in a state with the open channels `opened`: which devices it
    succeeds for, the channel it acts on and what it hands out of it, and that an error
    changes nothing. -/
def CallCorrect (opened : List OpenChannel) (s s' : ChannelState) (out : ChannelOut) :
    ChannelCall → Prop
  | .opening _ type device _ _ =>
    (device ≠ none → channelTypeKnown type →
      (out.rc = .alreadyOpen ↔ (latestOpen opened device).isSome)) ∧
    (out.rc ≠ .none → Unchanged s s')
  | .get device args =>
    (out.rc = .none ↔ (latestOpen opened device).isSome) ∧
    (∀ o, latestOpen opened device = some o →
      ∃ fns, backendFns o.channel.type = some fns ∧
        out =
          { rc := .none
            view :=
              { id := if args.id then some o.channel.id else none
                data := if args.data then some o.channel.data else none
                send := if args.send then some (some fns.send) else none
                receive := if args.receive then some (some fns.receive) else none
                flush := if args.flush then some (some fns.flush) else none }
            calls := [] }) ∧
    (out.rc ≠ .none → out = .error .notOpen) ∧ s' = s
  | .close device =>
    (out.rc = .none ↔ (latestOpen opened device).isSome) ∧
    (∀ o, latestOpen opened device = some o → s'.objects = s.objects.free o.object ∧
      ∃ fns, backendFns o.channel.type = some fns ∧
        out.calls = [.teardown fns.teardown o.channel.data]) ∧
    (out.rc ≠ .none → Unchanged s s')

/-- The calls that cannot fault: a device name is given, `strdup` succeeds, and the
    counter does not overflow. -/
def CallDefined (opened : List OpenChannel) : ChannelCall → Prop
  | .opening env _ _ _ _ => env.strdup = true ∧ (opened.length : Int) < intMax
  | .get device _ => device ≠ none
  | .close device => device ≠ none

/-- An open that passes every check, gets its memory and is set up. -/
def OpenPasses (opened : List OpenChannel) (env : OpenEnv) (type : ChannelType)
    (device : Option CString) : Prop :=
  channelTypeKnown type ∧ device ≠ none ∧ latestOpen opened device = none ∧
    env.calloc = true ∧ env.setup = 0

/-! ## The relation -/

/-- A manager stores the open channels `opened`. -/
structure ChannelRepr (s : ChannelState) (opened : List OpenChannel) : Prop where
  map_repr : HashMapRepr s.ctx.channels fun device =>
    (latestOpen opened (some device)).map fun o => some o.object
  counter : s.ctx.openChannels = opened.length
  in_range : (opened.length : Int) ≤ intMax
  live : ∀ o ∈ opened, s.objects.cells o.object = some o.channel
  known : ∀ o ∈ opened, channelTypeKnown o.channel.type
  named : ∃ names : List CString,
    opened.map (fun o => o.channel.device) = names.map some ∧ names.Nodup

section Repr

variable {s : ChannelState} {opened : List OpenChannel}

theorem mem_of_latestOpen {device : Option CString} {o : OpenChannel}
    (h : latestOpen opened device = some o) : o ∈ opened ∧ o.channel.device = device := by
  refine ⟨List.mem_of_find?_eq_some h, ?_⟩
  simpa using List.find?_some h

theorem isSome_latestOpen_iff (device : Option CString) :
    (latestOpen opened device).isSome ↔ device ∈ opened.map fun o => o.channel.device :=
  List.isSome_find?_key_iff device

theorem ChannelRepr.nodup_devices (h : ChannelRepr s opened) :
    (opened.map fun o => o.channel.device).Nodup := by
  obtain ⟨names, hnames, hnodup⟩ := h.named
  rw [hnames]
  exact hnodup.map fun _ _ => Option.some.inj

/-- No channel is open on a NULL device. -/
theorem ChannelRepr.latestOpen_null (h : ChannelRepr s opened) : latestOpen opened none = none := by
  obtain ⟨names, hnames, _⟩ := h.named
  rw [← Option.not_isSome_iff_eq_none, isSome_latestOpen_iff, hnames]
  simp

/-- The counter, the item count and the number of entries are the number of open channels. -/
theorem ChannelRepr.count_eq (h : ChannelRepr s opened) :
    hashMapCount s.ctx.channels = some opened.length ∧
      s.ctx.channels.map.count = opened.length := by
  obtain ⟨names, hnames, hnodup⟩ := h.named
  have hlen : opened.length = names.length := by
    simpa only [List.length_map] using congrArg List.length hnames
  rw [hlen]
  apply h.map_repr.count_eq hnodup
  intro k
  rw [Option.isSome_map, isSome_latestOpen_iff, hnames]
  simp

/-- What `hash_map_get` returns for a device. -/
theorem ChannelRepr.hashMapGet_eq (h : ChannelRepr s opened) (name : CString) :
    hashMapGet s.ctx.channels (some name) 0 =
      some ((latestOpen opened (some name)).map OpenChannel.object) := by
  rw [hashMapGet_spec h.map_repr]
  cases latestOpen opened (some name) <;> rfl

/-- What `hash_map_get` returns for a device or NULL, unless it faults. -/
theorem ChannelRepr.of_hashMapGet (h : ChannelRepr s opened) {device : Option CString}
    {r : Option Ptr} (hget : hashMapGet s.ctx.channels device 0 = some r) :
    r = (latestOpen opened device).map OpenChannel.object := by
  cases device with
  | none =>
    rw [h.latestOpen_null]
    exact hashMapGet_null hget
  | some name =>
    rw [h.hashMapGet_eq] at hget
    exact (Option.some.inj hget).symm

/-- A different open channel has a different object. -/
theorem ChannelRepr.object_ne (h : ChannelRepr s opened) {o o' : OpenChannel} (ho : o ∈ opened)
    (ho' : o' ∈ opened) (hne : o'.channel.device ≠ o.channel.device) : o'.object ≠ o.object := by
  intro heq
  have hcell := h.live o' ho'
  rw [heq, h.live o ho, Option.some.injEq] at hcell
  exact hne (by rw [hcell])

end Repr

/-! ## The backends of a known type -/

/-- `g_channel_ops` has the functions of every known type. -/
theorem channelOps_of_known {type : ChannelType} (h : channelTypeKnown type) :
    ∃ fns setup, backendFns type = some fns ∧ channelOps type =
      some ⟨some fns.send, some fns.receive, some fns.flush, some setup, some fns.teardown⟩ := by
  -- the types between ERR and SENTINEL
  have hcases : type = 1 ∨ type = 2 ∨ type = 3 ∨ type = 4 := by
    simp only [channelTypeKnown, ChannelType.err, ChannelType.sentinel, decide_eq_true_eq,
      not_or, UInt32.le_iff_toNat_le, ge_iff_le, ← UInt32.toNat_inj] at h ⊢
    simp only [UInt32.reduceToNat] at h ⊢
    omega
  obtain rfl | rfl | rfl | rfl := hcases
  · exact ⟨_, .uartSetup, rfl, rfl⟩
  · exact ⟨_, .msgqSetup, rfl, rfl⟩
  · exact ⟨_, .fifoSetup, rfl, rfl⟩
  · exact ⟨_, .unixBusSetup, rfl, rfl⟩

/-- One function that `channel_get` looks up. -/
theorem channelGetFn_eq {type : ChannelType} {ops : ChannelOps} (hops : channelOps type = some ops)
    (want : Bool) (fn : ChannelOps → Option ChannelFn) :
    channelGetFn want type fn = some (if want then some (fn ops) else none) := by
  cases want with
  | true => rw [channelGetFn, if_pos rfl, hops, Option.map_some, if_pos rfl]
  | false => rfl

/-- What `channel_get` writes for a channel of a known type. -/
theorem channelView_eq (args : GetArgs) {chan : Channel} (h : channelTypeKnown chan.type) :
    ∃ fns, backendFns chan.type = some fns ∧ channelView args chan =
      some
        { id := if args.id then some chan.id else none
          data := if args.data then some chan.data else none
          send := if args.send then some (some fns.send) else none
          receive := if args.receive then some (some fns.receive) else none
          flush := if args.flush then some (some fns.flush) else none } := by
  obtain ⟨fns, setup, hfns, hops⟩ := channelOps_of_known h
  refine ⟨fns, hfns, ?_⟩
  simp only [channelView, channelGetFn_eq hops, Option.bind_eq_bind, Option.bind_some,
    Option.pure_def]

/-! ## One call -/

section Step

variable {s s' : ChannelState} {opened : List OpenChannel}

/-- Registering the object of a device that is not open. -/
theorem ChannelRepr.cons (h : ChannelRepr s opened) {o : OpenChannel} {name : CString}
    (hname : o.channel.device = some name) (hnew : latestOpen opened (some name) = none)
    (hknown : channelTypeKnown o.channel.type) (hfresh : s.objects.cells o.object = none)
    (hmap : HashMapRepr s'.ctx.channels (Function.update (fun device =>
      (latestOpen opened (some device)).map fun o => some o.object) name (some (some o.object))))
    (hcounter : s'.ctx.openChannels = opened.length + 1)
    (hrange : (opened.length : Int) + 1 ≤ intMax)
    (hcells : s'.objects.cells = Function.update s.objects.cells o.object (some o.channel)) :
    ChannelRepr s' (o :: opened) := by
  refine ⟨?_, ?_, ?_, ?_, ?_, ?_⟩
  · convert hmap using 1
    funext device
    rw [latestOpen, List.find?_key_cons, hname, Function.update_apply]
    by_cases hd : device = name
    · rw [if_pos (by rw [hd]), if_pos hd, Option.map_some]
    · rw [if_neg (fun heq => hd (Option.some.inj heq).symm), if_neg hd]
      rfl
  · rw [hcounter, List.length_cons, Int.natCast_add, Int.natCast_one]
  · rwa [List.length_cons, Int.natCast_add, Int.natCast_one]
  · intro o' ho'
    rw [hcells]
    rcases List.mem_cons.mp ho' with rfl | ho'
    · exact Function.update_self ..
    · -- a fresh object is not one of an open channel
      have hne : o'.object ≠ o.object := by
        intro heq
        have hlive := h.live o' ho'
        rw [heq, hfresh] at hlive
        cases hlive
      rw [Function.update_of_ne hne, h.live o' ho']
  · intro o' ho'
    rcases List.mem_cons.mp ho' with rfl | ho'
    · exact hknown
    · exact h.known o' ho'
  · obtain ⟨names, hnames, hnodup⟩ := h.named
    refine ⟨name :: names, ?_, List.nodup_cons.mpr ⟨?_, hnodup⟩⟩
    · rw [List.map_cons, List.map_cons, hname, hnames]
    · intro hmem
      have hsome : (latestOpen opened (some name)).isSome := by
        rw [isSome_latestOpen_iff, hnames]
        exact List.mem_map_of_mem hmem
      rw [hnew] at hsome
      cases hsome

/-- Removing the open channel of a device. -/
theorem ChannelRepr.erase (h : ChannelRepr s opened) {o : OpenChannel} {name : CString}
    (ho : latestOpen opened (some name) = some o)
    (hmap : HashMapRepr s'.ctx.channels (Function.update (fun device =>
      (latestOpen opened (some device)).map fun o => some o.object) name none))
    (hcounter : s'.ctx.openChannels = opened.length - 1)
    (hcells : s'.objects.cells = Function.update s.objects.cells o.object none) :
    ChannelRepr s' (opened.eraseP fun o => decide (o.channel.device = some name)) := by
  obtain ⟨hmem, hdevice⟩ := mem_of_latestOpen ho
  have hlookup : ∀ device, latestOpen (opened.eraseP fun o =>
      decide (o.channel.device = some name)) device =
      if device = some name then none else latestOpen opened device :=
    fun device => List.find?_key_eraseP h.nodup_devices (some name) device
  have hlen := List.length_eraseP_of_mem hmem
    (p := fun o => decide (o.channel.device = some name)) (by simpa using hdevice)
  have hpos := List.length_pos_of_mem hmem
  have hrange := h.in_range
  refine ⟨?_, ?_, ?_, ?_, ?_, ?_⟩
  · convert hmap using 1
    funext device
    rw [hlookup, Function.update_apply]
    by_cases hd : device = name
    · rw [if_pos (by rw [hd]), if_pos hd, Option.map_none]
    · rw [if_neg (fun heq => hd (Option.some.inj heq)), if_neg hd]
  · rw [hcounter, hlen]
    omega
  · rw [hlen]
    omega
  · intro o' ho'
    have ho'mem : o' ∈ opened := List.mem_of_mem_eraseP ho'
    -- the removed entry was the only one of its device
    have hne : o'.channel.device ≠ o.channel.device := by
      intro heq
      have hsome : (latestOpen (opened.eraseP fun o =>
          decide (o.channel.device = some name)) (some name)).isSome := by
        rw [isSome_latestOpen_iff]
        exact List.mem_map.mpr ⟨o', ho', heq.trans hdevice⟩
      rw [hlookup, if_pos rfl] at hsome
      cases hsome
    rw [hcells, Function.update_of_ne (h.object_ne hmem ho'mem hne), h.live o' ho'mem]
  · exact fun o' ho' => h.known o' (List.mem_of_mem_eraseP ho')
  · obtain ⟨names, hnames, hnodup⟩ := h.named
    have herase := congrArg (List.eraseP fun device => decide (device = some name)) hnames
    rw [List.eraseP_map, List.eraseP_map] at herase
    exact ⟨_, herase, hnodup.sublist List.eraseP_sublist⟩

/-- The relation depends on the manager and the live objects only. -/
theorem ChannelRepr.of_unchanged (h : ChannelRepr s opened) (hs : Unchanged s s') :
    ChannelRepr s' opened := by
  obtain ⟨hctx, hcells⟩ := hs
  refine ⟨?_, ?_, h.in_range, ?_, h.known, h.named⟩
  · rw [hctx]
    exact h.map_repr
  · rw [hctx]
    exact h.counter
  · rw [hcells]
    exact h.live

/-- `channel_get` reports the channel of the latest open of the device. -/
theorem channelGet_spec (h : ChannelRepr s opened) {device : Option CString} {args : GetArgs}
    {out : ChannelOut} (hrun : channelGet s device args = some out) :
    CallCorrect opened s s out (.get device args) := by
  simp only [channelGet, Option.bind_eq_bind, Option.bind_eq_some_iff] at hrun
  obtain ⟨r, hget, hrun⟩ := hrun
  obtain rfl := h.of_hashMapGet hget
  cases ho : latestOpen opened device with
  | none =>
    rw [ho] at hrun
    obtain rfl := Option.some.inj hrun
    simp [CallCorrect, ho, ChannelOut.error]
  | some o =>
    obtain ⟨hmem, _⟩ := mem_of_latestOpen ho
    obtain ⟨fns, hfns, hview⟩ := channelView_eq args (h.known o hmem)
    simp only [ho, Option.map_some, h.live o hmem, hview, Option.bind_some, Option.pure_def,
      Option.some.injEq] at hrun
    subst hrun
    refine ⟨by simp [ho], ?_, fun hrc => absurd rfl hrc, rfl⟩
    intro o' ho'
    obtain rfl := Option.some.inj (ho.symm.trans ho')
    exact ⟨fns, hfns, rfl⟩

/-- What `channel_close` of an open device does. -/
theorem channelClose_open (h : ChannelRepr s opened) {name : CString} {o : OpenChannel}
    (ho : latestOpen opened (some name) = some o) :
    ∃ channels val fns setup,
      hashMapDelete s.ctx.channels (some name) 0 = some (channels, val) ∧
      HashMapRepr channels (Function.update (fun device =>
        (latestOpen opened (some device)).map fun o => some o.object) name none) ∧
      backendFns o.channel.type = some fns ∧ channelOps o.channel.type =
        some ⟨some fns.send, some fns.receive, some fns.flush, some setup, some fns.teardown⟩ ∧
      channelClose s (some name) =
        some ({ ctx := { openChannels := s.ctx.openChannels - 1, channels },
                objects := s.objects.free o.object },
          ⟨.none, .empty, [.teardown fns.teardown o.channel.data]⟩) := by
  obtain ⟨hmem, _⟩ := mem_of_latestOpen ho
  obtain ⟨fns, setup, hfns, hops⟩ := channelOps_of_known (h.known o hmem)
  obtain ⟨channels, hdelete, hmap, _⟩ := hashMapDelete_spec h.map_repr name 0
  have hcounter : cInt (s.ctx.openChannels - 1) = some (s.ctx.openChannels - 1) := by
    have hrange := h.in_range
    rw [h.counter]
    apply cInt_eq_some
    · simp only [intMax]
      omega
    · omega
  refine ⟨channels, _, fns, setup, hdelete, hmap, hfns, hops, ?_⟩
  simp only [channelClose, h.hashMapGet_eq, ho, Option.bind_eq_bind, Option.bind_some,
    Option.map_some, h.live o hmem, hops, hdelete, hcounter, Option.pure_def]

/-- `channel_close` tears the channel of the latest open of the device down. -/
theorem channelClose_spec (h : ChannelRepr s opened) {device : Option CString} {out : ChannelOut}
    (hrun : channelClose s device = some (s', out)) :
    ChannelRepr s' (recordCall opened (.close device, out)) ∧
      CallCorrect opened s s' out (.close device) := by
  cases ho : latestOpen opened device with
  | none =>
    -- no open channel has this device: nothing changes
    simp only [channelClose, Option.bind_eq_bind, Option.bind_eq_some_iff] at hrun
    obtain ⟨r, hget, hrun⟩ := hrun
    rw [h.of_hashMapGet hget, ho] at hrun
    obtain ⟨rfl, rfl⟩ := Prod.mk.inj (Option.some.inj hrun)
    exact ⟨h, by simp [CallCorrect, ho, ChannelOut.error, Unchanged]⟩
  | some o =>
    cases device with
    | none =>
      rw [h.latestOpen_null] at ho
      cases ho
    | some name =>
      obtain ⟨channels, val, fns, _, _, hmap, hfns, _, hclose⟩ := channelClose_open h ho
      obtain ⟨rfl, rfl⟩ := Prod.mk.inj (Option.some.inj (hrun.symm.trans hclose))
      constructor
      · apply h.erase ho hmap _ rfl
        rw [h.counter]
      · simp [CallCorrect, ho, hfns]

/-- Registering the object that `setup` accepted. -/
theorem channelRegister_spec {dense : DensityTest} {itemAlloc : Allocator (HashMapItem Ptr)}
    (h : ChannelRepr s opened) {env : OpenEnv} {type : ChannelType} {name : CString}
    {speed isServer : Int} {c : Ptr} (hnew : latestOpen opened (some name) = none)
    (hknown : channelTypeKnown type) (hfresh : s.objects.cells c = none)
    (hrun : channelRegister dense itemAlloc
      { s with objects := s.objects.set c (newChannel env type name speed isServer) } c
      (newChannel env type name speed isServer) = some s') :
    ChannelRepr s'
      (⟨c, { id := opened.length + 1, speed, device := some name, isServer, type,
             data := env.data }⟩ :: opened) := by
  simp only [channelRegister, Option.bind_eq_bind, Option.bind_eq_some_iff] at hrun
  obtain ⟨openChannels, hcounter, key, hkey, ⟨channels, hash⟩, hinsert, hrun⟩ := hrun
  obtain rfl := Option.some.inj hrun
  -- a key that can be read is the copy of the device name
  have hcopy : (newChannel env type name speed isServer).device = some name ∧ key = name := by
    simp only [newChannel] at hkey ⊢
    split at hkey
    · exact ⟨by rw [if_pos ‹_›], (Option.some.inj hkey).symm⟩
    · cases hkey
  obtain ⟨hdevice, rfl⟩ := hcopy
  have hchan : { newChannel env type key speed isServer with id := openChannels } =
      ({ id := openChannels, speed, device := some key, isServer, type,
         data := env.data } : Channel) := by
    rw [← hdevice]
    rfl
  rw [h.counter] at hcounter
  obtain ⟨hid, _, hrange⟩ := of_cInt hcounter
  obtain ⟨channels', hinsert', hmap, _⟩ := hashMapInsert_spec dense itemAlloc h.map_repr key (some c)
  obtain ⟨rfl, _⟩ := Prod.mk.inj (Option.some.inj (hinsert.symm.trans hinsert'))
  refine h.cons rfl hnew hknown hfresh hmap hid hrange ?_
  rw [← hid, ← hchan]
  exact Function.update_idem ..

/-- What `channel_open` can do: it fails a check, or `setup` fails, and nothing changes;
    or it passes and registers the object. -/
theorem channelOpen_cases {dense : DensityTest} {itemAlloc : Allocator (HashMapItem Ptr)}
    {alloc : Allocator Channel} (h : ChannelRepr s opened) {env : OpenEnv} {type : ChannelType}
    {device : Option CString} {speed isServer : Int} {out : ChannelOut}
    (hrun : channelOpen dense itemAlloc alloc s env type device speed isServer = some (s', out)) :
    (¬ OpenPasses opened env type device ∧ out.rc ≠ .none ∧ Unchanged s s' ∧
      (device ≠ none → channelTypeKnown type →
        (out.rc = .alreadyOpen ↔ (latestOpen opened device).isSome))) ∨
    ∃ name setup c flushed, OpenPasses opened env type device ∧ device = some name ∧
      latestOpen opened device = none ∧ channelTypeKnown type ∧ s.objects.cells c = none ∧
      channelRegister dense itemAlloc
        { s with objects := s.objects.set c (newChannel env type name speed isServer) } c
        (newChannel env type name speed isServer) = some s' ∧
      out = ⟨.none, .empty, .setup setup c :: flushed⟩ := by
  unfold channelOpen at hrun
  split at hrun
  · rename_i hknown
    obtain ⟨rfl, rfl⟩ := Prod.mk.inj (Option.some.inj hrun)
    exact .inl ⟨fun hp => hknown hp.1, by decide, ⟨rfl, rfl⟩, fun _ hk => absurd hk hknown⟩
  rename_i hknown
  rw [not_not] at hknown
  cases device with
  | none =>
    obtain ⟨rfl, rfl⟩ := Prod.mk.inj (Option.some.inj hrun)
    exact .inl ⟨fun hp => hp.2.1 rfl, by decide, ⟨rfl, rfl⟩, fun hne => absurd rfl hne⟩
  | some name =>
    -- the map knows whether the device is open
    have hget := h.hashMapGet_eq name
    simp only [hget, Option.bind_eq_bind, Option.bind_some] at hrun
    cases ho : latestOpen opened (some name) with
    | some o =>
      rw [ho] at hrun hget
      rw [if_pos (by simp)] at hrun
      obtain ⟨rfl, rfl⟩ := Prod.mk.inj (Option.some.inj hrun)
      refine .inl ⟨fun hp => ?_, by decide, ⟨rfl, rfl⟩, fun _ _ => by simp [ChannelOut.error]⟩
      cases ho.symm.trans hp.2.2.1
    | none =>
      rw [ho] at hrun hget
      rw [if_neg (by simp)] at hrun
      split at hrun
      · rename_i hcalloc
        obtain ⟨rfl, rfl⟩ := Prod.mk.inj (Option.some.inj hrun)
        exact .inl ⟨fun hp => hcalloc hp.2.2.2.1, by decide, ⟨rfl, rfl⟩,
          fun _ _ => by simp [ChannelOut.error]⟩
      rename_i hcalloc
      rw [not_not] at hcalloc
      simp only [Option.bind_eq_some_iff] at hrun
      obtain ⟨ops, hops, setup, hsetup, hrun⟩ := hrun
      split at hrun
      · -- the object is released again
        rename_i hfails
        obtain ⟨rfl, rfl⟩ := Prod.mk.inj (Option.some.inj hrun)
        exact .inl ⟨fun hp => hfails hp.2.2.2.2, (fun hrc => by cases hrc),
          ⟨rfl, Heap.cells_free_set (alloc.malloc_fresh s.objects) _⟩, fun _ _ => by simp⟩
      · rename_i hpasses
        rw [not_not] at hpasses
        simp only [Option.bind_eq_some_iff] at hrun
        obtain ⟨s₁, hregister, hrun⟩ := hrun
        obtain ⟨rfl, rfl⟩ := Prod.mk.inj (Option.some.inj hrun)
        exact .inr ⟨name, setup, alloc.malloc s.objects, _,
          ⟨hknown, Option.some_ne_none name, ho, hcalloc, hpasses⟩, rfl, rfl, hknown,
          alloc.malloc_fresh s.objects, hregister, rfl⟩

/-- An open that returns an error records nothing. -/
theorem recordCall_of_error {call : ChannelCall} {out : ChannelOut} (h : out.rc ≠ .none) :
    recordCall opened (call, out) = opened := by
  unfold recordCall
  split
  · rename_i heq
    obtain ⟨rfl, rfl⟩ := Prod.mk.inj heq
    exact absurd rfl h
  · rename_i heq
    obtain ⟨rfl, rfl⟩ := Prod.mk.inj heq
    exact absurd rfl h
  · rfl

/-- `channel_open` registers a channel, or says why it does not and changes nothing. -/
theorem channelOpen_spec {dense : DensityTest} {itemAlloc : Allocator (HashMapItem Ptr)}
    {alloc : Allocator Channel} (h : ChannelRepr s opened) {env : OpenEnv} {type : ChannelType}
    {device : Option CString} {speed isServer : Int} {out : ChannelOut}
    (hrun : channelOpen dense itemAlloc alloc s env type device speed isServer = some (s', out)) :
    ChannelRepr s' (recordCall opened (.opening env type device speed isServer, out)) ∧
      CallCorrect opened s s' out (.opening env type device speed isServer) := by
  obtain ⟨_, herror, hsame, halready⟩ | ⟨name, setup, c, flushed, _, rfl, hnew, hknown, hfresh,
    hregister, rfl⟩ := channelOpen_cases h hrun
  · rw [recordCall_of_error herror]
    exact ⟨h.of_unchanged hsame, halready, fun _ => hsame⟩
  · exact ⟨channelRegister_spec h hnew hknown hfresh hregister, by simp [CallCorrect, hnew]⟩

/-- Every call keeps the relation to the open channels of the history and acts as they
    say. -/
theorem channelStep_spec {dense : DensityTest} {itemAlloc : Allocator (HashMapItem Ptr)}
    {alloc : Allocator Channel} (h : ChannelRepr s opened) {call : ChannelCall} {out : ChannelOut}
    (hrun : channelStep dense itemAlloc alloc s call = some (s', out)) :
    ChannelRepr s' (recordCall opened (call, out)) ∧ CallCorrect opened s s' out call := by
  cases call with
  | opening env type device speed isServer => exact channelOpen_spec h hrun
  | get device args =>
    simp only [channelStep, Option.map_eq_some_iff, Prod.mk.injEq] at hrun
    obtain ⟨out, hget, rfl, rfl⟩ := hrun
    exact ⟨h, channelGet_spec h hget⟩
  | close device => exact channelClose_spec h hrun

/-- `channel_open` does not fault when `strdup` succeeds and the counter has room. -/
theorem isSome_channelOpen (dense : DensityTest) (itemAlloc : Allocator (HashMapItem Ptr))
    (alloc : Allocator Channel) (h : ChannelRepr s opened) {env : OpenEnv}
    (hstrdup : env.strdup = true) (hroom : (opened.length : Int) < intMax) (type : ChannelType)
    (device : Option CString) (speed isServer : Int) :
    (channelOpen dense itemAlloc alloc s env type device speed isServer).isSome := by
  unfold channelOpen
  split
  · rfl
  rename_i hknown
  rw [not_not] at hknown
  cases device with
  | none => rfl
  | some name =>
    simp only [h.hashMapGet_eq, Option.bind_eq_bind, Option.bind_some]
    split
    · rfl
    split
    · rfl
    obtain ⟨fns, setup, _, hops⟩ := channelOps_of_known hknown
    simp only [hops, Option.bind_some]
    split
    · rfl
    -- the only two accesses left that could fault: the counter and the copied name
    have hcounter : cInt (s.ctx.openChannels + 1) = some (s.ctx.openChannels + 1) := by
      rw [h.counter]
      apply cInt_eq_some
      · simp only [intMax]
        omega
      · omega
    have hkey : (newChannel env type name speed isServer).device = some name := if_pos hstrdup
    obtain ⟨channels, hinsert, _⟩ := hashMapInsert_spec dense itemAlloc h.map_repr name
      (some (alloc.malloc s.objects))
    simp only [channelRegister, hcounter, hkey, hinsert, Option.bind_eq_bind, Option.bind_some]
    rfl

/-- `channel_close` of a device does not fault. -/
theorem isSome_channelClose (h : ChannelRepr s opened) (name : CString) :
    (channelClose s (some name)).isSome := by
  cases ho : latestOpen opened (some name) with
  | none =>
    simp only [channelClose, h.hashMapGet_eq, ho, Option.bind_eq_bind, Option.bind_some]
    rfl
  | some o =>
    obtain ⟨_, _, _, _, _, _, _, _, hclose⟩ := channelClose_open h ho
    rw [hclose]
    rfl

/-- `channel_get` of a device does not fault. -/
theorem isSome_channelGet (h : ChannelRepr s opened) (name : CString) (args : GetArgs) :
    (channelGet s (some name) args).isSome := by
  simp only [channelGet, h.hashMapGet_eq, Option.bind_eq_bind, Option.bind_some]
  cases ho : latestOpen opened (some name) with
  | none => rfl
  | some o =>
    obtain ⟨hmem, _⟩ := mem_of_latestOpen ho
    obtain ⟨_, _, hview⟩ := channelView_eq args (h.known o hmem)
    simp only [Option.map_some, h.live o hmem, hview, Option.bind_some]
    rfl

/-- The calls that `CallDefined` describes do not fault. -/
theorem isSome_channelStep (dense : DensityTest) (itemAlloc : Allocator (HashMapItem Ptr))
    (alloc : Allocator Channel) (h : ChannelRepr s opened) {call : ChannelCall}
    (hcall : CallDefined opened call) : (channelStep dense itemAlloc alloc s call).isSome := by
  cases call with
  | opening env type device speed isServer =>
    exact isSome_channelOpen dense itemAlloc alloc h hcall.1 hcall.2 type device speed isServer
  | get device args =>
    obtain ⟨name, rfl⟩ := Option.ne_none_iff_exists'.mp hcall
    rw [channelStep, Option.isSome_map]
    exact isSome_channelGet h name args
  | close device =>
    obtain ⟨name, rfl⟩ := Option.ne_none_iff_exists'.mp hcall
    exact isSome_channelClose h name

end Step

/-! ## Runs -/

section Runs

variable (dense : DensityTest) (itemAlloc : Allocator (HashMapItem Ptr))
  (alloc : Allocator Channel)

/-- A fresh manager has no open channel. -/
theorem channelManagerInit_repr : ChannelRepr channelManagerInit [] := by
  refine ⟨hashMapInit_repr, rfl, by decide, ?_, ?_, ⟨[], rfl, List.nodup_nil⟩⟩
  · exact fun _ ho => absurd ho List.not_mem_nil
  · exact fun _ ho => absurd ho List.not_mem_nil

/-- After every run from `channel_manager_init` the counter, the item count and the
    entries of the map are the devices opened and not yet closed, and every call does
    what the channels opened and not yet closed say. -/
theorem channel_manager_correct (calls : List ChannelCall) (s : ChannelState)
    (outs : List ChannelOut)
    (hrun : runOut (channelStep dense itemAlloc alloc) channelManagerInit calls =
      some (s, outs)) :
    let opened := openedBy (calls.zip outs)
    (opened.map fun o => o.channel.device).Nodup ∧
    s.ctx.openChannels = opened.length ∧ s.ctx.channels.map.count = opened.length ∧
    hashMapCount s.ctx.channels = some opened.length ∧
    (∀ call s' out, channelStep dense itemAlloc alloc s call = some (s', out) →
      CallCorrect opened s s' out call) ∧
    ∀ call, CallDefined opened call → (channelStep dense itemAlloc alloc s call).isSome := by
  intro opened
  have hstep : ∀ s opened call s' out, ChannelRepr s opened →
      channelStep dense itemAlloc alloc s call = some (s', out) →
      ChannelRepr s' (recordCall opened (call, out)) :=
    fun _ _ _ _ _ h hcall => (channelStep_spec h hcall).1
  have hrepr : ChannelRepr s opened := inv_of_runOut hstep channelManagerInit_repr hrun
  obtain ⟨hentries, hcount⟩ := hrepr.count_eq
  refine ⟨hrepr.nodup_devices, hrepr.counter, hcount, hentries, ?_, ?_⟩
  · exact fun call s' out hcall => (channelStep_spec hrepr hcall).2
  · exact fun call hcall => isSome_channelStep dense itemAlloc alloc hrepr hcall

end Runs

/-- A run that opens two devices, is refused a third time, closes the first and opens it
    again. -/
def channelProgram (a b : CString) : List ChannelCall :=
  let env : OpenEnv := ⟨true, true, 0, some 7⟩
  [.opening env .uart (some a) 9600 0, .opening env .fifo (some b) 0 1,
   .opening env .fifo (some b) 0 1, .close (some a), .get (some a) ⟨true, true, true, true, true⟩,
   .opening env .msgq (some a) 0 0]

/-- The run, after which `channel_get` hands out the channel of the second device. -/
theorem channel_manager_correct_two :
    ∃ s outs, runOut (channelStep mapDensityExceeds (Allocator.bump _) (Allocator.bump _))
      channelManagerInit (channelProgram ⟨[97], by decide⟩ ⟨[98], by decide⟩) = some (s, outs) ∧
      outs.map ChannelOut.rc = [.none, .none, .alreadyOpen, .none, .notOpen, .none] ∧
      s.ctx.openChannels = 2 ∧ hashMapCount s.ctx.channels = some 2 ∧
      channelStep mapDensityExceeds (Allocator.bump _) (Allocator.bump _) s
          (.get (some ⟨[98], by decide⟩) ⟨true, true, true, true, false⟩) =
        some (s, ⟨.none,
          ⟨some 2, some (some 7), some (some .fifoSend), some (some .fifoRecv), none⟩, []⟩) := by
  obtain ⟨s, outs, hrun, hrc, hlen, o, hopen, ho⟩ : ∃ s outs,
      runOut (channelStep mapDensityExceeds (Allocator.bump _) (Allocator.bump _))
        channelManagerInit (channelProgram ⟨[97], by decide⟩ ⟨[98], by decide⟩) =
          some (s, outs) ∧
      outs.map ChannelOut.rc = [.none, .none, .alreadyOpen, .none, .notOpen, .none] ∧
      let opened := openedBy ((channelProgram ⟨[97], by decide⟩ ⟨[98], by decide⟩).zip outs)
      opened.length = 2 ∧ ∃ o, latestOpen opened (some ⟨[98], by decide⟩) = some o ∧
        o.channel = ⟨2, 0, some ⟨[98], by decide⟩, 1, .fifo, some 7⟩ :=
    ⟨_, _, rfl, rfl, rfl, _, rfl, rfl⟩
  obtain ⟨_, hcounter, _, hcount, hcall, hdefined⟩ :=
    channel_manager_correct _ _ _ _ s outs hrun
  rw [hlen] at hcounter hcount
  -- the call does not fault, and does what the theorem says of the open channel
  have hsome := hdefined (.get (some ⟨[98], by decide⟩) ⟨true, true, true, true, false⟩)
    (Option.some_ne_none _)
  obtain ⟨⟨s', out⟩, hget⟩ := Option.isSome_iff_exists.mp hsome
  obtain ⟨_, hview, _, rfl⟩ := hcall _ _ _ hget
  obtain ⟨fns, hfns, rfl⟩ := hview o hopen
  rw [ho] at hfns hget
  obtain rfl := Option.some.inj hfns
  exact ⟨s', outs, hrun, hrc, hcounter, hcount, hget⟩

/-! ## Ids -/

/-- The id that `channel_get` reports for a device. -/
def reportedId (s : ChannelState) (device : Option CString) : Option Int :=
  (channelGet s device ⟨true, false, false, false, false⟩).bind fun out => out.view.id

/-- No two open channels have the same id. -/
def DistinctIds (s : ChannelState) : Prop :=
  ∀ device device' id, reportedId s device = some id → reportedId s device' = some id →
    device = device'

/-- The devices that are open after one more call.  An open succeeds for a device that is
    not open if its type is valid, there is memory for it, and its `setup` succeeds. -/
def nowOpen (devices : List CString) : ChannelCall → List CString
  | .opening env type (some device) _ _ =>
    if channelTypeKnown type ∧ device ∉ devices ∧ env.calloc = true ∧ env.setup = 0 then
      device :: devices
    else devices
  | .close (some device) => devices.erase device
  | _ => devices

/-- The devices that a sequence of calls leaves open, latest first. -/
def openDevices (calls : List ChannelCall) : List CString := calls.foldl nowOpen []

/-- After `calls`, the call opens a channel for the device. -/
def Opens (calls : List ChannelCall) (call : ChannelCall) (device : CString) : Prop :=
  openDevices (calls ++ [call]) = device :: openDevices calls

/-- The open channel of the device was opened when `n` channels were open, and it has not
    been closed since. -/
def OpenSince (calls : List ChannelCall) (device : CString) (n : Nat) : Prop :=
  ∃ before call after, calls = before ++ call :: after ∧ Opens before call device ∧
    (openDevices before).length = n ∧ ∀ c ∈ after, c ≠ .close (some device)

/-- No channel is opened while one is still open that was opened when as many channels were
    open as now. -/
def OpensAtNewCounts (calls : List ChannelCall) : Prop :=
  ∀ pre call, pre ++ [call] <+: calls → ∀ device, Opens pre call device →
    ∀ other, ¬ OpenSince pre other (openDevices pre).length

/-- Perform a call, without its result. -/
def channelNext (dense : DensityTest) (itemAlloc : Allocator (HashMapItem Ptr))
    (alloc : Allocator Channel) (s : ChannelState) (call : ChannelCall) : Option ChannelState :=
  (channelStep dense itemAlloc alloc s call).map Prod.fst

section Ids

variable {s s' : ChannelState} {opened : List OpenChannel} {calls : List ChannelCall}
  {call : ChannelCall} {device : CString}

theorem openDevices_concat (calls : List ChannelCall) (call : ChannelCall) :
    openDevices (calls ++ [call]) = nowOpen (openDevices calls) call := by
  rw [openDevices, List.foldl_append, List.foldl_cons, List.foldl_nil]
  rfl

/-- A call that leaves as few devices open as before opens none. -/
theorem not_opens_of_length
    (h : (openDevices (calls ++ [call])).length ≤ (openDevices calls).length) :
    ¬ Opens calls call device := by
  intro hopens
  rw [hopens, List.length_cons] at h
  omega

/-- The counts after one more call. -/
theorem openSince_concat (calls : List ChannelCall) (call : ChannelCall) {n : Nat} :
    OpenSince (calls ++ [call]) device n ↔
      OpenSince calls device n ∧ call ≠ .close (some device) ∨
        Opens calls call device ∧ (openDevices calls).length = n := by
  constructor
  · rintro ⟨before, c, after, hsplit, hopens, hn, hafter⟩
    -- the call is the one that opened the channel, or came later
    rcases List.eq_nil_or_concat' after with rfl | ⟨rest, last, rfl⟩
    · obtain ⟨rfl, hc⟩ := List.append_inj' hsplit rfl
      obtain rfl := List.singleton_inj.mp hc
      exact .inr ⟨hopens, hn⟩
    · rw [← List.cons_append, ← List.append_assoc] at hsplit
      obtain ⟨rfl, hc⟩ := List.append_inj' hsplit rfl
      obtain rfl := List.singleton_inj.mp hc
      refine .inl ⟨⟨before, c, rest, rfl, hopens, hn, ?_⟩, hafter call (by simp)⟩
      exact fun c' hc' => hafter c' (List.mem_append_left _ hc')
  · rintro (⟨⟨before, c, after, rfl, hopens, hn, hafter⟩, hcall⟩ | ⟨hopens, hn⟩)
    · refine ⟨before, c, after ++ [call], by simp, hopens, hn, ?_⟩
      intro c' hc'
      rcases List.mem_append.mp hc' with hc' | hc'
      · exact hafter c' hc'
      · rw [List.mem_singleton.mp hc']
        exact hcall
    · exact ⟨calls, call, [], rfl, hopens, hn, fun _ hc => absurd hc List.not_mem_nil⟩

/-- The open channels are those that the calls leave open, and each has for its id the
    number that was reached when it was opened. -/
structure OpenHistory (calls : List ChannelCall) (opened : List OpenChannel) : Prop where
  devices : (opened.map fun o => o.channel.device) = (openDevices calls).map some
  ids : ∀ device id, (latestOpen opened (some device)).map (fun o => o.channel.id) = some id ↔
    ∃ n : Nat, OpenSince calls device n ∧ id = n + 1

theorem openHistory_nil : OpenHistory [] [] where
  devices := rfl
  ids device id := by
    refine iff_of_false (fun h => by cases h) ?_
    rintro ⟨_, ⟨before, _, _, hsplit, _⟩, _⟩
    exact absurd hsplit.symm (List.append_ne_nil_of_right_ne_nil before (List.cons_ne_nil _ _))

theorem OpenHistory.mem_iff (h : OpenHistory calls opened) :
    device ∈ openDevices calls ↔ (latestOpen opened (some device)).isSome := by
  rw [isSome_latestOpen_iff, h.devices]
  simp

theorem OpenHistory.length_eq (h : OpenHistory calls opened) :
    (openDevices calls).length = opened.length := by
  simpa only [List.length_map] using (congrArg List.length h.devices).symm

/-- A call that opens nothing and closes nothing. -/
theorem OpenHistory.same (h : OpenHistory calls opened)
    (hdevices : openDevices (calls ++ [call]) = openDevices calls)
    (hclose : ∀ device, call = .close (some device) → latestOpen opened (some device) = none) :
    OpenHistory (calls ++ [call]) opened where
  devices := by rw [hdevices, h.devices]
  ids device id := by
    have hnot : ¬ Opens calls call device :=
      not_opens_of_length (Nat.le_of_eq (congrArg List.length hdevices))
    simp only [h.ids, openSince_concat, hnot, false_and, or_false]
    refine exists_congr fun n => and_congr_left fun hid => ⟨fun hsince => ⟨hsince, ?_⟩, And.left⟩
    -- a channel that is open is not closed by the call
    intro heq
    have hopen := (h.ids device id).mpr ⟨n, hsince, hid⟩
    rw [hclose device heq] at hopen
    cases hopen

/-- A call that opens a channel with the next id. -/
theorem OpenHistory.cons (h : OpenHistory calls opened) {o : OpenChannel}
    (hopens : Opens calls call device) (hdevice : o.channel.device = some device)
    (hid : o.channel.id = opened.length + 1) (hnew : latestOpen opened (some device) = none)
    (hcall : ∀ device, call ≠ .close (some device)) :
    OpenHistory (calls ++ [call]) (o :: opened) where
  devices := by rw [hopens, List.map_cons, List.map_cons, hdevice, h.devices]
  ids device' id := by
    rw [latestOpen, List.find?_key_cons, hdevice]
    by_cases heq : device = device'
    · subst heq
      have hnone : ∀ n : Nat, ¬ OpenSince calls device n := by
        intro n hsince
        have hopen := (h.ids device (n + 1)).mpr ⟨n, hsince, rfl⟩
        rw [hnew] at hopen
        cases hopen
      simp [openSince_concat, hnone, hopens, h.length_eq, hid, eq_comm]
    · have hother : ¬ Opens calls call device' := by
        intro hopens'
        exact heq (List.cons.inj (hopens.symm.trans hopens')).1
      rw [if_neg fun hsome => heq (Option.some.inj hsome), ← latestOpen, h.ids]
      simp only [openSince_concat, hother, hcall, ne_eq, not_false_eq_true, and_true, false_and,
        or_false]

/-- A call that closes the channel of a device. -/
theorem OpenHistory.erase (h : OpenHistory calls opened) (hnodup : (openDevices calls).Nodup) :
    OpenHistory (calls ++ [.close (some device)])
      (opened.eraseP fun o => decide (o.channel.device = some device)) where
  devices := by
    have herase := congrArg (List.eraseP fun name => decide (name = some device)) h.devices
    rw [List.eraseP_map, List.eraseP_map] at herase
    rw [openDevices_concat, nowOpen, List.erase_eq_eraseP']
    refine Eq.trans ?_ (herase.trans ?_)
    · rfl
    · congr 2
      funext name
      simp [beq_eq_decide]
  ids device' id := by
    have hdevices : (opened.map fun o => o.channel.device).Nodup := by
      rw [h.devices]
      exact hnodup.map fun _ _ => Option.some.inj
    have hnot : ¬ Opens calls (.close (some device)) device' := by
      refine not_opens_of_length ?_
      rw [openDevices_concat]
      exact List.length_erase_le
    rw [latestOpen, List.find?_key_eraseP hdevices]
    by_cases heq : device' = device
    · subst heq
      simp [openSince_concat, hnot]
    · rw [if_neg fun hsome => heq (Option.some.inj hsome), ← latestOpen, h.ids]
      simp [openSince_concat, hnot, Ne.symm heq]

/-- An open that passes its checks opens the device. -/
theorem OpenHistory.opens_of_passes (h : OpenHistory calls opened) {env : OpenEnv}
    {type : ChannelType} (hp : OpenPasses opened env type (some device)) (speed isServer : Int) :
    Opens calls (.opening env type (some device) speed isServer) device := by
  obtain ⟨hknown, _, hnew, hcalloc, hsetup⟩ := hp
  have hmem : device ∉ openDevices calls := by
    rw [h.mem_iff, hnew]
    exact Bool.false_ne_true
  rw [Opens, openDevices_concat, nowOpen, if_pos ⟨hknown, hmem, hcalloc, hsetup⟩]

/-- An open that fails a check leaves the open devices. -/
theorem OpenHistory.of_not_passes (h : OpenHistory calls opened) {env : OpenEnv}
    {type : ChannelType} {name : Option CString} (hp : ¬ OpenPasses opened env type name)
    (speed isServer : Int) :
    openDevices (calls ++ [.opening env type name speed isServer]) = openDevices calls := by
  rw [openDevices_concat]
  cases name with
  | none => rfl
  | some device =>
    refine if_neg fun ⟨hknown, hmem, hcalloc, hsetup⟩ => hp ?_
    rw [h.mem_iff, Option.not_isSome_iff_eq_none] at hmem
    exact ⟨hknown, Option.some_ne_none device, hmem, hcalloc, hsetup⟩

/-- Every call of the manager keeps the history. -/
theorem OpenHistory.step {dense : DensityTest} {itemAlloc : Allocator (HashMapItem Ptr)}
    {alloc : Allocator Channel} (h : OpenHistory calls opened) (hrepr : ChannelRepr s opened)
    {out : ChannelOut} (hrun : channelStep dense itemAlloc alloc s call = some (s', out)) :
    OpenHistory (calls ++ [call]) (recordCall opened (call, out)) := by
  cases call with
  | opening env type name speed isServer =>
    obtain ⟨hfails, herror, _⟩ | ⟨device, setup, c, flushed, hpasses, rfl, hnew, _, _, _, rfl⟩ :=
      channelOpen_cases hrepr hrun
    · rw [recordCall_of_error herror]
      exact h.same (h.of_not_passes hfails speed isServer) fun _ heq => by cases heq
    · exact h.cons (h.opens_of_passes hpasses speed isServer) rfl rfl hnew fun _ heq => by cases heq
  | get name args =>
    exact h.same (openDevices_concat calls _) fun _ heq => by cases heq
  | close name =>
    cases ho : latestOpen opened name with
    | none =>
      -- no channel is open on the device
      obtain ⟨_, hrc, _⟩ := channelClose_spec hrepr hrun
      rw [recordCall_of_error (fun heq => by simpa [ho] using hrc.mp heq)]
      refine h.same ?_ fun device heq => ?_
      · rw [openDevices_concat]
        cases name with
        | none => rfl
        | some device =>
          refine List.erase_of_not_mem ?_
          rw [h.mem_iff, ho]
          exact Bool.false_ne_true
      · obtain rfl := ChannelCall.close.inj heq
        exact ho
    | some o =>
      cases name with
      | none =>
        rw [hrepr.latestOpen_null] at ho
        cases ho
      | some device =>
        obtain ⟨_, _, _, _, _, _, _, _, hclose⟩ := channelClose_open hrepr ho
        obtain ⟨rfl, rfl⟩ := Prod.mk.inj (Option.some.inj (hrun.symm.trans hclose))
        have hnodup : (openDevices calls).Nodup := by
          have hdevices := hrepr.nodup_devices
          rw [h.devices] at hdevices
          exact hdevices.of_map
        exact h.erase hnodup

/-- The reported id is the id of the open channel. -/
theorem ChannelRepr.reportedId_eq (h : ChannelRepr s opened) (device : Option CString) :
    reportedId s device = (latestOpen opened device).map fun o => o.channel.id := by
  unfold reportedId
  cases hget : channelGet s device ⟨true, false, false, false, false⟩ with
  | none =>
    cases device with
    | none => rw [h.latestOpen_null, Option.bind_none, Option.map_none]
    | some name =>
      have hsome := isSome_channelGet h name ⟨true, false, false, false, false⟩
      rw [hget] at hsome
      cases hsome
  | some out =>
    obtain ⟨hrc, hview, herror, _⟩ := channelGet_spec h hget
    rw [Option.bind_some]
    cases ho : latestOpen opened device with
    | none =>
      rw [ho] at hrc
      rw [herror (fun heq => by cases hrc.mp heq)]
      rfl
    | some o =>
      obtain ⟨_, _, rfl⟩ := hview o ho
      rfl

/-- Distinct ids, in terms of the open channels. -/
theorem ChannelRepr.distinctIds_iff (h : ChannelRepr s opened) :
    DistinctIds s ↔ (opened.map fun o => o.channel.id).Nodup := by
  have hreported : ∀ o ∈ opened, reportedId s o.channel.device = some o.channel.id := by
    intro o ho
    have hself : latestOpen opened o.channel.device = some o :=
      List.find?_key_self h.nodup_devices ho
    rw [h.reportedId_eq, hself, Option.map_some]
  constructor
  · intro hd
    refine List.Nodup.map_on ?_ h.nodup_devices.of_map
    intro o ho o' ho' heq
    refine List.inj_on_of_nodup_map h.nodup_devices ho ho' ?_
    exact hd _ _ _ (hreported o ho) (heq ▸ hreported o' ho')
  · intro hn device device' id hid hid'
    rw [h.reportedId_eq, Option.map_eq_some_iff] at hid hid'
    obtain ⟨o, ho, rfl⟩ := hid
    obtain ⟨o', ho', heq⟩ := hid'
    obtain ⟨hmem, rfl⟩ := mem_of_latestOpen ho
    obtain ⟨hmem', rfl⟩ := mem_of_latestOpen ho'
    rw [List.inj_on_of_nodup_map hn hmem' hmem heq]

/-- An open channel has the next id exactly if it was opened when as many channels were open
    as now. -/
theorem OpenHistory.nextId_iff (h : OpenHistory calls opened) (hrepr : ChannelRepr s opened) :
    (opened.length : Int) + 1 ∈ opened.map (fun o => o.channel.id) ↔
      ∃ other, OpenSince calls other (openDevices calls).length := by
  rw [List.mem_map, h.length_eq]
  constructor
  · rintro ⟨o, ho, hid⟩
    obtain ⟨names, hnames, _⟩ := hrepr.named
    have hmem : o.channel.device ∈ names.map some := by
      rw [← hnames]
      exact List.mem_map.mpr ⟨o, ho, rfl⟩
    obtain ⟨name, _, hname⟩ := List.mem_map.mp hmem
    have hself : latestOpen opened (some name) = some o :=
      hname ▸ List.find?_key_self hrepr.nodup_devices ho
    obtain ⟨n, hsince, hn⟩ := (h.ids name _).mp (by rw [hself, Option.map_some, hid])
    obtain rfl : opened.length = n := by omega
    exact ⟨name, hsince⟩
  · rintro ⟨other, hsince⟩
    have hopen := (h.ids other _).mpr ⟨_, hsince, rfl⟩
    obtain ⟨o, ho, hid⟩ := Option.map_eq_some_iff.mp hopen
    exact ⟨o, (mem_of_latestOpen ho).1, hid⟩

/-- A call from distinct ids keeps them distinct exactly when it does not open a channel at
    a count at which an open channel was opened. -/
theorem OpenHistory.distinctIds_step {dense : DensityTest}
    {itemAlloc : Allocator (HashMapItem Ptr)} {alloc : Allocator Channel}
    (h : OpenHistory calls opened) (hrepr : ChannelRepr s opened) (hd : DistinctIds s)
    {out : ChannelOut} (hrun : channelStep dense itemAlloc alloc s call = some (s', out)) :
    DistinctIds s' ↔ ∀ device, Opens calls call device →
      ∀ other, ¬ OpenSince calls other (openDevices calls).length := by
  rw [hrepr.distinctIds_iff] at hd
  rw [(channelStep_spec hrepr hrun).1.distinctIds_iff]
  cases call with
  | opening env type name speed isServer =>
    obtain ⟨hfails, herror, _⟩ | ⟨device, setup, c, flushed, hpasses, rfl, hnew, _, _, _, rfl⟩ :=
      channelOpen_cases hrepr hrun
    · rw [recordCall_of_error herror]
      refine iff_of_true hd fun device hopens => absurd hopens (not_opens_of_length ?_)
      rw [h.of_not_passes hfails]
    · -- the new channel has the next id
      have hopens := h.opens_of_passes hpasses speed isServer
      simp only [recordCall, List.map_cons, List.nodup_cons, hd, and_true, h.nextId_iff hrepr,
        not_exists]
      exact ⟨fun hnone _ _ => hnone, fun hnone => hnone device hopens⟩
  | get name args =>
    refine iff_of_true hd fun device hopens => absurd hopens (not_opens_of_length ?_)
    rw [openDevices_concat]
    exact Nat.le_refl _
  | close name =>
    refine iff_of_true ?_ fun device hopens => absurd hopens (not_opens_of_length ?_)
    · by_cases hrc : out.rc = .none
      · obtain ⟨rc, view, backend⟩ := out
        obtain rfl := hrc
        exact hd.sublist (List.eraseP_sublist.map _)
      · rwa [recordCall_of_error hrc]
    · rw [openDevices_concat]
      cases name with
      | none => exact Nat.le_refl _
      | some device => exact List.length_erase_le

/-- In a run from `channel_manager_init`, the open channels have distinct ids in every
    state reached if and only if no channel is opened while one is still open that was
    opened when as many channels were open as now. -/
theorem channel_ids_distinct_iff (dense : DensityTest) (itemAlloc : Allocator (HashMapItem Ptr))
    (alloc : Allocator Channel) (calls : List ChannelCall) (s : ChannelState)
    (hrun : run (channelNext dense itemAlloc alloc) channelManagerInit calls = some s) :
    (∀ pre m, pre <+: calls →
      run (channelNext dense itemAlloc alloc) channelManagerInit pre = some m → DistinctIds m) ↔
    OpensAtNewCounts calls := by
  have hstep : ∀ pre s call s',
      run (channelNext dense itemAlloc alloc) channelManagerInit pre = some s →
      (∃ opened, ChannelRepr s opened ∧ OpenHistory pre opened) → DistinctIds s →
      channelNext dense itemAlloc alloc s call = some s' →
      (∃ opened, ChannelRepr s' opened ∧ OpenHistory (pre ++ [call]) opened) ∧
        (DistinctIds s' ↔ ∀ device, Opens pre call device →
          ∀ other, ¬ OpenSince pre other (openDevices pre).length) := by
    intro pre s call s' _ ⟨opened, hrepr, hhistory⟩ hd hnext
    obtain ⟨⟨s', out⟩, hcall, rfl⟩ := Option.map_eq_some_iff.mp hnext
    refine ⟨⟨_, (channelStep_spec hrepr hcall).1, hhistory.step hrepr hcall⟩, ?_⟩
    exact hhistory.distinctIds_step hrepr hd hcall
  refine forall_prefix_iff_history hstep ⟨[], channelManagerInit_repr, openHistory_nil⟩ ?_ hrun
  exact channelManagerInit_repr.distinctIds_iff.mpr List.nodup_nil

/-- Open `a` and `b`, close `a`, open `c`. -/
def collisionProgram (a b c : CString) : List ChannelCall :=
  let env : OpenEnv := ⟨true, true, 0, none⟩
  [.opening env .uart (some a) 9600 0, .opening env .uart (some b) 9600 0, .close (some a),
   .opening env .uart (some c) 9600 0]

/-- After it the counter has passed the number 2 twice. -/
private theorem collisionProgram_ids :
    ∃ s, run (channelNext mapDensityExceeds (Allocator.bump _) (Allocator.bump _))
      channelManagerInit (collisionProgram ⟨[97], by decide⟩ ⟨[98], by decide⟩ ⟨[99], by decide⟩) =
        some s ∧
      reportedId s (some ⟨[98], by decide⟩) = some 2 ∧
      reportedId s (some ⟨[99], by decide⟩) = some 2 :=
  ⟨_, rfl, rfl, rfl⟩

/-- Two channels that are open at the same time with the same id. -/
theorem channel_ids_collide :
    ∃ s, run (channelNext mapDensityExceeds (Allocator.bump _) (Allocator.bump _))
      channelManagerInit (collisionProgram ⟨[97], by decide⟩ ⟨[98], by decide⟩ ⟨[99], by decide⟩) =
        some s ∧ ¬ DistinctIds s := by
  obtain ⟨s, hrun, hb, hc⟩ := collisionProgram_ids
  refine ⟨s, hrun, fun hd => ?_⟩
  have heq := hd _ _ _ hb hc
  exact absurd heq (by decide)

/-- Open `a` and `b`, close `b`, open `c`. -/
def nestedProgram (a b c : CString) : List ChannelCall :=
  let env : OpenEnv := ⟨true, true, 0, none⟩
  [.opening env .uart (some a) 9600 0, .opening env .uart (some b) 9600 0, .close (some b),
   .opening env .uart (some c) 9600 0]

/-- There `c` is opened when only `a` is open, and `a` was opened when nothing was. -/
theorem nestedProgram_newCounts {a b c : CString} (hab : a ≠ b) :
    OpensAtNewCounts (nestedProgram a b c) := by
  have hnil : ∀ device n, ¬ OpenSince [] device n := by
    rintro device n ⟨before, _, _, hsplit, _⟩
    exact absurd hsplit.symm (List.append_ne_nil_of_right_ne_nil before (List.cons_ne_nil _ _))
  have hfirst : ∀ call device, ¬ OpenSince [call] device 1 := by
    intro call device hsince
    rcases (openSince_concat [] call).mp hsince with ⟨hsince, _⟩ | ⟨_, hlen⟩
    · exact hnil _ _ hsince
    · cases hlen
  have hba : b ∉ [a] := fun hmem => hab (List.mem_singleton.mp hmem).symm
  intro pre call hpre device hopens other hsince
  -- the four calls, with the calls before each
  rcases pre with _ | ⟨c₁, _ | ⟨c₂, _ | ⟨c₃, _ | ⟨c₄, rest⟩⟩⟩⟩
  · exact hnil _ _ hsince
  · simp only [nestedProgram, List.cons_append, List.cons_prefix_cons] at hpre
    obtain ⟨rfl, _⟩ := hpre
    exact hfirst _ _ hsince
  · simp only [nestedProgram, List.cons_append, List.nil_append, List.cons_prefix_cons] at hpre
    obtain ⟨_, _, rfl, _⟩ := hpre
    refine not_opens_of_length ?_ hopens
    rw [openDevices_concat]
    exact List.length_erase_le
  · simp only [nestedProgram, List.cons_append, List.cons_prefix_cons] at hpre
    obtain ⟨ha, hb, rfl, _⟩ := hpre
    -- one channel is open, and the second one has been closed
    have htwo : Opens [c₁] c₂ b := by
      rw [ha, hb]
      exact if_pos ⟨rfl, hba, rfl, rfl⟩
    have hone : openDevices [c₁, c₂, .close (some b)] = [a] :=
      calc openDevices [c₁, c₂, .close (some b)]
          = (openDevices [c₁, c₂]).erase b := openDevices_concat [c₁, c₂] (.close (some b))
        _ = (b :: openDevices [c₁]).erase b := congrArg (fun devices => devices.erase b) htwo
        _ = openDevices [c₁] := List.erase_cons_head ..
        _ = [a] := by rw [ha]; rfl
    rw [hone] at hsince
    rcases (openSince_concat [c₁, c₂] _).mp hsince with ⟨hsince, hclose⟩ | ⟨hopens, _⟩
    · rcases (openSince_concat [c₁] c₂).mp hsince with ⟨hsince, _⟩ | ⟨hopens, _⟩
      · exact hfirst _ _ hsince
      · obtain rfl := (List.cons.inj (hopens.symm.trans htwo)).1
        exact hclose rfl
    · refine not_opens_of_length ?_ hopens
      rw [openDevices_concat]
      exact List.length_erase_le
  · have hlen := hpre.length_le
    have hfour : (nestedProgram a b c).length = 4 := rfl
    rw [hfour, List.length_append] at hlen
    simp only [List.length_cons, List.length_nil] at hlen
    omega

theorem channel_ids_distinct_iff_collision :
    ¬ OpensAtNewCounts (collisionProgram ⟨[97], by decide⟩ ⟨[98], by decide⟩ ⟨[99], by decide⟩) ∧
    ∃ s, run (channelNext mapDensityExceeds (Allocator.bump _) (Allocator.bump _))
      channelManagerInit (nestedProgram ⟨[97], by decide⟩ ⟨[98], by decide⟩ ⟨[99], by decide⟩) =
        some s ∧
      reportedId s (some ⟨[97], by decide⟩) = some 1 ∧
      reportedId s (some ⟨[99], by decide⟩) = some 2 ∧ DistinctIds s := by
  constructor
  · obtain ⟨s, hrun, hb, hc⟩ := collisionProgram_ids
    intro hcounts
    have hd := (channel_ids_distinct_iff _ _ _ _ s hrun).mpr hcounts _ s (List.prefix_refl _) hrun
    exact absurd (hd _ _ _ hb hc) (by decide)
  · obtain ⟨s, hrun, ha, hc⟩ : ∃ s,
        run (channelNext mapDensityExceeds (Allocator.bump _) (Allocator.bump _))
          channelManagerInit (nestedProgram ⟨[97], by decide⟩ ⟨[98], by decide⟩ ⟨[99], by decide⟩) =
            some s ∧
        reportedId s (some ⟨[97], by decide⟩) = some 1 ∧
        reportedId s (some ⟨[99], by decide⟩) = some 2 := ⟨_, rfl, rfl, rfl⟩
    refine ⟨s, hrun, ha, hc, ?_⟩
    exact (channel_ids_distinct_iff _ _ _ _ s hrun).mpr (nestedProgram_newCounts (by decide)) _ s
      (List.prefix_refl _) hrun

end Ids

end CUtils
