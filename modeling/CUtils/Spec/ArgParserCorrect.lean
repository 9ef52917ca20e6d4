import CUtils.ForStd.List
import CUtils.Native.ArgParser

/-!
# Which command lines reach a command

The pass over the table looks at the required options only up to the command that it
starts, and takes a mark from before the call for an option that was seen.

- `apOptions_next`, `apOptions_of_accepts`: the loop over the delivered options marks the
  records that it finds.
- `dispatchCalls_iff`: the pass over the table.
- `apParse_required_seen_iff`: when no handler runs before all required options were seen.
-/

namespace CUtils

/-! ## Marked tables -/

namespace ApOption

variable (o : ApOption)

@[simp] theorem seen_markSeen : o.markSeen.seen = true := by
  have hflags : (o.flags ||| apOptSeen) &&& apOptSeen = apOptSeen := by
    apply UInt32.eq_of_toBitVec_eq
    ext i hi
    simp only [UInt32.toBitVec_and, UInt32.toBitVec_or, BitVec.getElem_and, BitVec.getElem_or]
    cases apOptSeen.toBitVec[i] <;> simp
  simp only [seen, markSeen, hflags]
  decide

@[simp] theorem required_markSeen : o.markSeen.required = o.required := by
  have hflags : (o.flags ||| apOptSeen) &&& apOptRequired = o.flags &&& apOptRequired := by
    apply UInt32.eq_of_toBitVec_eq
    rw [UInt32.toBitVec_and, UInt32.toBitVec_or, BitVec.and_or_distrib_right,
      ← UInt32.toBitVec_and, ← UInt32.toBitVec_and]
    have hzero : apOptSeen &&& apOptRequired = 0 := by decide
    rw [hzero]
    exact BitVec.or_zero
  simp only [required, markSeen, hflags]

@[simp] theorem markSeen_markSeen : o.markSeen.markSeen = o.markSeen := by
  have hflags : o.flags ||| apOptSeen ||| apOptSeen = o.flags ||| apOptSeen := by
    rw [UInt32.or_assoc, UInt32.or_self]
  simp only [markSeen, hflags]

end ApOption

/-- The table with the records at the indices `seen` marked. -/
def markAt (seen : List Nat) (table : List ApOption) : List ApOption :=
  table.mapIdx fun i o => if i ∈ seen then o.markSeen else o

theorem getElem?_markAt (seen : List Nat) (table : List ApOption) (i : Nat) :
    (markAt seen table)[i]? =
      table[i]?.map fun o => if i ∈ seen then o.markSeen else o := by
  rw [markAt, List.getElem?_mapIdx]

theorem markAt_nil (table : List ApOption) : markAt [] table = table := by
  apply List.ext_getElem?
  intro i
  simp [getElem?_markAt]

/-- Marks do not change which record a letter finds. -/
theorem apFind_take_markAt (seen : List Nat) (table : List ApOption) (n c : Nat) :
    apFind ((markAt seen table).take n) c = apFind (table.take n) c := by
  have hnames : (markAt seen table).map (·.shortName) = table.map (·.shortName) := by
    apply List.ext_getElem?
    intro i
    rw [List.getElem?_map, List.getElem?_map, getElem?_markAt]
    cases table[i]? with
    | none => rfl
    | some o =>
      simp only [Option.map_some]
      split <;> rfl
  have hfind : ∀ opts : List ApOption, apFind opts c =
      (opts.map (·.shortName)).findIdx fun x => (c : Int) = x.toInt := by
    intro opts
    rw [List.findIdx_map]
    rfl
  rw [hfind, hfind, List.map_take, List.map_take, hnames]

/-- Marking one more record. -/
theorem set_markAt (seen : List Nat) {table : List ApOption} {i : Nat} {o : ApOption}
    (ho : (markAt seen table)[i]? = some o) :
    (markAt seen table).set i o.markSeen = markAt (i :: seen) table := by
  obtain ⟨hi, _⟩ := List.getElem?_eq_some_iff.mp ho
  rw [getElem?_markAt] at ho
  obtain ⟨o₀, ho₀, hmark⟩ := Option.map_eq_some_iff.mp ho
  have hsame : o.markSeen = o₀.markSeen := by
    rw [← hmark]
    split
    · exact ApOption.markSeen_markSeen o₀
    · rfl
  apply List.ext_getElem?
  intro j
  by_cases hj : i = j
  · rw [← hj, List.getElem?_set_self hi, getElem?_markAt, ho₀, Option.map_some,
      if_pos List.mem_cons_self, hsame]
  · have hmem : j ∈ i :: seen ↔ j ∈ seen := by
      rw [List.mem_cons, or_iff_right (Ne.symm hj)]
    rw [List.getElem?_set_ne hj, getElem?_markAt, getElem?_markAt]
    simp only [hmem]

/-! ## The delivered options -/

/-- The letters that do not mark a record: `h`, `q`, `f` and `?`. -/
def IsBuiltin (c : Nat) : Prop := c = 104 ∨ c = 113 ∨ c = 102 ∨ c = 63

instance (c : Nat) : Decidable (IsBuiltin c) :=
  inferInstanceAs (Decidable (c = 104 ∨ c = 113 ∨ c = 102 ∨ c = 63))

/-- The program goes on after a delivered option: it is `q` or `f`, or it finds a record
    that stores its argument, and the validator of that record is content. -/
def AcceptsOption (table : List ApOption) (n : Nat) (data : ApData) (c : Nat)
    (optarg : Option CString) (data' : ApData) : Prop :=
  (c = 113 ∨ c = 102) ∧ data' = data ∨
    ¬IsBuiltin c ∧ ∃ o stored, table[apFind (table.take n) c]? = some o ∧
      apStore o optarg data = some (.next stored) ∧ apValidate o stored = (data', 0)

/-- The program goes on after each of the delivered options. -/
inductive AcceptsOptions (table : List ApOption) (n : Nat) :
    ApData → List (Nat × Option CString) → Prop
  | nil (data : ApData) : AcceptsOptions table n data []
  | cons {data data' : ApData} {c : Nat} {optarg : Option CString}
      {results : List (Nat × Option CString)} (h : AcceptsOption table n data c optarg data')
      (rest : AcceptsOptions table n data' results) :
      AcceptsOptions table n data ((c, optarg) :: results)

section Options

variable {table : List ApOption} {n : Nat} {seen : List Nat} {data : ApData} {fork : Bool}

/-- A mark changes neither what a record stores nor what it validates. -/
theorem apStore_mark (o : ApOption) (p : Prop) [Decidable p] (optarg : Option CString)
    (data : ApData) :
    apStore (if p then o.markSeen else o) optarg data = apStore o optarg data := by
  split <;> rfl

theorem apValidate_mark (o : ApOption) (p : Prop) [Decidable p] (data : ApData) :
    apValidate (if p then o.markSeen else o) data = apValidate o data := by
  split <;> rfl

/-- One delivered option. -/
theorem apOption_next_iff (c : Nat) (optarg : Option CString) (st : ApState) :
    apOption n ⟨markAt seen table, data, fork⟩ c optarg = some (.next st) ↔
      ∃ data', AcceptsOption table n data c optarg data' ∧
        st = ⟨markAt (if IsBuiltin c then seen else apFind (table.take n) c :: seen) table, data',
          fork || c = 102⟩ := by
  unfold apOption AcceptsOption
  simp only [apFind_take_markAt]
  by_cases hb : IsBuiltin c
  · -- help ends the program, `q` and `f` do not
    simp only [hb, not_true_eq_false, false_and, or_false, ↓reduceIte]
    rcases hb with rfl | rfl | rfl | rfl
    · simp
    · simp [eq_comm]
    · simp [eq_comm]
    · simp
  · -- any other letter looks a record up
    have hne : c ≠ 104 ∧ c ≠ 113 ∧ c ≠ 102 ∧ c ≠ 63 := by
      unfold IsBuiltin at hb
      omega
    obtain ⟨hh, hq, hf, hu⟩ := hne
    simp only [hb, hh, hq, hf, hu, or_self, false_and, false_or, not_false_eq_true, true_and,
      ↓reduceIte, decide_false, Bool.or_false, getElem?_markAt]
    cases ho : table[apFind (table.take n) c]? with
    | none => simp
    | some o =>
      have hset := set_markAt seen (o := if apFind (table.take n) c ∈ seen then o.markSeen else o)
        (by rw [getElem?_markAt, ho, Option.map_some])
      simp only [Option.map_some, Option.bind_eq_bind, Option.bind_some, apStore_mark,
        apValidate_mark, hset]
      cases hstore : apStore o optarg data with
      | none => simp [hstore]
      | some flow =>
        cases flow with
        | exit code msg => simp [hstore]
        | next stored =>
          -- the validator has the last word
          by_cases hret : (apValidate o stored).2 = 0
          · have hval : apValidate o stored = ((apValidate o stored).1, 0) := by rw [← hret]
            constructor
            · intro h
              simp only [Option.bind_some, hret, ne_eq, not_true_eq_false, ↓reduceIte,
                Option.pure_def, Option.some.injEq, ApFlow.next.injEq] at h
              exact ⟨_, ⟨o, stored, rfl, hstore, hval⟩, h.symm⟩
            · rintro ⟨data', ⟨o', stored', ho', hstore', hval'⟩, rfl⟩
              obtain rfl := Option.some.inj ho'
              obtain rfl : stored = stored' := by simpa [hstore] using hstore'
              simp [hval']
          · constructor
            · intro h
              simp [hret] at h
            · rintro ⟨data', ⟨o', stored', ho', hstore', hval'⟩, rfl⟩
              obtain rfl := Option.some.inj ho'
              obtain rfl : stored = stored' := by simpa [hstore] using hstore'
              exact absurd (congrArg Prod.snd hval') hret

/-- The loop marks the records that the delivered letters find, and remembers `f`. -/
theorem apOptions_next {results : List (Nat × Option CString)} {st : ApState}
    (h : apOptions n ⟨markAt seen table, data, fork⟩ results = some (.next st)) :
    AcceptsOptions table n data results ∧ ∃ seen', st.table = markAt seen' table ∧
      (st.doFork = true ↔ fork = true ∨ ∃ r ∈ results, r.1 = 102) ∧
      ∀ i, i ∈ seen' ↔ i ∈ seen ∨
        ∃ r ∈ results, ¬IsBuiltin r.1 ∧ apFind (table.take n) r.1 = i := by
  induction results generalizing seen data fork with
  | nil =>
    obtain rfl : _ = st := by simpa [apOptions] using h
    exact ⟨.nil data, seen, rfl, by simp, by simp⟩
  | cons r results ih =>
    obtain ⟨c, optarg⟩ := r
    cases hone : apOption n ⟨markAt seen table, data, fork⟩ c optarg with
    | none => simp [apOptions, hone] at h
    | some flow =>
      cases flow with
      | exit code msg => simp [apOptions, hone] at h
      | next st' =>
        have hrest : apOptions n st' results = some (.next st) := by
          simpa [apOptions, hone] using h
        -- the marks of the first option are there before the others
        obtain ⟨data', haccept, rfl⟩ := (apOption_next_iff c optarg st').mp hone
        obtain ⟨haccepts, seen', htable, hfork, hseen⟩ := ih hrest
        refine ⟨.cons haccept haccepts, seen', htable, ?_, ?_⟩
        · rw [hfork]
          simp [or_assoc]
        · intro i
          rw [hseen]
          by_cases hb : IsBuiltin c
          · simp [hb]
          · simp [hb, or_assoc, or_left_comm, eq_comm]

/-- Accepted options do not stop the loop. -/
theorem apOptions_of_accepts {results : List (Nat × Option CString)}
    (h : AcceptsOptions table n data results) :
    ∃ st, apOptions n ⟨markAt seen table, data, fork⟩ results = some (.next st) := by
  induction h generalizing seen fork with
  | nil data => exact ⟨_, rfl⟩
  | @cons data data' c optarg results haccept rest ih =>
    have hone : apOption n ⟨markAt seen table, data, fork⟩ c optarg = some (.next _) :=
      (apOption_next_iff c optarg _).mpr ⟨data', haccept, rfl⟩
    obtain ⟨st, hrun⟩ := ih
    exact ⟨st, by simpa [apOptions, hone] using hrun⟩

end Options

/-! ## The pass over the table -/

/-- The handler of a command was called. -/
def ApOutcome.CallsHandler : ApOutcome → Prop
  | .called .. => True
  | _ => False

/-- The pass goes on behind a record: a command with another name, or an option that is not
    required or was seen. -/
structure Passes (word : CString) (o : ApOption) : Prop where
  not_end : o.shortName ≠ 0
  option : o.shortName ≠ -1 → ¬(o.required ∧ ¬o.seen)
  command : o.shortName = -1 → ∃ name, o.longName = some name ∧ name ≠ word

/-- The pass calls the handler of a record. -/
structure Starts (call : ApCall) (st : ApState) (word : CString) (o : ApOption) : Prop where
  command : o.shortName = -1
  named : o.longName = some word
  handler : o.handler.isSome
  forked : st.doFork = true → call.forkPid = 0

section Dispatch

variable {call : ApCall} {st : ApState} {cmdLen : Nat} {word : CString}

theorem argvAt_eq_some_some_iff {argv : List CString} {i : Nat} :
    argvAt argv i = some (some word) ↔ argv[i]? = some word := by
  unfold argvAt
  constructor
  · intro h
    split at h
    · exact Option.some.inj h
    · cases h
  · intro h
    have hi := (List.getElem?_eq_some_iff.mp h).1
    rw [if_pos (Nat.le_of_lt hi), h]

/-- The handler is called by the process that runs the command. -/
theorem apCommand_calls_iff (i : Nat) (o : ApOption) :
    (∃ out, apCommand call st i o = some out ∧ out.CallsHandler) ↔
      o.handler.isSome ∧ (st.doFork = true → call.forkPid = 0) := by
  by_cases hfork : st.doFork = true ∧ call.forkPid ≠ 0
  · -- a failed `fork`, or the parent
    obtain ⟨out, hout, hnot⟩ : ∃ out, apCommand call st i o = some out ∧ ¬out.CallsHandler := by
      unfold apCommand
      split
      · exact ⟨_, rfl, id⟩
      · exact ⟨_, rfl, id⟩
    constructor
    · rintro ⟨out', hout', hcalls⟩
      obtain rfl := Option.some.inj (hout.symm.trans hout')
      exact absurd hcalls hnot
    · intro h
      exact absurd (h.2 hfork.1) hfork.2
  · have hzero : st.doFork = true → call.forkPid = 0 := by
      intro hdo
      by_contra hne
      exact hfork ⟨hdo, hne⟩
    have hneg : ¬(st.doFork = true ∧ call.forkPid < 0) := by
      intro h
      have hpid := hzero h.1
      omega
    rw [apCommand, if_neg hneg, if_neg hfork]
    cases hhandler : o.handler with
    | none => simp
    | some handler =>
      constructor
      · intro _
        exact ⟨rfl, hzero⟩
      · intro _
        exact ⟨_, rfl, trivial⟩

/-- The pass from a record on calls a handler. -/
def DispatchCalls (call : ApCall) (st : ApState) (cmdLen i : Nat) (table : List ApOption) : Prop :=
  ∃ out, apDispatch call st cmdLen i table = some out ∧ out.CallsHandler

/-- At the end of the table no handler is called. -/
theorem not_dispatchCalls_end (i : Nat) {o : ApOption} (table : List ApOption)
    (hend : o.shortName = 0) : ¬DispatchCalls call st cmdLen i (o :: table) := by
  rintro ⟨out, hout, hcalls⟩
  rw [apDispatch, if_pos hend] at hout
  split at hout
  · cases hword : argvAt call.argv call.optind with
    | none => simp [hword] at hout
    | some word =>
      obtain rfl : _ = out := by simpa [hword] using hout
      exact hcalls
  · obtain rfl := Option.some.inj hout
    exact hcalls

/-- An option must have been seen if it is required. -/
theorem dispatchCalls_option_iff (i : Nat) {o : ApOption} (table : List ApOption)
    (hend : o.shortName ≠ 0) (hcmd : o.shortName ≠ -1) :
    DispatchCalls call st cmdLen i (o :: table) ↔
      ¬(o.required ∧ ¬o.seen) ∧ DispatchCalls call st cmdLen (i + 1) table := by
  unfold DispatchCalls
  rw [apDispatch, if_neg hend, if_pos hcmd]
  split
  · rename_i hmissing
    constructor
    · rintro ⟨out, hout, hcalls⟩
      obtain rfl := Option.some.inj hout
      exact absurd hcalls id
    · intro h
      exact absurd hmissing h.1
  · rename_i hok
    rw [and_iff_right hok]

/-- A command is started if it has the right name, and passed over otherwise. -/
theorem dispatchCalls_command_iff (i : Nat) {o : ApOption} (table : List ApOption)
    (hcmd : o.shortName = -1) (hword : call.argv[call.optind]? = some word) :
    DispatchCalls call st cmdLen i (o :: table) ↔
      o.longName = some word ∧ o.handler.isSome ∧ (st.doFork = true → call.forkPid = 0) ∨
      (∃ name, o.longName = some name ∧ name ≠ word) ∧
        DispatchCalls call st cmdLen (i + 1) table := by
  have hend : o.shortName ≠ 0 := by
    rw [hcmd]
    decide
  unfold DispatchCalls
  rw [apDispatch, if_neg hend, if_neg (not_not_intro hcmd)]
  simp only [argvAt_eq_some_some_iff.mpr hword, Option.bind_eq_bind, Option.bind_some]
  cases hname : o.longName with
  | none => simp
  | some name =>
    have hcmp := strcmp_some_eq_zero_iff name word
    simp only [strcmp, Option.map_some, Option.some.injEq] at hcmp
    simp only [strcmp, Option.map_some, Option.bind_some, hcmp]
    by_cases hsame : name = word
    · rw [if_pos hsame, apCommand_calls_iff]
      simp [hsame]
    · rw [if_neg hsame]
      simp [hsame]

/-- Without a word on the command line no handler is called. -/
theorem not_dispatchCalls_of_none (hword : call.argv[call.optind]? = none) (i : Nat)
    (table : List ApOption) : ¬DispatchCalls call st cmdLen i table := by
  induction table generalizing i with
  | nil =>
    rintro ⟨out, hout, _⟩
    cases hout
  | cons o table ih =>
    by_cases hend : o.shortName = 0
    · exact not_dispatchCalls_end i table hend
    · by_cases hcmd : o.shortName = -1
      · rintro ⟨out, hout, hcalls⟩
        rw [apDispatch, if_neg hend, if_neg (not_not_intro hcmd), argvAt, hword] at hout
        split at hout
        · exact ih (i + 1) ⟨out, hout, hcalls⟩
        · cases hout
      · -- an option never calls a handler itself
        rw [dispatchCalls_option_iff i table hend hcmd]
        intro h
        exact ih (i + 1) h.2

/-- The pass calls a handler exactly if it starts a record and goes on behind every record
    in front of it. -/
theorem dispatchCalls_iff (hword : call.argv[call.optind]? = some word) (i : Nat)
    (table : List ApOption) :
    DispatchCalls call st cmdLen i table ↔ ∃ (k : Nat) (cmd : ApOption),
      table[k]? = some cmd ∧ Starts call st word cmd ∧
      ∀ j < k, ∀ o, table[j]? = some o → Passes word o := by
  induction table generalizing i with
  | nil => simp [DispatchCalls, apDispatch]
  | cons o table ih =>
    rw [List.exists_stop_cons_iff]
    by_cases hend : o.shortName = 0
    · rw [iff_false_intro (not_dispatchCalls_end i table hend), false_iff]
      -- the end of the table is not a command
      rintro (hstart | ⟨hpass, _⟩)
      · have hcmd := hstart.command
        rw [hend] at hcmd
        exact absurd hcmd (by decide)
      · exact hpass.not_end hend
    · by_cases hcmd : o.shortName = -1
      · rw [dispatchCalls_command_iff i table hcmd hword, ih]
        apply or_congr
        · constructor
          · rintro ⟨hname, hhandler, hfork⟩
            exact ⟨hcmd, hname, hhandler, hfork⟩
          · intro h
            exact ⟨h.named, h.handler, h.forked⟩
        · apply and_congr_left'
          constructor
          · intro hname
            exact ⟨hend, fun h => absurd hcmd h, fun _ => hname⟩
          · intro h
            exact h.command hcmd
      · rw [dispatchCalls_option_iff i table hend hcmd, ih, or_iff_right fun h => hcmd h.command]
        apply and_congr_left'
        constructor
        · intro hok
          exact ⟨hend, fun _ => hok, fun h => absurd h hcmd⟩
        · intro h
          exact h.option hcmd

end Dispatch

/-! ## Required options -/

/-- The records `opts` of a table end at the first one with the short name `'\0'`. -/
structure TableOpts (table opts : List ApOption) : Prop where
  take_eq : table.take opts.length = opts
  getElem?_eq : ∀ j < opts.length, table[j]? = opts[j]?
  last : ∃ o, table[opts.length]? = some o ∧ o.shortName = 0
  named : ∀ o ∈ opts, o.shortName ≠ 0

theorem tableOpts_of_apOpts {table opts : List ApOption} (h : apOpts table = some opts) :
    TableOpts table opts := by
  induction table generalizing opts with
  | nil => cases h
  | cons o table ih =>
    rw [apOpts] at h
    split at h
    · rename_i hend
      obtain rfl := Option.some.inj h
      exact ⟨rfl, fun j hj => absurd hj (Nat.not_lt_zero j), ⟨o, rfl, hend⟩, by simp⟩
    · rename_i hend
      obtain ⟨opts', hopts', rfl⟩ := Option.map_eq_some_iff.mp h
      have htail := ih hopts'
      constructor
      · rw [List.length_cons, List.take_succ_cons, htail.take_eq]
      · intro j hj
        cases j with
        | zero => rfl
        | succ j => exact htail.getElem?_eq j (Nat.lt_of_succ_lt_succ hj)
      · exact htail.last
      · rw [List.forall_mem_cons]
        exact ⟨hend, htail.named⟩

/-- An option was delivered on this command line. -/
def Delivered (call : ApCall) (o : ApOption) : Prop :=
  ∃ r ∈ call.results, (r.1 : Int) = o.shortName.toInt

/-- A handler is called only if every required option of the table was delivered. -/
def HandlerSafe (call : ApCall) : Prop :=
  ∀ out, apParse call = some out → out.CallsHandler →
    ∀ opts, apOpts call.table = some opts →
      ∀ o ∈ opts, o.shortName ≠ -1 → o.required → Delivered call o

/-- The command line reaches the command at the index `k` of a table: the option letters fit
    into their buffer, no delivered option ends the program, `argv[optind]` names that command
    and no earlier one, a fork makes a child, and every required option in front of the command
    carries the mark from before the call or is found by a delivered letter. -/
structure CommandReached (call : ApCall) (opts : List ApOption) (k : Nat) (cmd : ApOption) :
    Prop where
  opts_eq : apOpts call.table = some opts
  fits : (apOstr opts []).isSome
  accepts : AcceptsOptions call.table opts.length call.data call.results
  getElem?_eq : opts[k]? = some cmd
  command : cmd.shortName = -1
  handler : cmd.handler.isSome
  named : ∃ word, call.argv[call.optind]? = some word ∧ cmd.longName = some word ∧
    ∀ j < k, ∀ o, opts[j]? = some o → o.shortName = -1 →
      ∃ name, o.longName = some name ∧ name ≠ word
  forked : (∃ r ∈ call.results, r.1 = 102) → call.forkPid = 0
  checked : ∀ j < k, ∀ o, opts[j]? = some o → o.shortName ≠ -1 → o.required →
    o.seen ∨ ∃ r ∈ call.results, ¬IsBuiltin r.1 ∧ apFind opts r.1 = j

section Marked

variable {call : ApCall} {st : ApState} {word : CString} {o : ApOption} {p : Prop} [Decidable p]

/-- A mark does not change whether a record is started. -/
theorem starts_mark_iff :
    Starts call st word (if p then o.markSeen else o) ↔ Starts call st word o := by
  constructor
  · intro h
    have hfields := h
    split at hfields
    · exact ⟨hfields.command, hfields.named, hfields.handler, hfields.forked⟩
    · exact hfields
  · intro h
    split
    · exact ⟨h.command, h.named, h.handler, h.forked⟩
    · exact h

/-- The pass goes on behind a marked option. -/
theorem passes_mark_iff :
    Passes word (if p then o.markSeen else o) ↔ o.shortName ≠ 0 ∧
      (o.shortName = -1 → ∃ name, o.longName = some name ∧ name ≠ word) ∧
      (o.shortName ≠ -1 → o.required → o.seen ∨ p) := by
  -- a mark changes `seen` only
  have hshort : (if p then o.markSeen else o).shortName = o.shortName := by split <;> rfl
  have hlong : (if p then o.markSeen else o).longName = o.longName := by split <;> rfl
  have hreq : (if p then o.markSeen else o).required = o.required := by
    split
    · exact o.required_markSeen
    · rfl
  have hseen : (if p then o.markSeen else o).seen = true ↔ o.seen ∨ p := by
    split
    · rename_i hp
      simp [hp]
    · rename_i hp
      simp [hp]
  constructor
  · intro h
    have hoption := h.option
    have hcommand := h.command
    have hend := h.not_end
    rw [hshort] at hoption hcommand hend
    rw [hreq, hseen] at hoption
    rw [hlong] at hcommand
    refine ⟨hend, hcommand, fun hopt hr => ?_⟩
    by_contra hnot
    exact hoption hopt ⟨hr, hnot⟩
  · rintro ⟨hend, hcommand, hoption⟩
    constructor
    · rwa [hshort]
    · rw [hshort, hreq, hseen]
      intro hopt hmissing
      exact hmissing.2 (hoption hopt hmissing.1)
    · rwa [hshort, hlong]

end Marked

/-- A handler is called in the pass behind the loops. -/
theorem apParse_cases {call : ApCall} {out : ApOutcome} (hrun : apParse call = some out)
    (hcalls : out.CallsHandler) : ∃ opts ostr st, apOpts call.table = some opts ∧
      apOstr opts [] = some ostr ∧
      apOptions opts.length ⟨call.table, call.data, false⟩ call.results = some (.next st) ∧
      apDispatch call st (opts.countP (·.shortName = -1)) 0 st.table = some out := by
  cases hopts : apOpts call.table with
  | none => simp [apParse, hopts] at hrun
  | some opts =>
    cases hostr : apOstr opts [] with
    | none => simp [apParse, hopts, hostr] at hrun
    | some ostr =>
      cases hloop : apOptions opts.length ⟨call.table, call.data, false⟩ call.results with
      | none => simp [apParse, hopts, hostr, hloop] at hrun
      | some flow =>
        cases flow with
        | exit code msg =>
          obtain rfl : _ = out := by simpa [apParse, hopts, hostr, hloop] using hrun
          exact absurd hcalls id
        | next st =>
          exact ⟨opts, ostr, st, rfl, hostr, hloop,
            by simpa [apParse, hopts, hostr, hloop] using hrun⟩

/-- The pass over a marked table starts a command and goes on behind all records in front of
    it, in terms of the table before the call. -/
theorem exists_starts_iff {call : ApCall} {st : ApState} {word : CString}
    {table opts : List ApOption} (h : TableOpts table opts) (seen : List Nat) :
    (∃ (k : Nat) (cmd : ApOption), (markAt seen table)[k]? = some cmd ∧ Starts call st word cmd ∧
      ∀ j < k, ∀ o, (markAt seen table)[j]? = some o → Passes word o) ↔
    ∃ (k : Nat) (cmd : ApOption), opts[k]? = some cmd ∧ Starts call st word cmd ∧
      ∀ j < k, ∀ o, opts[j]? = some o →
        (o.shortName = -1 → ∃ name, o.longName = some name ∧ name ≠ word) ∧
        (o.shortName ≠ -1 → o.required → o.seen ∨ j ∈ seen) := by
  constructor
  · rintro ⟨k, cmd', hcmd', hstart, hpass⟩
    rw [getElem?_markAt] at hcmd'
    obtain ⟨cmd, hcmd, rfl⟩ := Option.map_eq_some_iff.mp hcmd'
    rw [starts_mark_iff] at hstart
    obtain ⟨last, hend, hlast⟩ := h.last
    -- the pass does not go behind the last record
    have hk : k < opts.length := by
      rcases Nat.lt_trichotomy k opts.length with hlt | rfl | hgt
      · exact hlt
      · obtain rfl := Option.some.inj (hcmd.symm.trans hend)
        have hzero := hstart.command
        rw [hlast] at hzero
        exact absurd hzero (by decide)
      · have hpass' := hpass opts.length hgt _ (by
          rw [getElem?_markAt, hend, Option.map_some])
        exact absurd hlast (passes_mark_iff.mp hpass').1
    refine ⟨k, cmd, (h.getElem?_eq k hk).symm.trans hcmd, hstart, ?_⟩
    intro j hj o ho
    have hpass' := hpass j hj _ (by
      rw [getElem?_markAt, h.getElem?_eq j (by omega), ho, Option.map_some])
    exact (passes_mark_iff.mp hpass').2
  · rintro ⟨k, cmd, hcmd, hstart, hpass⟩
    have hk := (List.getElem?_eq_some_iff.mp hcmd).1
    have hcmd' : (markAt seen table)[k]? = some (if k ∈ seen then cmd.markSeen else cmd) := by
      rw [getElem?_markAt, h.getElem?_eq k hk, hcmd, Option.map_some]
    refine ⟨k, _, hcmd', starts_mark_iff.mpr hstart, ?_⟩
    intro j hj o ho
    rw [getElem?_markAt, h.getElem?_eq j (by omega)] at ho
    obtain ⟨o₀, ho₀, rfl⟩ := Option.map_eq_some_iff.mp ho
    rw [passes_mark_iff]
    exact ⟨h.named o₀ (List.mem_of_getElem? ho₀), hpass j hj o₀ ho₀⟩

/-- A handler is called exactly if the command line reaches a command. -/
theorem apParse_calls_iff (call : ApCall) :
    (∃ out, apParse call = some out ∧ out.CallsHandler) ↔
      ∃ opts k cmd, CommandReached call opts k cmd := by
  constructor
  · -- the command whose handler is called has been reached
    rintro ⟨out, hrun, hcalls⟩
    obtain ⟨opts, ostr, st, hopts, hostr, hloop, hout⟩ := apParse_cases hrun hcalls
    have htable := tableOpts_of_apOpts hopts
    rw [← markAt_nil call.table] at hloop
    obtain ⟨haccepts, seen, hmarked, hfork, hseen⟩ := apOptions_next hloop
    have hdispatch : DispatchCalls call st (opts.countP (·.shortName = -1)) 0 st.table :=
      ⟨out, hout, hcalls⟩
    cases hword : call.argv[call.optind]? with
    | none => exact absurd hdispatch (not_dispatchCalls_of_none hword 0 st.table)
    | some word =>
      rw [dispatchCalls_iff hword, hmarked, exists_starts_iff htable] at hdispatch
      obtain ⟨k, cmd, hcmd, hstart, hpass⟩ := hdispatch
      exact ⟨opts, k, cmd, {
        opts_eq := hopts
        fits := by
          rw [hostr]
          rfl
        accepts := haccepts
        getElem?_eq := hcmd
        command := hstart.command
        handler := hstart.handler
        named := ⟨word, hword, hstart.named, fun j hj o ho => (hpass j hj o ho).1⟩
        forked := fun hf => hstart.forked (hfork.mpr (.inr hf))
        checked := by
          intro j hj o ho hopt hreq
          have hmark := (hpass j hj o ho).2 hopt hreq
          rw [hseen, htable.take_eq] at hmark
          simpa using hmark }⟩
  · -- the options are accepted, and the search for a command ends there
    rintro ⟨opts, k, cmd, h⟩
    have htable := tableOpts_of_apOpts h.opts_eq
    obtain ⟨st, hloop⟩ : ∃ st, apOptions opts.length ⟨markAt [] call.table, call.data, false⟩
        call.results = some (.next st) := apOptions_of_accepts h.accepts
    obtain ⟨_, seen, hmarked, hfork, hseen⟩ := apOptions_next hloop
    obtain ⟨ostr, hostr⟩ := Option.isSome_iff_exists.mp h.fits
    obtain ⟨word, hword, hnamed, hother⟩ := h.named
    have hcalls : DispatchCalls call st (opts.countP (·.shortName = -1)) 0 st.table := by
      rw [dispatchCalls_iff hword, hmarked, exists_starts_iff htable]
      refine ⟨k, cmd, h.getElem?_eq, ?_, ?_⟩
      · exact ⟨h.command, hnamed, h.handler, fun hdo => h.forked (by simpa using hfork.mp hdo)⟩
      · intro j hj o ho
        refine ⟨hother j hj o ho, fun hopt hreq => ?_⟩
        rw [hseen, htable.take_eq]
        simpa using h.checked j hj o ho hopt hreq
    obtain ⟨out, hout, hcalls⟩ := hcalls
    rw [markAt_nil] at hloop
    refine ⟨out, ?_, hcalls⟩
    simp only [apParse, h.opts_eq, hostr, hloop, Option.bind_eq_bind, Option.bind_some]
    exact hout

/-- Letters find records with their short name. -/
theorem shortName_of_apFind {opts : List ApOption} {c j : Nat} {o : ApOption}
    (hfind : apFind opts c = j) (ho : opts[j]? = some o) : (c : Int) = o.shortName.toInt := by
  obtain ⟨hj, rfl⟩ := List.getElem?_eq_some_iff.mp ho
  subst hfind
  exact of_decide_eq_true (List.findIdx_getElem (w := hj))

/-- A handler is called only if every required option was delivered, exactly if this holds
    of those that stand behind the command that is reached, and of those that carried the mark
    of a seen option before the call. -/
theorem apParse_required_seen_iff (call : ApCall) :
    HandlerSafe call ↔ ∀ opts k cmd, CommandReached call opts k cmd →
      ∀ j o, opts[j]? = some o → o.shortName ≠ -1 → o.required → k < j ∨ o.seen →
        Delivered call o := by
  constructor
  · intro h opts k cmd hreached j o ho hopt hreq _
    obtain ⟨out, hrun, hcalls⟩ := (apParse_calls_iff call).mpr ⟨opts, k, cmd, hreached⟩
    exact h out hrun hcalls opts hreached.opts_eq o (List.mem_of_getElem? ho) hopt hreq
  · intro h out hrun hcalls opts hopts o hmem hopt hreq
    obtain ⟨opts', k, cmd, hreached⟩ := (apParse_calls_iff call).mp ⟨out, hrun, hcalls⟩
    obtain rfl := Option.some.inj (hopts.symm.trans hreached.opts_eq)
    obtain ⟨j, ho⟩ := List.mem_iff_getElem?.mp hmem
    rcases Nat.lt_trichotomy j k with hlt | rfl | hgt
    · -- in front of the command: the pass has checked it
      rcases hreached.checked j hlt o ho hopt hreq with hseen | ⟨r, hr, _, hfind⟩
      · exact h opts k cmd hreached j o ho hopt hreq (.inr hseen)
      · exact ⟨r, hr, shortName_of_apFind hfind ho⟩
    · obtain rfl := Option.some.inj (ho.symm.trans hreached.getElem?_eq)
      exact absurd hreached.command hopt
    · -- behind the command: the pass has not come here
      exact h opts k cmd hreached j o ho hopt hreq (.inl hgt)

private def runWord : CString := ⟨[114, 117, 110], by decide⟩

private def runCommand : ApOption where
  shortName := -1
  longName := some runWord
  type := .cmd
  offset := 0
  flags := 0
  validator := none
  handler := some fun _ _ _ => 0
  boolHandler := false

private def fileOption : ApOption where
  shortName := 97
  longName := some ⟨[102, 105, 108, 101], by decide⟩
  type := .str
  offset := 0
  flags := apOptRequired
  validator := none
  handler := none
  boolHandler := false

private def lastRecord : ApOption where
  shortName := 0
  longName := none
  type := .sentinel
  offset := 0
  flags := 0
  validator := none
  handler := none
  boolHandler := false

/-- The command line `prog run`, where the table lists the command `run` and behind it the
    required option `a`. -/
private def runFirst : ApCall where
  table := [runCommand, fileOption, lastRecord]
  data := fun _ => .str none
  results := []
  argv := [⟨[112, 114, 111, 103], by decide⟩, runWord]
  optind := 1
  forkPid := 0

/-- The command `run` is started although the required option was not delivered. -/
theorem apParse_skips_required : ¬HandlerSafe runFirst := by
  intro h
  have hrun : apParse runFirst =
      some (.called 0 0 [] runFirst.data runFirst.table 0) := rfl
  have hopts : apOpts runFirst.table = some [runCommand, fileOption] := rfl
  obtain ⟨r, hr, _⟩ := h _ hrun trivial _ hopts fileOption (by simp) (by decide) (by decide)
  cases hr

end CUtils
