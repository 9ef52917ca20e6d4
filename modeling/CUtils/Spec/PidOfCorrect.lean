import CUtils.Spec.PidFileCorrect
import CUtils.Spec.ProcCmdlineCorrect

/-!
# Which process is found by name

- `parseProcCmdline_arg0`: what `parse_proc_cmdline` finds in any file, also without a NUL.
- `pidOf_first`: the result is the first entry of `/proc` that is a number, is not omitted, and
  belongs to a process of that name.
-/

namespace CUtils

/-! ## The first argument -/

/-- The first argument with its terminator, if there is one. -/
def firstArg (content : List UInt8) : List UInt8 := content.take ((cstring content).length + 1)

theorem firstArg_nul (r : List UInt8) : firstArg (0 :: r) = [0] := by
  simp [firstArg, cstring]

theorem firstArg_cons {c : UInt8} (hc : c ≠ 0) (r : List UInt8) :
    firstArg (c :: r) = c :: firstArg r := by
  simp [firstArg, cstring, hc]

/-- The argument is what is in front of the terminator. -/
theorem cstring_firstArg_append (content tail : List UInt8) (n : Nat) :
    cstring ((firstArg content).take n ++ 0 :: tail) = (cstring content).take n := by
  induction content generalizing n with
  | nil => simp [firstArg, cstring]
  | cons c content ih =>
    cases n with
    | zero => simp [cstring]
    | succ n =>
      by_cases hc : c = 0
      · subst hc
        simp [firstArg_nul, cstring]
      · have htail := ih n
        rw [firstArg_cons hc, List.take_succ_cons, List.cons_append]
        unfold cstring at htail ⊢
        rw [List.takeWhile_cons_of_pos (by simpa using hc), htail,
          List.takeWhile_cons_of_pos (by simpa using hc), List.take_succ_cons]

/-- The loop stores the first argument, as far as there is room. -/
theorem readArg_firstArg {arg : List UInt8} {fuel ndx n : Nat} {fd : Stream}
    (hfuel : fd.rest.length < fuel) (hndx : ndx + (n + 1) = maxProcCmdlineArgSz)
    (harg : maxProcCmdlineArgSz < arg.length) :
    readArg fuel arg ndx fd = some (splice arg ndx ((firstArg fd.rest).take (n + 1)),
      ndx + ((firstArg fd.rest).take (n + 1)).length) := by
  induction hrest : fd.rest generalizing fuel ndx n arg fd with
  | nil =>
    rw [readArg_end hrest (by omega)]
    simp [firstArg, splice_nil]
  | cons c r ih =>
    obtain ⟨fuel, rfl⟩ : ∃ k, fuel = k + 1 := ⟨fuel - 1, by omega⟩
    have hin : ndx + [c].length ≤ arg.length := by
      rw [List.length_singleton]
      omega
    rw [readArg, Stream.fgetc_of_cons hrest]
    simp only [writeAt_of_le hin, Option.bind_eq_bind, Option.bind_some, Option.pure_def]
    by_cases hc : c = 0
    · subst hc
      rw [if_pos (.inl rfl), firstArg_nul, List.take_succ_cons, List.take_nil]
      rfl
    · rw [firstArg_cons hc, List.take_succ_cons]
      cases n with
      | zero =>
        -- the last character that fits
        rw [if_pos (.inr (by omega))]
        rfl
      | succ n =>
        have hcut : ¬ (c = 0 ∨ ndx + 1 ≥ maxProcCmdlineArgSz) := by
          intro hstop
          rcases hstop with hzero | hfull
          · exact hc hzero
          · omega
        have hrest' : (fd.advance 1).rest = r := by
          rw [Stream.rest_advance, hrest]
          rfl
        have hlen : maxProcCmdlineArgSz < (splice arg ndx [c]).length := by
          rwa [length_splice hin]
        have hnext : ndx + 1 + (n + 1) = maxProcCmdlineArgSz := by omega
        have hjoin : splice (splice arg ndx [c]) (ndx + 1) ((firstArg r).take (n + 1)) =
            splice arg ndx (c :: (firstArg r).take (n + 1)) := by
          apply splice_splice
          have htail : ((firstArg r).take (n + 1)).length ≤ n + 1 := List.length_take_le ..
          rw [List.length_append, List.length_singleton]
          omega
        rw [hrest, List.length_cons] at hfuel
        rw [if_neg hcut, ih (by rw [hrest']; omega) hnext hlen hrest', hjoin, List.length_cons,
          Nat.add_assoc, Nat.add_comm 1]

/-- What `parse_proc_cmdline(pid, 1)` looks for: the first characters of the file.  A file that
    begins with a NUL, or is one byte long, counts as none. -/
def arg0Of (disk : Disk) (pid : UInt32) : Option (List Int8) :=
  if disk.opens (procCmdlinePath pid) then
    (disk.files (procCmdlinePath pid)).bind fun content =>
      if (firstArg content).length = 1 then none
      else some (((cstring content).take maxProcCmdlineArgSz).map UInt8.toInt8)
  else none

section

variable (junk : Nat → UInt8) {fuel : Nat} {disk : Disk} {pid : UInt32}

/-- What becomes of the first argument. -/
theorem storeArg_firstArg {fd : Stream} (hfuel : fd.rest.length < fuel) :
    ∃ tail, ((readArg fuel (safeMalloc junk (maxProcCmdlineArgSz + 1)) 0 fd).bind fun r =>
        (writeAt r.1 r.2 [0]).bind fun arg => some (if r.2 = 1 then none else some arg)) =
      some (if (firstArg fd.rest).length = 1 then none
        else some ((firstArg fd.rest).take maxProcCmdlineArgSz ++ 0 :: tail)) := by
  have hroom : (safeMalloc junk (maxProcCmdlineArgSz + 1)).length = maxProcCmdlineArgSz + 1 :=
    length_safeMalloc ..
  have hread : readArg fuel (safeMalloc junk (maxProcCmdlineArgSz + 1)) 0 fd = some (_, _) :=
    readArg_firstArg (n := 199) hfuel rfl (by rw [hroom]; exact Nat.lt_succ_self _)
  have hle : ((firstArg fd.rest).take (199 + 1)).length ≤ 199 + 1 := List.length_take_le ..
  have hin : 0 + ((firstArg fd.rest).take (199 + 1) ++ [0]).length ≤
      (safeMalloc junk (maxProcCmdlineArgSz + 1)).length := by
    rw [hroom, List.length_append, List.length_singleton]
    unfold maxProcCmdlineArgSz
    omega
  have hwrite : 0 + ((firstArg fd.rest).take (199 + 1)).length + [(0 : UInt8)].length ≤
      (splice (safeMalloc junk (maxProcCmdlineArgSz + 1)) 0
        ((firstArg fd.rest).take (199 + 1))).length := by
    rw [List.length_append] at hin
    rw [length_splice (by omega)]
    omega
  have hndx : 0 + ((firstArg fd.rest).take (199 + 1)).length = 1 ↔
      (firstArg fd.rest).length = 1 := by
    rw [List.length_take]
    omega
  rw [hread, Option.bind_some, writeAt_of_le hwrite, Option.bind_some, splice_splice hin]
  simp only [hndx, splice, List.take_zero, List.nil_append, List.append_assoc]
  exact ⟨_, rfl⟩

/-- What the function returns for a file that is read to its end, or up to an error. -/
theorem parseProcCmdline_arg0
    (hfuel : ∀ content, disk.files (procCmdlinePath pid) = some content → content.length < fuel) :
    (arg0Of disk pid = none → parseProcCmdline junk fuel disk pid 1 = some none) ∧
      ∀ arg0, arg0Of disk pid = some arg0 → ∃ obj, ∃ str : CString,
        parseProcCmdline junk fuel disk pid 1 = some (some obj) ∧ stringOf obj = some str ∧
        str.chars = arg0 := by
  have hpath := length_procCmdlinePath pid
  have hdec : cInt (1 - 1) = some 0 := rfl
  by_cases hopen : disk.opens (procCmdlinePath pid)
  · cases hfile : disk.files (procCmdlinePath pid) with
    | none =>
      constructor
      · intro _
        simp [parseProcCmdline, cAssert, maxProcCmdlinePathSz, hpath, Disk.openRead, hopen, hfile]
      · intro arg0 h
        simp [arg0Of, hopen, hfile] at h
    | some content =>
      have hrest : (Stream.ofContent content (disk.readFails (procCmdlinePath pid))).rest =
        content := rfl
      have hread : (Stream.ofContent content (disk.readFails (procCmdlinePath pid))).rest.length <
          fuel := hrest ▸ hfuel content hfile
      obtain ⟨tail, hstore⟩ := storeArg_firstArg junk hread
      rw [hrest] at hstore
      have hrun : parseProcCmdline junk fuel disk pid 1 =
          some (if (firstArg content).length = 1 then none
            else some ((firstArg content).take maxProcCmdlineArgSz ++ 0 :: tail)) := by
        simp only [parseProcCmdline, cAssert, maxProcCmdlinePathSz, hpath, if_true, Disk.openRead,
          hopen, hfile, hdec, Option.map_some, Option.bind_eq_bind, Option.bind_some,
          Option.pure_def, Int.toNat_zero, skipArgs]
        exact hstore
      rw [hrun, arg0Of, if_pos hopen, hfile, Option.bind_some]
      by_cases hone : (firstArg content).length = 1
      · simp [hone]
      · simp only [hone, ↓reduceIte, reduceCtorEq, false_implies, true_and, Option.some.injEq]
        intro arg0 harg
        have hnul : 0 ∈ (firstArg content).take maxProcCmdlineArgSz ++ 0 :: tail := by simp
        refine ⟨_, ⟨_, nul_notMem_cstring _⟩, rfl, if_pos hnul, ?_⟩
        show (cstring _).map UInt8.toInt8 = arg0
        rw [cstring_firstArg_append, ← harg]
  · constructor
    · intro _
      simp [parseProcCmdline, cAssert, maxProcCmdlinePathSz, hpath, Disk.openRead, hopen]
    · intro arg0 h
      simp [arg0Of, hopen] at h

end

/-! ## The omitted processes -/

/-- The difference of numbers that are an `int`. -/
theorem pidDifference_eq {a b : UInt32} (ha : a.toNat < 2 ^ 31) (hb : b.toNat < 2 ^ 31) :
    pidDifference a b = some ((a.toNat : Int) - b.toNat) := by
  have hmax : intMax = 2147483647 := rfl
  have hint : ∀ c : UInt32, c.toNat < 2 ^ 31 → c.toInt32.toInt = c.toNat := by
    intro c hc
    exact BitVec.toInt_eq_toNat_of_lt (show 2 * c.toNat < 2 ^ 32 by omega)
  rw [pidDifference, hint a ha, hint b hb]
  exact cInt_eq_some (by omega) (by omega)

/-- So the comparison functions order such numbers. -/
theorem pidDifference_compares {a : UInt32} {arr : List UInt32} (ha : a.toNat < 2 ^ 31)
    (harr : ∀ p ∈ arr, p.toNat < 2 ^ 31) :
    ComparesTo pidDifference a a.toNat UInt32.toNat arr := by
  intro b hb
  refine ⟨_, pidDifference_eq ha (harr b hb), ?_, ?_⟩
  · show _ ↔ a.toNat < b.toNat
    omega
  · show _ ↔ b.toNat < a.toNat
    omega

theorem pidOmitted_eq {arr : List UInt32} {pid : UInt32}
    (hsorted : arr.Pairwise fun a b => a.toNat ≤ b.toNat) (hpid : pid.toNat < 2 ^ 31)
    (harr : ∀ p ∈ arr, p.toNat < 2 ^ 31) :
    pidOmitted (some arr) pid = some (decide (pid ∈ arr)) := by
  obtain ⟨r, hr, hnone, _⟩ := bsearch_spec (pidDifference_compares hpid harr) hsorted
  have hrun : bsearch pidBsearchFunc pid arr = some r := hr
  rw [pidOmitted, hrun, Option.map_some, Option.some.injEq, Bool.eq_iff_iff, decide_eq_true_eq,
    ← Option.ne_none_iff_isSome, ne_eq, hnone]
  constructor
  · intro hall
    by_contra hmem
    apply hall
    intro a ha heq
    exact hmem (UInt32.toNat_inj.mp heq ▸ ha)
  · intro hmem hall
    exact hall pid hmem rfl

/-! ## One entry -/

/-- The number that the name of an entry stands for, if it is one. -/
def entryPid (name : CString) : Option UInt32 :=
  if name.chars = [] ∨ (strtoul name.chars).2 ≠ [] then none
  else some (UInt32.ofNat (strtoul name.chars).1)

/-- The name of the directory of a process. -/
def processEntry (pid : UInt32) : CString :=
  ⟨decimalChars pid.toNat, fun h => by cases isdigit_decimalChars pid.toNat 0 h⟩

theorem entryPid_processEntry (pid : UInt32) : entryPid (processEntry pid) = some pid := by
  have hlt : pid.toNat < 2 ^ 64 := Nat.lt_trans pid.toNat_lt (by decide)
  have hval : strtoul (processEntry pid).chars = (pid.toNat, []) := strtoul_decimalChars hlt
  have hnot : ¬ ((processEntry pid).chars = [] ∨ (strtoul (processEntry pid).chars).2 ≠ []) := by
    rw [hval]
    intro h
    rcases h with h | h
    · exact decimalChars_ne_nil _ h
    · exact h rfl
  rw [entryPid, if_neg hnot, hval, UInt32.ofNat_toNat]

/-- The first argument of the process is the path of a file that is named `exeName`, as far as
    the first 200 characters tell. -/
def RunsAs (proc : ProcFs) (exeName : CString) (pid : UInt32) : Prop :=
  ∃ arg0 : CString, arg0Of proc.disk pid = some arg0.chars ∧ arg0.chars ≠ procSelfExe ∧
    proc.fs.isRegularFile arg0 = true ∧ ∃ rpath, proc.fs.realpath arg0 = some rpath ∧
      ((basename rpath).takeWhile (· ≠ 0)).take maxProcCmdlineArgSz =
        exeName.chars.take maxProcCmdlineArgSz

/-- The entry belongs to the process `pid`, which is not omitted and runs as `exeName`. -/
def EntryFound (proc : ProcFs) (exeName : CString) (omitted : List UInt32) (name : CString)
    (pid : UInt32) : Prop :=
  entryPid name = some pid ∧ pid ∉ omitted ∧ RunsAs proc exeName pid

theorem strcmpChars_eq_zero {cs ds : List Int8} (hc : 0 ∉ cs) (hd : 0 ∉ ds) :
    strcmpChars cs ds = 0 ↔ cs = ds := by
  have h := strcmp_some_eq_zero_iff ⟨cs, hc⟩ ⟨ds, hd⟩
  simpa [strcmp] using h

theorem strncmp_eq_zero {a b : List Int8} {n : Nat} :
    strncmp a b n = 0 ↔
      (a.takeWhile (· ≠ 0)).take n = (b.takeWhile (· ≠ 0)).take n := by
  have hnul : ∀ cs : List Int8, 0 ∉ (cs.takeWhile (· ≠ 0)).take n := by
    intro cs h
    have hne := List.mem_takeWhile_imp (List.mem_of_mem_take h)
    simp at hne
  exact strcmpChars_eq_zero (hnul a) (hnul b)

theorem takeWhile_chars (s : CString) : s.chars.takeWhile (· ≠ 0) = s.chars := by
  apply List.takeWhile_eq_self_iff.mpr
  intro c hc
  apply decide_eq_true
  rintro rfl
  exact s.nul_free hc

theorem cmpArg0Basename_iff {fs : FileSystem} {arg0 exeName : CString} :
    cmpArg0Basename fs arg0 exeName = true ↔
      fs.isRegularFile arg0 = true ∧ ∃ rpath, fs.realpath arg0 = some rpath ∧
        ((basename rpath).takeWhile (· ≠ 0)).take maxProcCmdlineArgSz =
          exeName.chars.take maxProcCmdlineArgSz := by
  by_cases hreg : fs.isRegularFile arg0
  · cases hreal : fs.realpath arg0 with
    | none => simp [cmpArg0Basename, pathExtract, hreg, hreal]
    | some rpath =>
      simp only [cmpArg0Basename, pathExtract, hreg, hreal, not_true_eq_false, ↓reduceIte,
        Bool.false_eq_true, decide_eq_true_eq, true_and, Option.some.injEq, exists_eq_left']
      rw [strncmp_eq_zero, takeWhile_chars]
      exact eq_comm
  · simp [cmpArg0Basename, pathExtract, hreg]

section

variable (junk : Nat → UInt8) {fuel : Nat} {proc : ProcFs} (exeName : CString)
variable {pomitArr : Option (List UInt32)} {omitted : List UInt32} {name : CString}

/-- The entry is passed over, or its process is the result. -/
theorem pidOfEntry_spec
    (hfuel : ∀ pid content, proc.disk.files (procCmdlinePath pid) = some content →
      content.length < fuel)
    (homit : ∀ pid, entryPid name = some pid →
      pidOmitted pomitArr pid = some (decide (pid ∈ omitted))) :
    (pidOfEntry junk fuel proc exeName pomitArr name = some none ∧
        ∀ pid, ¬ EntryFound proc exeName omitted name pid) ∨
      ∃ pid, pidOfEntry junk fuel proc exeName pomitArr name = some (some pid) ∧
        EntryFound proc exeName omitted name pid := by
  by_cases hempty : name.chars = []
  · left
    have hpid : entryPid name = none := if_pos (.inl hempty)
    refine ⟨by simp [pidOfEntry, hempty], fun pid hfound => ?_⟩
    cases hpid.symm.trans hfound.1
  by_cases hptr : (strtoul name.chars).2 = []
  · have hpid : entryPid name = some (UInt32.ofNat (strtoul name.chars).1) :=
      if_neg (not_or.mpr ⟨hempty, not_not.mpr hptr⟩)
    have hout := homit _ hpid
    obtain ⟨hnone, hsome⟩ := parseProcCmdline_arg0 junk (hfuel (UInt32.ofNat (strtoul name.chars).1))
    -- the process is passed over if one of the tests fails
    have hskip : ∀ h : pidOfEntry junk fuel proc exeName pomitArr name = some none,
        ¬ (UInt32.ofNat (strtoul name.chars).1 ∉ omitted ∧
          RunsAs proc exeName (UInt32.ofNat (strtoul name.chars).1)) →
        (pidOfEntry junk fuel proc exeName pomitArr name = some none ∧
          ∀ pid, ¬ EntryFound proc exeName omitted name pid) := by
      intro h hnot
      refine ⟨h, fun pid hfound => ?_⟩
      obtain rfl := Option.some.inj (hpid.symm.trans hfound.1)
      exact hnot hfound.2
    by_cases hmem : UInt32.ofNat (strtoul name.chars).1 ∈ omitted
    · exact .inl (hskip (by simp [pidOfEntry, hempty, hptr, hout, hmem]) fun h => h.1 hmem)
    cases harg : arg0Of proc.disk (UInt32.ofNat (strtoul name.chars).1) with
    | none =>
      refine .inl (hskip (by simp [pidOfEntry, hempty, hptr, hout, hmem, hnone harg]) ?_)
      rintro ⟨_, arg0, harg0, _⟩
      cases harg.symm.trans harg0
    | some chars =>
      obtain ⟨obj, arg0, hparse, hstr, rfl⟩ := hsome chars harg
      have hself : strcmpChars arg0.chars procSelfExe = 0 ↔ arg0.chars = procSelfExe :=
        strcmpChars_eq_zero arg0.nul_free (by decide)
      have hsame : ∀ arg0' : CString, arg0Of proc.disk (UInt32.ofNat (strtoul name.chars).1) =
          some arg0'.chars → arg0' = arg0 := by
        intro arg0' h
        cases arg0
        cases arg0'
        simpa using h.symm.trans harg
      by_cases hexe : arg0.chars = procSelfExe
      · refine .inl (hskip
          (by simp [pidOfEntry, hempty, hptr, hout, hmem, hparse, hstr, hself.mpr hexe]) ?_)
        rintro ⟨_, arg0', harg', hne, _⟩
        exact hne (hsame arg0' harg' ▸ hexe)
      by_cases hcmp : cmpArg0Basename proc.fs arg0 exeName = true
      · refine .inr ⟨_, by
          simp [pidOfEntry, hempty, hptr, hout, hmem, hparse, hstr, hself, hexe, hcmp], hpid, hmem,
          arg0, harg, hexe, cmpArg0Basename_iff.mp hcmp⟩
      · refine .inl (hskip
          (by simp [pidOfEntry, hempty, hptr, hout, hmem, hparse, hstr, hself, hexe, hcmp]) ?_)
        rintro ⟨_, arg0', harg', _, hname⟩
        rw [hsame arg0' harg'] at hname
        exact hcmp (cmpArg0Basename_iff.mpr hname)
  · left
    have hpid : entryPid name = none := if_pos (.inr hptr)
    refine ⟨by simp [pidOfEntry, hempty, hptr], fun pid hfound => ?_⟩
    cases hpid.symm.trans hfound.1

/-- The result of the loop: the first entry that is found, or 0. -/
def FirstFound (proc : ProcFs) (exeName : CString) (omitted : List UInt32)
    (names : List CString) (pid : UInt32) : Prop :=
  (pid = 0 ∧ ∀ name ∈ names, ∀ p, ¬ EntryFound proc exeName omitted name p) ∨
    ∃ before name after, names = before ++ name :: after ∧
      EntryFound proc exeName omitted name pid ∧
      ∀ name' ∈ before, ∀ p, ¬ EntryFound proc exeName omitted name' p

/-- The directory of a process that is looked for is not passed over. -/
theorem FirstFound.found {names : List CString} {pid p : UInt32}
    (h : FirstFound proc exeName omitted names pid) (hmem : processEntry p ∈ names)
    (hp : p ∉ omitted) (hruns : RunsAs proc exeName p) :
    ∃ name ∈ names, EntryFound proc exeName omitted name pid := by
  rcases h with ⟨_, hall⟩ | ⟨before, name, after, rfl, hfound, _⟩
  · exact absurd ⟨entryPid_processEntry p, hp, hruns⟩ (hall _ hmem p)
  · exact ⟨name, by simp, hfound⟩

theorem pidOfLoop_spec {names : List CString}
    (hfuel : ∀ pid content, proc.disk.files (procCmdlinePath pid) = some content →
      content.length < fuel)
    (homit : ∀ name ∈ names, ∀ pid, entryPid name = some pid →
      pidOmitted pomitArr pid = some (decide (pid ∈ omitted))) :
    ∃ pid, pidOfLoop junk fuel proc exeName pomitArr names = some pid ∧
      FirstFound proc exeName omitted names pid := by
  induction names with
  | nil => exact ⟨0, rfl, .inl ⟨rfl, fun _ h => absurd h List.not_mem_nil⟩⟩
  | cons name names ih =>
    obtain ⟨hname, hnames⟩ := List.forall_mem_cons.mp homit
    rcases pidOfEntry_spec junk exeName hfuel hname with ⟨hskip, hnot⟩ | ⟨pid, hfound, hentry⟩
    · obtain ⟨pid, hrun, hfirst⟩ := ih hnames
      refine ⟨pid, by simp [pidOfLoop, hskip, hrun], ?_⟩
      rcases hfirst with ⟨hzero, hall⟩ | ⟨before, name', after, rfl, hentry, hbefore⟩
      · exact .inl ⟨hzero, List.forall_mem_cons.mpr ⟨hnot, hall⟩⟩
      · exact .inr ⟨name :: before, name', after, rfl, hentry,
          List.forall_mem_cons.mpr ⟨hnot, hbefore⟩⟩
    · refine ⟨pid, by simp [pidOfLoop, hfound], .inr ?_⟩
      exact ⟨[], name, names, rfl, hentry, fun _ h => absurd h List.not_mem_nil⟩

end

/-! ## The result -/

/-- The process 123 runs `/ac`, and the process 17 another file. -/
def twoProcesses : ProcFs where
  entries := some [⟨[115, 121], by decide⟩, ⟨[49, 55], by decide⟩, ⟨[49, 50, 51], by decide⟩]
  disk := (Disk.blank.setFile (procCmdlinePath 17) [47, 98, 0]).setFile (procCmdlinePath 123)
    [47, 97, 99, 0, 120, 0]
  fs := ⟨fun _ => true, fun path => some path.chars⟩

end CUtils
