import CUtils.Native.ProcUtils
import Mathlib.Data.Nat.Digits.Defs

/-!
# Arguments in a command line

The stream of a command line holds the arguments, each followed by a NUL.  Skipping stops
behind the last NUL without reading on, so the end of the file is seen one argument late.

- `parseProcCmdline_correct_iff`: for which positions the result is the argument.
-/

namespace CUtils

/-- The content of `/proc/<pid>/cmdline`. -/
def cmdline (args : List (List UInt8)) : List UInt8 := args.flatMap fun a => a ++ [0]

@[simp] theorem cmdline_nil : cmdline [] = [] := rfl

@[simp] theorem cmdline_cons (a : List UInt8) (args : List (List UInt8)) :
    cmdline (a :: args) = a ++ 0 :: cmdline args := by
  rw [cmdline, List.flatMap_cons, List.append_assoc, List.singleton_append]
  rfl

/-- The first characters of the argument number `pos`; NULL if there is none or it is
    empty. -/
def procArg (args : List (List UInt8)) (pos : Int) : Option (List UInt8) :=
  args[pos.toNat - 1]?.bind fun a => if a = [] then none else some (a.take maxProcCmdlineArgSz)

/-- What is expected of `parse_proc_cmdline(pid, pos)`. -/
def CmdlineRight (junk : Nat → UInt8) (fuel : Nat) (disk : Disk) (pid : UInt32) (pos : Int)
    (args : List (List UInt8)) : Prop :=
  ∃ arg, parseProcCmdline junk fuel disk pid pos = some arg ∧
    arg.map cstring = procArg args pos ∧ ∀ obj ∈ arg, 0 ∈ obj

/-- The path fits into its buffer. -/
theorem length_procCmdlinePath (pid : UInt32) : (procCmdlinePath pid).length < 41 := by
  have hlt : pid.toNat < 10 ^ 10 := Nat.lt_of_lt_of_le pid.toNat_lt (by decide)
  have hdigits := Nat.toDigits_length 10 pid.toNat 10 (by decide) hlt
  have hlen : (procCmdlinePath pid).length = 6 + (Nat.toDigits 10 pid.toNat).length + 8 := by
    rw [procCmdlinePath, charsOf, List.length_map, List.length_append, List.length_append]
    rfl
  omega

/-! ## Skipping -/

theorem skipArg_spec {a r : List UInt8} {fuel : Nat} {fd : Stream} (hrest : fd.rest = a ++ 0 :: r)
    (hnul : 0 ∉ a) (hfuel : a.length < fuel) :
    ∃ fd', skipArg fuel fd = some fd' ∧ fd'.rest = r ∧ fd'.eof = fd.eof ∧
      fd'.fails = fd.fails := by
  induction a generalizing fuel fd with
  | nil =>
    obtain ⟨fuel, rfl⟩ := Nat.exists_eq_add_of_lt hfuel
    have hget := Stream.fgetc_of_cons hrest
    refine ⟨fd.advance 1, ?_, ?_, rfl, rfl⟩
    · rw [List.length_nil, Nat.zero_add, skipArg, hget]
      rfl
    · rw [Stream.rest_advance, hrest]
      rfl
  | cons c a ih =>
    obtain ⟨fuel, rfl⟩ : ∃ n, fuel = n + 1 := ⟨fuel - 1, by omega⟩
    have hget := Stream.fgetc_of_cons hrest
    obtain ⟨hc, ha⟩ := not_or.mp (List.mem_cons.not.mp hnul)
    rw [List.length_cons] at hfuel
    rw [skipArg, hget]
    simp only [if_neg (Ne.symm hc)]
    have hrest' : (fd.advance 1).rest = a ++ 0 :: r := by
      rw [Stream.rest_advance, hrest]
      rfl
    exact ih hrest' ha (by omega)

/-- At the end of the file the indicator is set. -/
theorem skipArg_end {fuel : Nat} {fd : Stream} (hrest : fd.rest = []) (hfuel : 0 < fuel) :
    skipArg fuel fd = some fd.exhaust := by
  obtain ⟨fuel, rfl⟩ : ∃ n, fuel = n + 1 := ⟨fuel - 1, by omega⟩
  rw [skipArg, Stream.fgetc_of_nil hrest]

/-- The end of the file is seen if more arguments are skipped than there are. -/
theorem skipArgs_spec {args : List (List UInt8)} {fuel n : Nat} {fd : Stream}
    (hrest : fd.rest = cmdline args) (hfails : fd.fails = false) (hnul : ∀ a ∈ args, 0 ∉ a)
    (hfuel : (cmdline args).length < fuel) :
    ∃ fd', skipArgs fuel n fd = some fd' ∧ fd'.rest = cmdline (args.drop n) ∧
      fd'.eof = (fd.eof || decide (args.length < n)) := by
  induction n generalizing args fd with
  | zero => exact ⟨fd, rfl, hrest, by simp⟩
  | succ n ih =>
    cases args with
    | nil =>
      -- the read past the end sets the flag, and all later ones end at once
      have hend : fd.exhaust.rest = cmdline [] := Stream.rest_exhaust fd
      obtain ⟨fd', hskip, hrest', heof⟩ := ih hend hfails hnul hfuel
      refine ⟨fd', ?_, ?_, ?_⟩
      · rw [skipArgs, skipArg_end hrest (Nat.zero_lt_of_lt hfuel)]
        exact hskip
      · simpa using hrest'
      · rw [heof, Stream.eof_exhaust, hfails]
        simp
    | cons a args =>
      -- skipping stops behind the NUL, without looking for more
      rw [cmdline_cons] at hrest hfuel
      rw [List.length_append, List.length_cons] at hfuel
      obtain ⟨hn, hnul⟩ := List.forall_mem_cons.mp hnul
      have ha : a.length < fuel := by omega
      have hargs : (cmdline args).length < fuel := by omega
      obtain ⟨fd₁, hskip₁, hrest₁, heof₁, hfails₁⟩ := skipArg_spec hrest hn ha
      obtain ⟨fd', hskip, hrest', heof⟩ := ih hrest₁ (hfails₁.trans hfails) hnul hargs
      refine ⟨fd', ?_, ?_, ?_⟩
      · rw [skipArgs, hskip₁]
        exact hskip
      · exact hrest'
      · rw [heof, heof₁, List.length_cons]
        simp

/-! ## Reading -/

/-- The argument and its NUL are stored, as far as there is room. -/
theorem readArg_spec {a r arg : List UInt8} {fuel ndx n : Nat} {fd : Stream}
    (hrest : fd.rest = a ++ 0 :: r) (hnul : 0 ∉ a) (hfuel : a.length < fuel)
    (hndx : ndx + (n + 1) = maxProcCmdlineArgSz) (harg : maxProcCmdlineArgSz < arg.length) :
    readArg fuel arg ndx fd = some (splice arg ndx ((a ++ [0]).take (n + 1)),
      ndx + ((a ++ [0]).take (n + 1)).length) := by
  induction a generalizing fuel ndx n arg fd with
  | nil =>
    obtain ⟨fuel, rfl⟩ : ∃ k, fuel = k + 1 := ⟨fuel - 1, by omega⟩
    rw [readArg, Stream.fgetc_of_cons hrest]
    have hin : ndx + [(0 : UInt8)].length ≤ arg.length := by
      rw [List.length_singleton]
      omega
    simp [writeAt_of_le hin]
  | cons c a ih =>
    obtain ⟨fuel, rfl⟩ : ∃ k, fuel = k + 1 := ⟨fuel - 1, by omega⟩
    obtain ⟨hc, ha⟩ := not_or.mp (List.mem_cons.not.mp hnul)
    have hin : ndx + [c].length ≤ arg.length := by
      rw [List.length_singleton]
      omega
    rw [readArg, Stream.fgetc_of_cons hrest]
    simp only [writeAt_of_le hin, Option.bind_eq_bind, Option.bind_some, Option.pure_def]
    cases n with
    | zero =>
      -- the last character that fits
      rw [if_pos (.inr (by omega))]
      rfl
    | succ n =>
      have hcut : ¬ (c = 0 ∨ ndx + 1 ≥ maxProcCmdlineArgSz) := by
        intro hstop
        rcases hstop with hzero | hfull
        · exact hc hzero.symm
        · omega
      have hrest' : (fd.advance 1).rest = a ++ 0 :: r := by
        rw [Stream.rest_advance, hrest]
        rfl
      have hlen : maxProcCmdlineArgSz < (splice arg ndx [c]).length := by
        rwa [length_splice hin]
      have hnext : ndx + 1 + (n + 1) = maxProcCmdlineArgSz := by omega
      have htail : ((a ++ [0]).take (n + 1)).length ≤ n + 1 := List.length_take_le ..
      have hjoin : splice (splice arg ndx [c]) (ndx + 1) ((a ++ [0]).take (n + 1)) =
          splice arg ndx (c :: (a ++ [0]).take (n + 1)) := by
        apply splice_splice
        rw [List.length_append, List.length_singleton]
        omega
      rw [if_neg hcut, ih hrest' ha (Nat.lt_of_succ_lt_succ hfuel) hnext hlen, hjoin,
        List.cons_append, List.take_succ_cons, List.length_cons, Nat.add_assoc, Nat.add_comm 1]

/-- At the end of the file nothing is stored. -/
theorem readArg_end {arg : List UInt8} {fuel ndx : Nat} {fd : Stream} (hrest : fd.rest = [])
    (hfuel : 0 < fuel) : readArg fuel arg ndx fd = some (arg, ndx) := by
  obtain ⟨fuel, rfl⟩ : ∃ k, fuel = k + 1 := ⟨fuel - 1, by omega⟩
  rw [readArg, Stream.fgetc_of_nil hrest]

/-! ## The result -/

/-- The object after the loop and the terminator holds the first characters of the
    argument. -/
theorem writeAt_readArg (junk : Nat → UInt8) (a : List UInt8) {n m : Nat} (hm : n < m) :
    ∃ tail, writeAt (splice (safeMalloc junk m) 0 ((a ++ [0]).take n)) ((a ++ [0]).take n).length
      [0] = some (a.take n ++ 0 :: tail) := by
  have hlen : ((a ++ [0]).take n).length ≤ n := List.length_take_le ..
  have hin : 0 + ((a ++ [0]).take n ++ [0]).length ≤ (safeMalloc junk m).length := by
    rw [length_safeMalloc, List.length_append, List.length_singleton]
    omega
  have hjoin : splice (splice (safeMalloc junk m) 0 ((a ++ [0]).take n))
      ((a ++ [0]).take n).length [0] = splice (safeMalloc junk m) 0 ((a ++ [0]).take n ++ [0]) := by
    have h := splice_splice hin
    rwa [Nat.zero_add] at h
  have hwrite : ((a ++ [0]).take n).length + [(0 : UInt8)].length ≤
      (splice (safeMalloc junk m) 0 ((a ++ [0]).take n)).length := by
    rw [length_splice (by rw [length_safeMalloc]; omega), length_safeMalloc,
      List.length_singleton]
    omega
  rw [writeAt_of_le hwrite, hjoin, splice, List.take_zero, List.nil_append, List.take_append]
  cases hroom : n - a.length with
  | zero => exact ⟨_, by rw [List.take_zero, List.append_nil, List.append_assoc]; rfl⟩
  | succ k => exact ⟨_, by rw [List.take_succ_cons, List.append_assoc, List.append_assoc]; rfl⟩

/-- What becomes of an argument that is there: NULL if only the NUL was stored. -/
theorem storeArg_spec (junk : Nat → UInt8) {a r : List UInt8} {fuel : Nat} {fd : Stream}
    (hrest : fd.rest = a ++ 0 :: r) (hnul : 0 ∉ a) (hfuel : a.length < fuel) :
    ∃ tail, ((readArg fuel (safeMalloc junk (maxProcCmdlineArgSz + 1)) 0 fd).bind fun r =>
        (writeAt r.1 r.2 [0]).bind fun arg => some (if r.2 = 1 then none else some arg)) =
      some (if a = [] then none else some (a.take maxProcCmdlineArgSz ++ 0 :: tail)) := by
  have hroom : maxProcCmdlineArgSz < (safeMalloc junk (maxProcCmdlineArgSz + 1)).length := by
    rw [length_safeMalloc]
    exact Nat.lt_succ_self _
  have hread : readArg fuel (safeMalloc junk (maxProcCmdlineArgSz + 1)) 0 fd =
      some (splice (safeMalloc junk (maxProcCmdlineArgSz + 1)) 0
        ((a ++ [0]).take maxProcCmdlineArgSz),
        0 + ((a ++ [0]).take maxProcCmdlineArgSz).length) :=
    readArg_spec (n := 199) hrest hnul hfuel rfl hroom
  obtain ⟨tail, hwrite⟩ := writeAt_readArg junk a (Nat.lt_succ_self maxProcCmdlineArgSz)
  -- `ndx` is 1 if only the NUL was stored
  have hstored : ((a ++ [0]).take maxProcCmdlineArgSz).length = 1 ↔ a = [] := by
    rw [List.length_take, List.length_append, List.length_singleton, ← List.length_eq_zero_iff]
    unfold maxProcCmdlineArgSz
    omega
  rw [Nat.zero_add] at hread
  refine ⟨tail, ?_⟩
  rw [hread, Option.bind_some, hwrite, Option.bind_some]
  simp only [hstored]

theorem length_lt_cmdline {args : List (List UInt8)} {a : List UInt8} (h : a ∈ args) :
    a.length < (cmdline args).length := by
  have hsub : a ++ [0] ∈ args.map (· ++ [0]) := List.mem_map_of_mem h
  have hle : (a ++ [0]).length ≤ (cmdline args).length :=
    (List.sublist_flatten_of_mem hsub).length_le
  rw [List.length_append, List.length_singleton] at hle
  omega

section Result

variable (junk : Nat → UInt8) {fuel : Nat} {disk : Disk} {pid : UInt32} {pos : Int}
variable {args : List (List UInt8)}

/-- What happens after the skipping. -/
theorem parseProcCmdline_skip (hopen : disk.opens (procCmdlinePath pid) = true)
    (hfails : disk.readFails (procCmdlinePath pid) = false)
    (hfile : disk.files (procCmdlinePath pid) = some (cmdline args)) (hnul : ∀ a ∈ args, 0 ∉ a)
    (hpos : 1 ≤ pos) (hint : pos ≤ intMax) (hfuel : (cmdline args).length < fuel) :
    ∃ fd : Stream, fd.rest = cmdline (args.drop (pos.toNat - 1)) ∧
      parseProcCmdline junk fuel disk pid pos =
        if args.length < pos.toNat - 1 then some none
        else (readArg fuel (safeMalloc junk (maxProcCmdlineArgSz + 1)) 0 fd).bind fun r =>
          (writeAt r.1 r.2 [0]).bind fun arg => some (if r.2 = 1 then none else some arg) := by
  have hrest : (Stream.ofContent (cmdline args) false).rest = cmdline args := rfl
  obtain ⟨fd, hskip, hrest', heof⟩ := skipArgs_spec (n := pos.toNat - 1) hrest rfl hnul hfuel
  have hpath := length_procCmdlinePath pid
  have hdec : cInt (pos - 1) = some (pos - 1) := cInt_eq_some (by omega) (by omega)
  have hsub : (pos - 1).toNat = pos.toNat - 1 := by omega
  have heof' : fd.eof = decide (args.length < pos.toNat - 1) := heof
  refine ⟨fd, hrest', ?_⟩
  simp only [parseProcCmdline, cAssert, maxProcCmdlinePathSz, hpath, if_true, Disk.openRead, hopen,
    hfails, hfile, hdec, hsub, hskip, heof', Option.map_some, Option.bind_eq_bind,
    Option.bind_some, Option.pure_def, decide_eq_true_eq]

/-- There is an argument number `pos`. -/
theorem cmdlineRight_of_lt (hopen : disk.opens (procCmdlinePath pid) = true)
    (hfails : disk.readFails (procCmdlinePath pid) = false)
    (hfile : disk.files (procCmdlinePath pid) = some (cmdline args)) (hnul : ∀ a ∈ args, 0 ∉ a)
    (hpos : 1 ≤ pos) (hint : pos ≤ intMax) (hfuel : (cmdline args).length < fuel)
    (hlt : pos.toNat - 1 < args.length) : CmdlineRight junk fuel disk pid pos args := by
  obtain ⟨fd, hrest, hrun⟩ := parseProcCmdline_skip junk hopen hfails hfile hnul hpos hint hfuel
  obtain ⟨a, ha⟩ : ∃ a, a = args[pos.toNat - 1] := ⟨_, rfl⟩
  have hget : args[pos.toNat - 1]? = some a := by rw [ha, List.getElem?_eq_getElem hlt]
  have hmem : a ∈ args := List.mem_of_getElem? hget
  have hnulA := hnul a hmem
  rw [List.drop_eq_getElem_cons hlt, ← ha, cmdline_cons] at hrest
  obtain ⟨tail, hstore⟩ := storeArg_spec junk hrest hnulA ((length_lt_cmdline hmem).trans hfuel)
  rw [if_neg (by omega), hstore] at hrun
  refine ⟨_, hrun, ?_, ?_⟩
  · rw [procArg, hget, Option.bind_some]
    split
    · rfl
    · rw [Option.map_some, cstring_append fun h => hnulA (List.mem_of_mem_take h)]
  · intro obj hobj
    split at hobj
    · cases hobj
    · obtain rfl := Option.some.inj hobj
      exact List.mem_append_right _ List.mem_cons_self

/-- The position behind the last argument gives the empty string, which is not NULL. -/
theorem not_cmdlineRight_of_eq (hopen : disk.opens (procCmdlinePath pid) = true)
    (hfails : disk.readFails (procCmdlinePath pid) = false)
    (hfile : disk.files (procCmdlinePath pid) = some (cmdline args)) (hnul : ∀ a ∈ args, 0 ∉ a)
    (hpos : 1 ≤ pos) (hint : pos ≤ intMax) (hfuel : (cmdline args).length < fuel)
    (heq : pos.toNat - 1 = args.length) : ¬ CmdlineRight junk fuel disk pid pos args := by
  obtain ⟨fd, hrest, hrun⟩ := parseProcCmdline_skip junk hopen hfails hfile hnul hpos hint hfuel
  rintro ⟨arg, hrun', hstr, _⟩
  have hend : fd.rest = [] := by rw [hrest, heq, List.drop_length, cmdline_nil]
  -- the flag is not set, so there is an object, and it is not taken back
  have hwrite : writeAt (safeMalloc junk (maxProcCmdlineArgSz + 1)) 0 [0] =
      some (splice (safeMalloc junk (maxProcCmdlineArgSz + 1)) 0 [0]) :=
    writeAt_of_le (by rw [length_safeMalloc]; decide)
  rw [heq, if_neg (Nat.lt_irrefl _), readArg_end hend (Nat.zero_lt_of_lt hfuel)] at hrun
  simp only [Option.bind_some, hwrite, hrun', Option.some.injEq] at hrun
  rw [hrun, procArg, heq, List.getElem?_length] at hstr
  cases hstr

/-- `parse_proc_cmdline` finds every argument, and says NULL for every position without one
    but the first of these. -/
theorem parseProcCmdline_correct_iff (hopen : disk.opens (procCmdlinePath pid) = true)
    (hfails : disk.readFails (procCmdlinePath pid) = false)
    (hfile : disk.files (procCmdlinePath pid) = some (cmdline args)) (hnul : ∀ a ∈ args, 0 ∉ a)
    (hpos : 1 ≤ pos) (hint : pos ≤ intMax) (hfuel : (cmdline args).length < fuel) :
    CmdlineRight junk fuel disk pid pos args ↔ pos ≠ args.length + 1 := by
  constructor
  · intro hright heq
    exact not_cmdlineRight_of_eq junk hopen hfails hfile hnul hpos hint hfuel (by omega) hright
  · intro hne
    by_cases hlt : pos.toNat - 1 < args.length
    · exact cmdlineRight_of_lt junk hopen hfails hfile hnul hpos hint hfuel hlt
    · -- the end of the file was seen while skipping
      obtain ⟨fd, _, hrun⟩ := parseProcCmdline_skip junk hopen hfails hfile hnul hpos hint hfuel
      rw [if_pos (by omega)] at hrun
      refine ⟨none, hrun, ?_, nofun⟩
      rw [procArg, List.getElem?_eq_none (by omega)]
      rfl

end Result

theorem parseProcCmdline_correct_iff_two :
    CmdlineRight (fun _ => 7) 10
        (Disk.blank.setFile (procCmdlinePath 42) (cmdline [[97], [98, 99]])) 42 2
        [[97], [98, 99]] ∧
      ¬ CmdlineRight (fun _ => 7) 10
        (Disk.blank.setFile (procCmdlinePath 42) (cmdline [[97], [98, 99]])) 42 3
        [[97], [98, 99]] := by
  have hfile := Disk.files_setFile Disk.blank (procCmdlinePath 42) (cmdline [[97], [98, 99]])
  constructor
  · rw [parseProcCmdline_correct_iff (fun _ => 7) rfl rfl hfile (by decide) (by decide) (by decide)
      (by decide)]
    decide
  · rw [parseProcCmdline_correct_iff (fun _ => 7) rfl rfl hfile (by decide) (by decide) (by decide)
      (by decide)]
    decide

/-- The second argument of a process that has one is the empty string. -/
theorem parseProcCmdline_behind_last :
    ((parseProcCmdline (fun _ => 7) 10
        (Disk.blank.setFile (procCmdlinePath 42) (cmdline [[97]])) 42 2).map
        (Option.map cstring) = some (some [])) ∧
      procArg [[97]] 2 = none ∧
      ¬ CmdlineRight (fun _ => 7) 10
        (Disk.blank.setFile (procCmdlinePath 42) (cmdline [[97]])) 42 2 [[97]] := by
  have hrun : (parseProcCmdline (fun _ => 7) 10
      (Disk.blank.setFile (procCmdlinePath 42) (cmdline [[97]])) 42 2).map
      (Option.map cstring) = some (some []) := by decide +kernel
  refine ⟨hrun, rfl, ?_⟩
  rintro ⟨arg, hrun', hstr, _⟩
  rw [hrun', Option.map_some, hstr] at hrun
  cases hrun

end CUtils
