import CUtils.Native.ArgOptions
import CUtils.Spec.ArgParserCorrect
import Mathlib.Data.List.Perm.Basic

/-!
# What `getopt_long` is given

The options of the table are complete in the array and in the string of short options.  The
three default options are not: the fields that the code leaves out hold what was in the
memory before, and there is no entry left for the end of the array.

- `apBuildOpts_spec`: the array and the string.
- `apBuildOpts_never`: they never are what `getopt_long` requires.
-/

namespace CUtils

/-- An option that `getopt_long` should know: its long name, if it takes an argument, and
    its letter. -/
structure DueOption where
  longName : Option CString
  takesArg : Bool
  shortName : Int8

/-- The complete entry of an option. -/
def DueOption.entry (d : DueOption) : LongOption where
  name := some d.longName
  hasArg := some (if d.takesArg then requiredArgument else noArgument)
  flag := some none
  val := some d.shortName.toInt

/-- The letters of an option in the string of short options. -/
def DueOption.letters (d : DueOption) : List Int8 :=
  d.shortName :: if d.takesArg then [58] else []

/-- An option of the table. -/
def ApOption.due (o : ApOption) : DueOption where
  longName := o.longName
  takesArg := !(o.type = .bool ∨ o.type = .boolHandler)
  shortName := o.shortName

/-- The options of the table that are not commands. -/
def tableOptions (opts : List ApOption) : List DueOption :=
  (opts.filter (·.shortName ≠ -1)).map ApOption.due

/-- `help`, `quite` and `fork`. -/
def defaultOptions : List DueOption :=
  [⟨some helpName, false, 104⟩, ⟨some quiteName, false, 113⟩,
    ⟨some ⟨[102, 111, 114, 107], by decide⟩, false, 102⟩]

/-- Every field has a value. -/
def LongOption.Initialised (e : LongOption) : Prop :=
  e.name ≠ none ∧ e.hasArg ≠ none ∧ e.flag ≠ none ∧ e.val ≠ none

/-- The entry behind the last option. -/
def LongOption.zero : LongOption where
  name := some none
  hasArg := some 0
  flag := some none
  val := some 0

/-- What `getopt_long` requires of the two descriptions of the options. -/
structure LongOptsRight (opts : List ApOption) (block : List LongOption) (ostr : List Int8) :
    Prop where
  initialised : ∀ e ∈ block, e.Initialised
  entries : ∃ es, block = es ++ [LongOption.zero] ∧
    es.Perm ((tableOptions opts ++ defaultOptions).map DueOption.entry)
  letters : ostr = (tableOptions opts ++ defaultOptions).flatMap DueOption.letters

section Store

variable (store : LongOption → LongOption) (done rest : List LongOption) (e : LongOption) (k : Nat)

theorem storeOption_zero : storeOption (e :: rest) 0 store = some (store e :: rest) := rfl

theorem storeOption_succ : storeOption (e :: rest) (k + 1) store =
    (storeOption rest k store).map (e :: ·) := by
  rw [storeOption, storeOption, List.getElem?_cons_succ, Option.map_map]
  rfl

/-- A store leaves the entries in front of it alone. -/
theorem storeOption_add : storeOption (done ++ rest) (done.length + k) store =
    (storeOption rest k store).map (done ++ ·) := by
  induction done with
  | nil => simp
  | cons d done ih =>
    rw [List.cons_append, List.length_cons, Nat.add_right_comm, storeOption_succ, ih,
      Option.map_map]
    rfl

theorem storeOption_append :
    storeOption (done ++ e :: rest) done.length store = some (done ++ store e :: rest) :=
  storeOption_add store done (e :: rest) 0

end Store

/-- The type of an option decides on its argument. -/
theorem apShort_eq {o : ApOption} {olen : Nat} {r : Int × List Int8}
    (h : apShort o olen = some r) :
    r = (if o.due.takesArg then requiredArgument else noArgument, o.due.letters) := by
  unfold apShort at h
  split at h
  · rename_i hbool
    obtain ⟨_, _, heq⟩ := Option.bind_eq_some_iff.mp h
    obtain rfl := Option.some.inj heq
    simp [ApOption.due, DueOption.letters, hbool]
  · rename_i hbool
    obtain ⟨_, _, heq⟩ := Option.bind_eq_some_iff.mp h
    obtain rfl := Option.some.inj heq
    simp [ApOption.due, DueOption.letters, hbool]

section Fill

variable {o : ApOption} (opts : List ApOption) (done : List LongOption) (n : Nat)
  (ostr : List Int8)

/-- A command takes no entry. -/
theorem apFill_skip (hcmd : o.shortName = -1) :
    apFill (o :: opts) (done ++ List.replicate ((o :: opts).countP (·.shortName ≠ -1) + n)
      LongOption.fresh) done.length ostr =
    apFill opts (done ++ List.replicate (opts.countP (·.shortName ≠ -1) + n)
      LongOption.fresh) done.length ostr := by
  rw [apFill, if_pos hcmd, List.countP_cons_of_neg (by simpa using hcmd)]

/-- An option takes the first one of the entries that are fresh. -/
theorem apFill_keep (hcmd : o.shortName ≠ -1) :
    apFill (o :: opts) (done ++ List.replicate ((o :: opts).countP (·.shortName ≠ -1) + n)
      LongOption.fresh) done.length ostr =
    (apShort o ostr.length).bind fun r =>
      apFill opts (done ++ [⟨some o.longName, some r.1, some none, some o.shortName.toInt⟩] ++
        List.replicate (opts.countP (·.shortName ≠ -1) + n) LongOption.fresh)
        (done ++ [LongOption.mk (some o.longName) (some r.1) (some none)
          (some o.shortName.toInt)]).length (ostr ++ r.2) := by
  rw [apFill, if_neg hcmd, List.countP_cons_of_pos (by simpa using hcmd), Nat.add_right_comm,
    List.replicate_succ]
  simp only [storeOption_append, Option.bind_eq_bind, Option.bind_some, List.length_append,
    List.length_singleton, List.append_assoc, List.singleton_append]

end Fill

/-- The pass over the table stores a complete entry for every option. -/
theorem apFill_spec {opts : List ApOption} {done block : List LongOption} {n i : Nat}
    {ostr ostr' : List Int8}
    (h : apFill opts (done ++ List.replicate (opts.countP (·.shortName ≠ -1) + n)
      LongOption.fresh) done.length ostr = some (block, i, ostr')) :
    block = done ++ (tableOptions opts).map DueOption.entry ++ List.replicate n LongOption.fresh ∧
      i = done.length + (tableOptions opts).length ∧
      ostr' = ostr ++ (tableOptions opts).flatMap DueOption.letters := by
  induction opts generalizing done ostr with
  | nil =>
    simp only [apFill, List.countP_nil, Nat.zero_add, Option.some.injEq, Prod.mk.injEq] at h
    obtain ⟨rfl, rfl, rfl⟩ := h
    simp [tableOptions]
  | cons o opts ih =>
    by_cases hcmd : o.shortName = -1
    · -- commands are left out
      have hskip : tableOptions (o :: opts) = tableOptions opts := by simp [tableOptions, hcmd]
      rw [apFill_skip opts done n ostr hcmd] at h
      rw [hskip]
      exact ih h
    · have hkeep : tableOptions (o :: opts) = o.due :: tableOptions opts := by
        simp [tableOptions, hcmd]
      rw [apFill_keep opts done n ostr hcmd] at h
      obtain ⟨⟨hasArg, letters⟩, hshort, h⟩ := Option.bind_eq_some_iff.mp h
      obtain ⟨rfl, rfl⟩ := Prod.mk.inj (apShort_eq hshort)
      have hentry : (LongOption.mk (some o.longName)
          (some (if o.due.takesArg then requiredArgument else noArgument)) (some none)
          (some o.shortName.toInt)) = o.due.entry := rfl
      rw [hentry] at h
      obtain ⟨hblock, hi, hostr⟩ := ih h
      rw [hkeep, hblock, hi, hostr]
      refine ⟨by simp, ?_, by simp⟩
      rw [List.length_append, List.length_singleton, List.length_cons]
      omega

/-- The entries of the default options, as far as they are stored. -/
def storedDefaults : List LongOption :=
  [⟨some (some helpName), none, none, some 104⟩, ⟨some (some quiteName), none, none, some 113⟩,
    ⟨none, none, none, some 102⟩]

theorem apDefaults_eq (es : List LongOption) :
    apDefaults (es ++ List.replicate 3 LongOption.fresh) es.length =
      some (es ++ storedDefaults) := by
  show apDefaults (es ++ [LongOption.fresh, LongOption.fresh, LongOption.fresh]) es.length = _
  simp only [apDefaults, storeOption_add, storeOption_zero, storeOption_succ, Option.map_some,
    Option.bind_eq_bind, Option.bind_some]
  rfl

/-- The pass over the table, started with the fresh block. -/
theorem apFill_fresh {opts : List ApOption} {block : List LongOption} {i : Nat}
    {ostr : List Int8} (h : apFill opts (List.replicate (opts.countP (·.shortName ≠ -1) + 3)
      LongOption.fresh) 0 [] = some (block, i, ostr)) :
    apDefaults block i = some ((tableOptions opts).map DueOption.entry ++ storedDefaults) ∧
      ostr = (tableOptions opts).flatMap DueOption.letters := by
  have hfill : apFill opts ([] ++ List.replicate (opts.countP (·.shortName ≠ -1) + 3)
      LongOption.fresh) ([] : List LongOption).length [] = some (block, i, ostr) := h
  obtain ⟨hblock, hi, hostr⟩ := apFill_spec hfill
  have hlen : i = ((tableOptions opts).map DueOption.entry).length := by
    rw [hi, List.length_map, List.length_nil, Nat.zero_add]
  rw [List.nil_append] at hblock hostr
  rw [hblock, hlen, apDefaults_eq]
  exact ⟨rfl, hostr⟩

/-- The array and the string for a table that passes the assertions. -/
theorem apBuildOpts_spec {table opts : List ApOption} {block : List LongOption}
    {ostr : List Int8} (hopts : apOpts table = some opts)
    (h : apBuildOpts table = some (block, ostr)) :
    block = (tableOptions opts).map DueOption.entry ++ storedDefaults ∧
      ostr = (tableOptions opts ++ defaultOptions).flatMap DueOption.letters := by
  simp only [apBuildOpts, hopts, Option.bind_eq_bind, Option.bind_some] at h
  obtain ⟨⟨block₁, i, ostr₁⟩, hfill, h⟩ := Option.bind_eq_some_iff.mp h
  obtain ⟨hdefaults, hostr⟩ := apFill_fresh hfill
  obtain ⟨_, _, h⟩ := Option.bind_eq_some_iff.mp h
  rw [hdefaults, Option.bind_some] at h
  obtain ⟨rfl, rfl⟩ := Prod.mk.inj (Option.some.inj h)
  rw [hostr, List.flatMap_append]
  exact ⟨rfl, rfl⟩

/-- No entry ends the array. -/
theorem apBuildOpts_zero_notMem {table opts : List ApOption} {block : List LongOption}
    {ostr : List Int8} (hopts : apOpts table = some opts)
    (h : apBuildOpts table = some (block, ostr)) : LongOption.zero ∉ block := by
  obtain ⟨rfl, _⟩ := apBuildOpts_spec hopts h
  intro hmem
  rcases List.mem_append.mp hmem with htable | hdefault
  · -- the value of an entry is the letter of an option
    obtain ⟨d, hd, hzero⟩ := List.mem_map.mp htable
    obtain ⟨o, ho, rfl⟩ := List.mem_map.mp hd
    have hval : o.shortName.toInt = 0 := Option.some.inj (congrArg LongOption.val hzero)
    exact (tableOpts_of_apOpts hopts).named o (List.mem_of_mem_filter ho) (Int8.toInt_inj.mp hval)
  · simp [storedDefaults, LongOption.zero] at hdefault

/-- The pass that fills the array makes the string as if there was no array. -/
theorem apFill_letters (opts : List ApOption) (done : List LongOption) (n : Nat)
    (ostr : List Int8) :
    ((apFill opts (done ++ List.replicate (opts.countP (·.shortName ≠ -1) + n)
      LongOption.fresh) done.length ostr).bind fun r =>
        (cAssert (r.2.2.length + 4 < 128)).bind fun _ => some (r.2.2 ++ [104, 113, 102])) =
      apOstr opts ostr := by
  induction opts generalizing done ostr with
  | nil => rfl
  | cons o opts ih =>
    rw [apOstr]
    by_cases hcmd : o.shortName = -1
    · rw [apFill_skip opts done n ostr hcmd, if_pos hcmd]
      exact ih done ostr
    · rw [apFill_keep opts done n ostr hcmd, if_neg hcmd, Option.bind_assoc, apShort]
      -- both passes append the same letters, with the same assertion
      simp only [ih]
      split
      · simp [Option.bind_assoc]
      · simp [Option.bind_assoc]

/-- `ap_parse` hands the string of its model to `getopt_long`, and filling the array does not
    fail where making the string does not. -/
theorem apBuildOpts_letters (table : List ApOption) :
    (apBuildOpts table).map Prod.snd = (apOpts table).bind fun opts => apOstr opts [] := by
  cases hopts : apOpts table with
  | none => simp [apBuildOpts, hopts]
  | some opts =>
    have hletters := apFill_letters opts [] 3 []
    rw [List.nil_append, List.length_nil] at hletters
    rw [Option.bind_some, ← hletters]
    simp only [apBuildOpts, hopts, Option.bind_eq_bind, Option.bind_some]
    cases hfill : apFill opts (List.replicate (opts.countP (·.shortName ≠ -1) + 3)
        LongOption.fresh) 0 [] with
    | none => rfl
    | some r =>
      obtain ⟨block, i, ostr⟩ := r
      simp only [Option.bind_some, (apFill_fresh hfill).1]
      cases cAssert (ostr.length + 4 < 128) with
      | none => rfl
      | some _ => rfl

/-- The array is never what `getopt_long` requires: the default options are not complete,
    and the entry that ends the array is missing. -/
theorem apBuildOpts_never {table opts : List ApOption} {block : List LongOption}
    {ostr : List Int8} (hopts : apOpts table = some opts)
    (h : apBuildOpts table = some (block, ostr)) :
    ¬ LongOptsRight opts block ostr ∧ ¬ (∀ e ∈ block, e.Initialised) ∧
      ¬ ∃ es, block = es ++ [LongOption.zero] := by
  have hinit : ¬ ∀ e ∈ block, e.Initialised := by
    intro hall
    obtain ⟨rfl, _⟩ := apBuildOpts_spec hopts h
    -- the entry of `-f` was given a value only
    have hfork : LongOption.mk none none none (some 102) ∈
        (tableOptions opts).map DueOption.entry ++ storedDefaults :=
      List.mem_append_right _ (.tail _ (.tail _ (.head _)))
    exact (hall _ hfork).1 rfl
  have hend : ¬ ∃ es, block = es ++ [LongOption.zero] := by
    rintro ⟨es, rfl⟩
    exact apBuildOpts_zero_notMem hopts h (List.mem_append_right _ (List.mem_singleton_self _))
  exact ⟨fun hright => hinit hright.initialised, hinit, hend⟩

private def verboseOption : ApOption where
  shortName := 118
  longName := some ⟨[118, 101, 114], by decide⟩
  type := .bool
  offset := 0
  flags := 0
  validator := none
  handler := none
  boolHandler := false

private def endOption : ApOption where
  shortName := 0
  longName := none
  type := .sentinel
  offset := 0
  flags := 0
  validator := none
  handler := none
  boolHandler := false

/-- The array for the table with the option `-v`: the four entries of the block are taken by
    the options, and only the first one is complete. -/
private def verboseBlock : List LongOption :=
  [⟨some verboseOption.longName, some 0, some none, some 118⟩,
    ⟨some (some helpName), none, none, some 104⟩, ⟨some (some quiteName), none, none, some 113⟩,
    ⟨none, none, none, some 102⟩]

theorem apBuildOpts_never_verbose :
    apBuildOpts [verboseOption, endOption] = some (verboseBlock, [118, 104, 113, 102]) ∧
      ¬ LongOptsRight [verboseOption] verboseBlock [118, 104, 113, 102] ∧
      ¬ (∀ e ∈ verboseBlock, e.Initialised) ∧ ¬ ∃ es, verboseBlock = es ++ [LongOption.zero] := by
  have hrun : apBuildOpts [verboseOption, endOption] =
      some (verboseBlock, [118, 104, 113, 102]) := rfl
  exact ⟨hrun, apBuildOpts_never rfl hrun⟩

/-- The entry of the option `-f` has no name. -/
theorem apBuildOpts_verbose_incomplete :
    apBuildOpts [verboseOption, endOption] = some (verboseBlock, [118, 104, 113, 102]) ∧
      ¬ LongOptsRight [verboseOption] verboseBlock [118, 104, 113, 102] := by
  refine ⟨rfl, fun hright => ?_⟩
  have hfork : (LongOption.mk none none none (some 102)).Initialised :=
    hright.initialised _ (.tail _ (.tail _ (.tail _ (.head _))))
  exact hfork.1 rfl

end CUtils
