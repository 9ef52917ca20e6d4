import CUtils.ForStd.SortSearch
import CUtils.Native.File
import CUtils.Native.ProcUtils

/-!
# Processes by name, and files with the number of a process

`pid_of` of `procutils.c`, which looks through the directory `/proc`, and `read_pid` and
`write_pid`.
-/

namespace CUtils

/-- What `pid_of` finds: the names that `readdir` gives for `/proc` if `opendir` succeeds, the
    files of the processes, and the paths that `path_extract` asks for. -/
structure ProcFs where
  entries : Option (List CString)
  disk : Disk
  fs : FileSystem

/-- `isspace`. -/
def isspace (c : Int8) : Bool := c = 32 ∨ 9 ≤ c ∧ c ≤ 13

/-- `isdigit`. -/
def isdigit (c : Int8) : Bool := 48 ≤ c ∧ c ≤ 57

/-- `strtoul(text, &end, 10)` from the C library, with an `unsigned long` of 64 bits: the value
    and the characters from `end` on. -/
def strtoul (text : List Int8) : Nat × List Int8 :=
  let number := text.dropWhile isspace
  let digits := if number.head? = some 45 ∨ number.head? = some 43 then number.tail else number
  if digits.takeWhile isdigit = [] then
    (0, text)
  else
    let value := (decimalValue digits).toNat
    if 2 ^ 64 ≤ value then (2 ^ 64 - 1, digits.dropWhile isdigit)
    else if number.head? = some 45 then ((2 ^ 64 - value) % 2 ^ 64, digits.dropWhile isdigit)
    else (value, digits.dropWhile isdigit)

/-- `strncmp(a, b, n)` from the C library, on characters that may be followed by a NUL. -/
def strncmp (a b : List Int8) (n : Nat) : Int :=
  strcmpChars ((a.takeWhile (· ≠ 0)).take n) ((b.takeWhile (· ≠ 0)).take n)

theorem nul_notMem_cstring (obj : List UInt8) : 0 ∉ (cstring obj).map UInt8.toInt8 := by
  intro h
  obtain ⟨c, hc, hzero⟩ := List.mem_map.mp h
  have hne := List.mem_takeWhile_imp hc
  have hc0 : c = 0 := congrArg Int8.toUInt8 hzero
  simp [hc0] at hne

/-- The string in an object; there has to be a terminator. -/
def stringOf (obj : List UInt8) : Option CString :=
  if 0 ∈ obj then some ⟨(cstring obj).map UInt8.toInt8, nul_notMem_cstring obj⟩ else none

/-- `*(int *)a - *(int *)b`. -/
def pidDifference (a b : UInt32) : Option Int := cInt (a.toInt32.toInt - b.toInt32.toInt)

/-- `pid_cmp_func`. -/
def pidCmpFunc (a b : UInt32) : Option Int := pidDifference a b

/-- `pid_bsearch_func`. -/
def pidBsearchFunc (pkey pelem : UInt32) : Option Int := pidDifference pkey pelem

/-- `cmp_arg0_basename(arg0, basename)`. -/
def cmpArg0Basename (fs : FileSystem) (arg0 basename : CString) : Bool :=
  match (pathExtract fs (some arg0) false true).2.2 with
  | .str ptr => strncmp basename.chars ptr maxProcCmdlineArgSz = 0
  | .unset | .null => false

/-- The text `"/proc/self/exe"`. -/
def procSelfExe : List Int8 := charsOf "/proc/self/exe".toList

/-- `pomit_arr && bsearch(&pid, pomit_arr, ..)`. -/
def pidOmitted (pomitArr : Option (List UInt32)) (pid : UInt32) : Option Bool :=
  match pomitArr with
  | none => some false
  | some arr => (bsearch pidBsearchFunc pid arr).map Option.isSome

/-- The body of the loop of `pid_of` for the entry `name`: the result, if it returns. -/
def pidOfEntry (junk : Nat → UInt8) (fuel : Nat) (proc : ProcFs) (exeName : CString)
    (pomitArr : Option (List UInt32)) (name : CString) : Option (Option UInt32) := do
  if name.chars = [] then return none
  let (value, ptr) := strtoul name.chars
  let pid := UInt32.ofNat value
  if ptr ≠ [] then return none
  let omitted ← pidOmitted pomitArr pid
  if omitted then return none
  match ← parseProcCmdline junk fuel proc.disk pid 1 with
  | none => return none
  | some obj =>
    let arg0 ← stringOf obj
    if strcmpChars arg0.chars procSelfExe = 0 then return none
    if ¬ cmpArg0Basename proc.fs arg0 exeName then return none
    return some pid

/-- The loop of `pid_of`. -/
def pidOfLoop (junk : Nat → UInt8) (fuel : Nat) (proc : ProcFs) (exeName : CString)
    (pomitArr : Option (List UInt32)) : List CString → Option UInt32
  | [] => some 0
  | name :: names => do
    match ← pidOfEntry junk fuel proc exeName pomitArr name with
    | some pid => return pid
    | none => pidOfLoop junk fuel proc exeName pomitArr names

/-- `pid_of(exe_name, pomit_arr, arr_len)`: the result and the array after the call.  A
    `pomit_arr` has at least `arr_len` elements. -/
def pidOf (junk : Nat → UInt8) (fuel : Nat) (proc : ProcFs) (exeName : CString)
    (pomitArr : Option (List UInt32)) (arrLen : Nat) :
    Option (UInt32 × Option (List UInt32)) := do
  match pomitArr with
  | none =>
    if arrLen ≠ 0 then
      return (0, none)
    match proc.entries with
    | none => return (0, none)
    | some names => return (← pidOfLoop junk fuel proc exeName none names, none)
  | some arr =>
    match proc.entries with
    | none => return (0, some arr)
    | some names =>
      let sorted ← (readAt arr 0 arrLen).bind (qsort pidCmpFunc)
      let pid ← pidOfLoop junk fuel proc exeName (some sorted) names
      return (pid, some (splice arr 0 sorted))

/-! ## Files with the number of a process -/

/-- The text of `"%d"`. -/
def decimalText (n : Int) : List UInt8 :=
  ((if n < 0 then ['-'] else []) ++ Nat.toDigits 10 n.natAbs).map fun c => UInt8.ofNat c.toNat

/-- `write_pid(file)`, where `getpid()` returns `pid`: the result and the disk. -/
def writePid (pid : Int) (disk : Disk) (file : Option (List Int8)) : Option (Int × Disk) :=
  match file with
  | none => some (1, disk)
  | some file =>
    match disk.openWrite file with
    | none => some (-1, disk)
    | some disk => do
      -- at most 12 characters, which fit into `pid_str`
      let pidStr := decimalText pid ++ [10]
      -- what `fputs` returns is not looked at
      let (disk, _) ← disk.fwrite file pidStr 1 pidStr.length
      return (0, disk)

/-- `fscanf(fd, "%d", &n)` on the bytes that are left: the number, if one was read.  A number
    that is not an `int` faults. -/
def fscanfInt (bytes : List UInt8) : Option (Option Int) :=
  let number := (bytes.map UInt8.toInt8).dropWhile isspace
  let digits := if number.head? = some 45 ∨ number.head? = some 43 then number.tail else number
  if digits.takeWhile isdigit = [] then some none
  else if number.head? = some 45 then (cInt (-decimalValue digits)).map some
  else (cInt (decimalValue digits)).map some

/-- `read_pid(file, &pid)`: the result and `pid` after the call.  `pid_val` is not initialised,
    and stored in any case. -/
def readPid (pidVal : Int) (disk : Disk) (file : Option (List Int8)) (pid : Int) :
    Option (Int × Int) :=
  match file with
  | none => some (-1, pid)
  | some file =>
    match disk.openRead file with
    | none => some (-1, pid)
    | some fd => do
      match ← fscanfInt fd.rest with
      | none => return (-1, pidVal)
      | some pid => return (0, pid)

end CUtils
