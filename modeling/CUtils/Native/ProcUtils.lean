import CUtils.Native.Stdio

/-!
# Command lines of processes

`parse_proc_cmdline` of `procutils.c`.  The loops over a stream take fuel.
-/

namespace CUtils

/-- `MAX_PROC_CMDLINE_PATH_SZ`. -/
def maxProcCmdlinePathSz : Nat := 40

/-- `MAX_PROC_CMDLINE_ARG_SZ`. -/
def maxProcCmdlineArgSz : Nat := 200

/-- The characters of a text. -/
def charsOf (text : List Char) : List Int8 := text.map fun c => (UInt8.ofNat c.toNat).toInt8

/-- The text of `"/proc/%u/cmdline"`. -/
def procCmdlinePath (pid : UInt32) : List Int8 :=
  charsOf ("/proc/".toList ++ Nat.toDigits 10 pid.toNat ++ "/cmdline".toList)

/-- `for (c = fgetc(fd); c != EOF && c != 0; c = fgetc(fd))`. -/
def skipArg : Nat → Stream → Option Stream
  | 0, _ => none
  | fuel + 1, fd =>
    let (c, fd) := fd.fgetc
    match c with
    | none => some fd
    | some c => if c = 0 then some fd else skipArg fuel fd

/-- `while (--pos > 0)` with that many rounds left. -/
def skipArgs (fuel : Nat) : Nat → Stream → Option Stream
  | 0, fd => some fd
  | pos + 1, fd => (skipArg fuel fd).bind (skipArgs fuel pos)

/-- The loop that stores the argument in `arg`: the object and `ndx`. -/
def readArg : Nat → List UInt8 → Nat → Stream → Option (List UInt8 × Nat)
  | 0, _, _, _ => none
  | fuel + 1, arg, ndx, fd =>
    let (c, fd) := fd.fgetc
    match c with
    | none => some (arg, ndx)
    | some c => do
      let arg ← writeAt arg ndx [c]
      let ndx := ndx + 1
      if c = 0 ∨ ndx ≥ maxProcCmdlineArgSz then
        return (arg, ndx)
      else
        readArg fuel arg ndx fd

/-- `parse_proc_cmdline(pid, pos)`. -/
def parseProcCmdline (junk : Nat → UInt8) (fuel : Nat) (disk : Disk) (pid : UInt32) (pos : Int) :
    Option (Option (List UInt8)) := do
  let buf := procCmdlinePath pid
  -- the text and its terminator have to fit into `buf`
  cAssert (buf.length < maxProcCmdlinePathSz + 1)
  match disk.openRead buf with
  | none => return none
  | some fd =>
    let pos ← cInt (pos - 1)
    let fd ← skipArgs fuel pos.toNat fd
    if fd.eof then
      return none
    else
      let arg := safeMalloc junk (maxProcCmdlineArgSz + 1)
      let (arg, ndx) ← readArg fuel arg 0 fd
      let arg ← writeAt arg ndx [0]
      return if ndx = 1 then none else some arg

end CUtils
