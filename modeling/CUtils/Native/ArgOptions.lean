import CUtils.Native.ArgParser
import CUtils.ForStd.Bytes

/-!
# The options for `getopt_long`

The first part of `ap_parse` of `arg_parser.c`: the array of `struct option` and the string
of short options.  A field of the array that was not stored since `safe_malloc` is `none`.
-/

namespace CUtils

/-- `no_argument`. -/
def noArgument : Int := 0

/-- `required_argument`. -/
def requiredArgument : Int := 1

/-- `struct option`; the pointers `name` and `flag` may be NULL. -/
structure LongOption where
  name : Option (Option CString)
  hasArg : Option Int
  flag : Option (Option Nat)
  val : Option Int
deriving DecidableEq

/-- An entry that was just allocated. -/
def LongOption.fresh : LongOption where
  name := none
  hasArg := none
  flag := none
  val := none

/-- `opt[i].field = ..`; behind the block it faults. -/
def storeOption (block : List LongOption) (i : Nat) (store : LongOption → LongOption) :
    Option (List LongOption) :=
  (block[i]?).map fun opt => block.set i (store opt)

/-- `has_arg` of an option and its letters in `ostr`, for which there has to be room. -/
def apShort (o : ApOption) (olen : Nat) : Option (Int × List Int8) :=
  if o.type = .bool ∨ o.type = .boolHandler then do
    cAssert (olen + 2 < 128)
    return (noArgument, [o.shortName])
  else do
    cAssert (olen + 3 < 128)
    return (requiredArgument, [o.shortName, 58])

/-- The pass that fills the array from the index `i` on and the string `ostr`: the array, the
    last value of `i` and the string. -/
def apFill : List ApOption → List LongOption → Nat → List Int8 →
    Option (List LongOption × Nat × List Int8)
  | [], block, i, ostr => some (block, i, ostr)
  | o :: opts, block, i, ostr =>
    if o.shortName = -1 then
      apFill opts block i ostr
    else do
      let (hasArg, letters) ← apShort o ostr.length
      let block ← storeOption block i fun opt =>
        { opt with name := some o.longName, hasArg := some hasArg, flag := some none,
                   val := some o.shortName.toInt }
      apFill opts block (i + 1) (ostr ++ letters)

/-- `"help"`. -/
def helpName : CString := ⟨[104, 101, 108, 112], by decide⟩

/-- `"quite"`. -/
def quiteName : CString := ⟨[113, 117, 105, 116, 101], by decide⟩

/-- The entries for help and the other default options, from the index `i` on. -/
def apDefaults (block : List LongOption) (i : Nat) : Option (List LongOption) := do
  let block ← storeOption block (i + 0) fun opt =>
    { opt with name := some (some helpName), val := some 104 }
  let block ← storeOption block (i + 1) fun opt =>
    { opt with name := some (some quiteName), val := some 113 }
  storeOption block (i + 2) fun opt => { opt with val := some 102 }

/-- The array and the string that `ap_parse` hands to `getopt_long`. -/
def apBuildOpts (table : List ApOption) : Option (List LongOption × List Int8) := do
  let opts ← apOpts table
  let optsLen := opts.countP (·.shortName ≠ -1)
  let block := List.replicate (optsLen + 3) LongOption.fresh
  let (block, i, ostr) ← apFill opts block 0 []
  cAssert (ostr.length + 4 < 128)
  let block ← apDefaults block i
  return (block, ostr ++ [104, 113, 102])

end CUtils
