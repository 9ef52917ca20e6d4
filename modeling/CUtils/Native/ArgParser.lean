import CUtils.Native.StrUtils
import Mathlib.Logic.Function.Basic

/-!
# Argument parser

`ap_parse` of `arg_parser.c`.  The values that `getopt_long` returns until it returns a
negative one are an input, with `optarg` at the time and with `argv` and `optind` as they
are afterwards; so is the result of `fork`.  The object that `data` points to is the
function from the offsets of its fields to their values.  A result `none` means that the
code would follow NULL, leave an array, overflow an `int` or fail an assertion.
-/

namespace CUtils

/-- `enum ap_type_e`. -/
inductive ApType
  | cmd
  | bool
  | int
  | str
  | boolHandler
  | sentinel
deriving DecidableEq

/-- A field of the object that `data` points to. -/
inductive ApValue
  | int (v : Int)
  | str (s : Option CString)

/-- The object that `data` points to. -/
abbrev ApData := Nat → ApValue

/-- `AP_OPT_REQUIRED`. -/
def apOptRequired : UInt32 := 0x00000001

/-- `AP_OPT_SEEN`. -/
def apOptSeen : UInt32 := 0x10000000

/-- `struct ap_option`; a NULL pointer is `none`.  A validator may change the object, and
    of a `bool_handler` only its presence matters. -/
structure ApOption where
  shortName : Int8
  longName : Option CString
  type : ApType
  offset : Nat
  flags : UInt32
  validator : Option (ApData → ApData × Int)
  handler : Option (Int → List CString → ApData → Int)
  boolHandler : Bool

namespace ApOption

/-- `flags & AP_OPT_REQUIRED`. -/
def required (o : ApOption) : Bool := o.flags &&& apOptRequired ≠ 0

/-- `flags & AP_OPT_SEEN`. -/
def seen (o : ApOption) : Bool := o.flags &&& apOptSeen ≠ 0

/-- `flags |= AP_OPT_SEEN`. -/
def markSeen (o : ApOption) : ApOption := { o with flags := o.flags ||| apOptSeen }

end ApOption

/-- What is printed before an `exit`. -/
inductive ApMessage
  | nothing
  /-- the help of `ap_print_help` alone -/
  | help
  /-- `Error: arg '%c' is mandatory`, and the help -/
  | mandatory (shortName : Int8)
  /-- `Error: unknown command '%s'`, and the help -/
  | unknownCommand (word : Option CString)
  /-- `Error: invalid arg type %d` -/
  | invalidType (type : ApType)

/-- The rest of the function runs, or the program exits. -/
inductive ApFlow (σ : Type)
  | next (s : σ)
  | exit (code : Int) (msg : ApMessage)

/-- How a call of `ap_parse` ends.  `called` is the call of the handler of the command at
    an index of the table, whose result is returned. -/
inductive ApOutcome
  | exit (code : Int) (msg : ApMessage)
  | ret (value : Int) (table : List ApOption)
  | called (cmd : Nat) (argc : Int) (argv : List CString) (data : ApData)
      (table : List ApOption) (value : Int)

/-- The parameters of `ap_parse`, and what the C library and the system return. -/
structure ApCall where
  table : List ApOption
  data : ApData
  results : List (Nat × Option CString)
  argv : List CString
  optind : Nat
  forkPid : Int

/-- The records in front of the one with the short name `'\0'`. -/
def apOpts : List ApOption → Option (List ApOption)
  | [] => none
  | o :: table => if o.shortName = 0 then some [] else (apOpts table).map (o :: ·)

/-- `ostr`, with the letters of the default options. -/
def apOstr : List ApOption → List Int8 → Option (List Int8)
  | [], ostr => do
    cAssert (ostr.length + 4 < 128)
    return ostr ++ [104, 113, 102]
  | o :: opts, ostr =>
    if o.shortName = -1 then
      apOstr opts ostr
    else if o.type = .bool ∨ o.type = .boolHandler then do
      cAssert (ostr.length + 2 < 128)
      apOstr opts (ostr ++ [o.shortName])
    else do
      cAssert (ostr.length + 3 < 128)
      apOstr opts (ostr ++ [o.shortName, 58])

/-- `for (i = 0; i < ap_opts_len && c != ap_opts[i].short_name; i++)`: where it ends. -/
def apFind (opts : List ApOption) (c : Nat) : Nat :=
  opts.findIdx fun o => (c : Int) = o.shortName.toInt

/-- The `switch` over the type of an option. -/
def apStore (o : ApOption) (optarg : Option CString) (data : ApData) : Option (ApFlow ApData) :=
  match o.type with
  | .bool => some (.next (Function.update data o.offset (.int 1)))
  | .str => optarg.map fun s => .next (Function.update data o.offset (.str (some s)))
  | .int => do
    let s ← optarg
    let v ← atoi s
    return .next (Function.update data o.offset (.int v))
  | .boolHandler => if o.boolHandler then some (.exit 0 .nothing) else none
  | .cmd => some (.exit (-1) (.invalidType .cmd))
  | .sentinel => some (.exit (-1) (.invalidType .sentinel))

/-- `validator(data)`, which succeeds where there is none. -/
def apValidate (o : ApOption) (data : ApData) : ApData × Int :=
  match o.validator with
  | none => (data, 0)
  | some validator => validator data

/-- The local variables of the loop over the delivered options. -/
structure ApState where
  table : List ApOption
  data : ApData
  doFork : Bool

/-- The body of the loop over the delivered options; `n` is `ap_opts_len`. -/
def apOption (n : Nat) (st : ApState) (c : Nat) (optarg : Option CString) :
    Option (ApFlow ApState) :=
  let i := apFind (st.table.take n) c
  if c = 104 then -- 'h'
    some (.exit 0 .help)
  else if c = 113 then -- 'q'
    some (.next st)
  else if c = 102 then -- 'f'
    some (.next { st with doFork := true })
  else if c = 63 then -- '?'
    some (.exit (-1) .help)
  else do
    let o ← st.table[i]?
    match ← apStore o optarg st.data with
    | .exit code msg => return .exit code msg
    | .next data =>
      let checked := apValidate o data
      if checked.2 ≠ 0 then
        return .exit (-1) .nothing
      else
        return .next { st with table := st.table.set i o.markSeen, data := checked.1 }

/-- The loop over the delivered options. -/
def apOptions (n : Nat) : ApState → List (Nat × Option CString) → Option (ApFlow ApState)
  | st, [] => some (.next st)
  | st, (c, optarg) :: results => do
    match ← apOption n st c optarg with
    | .exit code msg => return .exit code msg
    | .next st => apOptions n st results

/-- `argv[i]`, which is NULL behind the last argument. -/
def argvAt (argv : List CString) (i : Nat) : Option (Option CString) :=
  if i ≤ argv.length then some argv[i]? else none

/-- The start of a command: fork if that was asked for, and call the handler. -/
def apCommand (call : ApCall) (st : ApState) (i : Nat) (o : ApOption) : Option ApOutcome :=
  if st.doFork ∧ call.forkPid < 0 then
    some (.ret (-1) st.table)
  else if st.doFork ∧ call.forkPid ≠ 0 then
    some (.exit 0 .nothing)
  else do
    let handler ← o.handler
    let argc : Int := (call.argv.length : Int) - call.optind - 1
    let argv := call.argv.drop (call.optind + 1)
    return .called i argc argv st.data st.table (handler argc argv st.data)

/-- The pass over the table from index `i` on, and the end of `ap_parse`. -/
def apDispatch (call : ApCall) (st : ApState) (cmdLen : Nat) : Nat → List ApOption →
    Option ApOutcome
  | _, [] => none
  | i, o :: table =>
    if o.shortName = 0 then
      if cmdLen ≠ 0 then do
        let word ← argvAt call.argv call.optind
        return .exit (-1) (.unknownCommand word)
      else
        some (.ret call.optind st.table)
    else if o.shortName ≠ -1 then
      if o.required ∧ ¬o.seen then
        some (.exit (-1) (.mandatory o.shortName))
      else
        apDispatch call st cmdLen (i + 1) table
    else do
      match ← argvAt call.argv call.optind with
      | none => apDispatch call st cmdLen (i + 1) table
      | some word =>
        let name ← o.longName
        let cmp ← strcmp name (some word)
        if cmp = 0 then
          apCommand call st i o
        else
          apDispatch call st cmdLen (i + 1) table

/-- `ap_parse(argc, argv, ap_opts, data)`. -/
def apParse (call : ApCall) : Option ApOutcome := do
  let opts ← apOpts call.table
  let _ ← apOstr opts []
  match ← apOptions opts.length ⟨call.table, call.data, false⟩ call.results with
  | .exit code msg => return .exit code msg
  | .next st => apDispatch call st (opts.countP (·.shortName = -1)) 0 st.table

end CUtils
