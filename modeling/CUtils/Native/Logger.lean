import CUtils.Native.StrLib
import Mathlib.Data.List.DropRight

/-!
# Logger

`__logger_log` of `logger.c`.  The line is put together in a buffer on the stack, which is
handed to a callback, or written to a file or by the `puts` of the logger.
-/

namespace CUtils

/-- `LOG_BUF_LEN`; the buffer has two more bytes for the newline and the NUL. -/
def logBufLen : Nat := 192

/-- `LOG_MAX_LEVEL`. -/
def logMaxLevel : Int := 8

/-- `LOGGER_FLAG_NO_COLORS`. -/
def loggerFlagNoColors : UInt32 := 1

/-- The bytes of a text. -/
def bytesOf (text : String) : List UInt8 := text.toList.map fun c => UInt8.ofNat c.toNat

/-- `RESET`. -/
def logReset : List UInt8 := bytesOf "\x1b[0m"

/-- `log_level_colors`. -/
def logLevelColors : List (List UInt8) :=
  ["\x1b[31m", "\x1b[31m", "\x1b[31m", "\x1b[31m", "\x1b[33m", "\x1b[35m", "\x1b[32m",
    "\x1b[0m"].map bytesOf

/-- `log_level_names`. -/
def logLevelNames : List (List UInt8) :=
  ["EMERG", "ALERT", "CRIT ", "ERROR", "WARN ", "NOTIC", "INFO ", "DEBUG"].map bytesOf

/-- What a log call reads of a `logger_t`: whether the pointers `file`, `puts` and `cb` are
    set.  `logger_init` refuses a logger without any of them. -/
structure Logger where
  name : List UInt8
  logLevel : Int
  flags : UInt32
  file : Bool
  puts : Bool
  cb : Bool
  has_sink : (file || puts || cb) = true

/-- What a log call does; a buffer is handed over as a whole. -/
inductive LogEvent
  | color (bs : List UInt8)
  | callback (logLevel : Int) (file : List UInt8) (line : UInt64) (buf : List UInt8)
  | fputs (buf : List UInt8)
  | puts (buf : List UInt8)
deriving DecidableEq

/-- `logger_log_set_color(ctx, color)`; `tty` tells if the file is a terminal. -/
def loggerLogSetColor (ctx : Logger) (tty : Bool) (color : List UInt8) : List LogEvent :=
  if ctx.flags &&& loggerFlagNoColors ≠ 0 then []
  else if ctx.file ∧ tty then [.color (color.take 8)]
  else []

/-- The text of `"%s: %s %11s:%-4lu [%s] "`. -/
def logPrefix (ctx : Logger) (tstamp : List UInt8) (logLevel : Int) (file : List UInt8)
    (line : UInt64) : List UInt8 :=
  ctx.name ++ bytesOf ": " ++ tstamp ++ bytesOf " " ++ file.leftpad 11 32 ++ bytesOf ":" ++
    (bytesOf (toString line.toNat)).rightpad 4 32 ++ bytesOf " [" ++
    logLevelNames.getD logLevel.toNat [] ++ bytesOf "] "

/-- `while (len && buf[--len] == '\0')` for a length that is not negative. -/
def scanBack (buf : List UInt8) : Nat → Option Nat
  | 0 => some 0
  | len + 1 => do
    let c ← buf[len]?
    if c = 0 then scanBack buf len else return len

/-- `terminate_log_line(buf, len)`; with a negative length the first read is in front of the
    buffer. -/
def terminateLogLine (buf : List UInt8) (len : Int) : Option (List UInt8 × Int) := do
  let len ← cOffset len
  let len ← scanBack buf len
  let c ← buf[len]?
  if c ≠ 10 then
    let buf ← writeAt buf (len + 1) [10]
    let buf ← writeAt buf (len + 2) [0]
    return (buf, (len + 2 : Nat))
  else
    let buf ← writeAt buf (len + 1) [0]
    return (buf, (len + 1 : Nat))

/-- The buffer, and `len` after the prefix is printed; a logger with a callback has none. -/
def loggerStart (pre : Option (List UInt8)) : Option (Option (List UInt8) × Int) :=
  let buf := some (List.replicate (logBufLen + 2) 0)
  match pre with
  | none => some (buf, 0)
  | some pre => vsnprintf buf 0 logBufLen (.text pre)

/-- Both formatting steps: the buffer and `len` at the label `out`. -/
def loggerFormat (pre : Option (List UInt8)) (msg : VsnprintfOutcome) :
    Option (List UInt8 × Int) := do
  let (buf, len) ← loggerStart pre
  if len > logBufLen then
    return (← buf, len)
  else
    let (buf, n) ← vsnprintf buf len (castSize (logBufLen - len)) msg
    let len ← cInt (len + n)
    return (← buf, len)

/-- The end of `__logger_log`: the buffer goes to the callback, the file or `puts`. -/
def logEvents (ctx : Logger) (tty : Bool) (logLevel : Int) (file : List UInt8) (line : UInt64)
    (buf : List UInt8) : List LogEvent :=
  if ctx.cb then
    [.callback logLevel file line buf]
  else
    loggerLogSetColor ctx tty (logLevelColors.getD logLevel.toNat []) ++
      (if ctx.file then .fputs buf else .puts buf) :: loggerLogSetColor ctx tty logReset

/-- `__logger_log(ctx, log_level, file, line, fmt, ...)`: the result and what is done.  NULL
    stands for the default logger. -/
def loggerLog (defaultLogger : Logger) (tty : Bool) (tstamp : List UInt8) (ctx : Option Logger)
    (logLevel : Int) (file : List UInt8) (line : UInt64) (msg : VsnprintfOutcome) :
    Option (Int × List LogEvent) := do
  let ctx := ctx.getD defaultLogger
  -- what follows the last separator
  let file := file.rtakeWhile (· ≠ 47)
  if ¬ctx.cb ∧ (logLevel < 0 ∨ logLevel ≥ logMaxLevel ∨ logLevel > ctx.logLevel) then
    return (0, [])
  else
    let pre := if ctx.cb then none else some (logPrefix ctx tstamp logLevel file line)
    let (buf, len) ← loggerFormat pre msg
    let len := if len > logBufLen then (logBufLen : Int) else len
    let (buf, len) ← terminateLogLine buf len
    return (len, logEvents ctx tty logLevel file line buf)

end CUtils
