import CUtils.Native.Logger

/-!
# Log lines

While a line is put together, the buffer holds the first 191 bytes of the text and zeros
behind them (`lineBuf`).  The scan for the end of the line stops at the last byte of the
text, but it never looks at the length 0, and the length itself is an `int`.

- `loggerLog_correct_iff`: which lines are handed over as they should be.
-/

namespace CUtils

/-- The buffer with the bytes of the text that fit. -/
def lineBuf (text : List UInt8) : List UInt8 :=
  text.take 191 ++ List.replicate (194 - (text.take 191).length) 0

/-- The line for a text. -/
def logLine (text : List UInt8) : List UInt8 :=
  if (text.take 191).getLast? = some 10 then text.take 191 else text.take 191 ++ [10]

theorem nul_notMem_logLine {text : List UInt8} (h : 0 ∉ text) : 0 ∉ logLine text := by
  have hcut : 0 ∉ text.take 191 := fun hmem => h (List.mem_of_mem_take hmem)
  unfold logLine
  split
  · exact hcut
  · intro hmem
    rcases List.mem_append.mp hmem with hin | hin
    · exact hcut hin
    · exact absurd (List.mem_singleton.mp hin) (by decide)

theorem length_lineBuf (text : List UInt8) : (lineBuf text).length = 194 := by
  have hle : (text.take 191).length ≤ 191 := List.length_take_le ..
  rw [lineBuf, List.length_append, List.length_replicate]
  omega

/-! ## The two formatting steps -/

/-- What is stored behind a text that leaves room for a NUL. -/
theorem splice_lineBuf {t m : List UInt8} (ht : t.length ≤ 191) :
    splice (lineBuf t) t.length (m.take (191 - t.length) ++ [0]) = lineBuf (t ++ m) := by
  have htake : t.take 191 = t := List.take_of_length_le ht
  have hmin : (m.take (191 - t.length)).length ≤ 191 - t.length := List.length_take_le ..
  have hrest : 194 - (t.length + (m.take (191 - t.length)).length) =
      194 - t.length - ((m.take (191 - t.length)).length + 1) + 1 := by omega
  rw [splice, lineBuf, lineBuf, htake, List.take_left, List.take_append, htake,
    List.drop_append, List.length_append, List.length_append, List.length_singleton,
    Nat.add_sub_cancel_left, List.drop_replicate, hrest, List.replicate_succ,
    List.drop_eq_nil_of_le (Nat.le_add_right ..)]
  simp

/-- Formatting behind a text extends it, if the text is not longer than the buffer. -/
theorem vsnprintf_lineBuf {t m : List UInt8} (ht : t.length ≤ 192) (hm : m.length < 2 ^ 31) :
    vsnprintf (some (lineBuf t)) t.length (192 - t.length) (.text m) =
      some (some (lineBuf (t ++ m)), (m.length : Int)) := by
  have hret : cInt (m.length : Int) = some (m.length : Int) := cInt_eq_natCast rfl hm
  by_cases hfull : t.length = 192
  · -- there is no room, not even for the NUL
    have htake : (t ++ m).take 191 = t.take 191 := List.take_append_of_le_length (by omega)
    simp [vsnprintf, VsnprintfOutcome.ret, hret, hfull, lineBuf, htake]
  · have hne : ¬ 192 - t.length = 0 := by omega
    have hsize : 192 - t.length - 1 = 191 - t.length := by omega
    have hmin : (m.take (191 - t.length)).length ≤ 191 - t.length := List.length_take_le ..
    have hin : t.length + (m.take (191 - t.length) ++ [0]).length ≤ (lineBuf t).length := by
      rw [length_lineBuf, List.length_append, List.length_singleton]
      omega
    have hbuf : splice (lineBuf t) t.length (m.take (191 - t.length) ++ [0]) =
        lineBuf (t ++ m) := splice_lineBuf (by omega)
    simp only [vsnprintf, VsnprintfOutcome.ret, hret, VsnprintfOutcome.stored, hsize, cOffset,
      Int.natCast_nonneg, Int.toNat_natCast, writeAt_of_le hin, hbuf, if_neg hne, if_true,
      Option.bind_eq_bind, Option.bind_some, Option.pure_def]

/-- The prefix, which may be missing, as a text. -/
def prefixText (pre : Option (List UInt8)) : List UInt8 := pre.getD []

/-- The prefix is stored in the empty buffer. -/
theorem loggerStart_eq {pre : Option (List UInt8)} (hp : (prefixText pre).length < 2 ^ 31) :
    loggerStart pre = some (some (lineBuf (prefixText pre)), ((prefixText pre).length : Int)) := by
  cases pre with
  | none => rfl
  | some _ => exact vsnprintf_lineBuf (t := []) (Nat.zero_le _) hp

/-- The buffer and the length at the label `out`. -/
theorem loggerFormat_eq {pre : Option (List UInt8)} {m : List UInt8}
    (hp : (prefixText pre).length < 2 ^ 31) (hm : m.length < 2 ^ 31) :
    loggerFormat pre (.text m) =
      if 192 < (prefixText pre).length then
        some (lineBuf (prefixText pre), ((prefixText pre).length : Int))
      else
        (cInt ((prefixText pre).length + m.length)).map
          fun len => (lineBuf (prefixText pre ++ m), len) := by
  have hlen : ((logBufLen : Nat) : Int) = 192 := rfl
  rw [loggerFormat, loggerStart_eq hp, hlen]
  simp only [Option.bind_eq_bind, Option.bind_some, Option.pure_def]
  by_cases hlt : 192 < (prefixText pre).length
  · rw [if_pos hlt, if_pos (by omega)]
  · have hroom : castSize (192 - (prefixText pre).length : Int) = 192 - (prefixText pre).length :=
      castSize_eq (by omega) (by omega)
    rw [if_neg hlt, if_neg (by omega), hroom, vsnprintf_lineBuf (by omega) hm, Option.bind_some,
      Option.map_eq_bind]
    rfl

/-! ## The end of the line -/

/-- The scan finds the last byte of a text without NUL. -/
theorem scanBack_eq {xs : List UInt8} {c : UInt8} {k n : Nat} (hc : c ≠ 0)
    (hlo : xs.length < n) (hhi : n ≤ xs.length + 1 + k) :
    scanBack (xs ++ c :: List.replicate k 0) n = some xs.length := by
  induction n with
  | zero => omega
  | succ n ih =>
    by_cases hlast : n = xs.length
    · rw [scanBack, hlast, List.getElem?_append_right (Nat.le_refl _), Nat.sub_self]
      simp [hc]
    · -- a byte behind the text
      have hzero : (xs ++ c :: List.replicate k 0)[n]? = some 0 := by
        obtain ⟨i, rfl⟩ := Nat.exists_eq_add_of_lt (show xs.length < n by omega)
        have hsub : xs.length + i + 1 - xs.length = i + 1 := by omega
        rw [List.getElem?_append_right (by omega), hsub, List.getElem?_cons_succ,
          List.getElem?_replicate, if_pos (by omega)]
      rw [scanBack, hzero, Option.bind_eq_bind, Option.bind_some, if_pos rfl]
      exact ih (by omega) (by omega)

/-- A store of one byte behind a prefix. -/
theorem writeAt_append {ys zs : List UInt8} {z v : UInt8} :
    writeAt (ys ++ z :: zs) ys.length [v] = some (ys ++ v :: zs) := by
  have hin : ys.length + [v].length ≤ (ys ++ z :: zs).length := by
    rw [List.length_append, List.length_singleton, List.length_cons]
    omega
  rw [writeAt_of_le hin, splice, List.take_left, List.drop_append]
  simp

/-- The newline and the NUL are stored behind the last byte that is no NUL. -/
theorem terminateLogLine_concat {xs : List UInt8} {c : UInt8} {n k : Nat} (hc : c ≠ 0)
    (hlo : xs.length < n) (hhi : n ≤ xs.length + 3 + k) :
    terminateLogLine (xs ++ c :: List.replicate (k + 2) 0) n =
      some (if c = 10 then
          (xs ++ [c] ++ 0 :: List.replicate (k + 1) 0, ((xs ++ [c]).length : Int))
        else
          (xs ++ [c] ++ [10] ++ 0 :: List.replicate k 0, ((xs ++ [c] ++ [10]).length : Int))) := by
  have hscan : scanBack (xs ++ c :: List.replicate (k + 2) 0) n = some xs.length :=
    scanBack_eq hc hlo (by omega)
  have hget : (xs ++ c :: List.replicate (k + 2) 0)[xs.length]? = some c := by
    rw [List.getElem?_append_right (Nat.le_refl _), Nat.sub_self]
    rfl
  have hsize : xs.length + 1 = (xs ++ [c]).length := by
    rw [List.length_append, List.length_singleton]
  have hsize' : xs.length + 2 = (xs ++ [c] ++ [10]).length := by
    rw [List.length_append, ← hsize, List.length_singleton]
  simp only [terminateLogLine, cOffset_of_nonneg (Int.natCast_nonneg n), Int.toNat_natCast, hscan,
    hget, Option.bind_eq_bind, Option.bind_some]
  rw [List.append_cons, List.replicate_succ, hsize, writeAt_append]
  by_cases hnl : c = 10
  · -- only the NUL is stored
    rw [if_neg (not_not.mpr hnl), if_pos hnl, writeAt_append]
    rfl
  · -- one more byte is stored
    have hsplit : xs ++ [c] ++ 10 :: List.replicate (k + 1) 0 =
        xs ++ [c] ++ [10] ++ 0 :: List.replicate k 0 := by
      rw [List.append_cons, List.replicate_succ]
    rw [if_pos hnl, if_neg hnl, Option.bind_some, hsplit, hsize', writeAt_append]
    rfl

/-- The end of a line: the buffer holds the line and a NUL. -/
theorem terminateLogLine_eq {text : List UInt8} {len : Int} (hne : text ≠ []) (hnul : 0 ∉ text)
    (hlen : len = min text.length 192) :
    ∃ tail, terminateLogLine (lineBuf text) len =
        some (logLine text ++ 0 :: tail, ((logLine text).length : Int)) ∧
      (logLine text ++ 0 :: tail).length = 194 := by
  obtain ⟨xs, c, hcut⟩ : ∃ xs c, text.take 191 = xs ++ [c] := by
    rcases List.eq_nil_or_concat' (text.take 191) with hnil | hlast
    · exact absurd (by simpa using hnil) hne
    · exact hlast
  have hc : c ≠ 0 := by
    rintro rfl
    exact hnul (List.mem_of_mem_take (hcut ▸ List.mem_append_right xs (List.mem_singleton_self _)))
  -- the scan starts behind the last byte that was kept
  have hlenCut : xs.length + 1 = min 191 text.length := by
    rw [← List.length_take, hcut, List.length_append, List.length_singleton]
  have hrep : 194 - (xs ++ [c]).length = 191 - xs.length + 2 := by
    rw [List.length_append, List.length_singleton]
    omega
  have hbuf : lineBuf text = xs ++ c :: List.replicate (191 - xs.length + 2) 0 := by
    rw [lineBuf, hcut, hrep, List.append_assoc, List.singleton_append]
  have hmin : len = ((min text.length 192 : Nat) : Int) := by omega
  have hend : terminateLogLine (xs ++ c :: List.replicate (191 - xs.length + 2) 0)
      ((min text.length 192 : Nat) : Int) = some _ :=
    terminateLogLine_concat hc (by omega) (by omega)
  rw [hbuf, hmin, hend]
  by_cases hnl : c = 10
  · have hline : logLine text = xs ++ [c] := by
      rw [logLine, hcut, if_pos (by rw [List.getLast?_concat, hnl])]
    rw [if_pos hnl, hline]
    refine ⟨_, rfl, ?_⟩
    simp
    omega
  · have hline : logLine text = xs ++ [c] ++ [10] := by
      rw [logLine, hcut, if_neg (by rw [List.getLast?_concat]; simpa using hnl)]
    rw [if_neg hnl, hline]
    refine ⟨_, rfl, ?_⟩
    simp
    omega

/-- The end of an empty line: the newline is stored behind the first NUL. -/
theorem terminateLogLine_nil : terminateLogLine (lineBuf []) 0 =
    some (0 :: 10 :: List.replicate 192 0, 2) := by
  decide +kernel

/-! ## The line -/

/-- Formatting and terminating a line, with the clamped length. -/
def loggerLine (pre : Option (List UInt8)) (out : VsnprintfOutcome) :
    Option (List UInt8 × Int) :=
  (loggerFormat pre out).bind fun r => terminateLogLine r.1 (min r.2 192)

section Line

variable {pre : Option (List UInt8)} {m : List UInt8}

theorem loggerLine_eq (hp : (prefixText pre).length < 2 ^ 31) (hm : m.length < 2 ^ 31)
    (hfit : 192 < (prefixText pre).length ∨ (prefixText pre).length + m.length < 2 ^ 31)
    (hne : prefixText pre ++ m ≠ []) (hnul : 0 ∉ prefixText pre ++ m) :
    ∃ tail, loggerLine pre (.text m) = some (logLine (prefixText pre ++ m) ++ 0 :: tail,
        ((logLine (prefixText pre ++ m)).length : Int)) ∧
      (logLine (prefixText pre ++ m) ++ 0 :: tail).length = 194 := by
  rw [loggerLine, loggerFormat_eq hp hm]
  by_cases hlt : 192 < (prefixText pre).length
  · -- the message is not printed, and would not be seen
    have hbuf : lineBuf (prefixText pre) = lineBuf (prefixText pre ++ m) := by
      rw [lineBuf, lineBuf, List.take_append_of_le_length (by omega)]
    rw [if_pos hlt, Option.bind_some, hbuf]
    apply terminateLogLine_eq hne hnul
    rw [List.length_append]
    omega
  · have hlen : cInt ((prefixText pre).length + m.length : Int) =
        some (((prefixText pre).length + m.length : Nat) : Int) :=
      cInt_eq_natCast (by omega) (by omega)
    rw [if_neg hlt, hlen, Option.map_some, Option.bind_some]
    apply terminateLogLine_eq hne hnul
    rw [List.length_append]
    omega

theorem loggerLine_of_overflow (hp : (prefixText pre).length ≤ 192) (hm : m.length < 2 ^ 31)
    (hover : 2 ^ 31 ≤ (prefixText pre).length + m.length) : loggerLine pre (.text m) = none := by
  have hlen : cInt ((prefixText pre).length + m.length : Int) = none := by
    unfold cInt intMax
    rw [if_neg (by omega)]
  rw [loggerLine, loggerFormat_eq (by omega) hm, if_neg (by omega), hlen]
  rfl

/-- The buffer of an empty line holds the empty string. -/
theorem loggerLine_nil (hnil : prefixText pre ++ m = []) :
    loggerLine pre (.text m) = some (0 :: 10 :: List.replicate 192 0, 2) := by
  obtain ⟨hpre, rfl⟩ := List.append_eq_nil_iff.mp hnil
  have hlen : cInt (([] : List UInt8).length + ([] : List UInt8).length : Int) = some 0 := by decide
  have hmin : min (0 : Int) 192 = 0 := by decide
  rw [loggerLine, loggerFormat_eq (by rw [hpre]; decide) (by decide), hpre, if_neg (by decide),
    hlen, Option.map_some, Option.bind_some, List.append_nil, hmin, terminateLogLine_nil]

end Line

/-! ## A log call -/

/-- The buffer that an event hands over. -/
def LogEvent.handed : LogEvent → Option (List UInt8)
  | .color _ => none
  | .callback _ _ _ buf => some buf
  | .fputs buf => some buf
  | .puts buf => some buf

section LogCall

variable (defaultLogger : Logger) (tty : Bool) (tstamp : List UInt8) (ctx : Option Logger)
variable (logLevel : Int) (file : List UInt8) (line : UInt64) (msg : List UInt8)

/-- The prefix that is printed, if there is no callback. -/
def logPrefixOf : Option (List UInt8) :=
  if (ctx.getD defaultLogger).cb then none
  else some (logPrefix (ctx.getD defaultLogger) tstamp logLevel (file.rtakeWhile (· ≠ 47)) line)

/-- The text of a log call. -/
def logText : List UInt8 :=
  prefixText (logPrefixOf defaultLogger tstamp ctx logLevel file line) ++ msg

/-- A log call that passes the level filter. -/
def LogPasses : Prop :=
  (ctx.getD defaultLogger).cb = true ∨
    0 ≤ logLevel ∧ logLevel < logMaxLevel ∧ logLevel ≤ (ctx.getD defaultLogger).logLevel

/-- What is expected of a log call: one buffer of 194 bytes is handed over, which holds the
    line, and the length of the line is returned. -/
def LogRight : Prop :=
  ∃ ret events buf, loggerLog defaultLogger tty tstamp ctx logLevel file line (.text msg) =
      some (ret, events) ∧
    events.filterMap LogEvent.handed = [buf] ∧ buf.length = 194 ∧ 0 ∈ buf ∧
    cstring buf = logLine (logText defaultLogger tstamp ctx logLevel file line msg) ∧
    ret = (logLine (logText defaultLogger tstamp ctx logLevel file line msg)).length

/-- The buffer is handed over once. -/
theorem handed_logEvents (c : Logger) (buf : List UInt8) :
    (logEvents c tty logLevel file line buf).filterMap LogEvent.handed = [buf] := by
  have hcolor : ∀ color, (loggerLogSetColor c tty color).filterMap LogEvent.handed = [] := by
    intro color
    unfold loggerLogSetColor
    split
    · rfl
    · split
      · rfl
      · rfl
  unfold logEvents
  split
  · rfl
  · rw [List.filterMap_append, hcolor, List.nil_append]
    split
    · exact congrArg (List.cons buf) (hcolor _)
    · exact congrArg (List.cons buf) (hcolor _)

/-- A log call puts the line together and hands it over. -/
theorem loggerLog_eq (hpass : LogPasses defaultLogger ctx logLevel) (out : VsnprintfOutcome) :
    loggerLog defaultLogger tty tstamp ctx logLevel file line out =
      (loggerLine (logPrefixOf defaultLogger tstamp ctx logLevel file line) out).map fun r =>
        (r.2, logEvents (ctx.getD defaultLogger) tty logLevel (file.rtakeWhile (· ≠ 47)) line
          r.1) := by
  have hfilter : ¬ (¬(ctx.getD defaultLogger).cb = true ∧ (logLevel < 0 ∨
      logLevel ≥ logMaxLevel ∨ logLevel > (ctx.getD defaultLogger).logLevel)) := by
    rintro ⟨hcb, hout⟩
    rcases hpass with hcb' | hin
    · exact hcb hcb'
    · omega
  have hmin : ∀ len : Int, (if len > logBufLen then (logBufLen : Int) else len) = min len 192 := by
    intro len
    unfold logBufLen
    split <;> omega
  simp only [loggerLog, if_neg hfilter, hmin, loggerLine, Option.map_eq_bind, Option.bind_assoc,
    Option.bind_eq_bind, Option.pure_def]
  rfl

/-- A log call hands over the right line exactly if there is a text and its length is an
    `int`, as far as it is computed. -/
theorem loggerLog_correct_iff (hpass : LogPasses defaultLogger ctx logLevel)
    (hnul : 0 ∉ logText defaultLogger tstamp ctx logLevel file line msg)
    (hp : (prefixText (logPrefixOf defaultLogger tstamp ctx logLevel file line)).length < 2 ^ 31)
    (hm : msg.length < 2 ^ 31) :
    LogRight defaultLogger tty tstamp ctx logLevel file line msg ↔
      logText defaultLogger tstamp ctx logLevel file line msg ≠ [] ∧
      (192 < (prefixText (logPrefixOf defaultLogger tstamp ctx logLevel file line)).length ∨
        (prefixText (logPrefixOf defaultLogger tstamp ctx logLevel file line)).length +
          msg.length < 2 ^ 31) := by
  have hrun := loggerLog_eq defaultLogger tty tstamp ctx logLevel file line hpass (.text msg)
  constructor
  · rintro ⟨ret, events, buf, hsome, hhanded, _, _, _, hret⟩
    constructor
    · intro hnil
      -- 2 is returned for a line of one byte
      rw [loggerLine_nil hnil, Option.map_some, hsome] at hrun
      obtain ⟨rfl, _⟩ := Prod.mk.inj (Option.some.inj hrun)
      rw [hnil] at hret
      exact absurd hret (by decide)
    · by_contra hfit
      rw [loggerLine_of_overflow (by omega) hm (by omega), hsome] at hrun
      cases hrun
  · rintro ⟨hne, hfit⟩
    obtain ⟨tail, hline, hlen⟩ := loggerLine_eq hp hm hfit hne hnul
    rw [hline, Option.map_some] at hrun
    refine ⟨_, _, _, hrun, handed_logEvents .., hlen, List.mem_append_right _ List.mem_cons_self,
      cstring_append (nul_notMem_logLine hnul), rfl⟩

end LogCall

/-- A logger with a callback. -/
def callbackLogger : Logger where
  name := bytesOf "app"
  logLevel := 6
  flags := loggerFlagNoColors
  file := false
  puts := false
  cb := true
  has_sink := rfl

theorem loggerLog_correct_iff_hi :
    LogRight callbackLogger false [] none 6 (bytesOf "src/a.c") 7 (bytesOf "hi") ∧
      ¬ LogRight callbackLogger false [] none 6 (bytesOf "src/a.c") 7 [] := by
  constructor
  · rw [loggerLog_correct_iff callbackLogger false [] none 6 (bytesOf "src/a.c") 7 (bytesOf "hi")
      (.inl rfl) (by decide) (by decide) (by decide)]
    decide
  · rw [loggerLog_correct_iff callbackLogger false [] none 6 (bytesOf "src/a.c") 7 []
      (.inl rfl) (by decide) (by decide) (by decide)]
    decide

/-- The callback gets the empty string instead of a newline, and 2 is returned. -/
theorem loggerLog_empty :
    loggerLog callbackLogger false [] none 6 (bytesOf "src/a.c") 7 (.text []) =
      some (2, [.callback 6 (bytesOf "a.c") 7 (0 :: 10 :: List.replicate 192 0)]) ∧
    ¬ LogRight callbackLogger false [] none 6 (bytesOf "src/a.c") 7 [] := by
  have hrun : loggerLog callbackLogger false [] none 6 (bytesOf "src/a.c") 7 (.text []) =
      some (2, [.callback 6 (bytesOf "a.c") 7 (0 :: 10 :: List.replicate 192 0)]) := by
    decide +kernel
  refine ⟨hrun, ?_⟩
  rintro ⟨ret, events, buf, hsome, _, _, _, _, hret⟩
  rw [hrun] at hsome
  obtain ⟨rfl, _⟩ := Prod.mk.inj (Option.some.inj hsome)
  exact absurd hret (by decide)

end CUtils
