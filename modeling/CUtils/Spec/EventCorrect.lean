import CUtils.ForStd.StepSystem
import CUtils.Native.Event

/-!
# When an event is drained

`flush_fd` reads again whenever a read has filled its buffer of 64 bytes, so on a pipe
that blocks it waits for ever when the pending bytes are a multiple of 64.

- `flushFdLoop_spec`: the outcome of `flush_fd` on any pipe.
- `eventIsSet_drains_iff`: `event_is_set` drains an event exactly when it does not block
  or the number of pending sets is not a multiple of eight.
-/

namespace CUtils

open StepSystem

/-! ## `flush_fd` -/

section Flush

variable {pipe : Pipe} {signals : List Bool} {ret : Bool} {reads : Nat}

/-- A read from an empty pipe that blocks. -/
theorem flushFdLoop_empty_blocking (hempty : pipe.bytes = []) (hblock : pipe.readNonblock = false) :
    flushFdLoop (reads + 1) pipe signals ret = .blocks := by
  simp only [flushFdLoop, Pipe.read, hempty, hblock, Bool.false_eq_true, not_false_eq_true,
    and_self, ↓reduceIte]

/-- A read that a signal interrupts. -/
theorem flushFdLoop_signal (hread : pipe.bytes ≠ [] ∨ pipe.readNonblock = true) :
    flushFdLoop (reads + 1) pipe (true :: signals) ret = flushFdLoop reads pipe signals ret := by
  have hnot : ¬ (pipe.bytes = [] ∧ ¬ pipe.readNonblock = true) :=
    fun h => hread.elim (fun hne => hne h.1) h.2
  simp only [flushFdLoop, Pipe.read, if_neg hnot, List.headD_cons, ↓reduceIte, List.tail_cons]

/-- The first read that is not interrupted, on an empty pipe that does not block. -/
theorem flushFdLoop_empty (hempty : pipe.bytes = []) (hread : pipe.readNonblock = true)
    (hsig : signals.headD false = false) :
    flushFdLoop (reads + 1) pipe signals ret = .returned ret pipe := by
  simp only [flushFdLoop, Pipe.read, hempty, hread, hsig, not_true_eq_false, and_false,
    ↓reduceIte, Bool.false_eq_true]

/-- The first read that is not interrupted, on a pipe with some bytes. -/
theorem flushFdLoop_bytes (hne : pipe.bytes ≠ []) (hsig : signals.headD false = false) :
    flushFdLoop (reads + 1) pipe signals ret =
      if 64 ≤ pipe.bytes.length then
        flushFdLoop reads { pipe with bytes := pipe.bytes.drop 64 } signals.tail true
      else .returned true { pipe with bytes := [] } := by
  have hpos : 0 < pipe.bytes.length := List.length_pos_of_ne_nil hne
  have hgt : (pipe.bytes.take 64).length > 0 := by
    rw [List.length_take]
    omega
  simp only [flushFdLoop, Pipe.read, hne, hsig, false_and, ↓reduceIte, Bool.false_eq_true, hgt,
    decide_true, Bool.or_true]
  by_cases hfull : 64 ≤ pipe.bytes.length
  · rw [if_pos hfull, if_pos (by rw [List.length_take]; omega)]
  · rw [if_neg hfull, if_neg (by rw [List.length_take]; omega),
      List.drop_eq_nil_of_le (by omega)]

/-- Given one read for each byte, each signal and the end, `flush_fd` empties the pipe, or
    it waits on the empty pipe. -/
theorem flushFdLoop_spec (h : signals.length + pipe.bytes.length < reads) :
    flushFdLoop reads pipe signals ret =
      if pipe.readNonblock ∨ pipe.bytes.length % 64 ≠ 0 then
        .returned (ret || decide (pipe.bytes.length > 0)) { pipe with bytes := [] }
      else .blocks := by
  -- by induction on the number of reads; a read of 64 bytes is not the last one
  induction reads generalizing pipe signals ret with
  | zero => omega
  | succ reads ih =>
    by_cases hblock : pipe.bytes = [] ∧ pipe.readNonblock = false
    · rw [flushFdLoop_empty_blocking hblock.1 hblock.2, if_neg]
      simp only [hblock.1, hblock.2, List.length_nil, Nat.zero_mod, ne_eq, not_true_eq_false,
        or_self, not_false_eq_true, Bool.false_eq_true]
    · have hread : pipe.bytes ≠ [] ∨ pipe.readNonblock = true := by
        cases hn : pipe.readNonblock
        · exact .inl fun hempty => hblock ⟨hempty, hn⟩
        · exact .inr rfl
      cases hsig : signals.headD false
      · by_cases hempty : pipe.bytes = []
        · -- EAGAIN
          have hnonblock := hread.resolve_left fun hne => hne hempty
          have hsame : { pipe with bytes := [] } = pipe := by rw [← hempty]
          rw [flushFdLoop_empty hempty hnonblock hsig, if_pos (.inl hnonblock), hsame, hempty]
          simp only [List.length_nil, gt_iff_lt, Nat.lt_irrefl, decide_false, Bool.or_false]
        · have hpos : 0 < pipe.bytes.length := List.length_pos_of_ne_nil hempty
          have htail : signals.tail.length ≤ signals.length := by
            rw [List.length_tail]
            omega
          rw [flushFdLoop_bytes hempty hsig]
          split
          · next hfull =>
            have hlen : (pipe.bytes.drop 64).length = pipe.bytes.length - 64 := List.length_drop
            have hmod : (pipe.bytes.length - 64) % 64 = pipe.bytes.length % 64 := by omega
            rw [ih (by simp only [hlen]; omega)]
            simp only [hlen, hmod, gt_iff_lt, hpos, decide_true, Bool.true_or, Bool.or_true]
          · next hlt =>
            have hmod : pipe.bytes.length % 64 ≠ 0 := by omega
            rw [if_pos (.inr hmod)]
            simp only [gt_iff_lt, hpos, decide_true, Bool.or_true]
      · -- EINTR
        obtain ⟨rest, rfl⟩ : ∃ rest, signals = true :: rest := by
          cases signals with
          | nil => cases hsig
          | cons b rest => exact ⟨rest, by rw [List.headD_cons] at hsig; rw [hsig]⟩
        rw [flushFdLoop_signal hread, ih (by rw [List.length_cons] at h; omega)]

/-- More reads do not change an outcome. -/
theorem flushFdLoop_mono {n : Nat} (hle : reads ≤ n)
    (h : flushFdLoop reads pipe signals ret ≠ .unfinished) :
    flushFdLoop n pipe signals ret = flushFdLoop reads pipe signals ret := by
  induction reads generalizing n pipe signals ret with
  | zero => exact absurd rfl h
  | succ reads ih =>
    obtain ⟨n, rfl⟩ : ∃ n', n = n' + 1 := ⟨n - 1, by omega⟩
    rw [flushFdLoop] at h
    rw [flushFdLoop, flushFdLoop]
    -- both loops make the same read; only those that go on need the hypothesis
    cases hread : pipe.read 64 (signals.headD false) with
    | done buf pipe' =>
      simp only [hread] at h ⊢
      split
      · next hfull =>
        rw [if_pos hfull] at h
        exact ih (by omega) h
      · rfl
    | error errno =>
      cases errno with
      | eagain => rfl
      | eintr =>
        simp only [hread] at h ⊢
        exact ih (by omega) h
    | blocks => rfl

/-- On a pipe that blocks, `flush_fd` never returns from a multiple of 64 bytes. -/
theorem flushFdLoop_not_returned (hread : pipe.readNonblock = false)
    (hmod : pipe.bytes.length % 64 = 0) (reads : Nat) {r : Bool} {pipe' : Pipe} :
    flushFdLoop reads pipe signals ret ≠ .returned r pipe' := by
  intro hret
  -- with enough reads the outcome is known, and it is not a return
  have hmono := flushFdLoop_mono (Nat.le_max_left reads
    (signals.length + pipe.bytes.length + 1)) (fun hu => by rw [hret] at hu; cases hu)
  rw [hret, flushFdLoop_spec (by omega), if_neg (by simp only [hread, hmod]; decide)] at hmono
  cases hmono

end Flush

/-! ## Events -/

/-- A write that fits succeeds after the signals that interrupt it. -/
theorem writeLoop_spec {pipe : Pipe} {buf : List UInt8} (signals : List Bool)
    (h : pipe.bytes.length + buf.length ≤ pipe.capacity) :
    writeLoop pipe buf signals =
      some ({ pipe with bytes := pipe.bytes ++ buf }, (buf.length : Int)) := by
  have hwrite : pipe.write buf false = .done buf { pipe with bytes := pipe.bytes ++ buf } := by
    simp only [Pipe.write, Bool.false_eq_true, ↓reduceIte, if_pos h]
  induction signals with
  | nil => rw [writeLoop, hwrite]
  | cons interrupted signals ih =>
    cases interrupted
    · rw [writeLoop, hwrite]
    · rw [writeLoop]
      exact ih

/-- The pending bytes of an event after a set. -/
theorem eventSet_spec {e : Event} (signals : List Bool) (hinit : e.initialized = true)
    (h : e.pipe.bytes.length + 8 ≤ e.pipe.capacity) :
    eventSet e signals =
      some ({ e with pipe := { e.pipe with bytes := e.pipe.bytes ++ eventValue } }, true) := by
  have hlen : eventValue.length = 8 := length_leBytes 8 1
  have hwrite := writeLoop_spec signals (show e.pipe.bytes.length + eventValue.length ≤
    e.pipe.capacity by rwa [hlen])
  rw [eventSet, if_neg (fun hn => hn hinit), hwrite, hlen]
  rfl

/-- The pending bytes of an event after some sets. -/
theorem runOut_eventSet_spec {e : Event} {sets : List (List Bool)} (hinit : e.initialized = true)
    (h : e.pipe.bytes.length + 8 * sets.length ≤ e.pipe.capacity) :
    ∃ bytes, runOut eventSet e sets =
        some ({ e with pipe := { e.pipe with bytes } }, sets.map fun _ => true) ∧
      bytes.length = e.pipe.bytes.length + 8 * sets.length := by
  -- each set appends eight bytes
  induction sets generalizing e with
  | nil => exact ⟨e.pipe.bytes, rfl, rfl⟩
  | cons signals sets ih =>
    rw [List.length_cons] at h
    have hset := eventSet_spec signals hinit (by omega)
    have hlen : (e.pipe.bytes ++ eventValue).length = e.pipe.bytes.length + 8 := by
      rw [List.length_append, eventValue, length_leBytes]
    obtain ⟨bytes, hrun, hbytes⟩ :=
      ih (e := { e with pipe := { e.pipe with bytes := e.pipe.bytes ++ eventValue } }) hinit
        (by simp only [hlen]; omega)
    refine ⟨bytes, ?_, ?_⟩
    · simp only [runOut, hset, hrun, Option.bind_some, Option.map_some, List.map_cons]
    · rw [hbytes, List.length_cons]
      simp only [hlen]
      omega

/-- A new event has at most the set that makes it active pending. -/
theorem eventInit_spec {e₀ e : Event} {active blocking : Bool} {res : InitResult}
    {signals : List Bool} (h : eventInit e₀ active blocking res signals = some (e, 0))
    (hfit : 8 * active.toNat ≤ res.capacity) :
    ∃ bytes, e = ⟨true, ⟨bytes, res.capacity, !blocking, !blocking⟩⟩ ∧
      bytes.length = 8 * active.toNat := by
  unfold eventInit at h
  split at h
  · cases h
  split at h
  · cases h
  -- the new pipe is empty and has the flags of the mode
  have hpipe : (⟨[], res.capacity, ¬ blocking, ¬ blocking⟩ : Pipe) =
      ⟨[], res.capacity, !blocking, !blocking⟩ := by
    cases blocking <;> rfl
  rw [hpipe] at h
  cases active
  · simp only [Bool.false_eq_true, ↓reduceIte, Option.some.injEq, Prod.mk.injEq] at h
    exact ⟨[], h.1.symm, rfl⟩
  · have hset := eventSet_spec (e := ⟨true, ⟨[], res.capacity, !blocking, !blocking⟩⟩) signals rfl
      hfit
    simp only [↓reduceIte, hset, Option.map_some, Option.some.injEq, Prod.mk.injEq] at h
    exact ⟨eventValue, h.1.symm, length_leBytes 8 1⟩

/-- `event_is_set` returns true without waiting on the empty pipe and leaves it empty, and
    an event that does not block is then not set. -/
def EventDrains (e : Event) (signals : List Bool) : Prop :=
  ∃ reads pipe, eventIsSet reads e signals = .returned true pipe ∧ pipe.bytes = [] ∧
    (pipe.readNonblock = true → ∀ signals', ∃ reads',
      eventIsSet reads' { e with pipe } signals' = .returned false pipe)

/-- The pending bytes decide whether an event is drained. -/
theorem eventDrains_iff {e : Event} (hinit : e.initialized = true)
    (hpos : 0 < e.pipe.bytes.length) (signals : List Bool) :
    EventDrains e signals ↔
      e.pipe.readNonblock = true ∨ e.pipe.bytes.length % 64 ≠ 0 := by
  have hset : ∀ reads signals', eventIsSet reads e signals' =
      flushFdLoop reads e.pipe signals' false := by
    intro reads signals'
    rw [eventIsSet, if_neg (fun hn => hn hinit), flushFd]
  constructor
  · intro ⟨reads, pipe, hret, _, _⟩
    by_contra hcond
    rw [hset] at hret
    -- a pipe that blocks and holds a multiple of 64 bytes
    refine flushFdLoop_not_returned ?_ ?_ reads hret
    · cases hn : e.pipe.readNonblock
      · rfl
      · exact absurd (.inl hn) hcond
    · by_contra hmod
      exact hcond (.inr hmod)
  · intro hcond
    -- one read for each signal and at most one for each byte
    refine ⟨signals.length + e.pipe.bytes.length + 1, { e.pipe with bytes := [] }, ?_, rfl, ?_⟩
    · rw [hset, flushFdLoop_spec (by omega), if_pos hcond]
      simp only [gt_iff_lt, hpos, decide_true, Bool.or_true]
    · intro hnonblock signals'
      refine ⟨signals'.length + 1, ?_⟩
      rw [eventIsSet, if_neg (fun hn => hn hinit), flushFd, flushFdLoop_spec (by
        simp only [List.length_nil]
        omega), if_pos (.inl hnonblock)]
      rfl

/-- After any number of sets that fit, `event_is_set` drains the event exactly when it does
    not block or the number of pending sets is not a multiple of eight. -/
theorem eventIsSet_drains_iff {e₀ e : Event} {active blocking : Bool} {res : InitResult}
    {signals₀ : List Bool} (hinit : eventInit e₀ active blocking res signals₀ = some (e, 0))
    {sets : List (List Bool)} (hsets : 1 ≤ sets.length)
    (hfit : 8 * (active.toNat + sets.length) ≤ res.capacity) :
    ∃ e', runOut eventSet e sets = some (e', sets.map fun _ => true) ∧
      ∀ signals, EventDrains e' signals ↔
        blocking = false ∨ (active.toNat + sets.length) % 8 ≠ 0 := by
  obtain ⟨bytes, rfl, hbytes⟩ := eventInit_spec hinit (by omega)
  have hroom : bytes.length + 8 * sets.length ≤ res.capacity := by omega
  obtain ⟨bytes', hrun, hbytes'⟩ := runOut_eventSet_spec
    (e := ⟨true, ⟨bytes, res.capacity, !blocking, !blocking⟩⟩) rfl hroom
  refine ⟨_, hrun, fun signals => ?_⟩
  simp only at hbytes'
  rw [eventDrains_iff rfl (by simp only; omega)]
  have hmod : bytes'.length % 64 ≠ 0 ↔ (active.toNat + sets.length) % 8 ≠ 0 := by omega
  simp only [hmod, Bool.not_eq_true']

/-- Eight sets of an event that blocks: its `event_is_set` reads them all and then waits. -/
theorem eventIsSet_blocks_eight : ∃ e e',
    eventInit ⟨false, ⟨[], 0, false, false⟩⟩ false true ⟨true, true, true, 65536⟩ [] =
      some (e, 0) ∧
    runOut eventSet e (List.replicate 8 []) = some (e', List.replicate 8 true) ∧
    e'.pipe.bytes.length = 64 ∧ eventIsSet 2 e' [] = .blocks ∧ ¬ EventDrains e' [] := by
  have hrun : runOut eventSet ⟨true, ⟨[], 65536, false, false⟩⟩ (List.replicate 8 []) =
      some (⟨true, ⟨(List.replicate 8 eventValue).flatten, 65536, false, false⟩⟩,
        List.replicate 8 true) := by decide +kernel
  refine ⟨_, _, rfl, hrun, by decide +kernel, by decide +kernel, ?_⟩
  rw [eventDrains_iff rfl (by decide)]
  decide +kernel

/-- Nine sets are drained by two reads. -/
theorem eventIsSet_drains_nine : ∃ e',
    runOut eventSet ⟨true, ⟨[], 65536, false, false⟩⟩ (List.replicate 9 []) =
      some (e', (List.replicate 9 []).map fun (_ : List Bool) => true) ∧ EventDrains e' [true] := by
  have hinit : eventInit ⟨false, ⟨[], 0, false, false⟩⟩ false true ⟨true, true, true, 65536⟩ [] =
      some (⟨true, ⟨[], 65536, false, false⟩⟩, 0) := rfl
  obtain ⟨e', hrun, hdrains⟩ :=
    eventIsSet_drains_iff hinit (show 1 ≤ (List.replicate 9 ([] : List Bool)).length by decide)
      (by decide)
  exact ⟨e', hrun, (hdrains [true]).mpr (.inr (by decide))⟩

end CUtils
