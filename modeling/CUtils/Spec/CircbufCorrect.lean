import CUtils.ForStd.StepSystem
import CUtils.Native.Circbuf

/-!
# The circular buffer is a bounded queue

The reduced counters of a `circbuf_t` stand for the numbers of elements ever pushed
and popped, at most `size` apart.  The elements in between are in their slots.

- `circbufTotal_spec`: the corrected difference is the length of the queue.
- `circbuf_refines_fifo`: every sequence of calls runs, without overflow and inside of
  the data array, and returns what the bounded queue returns.
-/

namespace CUtils

open StepSystem

/-- The number of stored elements and their bytes, for a buffer of `size` elements of
    `es` bytes from which `c` elements have been popped. -/
structure CircbufRepr (size es : Nat) (circBuf : Circbuf) (c : Nat) (q : List (List UInt8)) :
    Prop where
  size_eq : circBuf.size = size
  elementSize_eq : circBuf.elementSize = es
  size_pos : 0 < size
  /-- the limits under which no `int` overflows -/
  two_size_le : 2 * (size : Int) ≤ intMax
  data_le : (size : Int) * es ≤ intMax
  pushCount_eq : circBuf.pushCount = ((c + q.length) % (2 * size) : Nat)
  popCount_eq : circBuf.popCount = (c % (2 * size) : Nat)
  length_le : q.length ≤ size
  elem_length : ∀ e ∈ q, e.length = es
  holds : RingHolds size (fun k => loadBytes circBuf.buffer (k * es) es) c q

theorem cMod_natCast {a b : Nat} (hb : 0 < b) : cMod a b = some ((a % b : Nat) : Int) := by
  have hne : (b : Int) ≠ 0 := by omega
  rw [cMod, if_neg hne]
  rfl

namespace CircbufRepr

variable {size es c : Nat} {circBuf : Circbuf} {q : List (List UInt8)} {e : List UInt8}

theorem wrap_eq (h : CircbufRepr size es circBuf c q) :
    cInt (2 * circBuf.size) = some ((2 * size : Nat) : Int) := by
  have hle := h.two_size_le
  rw [h.size_eq, cInt_eq_some (by unfold intMax; omega) hle]
  rfl

/-- The bound on both counters. -/
theorem counter_bounds (h : CircbufRepr size es circBuf c q) :
    (0 ≤ circBuf.pushCount ∧ circBuf.pushCount < 2 * size) ∧
      0 ≤ circBuf.popCount ∧ circBuf.popCount < 2 * size := by
  have hpos := h.size_pos
  have hpush : (c + q.length) % (2 * size) < 2 * size := Nat.mod_lt _ (by omega)
  have hpop : c % (2 * size) < 2 * size := Nat.mod_lt _ (by omega)
  rw [h.pushCount_eq, h.popCount_eq]
  omega

/-- The common computation of the three functions yields the length of the queue. -/
theorem circbufTotal_spec (h : CircbufRepr size es circBuf c q) :
    circbufTotal circBuf = some (q.length : Int) := by
  have hle := h.two_size_le
  obtain ⟨hpush, hpop⟩ := h.counter_bounds
  have hdist := ringDistance_mod (Nat.le_add_right c q.length)
    (Nat.add_le_add_left h.length_le c) h.size_pos
  rw [← h.pushCount_eq, ← h.popCount_eq, ringDistance] at hdist
  have hsub : cInt (circBuf.pushCount - circBuf.popCount) =
      some (circBuf.pushCount - circBuf.popCount) :=
    cInt_eq_some (by unfold intMax at *; omega) (by omega)
  simp only [circbufTotal, hsub, Option.bind_eq_bind, Option.bind_some]
  split
  · -- `push_count` has wrapped and `pop_count` has not
    next hneg =>
    rw [if_pos hneg] at hdist
    have hadd : circBuf.pushCount - circBuf.popCount + ((2 * size : Nat) : Int) = q.length := by
      omega
    rw [h.wrap_eq, Option.bind_some, hadd]
    have hlen := h.length_le
    exact cInt_eq_some (by unfold intMax; omega) (by omega)
  · next hneg =>
    rw [if_neg hneg] at hdist
    rw [hdist, Option.pure_def]
    exact congrArg some (by omega)

/-- The offset of the slot of the element with number `n`. -/
theorem circbufSlot_spec (h : CircbufRepr size es circBuf c q) (n : Nat) :
    circbufSlot circBuf (n % (2 * size) : Nat) = some (n % size * es) := by
  have hpos := h.size_pos
  have hdata := h.data_le
  have hlt : n % size < size := Nat.mod_lt _ hpos
  have hmod : n % (2 * size) % size = n % size := Nat.mod_mul_left_mod n 2 size
  have hbytes : n % size * es + es ≤ size * es := slot_bytes_le hlt
  -- the offset is below `size * es`, which is an `int`
  have hcast : ((n % size : Nat) : Int) * es = ((n % size * es : Nat) : Int) := by push_cast; rfl
  have hcast' : (size : Int) * es = ((size * es : Nat) : Int) := by push_cast; rfl
  have hoff : cInt ((n % size * es : Nat) : Int) = some ((n % size * es : Nat) : Int) :=
    cInt_eq_some (by unfold intMax; omega) (by omega)
  simp only [circbufSlot, h.size_eq, h.elementSize_eq, cMod_natCast hpos, hmod, hcast, hcast',
    hoff, Option.bind_eq_bind, Option.bind_some, Option.pure_def, Int.toNat_natCast]
  exact if_pos (by omega)

/-- A counter is moved on to the next reduced counter. -/
theorem circbufAdvance_spec (h : CircbufRepr size es circBuf c q) (n : Nat) :
    circbufAdvance circBuf (n % (2 * size) : Nat) = some ((n + 1) % (2 * size) : Nat) := by
  have hle := h.two_size_le
  have hpos := h.size_pos
  have hlt : n % (2 * size) < 2 * size := Nat.mod_lt _ (by omega)
  have hadd : cInt (((n % (2 * size) : Nat) : Int) + 1) =
      some (((n % (2 * size) : Nat) : Int) + 1) :=
    cInt_eq_some (by unfold intMax; omega) (by omega)
  simp only [circbufAdvance, hadd, h.wrap_eq, Option.bind_eq_bind, Option.bind_some,
    Option.pure_def, Option.some.injEq]
  rw [← ring_wrap hpos]
  split <;> split <;> omega

/-! ## The functions -/

/-- A push on a full buffer fails and changes nothing. -/
theorem circbufPush_full (h : CircbufRepr size es circBuf c q) (hfull : q.length = size) :
    circbufPush circBuf e = some (circBuf, -1) := by
  have hge : (q.length : Int) ≥ circBuf.size := by
    rw [h.size_eq]
    omega
  simp only [circbufPush, h.circbufTotal_spec, Option.bind_eq_bind, Option.bind_some, hge,
    ↓reduceIte, Option.pure_def]

/-- A push on a buffer that is not full appends the element. -/
theorem circbufPush_spec (h : CircbufRepr size es circBuf c q) (hlen : q.length < size)
    (he : e.length = es) :
    ∃ circBuf', circbufPush circBuf e = some (circBuf', 0) ∧
      CircbufRepr size es circBuf' c (q ++ [e]) := by
  have hge : ¬ ((q.length : Int) ≥ circBuf.size) := by
    rw [h.size_eq]
    omega
  have hstore : circbufStore circBuf ((c + q.length) % size * es) e =
      some (storeBytes circBuf.buffer ((c + q.length) % size * es) e) := by
    have hlong : ¬ ((e.length : Int) < circBuf.elementSize) := by
      rw [h.elementSize_eq]
      omega
    rw [circbufStore, if_neg hlong, h.elementSize_eq, Int.toNat_natCast, List.take_of_length_le]
    omega
  refine ⟨{ circBuf with
    buffer := storeBytes circBuf.buffer ((c + q.length) % size * es) e,
    pushCount := ((c + q.length + 1) % (2 * size) : Nat) }, ?_, ?_⟩
  · simp only [circbufPush, h.circbufTotal_spec, Option.bind_eq_bind, Option.bind_some, hge,
      ↓reduceIte, h.pushCount_eq, h.circbufSlot_spec, hstore, h.circbufAdvance_spec,
      Option.pure_def]
  · have hlen' : (q ++ [e]).length = q.length + 1 := by
      rw [List.length_append, List.length_singleton]
    refine { h with pushCount_eq := ?_, length_le := ?_, elem_length := ?_, holds := ?_ }
    · rw [hlen', ← Nat.add_assoc]
    · rw [hlen']
      exact hlen
    · intro e' he'
      rcases List.mem_append.mp he' with hmem | hmem
      · exact h.elem_length e' hmem
      · rw [List.mem_singleton.mp hmem, he]
    · -- `memcpy` changes the bytes of the written slot only
      have hother : ∀ k, k ≠ (c + q.length) % size →
          loadBytes (storeBytes circBuf.buffer ((c + q.length) % size * es) e) (k * es) es =
            loadBytes circBuf.buffer (k * es) es := by
        intro k hk
        refine loadBytes_congr fun i hi => storeBytes_of_not_mem _ ?_
        rw [he]
        by_contra hmem
        have hlt : k * es + i - (c + q.length) % size * es < es := by omega
        exact slot_bytes_ne hk hi hlt (by omega)
      refine (h.holds.congr hlen hother).push ?_
      have hload := loadBytes_storeBytes circBuf.buffer ((c + q.length) % size * es) e
      rwa [he] at hload

/-- A pop or a peek on an empty buffer fails and changes nothing. -/
theorem circbufPop_empty (h : CircbufRepr size es circBuf c []) (elem readOnly : Bool) :
    circbufPop circBuf elem readOnly = some (circBuf, -1, none) := by
  simp only [circbufPop, h.circbufTotal_spec, List.length_nil, Int.ofNat_zero,
    Option.bind_eq_bind, Option.bind_some, ↓reduceIte, Option.pure_def]

/-- A peek yields the oldest element and changes nothing. -/
theorem circbufPop_readOnly (h : CircbufRepr size es circBuf c (e :: q)) (elem : Bool) :
    circbufPop circBuf elem true = some (circBuf, 0, if elem then some e else none) := by
  have hne : ¬ (((e :: q).length : Int) = 0) := by
    rw [List.length_cons]
    omega
  have hload : loadBytes circBuf.buffer (c % size * es) es = e := h.holds.head
  simp only [circbufPop, h.circbufTotal_spec, Option.bind_eq_bind, Option.bind_some, hne,
    ↓reduceIte, h.popCount_eq, h.circbufSlot_spec, h.elementSize_eq, Int.toNat_natCast, hload,
    Option.pure_def]

/-- A pop yields the oldest element and removes it. -/
theorem circbufPop_spec (h : CircbufRepr size es circBuf c (e :: q)) (elem : Bool) :
    ∃ circBuf', circbufPop circBuf elem false =
        some (circBuf', 0, if elem then some e else none) ∧
      CircbufRepr size es circBuf' (c + 1) q := by
  have hne : ¬ (((e :: q).length : Int) = 0) := by
    rw [List.length_cons]
    omega
  have hload : loadBytes circBuf.buffer (c % size * es) es = e := h.holds.head
  refine ⟨{ circBuf with popCount := ((c + 1) % (2 * size) : Nat) }, ?_, ?_⟩
  · simp only [circbufPop, h.circbufTotal_spec, Option.bind_eq_bind, Option.bind_some, hne,
      ↓reduceIte, h.popCount_eq, h.circbufSlot_spec, h.elementSize_eq, Int.toNat_natCast, hload,
      h.circbufAdvance_spec, Option.pure_def, Bool.false_eq_true]
  · refine { h with
      pushCount_eq := ?_, popCount_eq := rfl, length_le := ?_, elem_length := ?_,
      holds := h.holds.pop }
    · rw [h.pushCount_eq, List.length_cons]
      exact congrArg (fun n : Nat => ((n % (2 * size) : Nat) : Int)) (by omega)
    · have hlen := h.length_le
      rw [List.length_cons] at hlen
      omega
    · exact fun e' he' => h.elem_length e' (List.mem_cons_of_mem _ he')

theorem circbufFreeSpace_spec (h : CircbufRepr size es circBuf c q) :
    circbufFreeSpace circBuf = some ((size : Int) - q.length) := by
  have hle := h.two_size_le
  have hlen := h.length_le
  simp only [circbufFreeSpace, h.circbufTotal_spec, Option.bind_eq_bind, Option.bind_some,
    h.size_eq]
  exact cInt_eq_some (by unfold intMax; omega) (by omega)

theorem circbufFlush_spec (h : CircbufRepr size es circBuf c q) :
    CircbufRepr size es (circbufFlush circBuf) 0 [] := by
  refine { h with
    pushCount_eq := ?_, popCount_eq := ?_, length_le := Nat.zero_le _,
    elem_length := ?_, holds := .nil }
  · rw [List.length_nil, Nat.zero_mod]
    rfl
  · rw [Nat.zero_mod]
    rfl
  · exact fun _ he => nomatch he

end CircbufRepr

/-! ## Sequences of calls -/

/-- The calls on a circular buffer: an element of the right size for push, and for pop
    and peek whether `elem` is non-NULL. -/
inductive CircbufOp (es : Nat)
  | push (elem : List UInt8) (sized : elem.length = es)
  | pop (elem : Bool)
  | peek (elem : Bool)
  | freeSpace
  | flush

/-- What a call returns: nothing, or the return value with the bytes copied to `*elem`. -/
inductive CircbufOut
  | void
  | result (rc : Int) (elem : Option (List UInt8))
deriving DecidableEq

/-- One call of the C functions. -/
def circbufStep {es : Nat} (circBuf : Circbuf) : CircbufOp es → Option (Circbuf × CircbufOut)
  | .push elem _ => (circbufPush circBuf elem).map fun r => (r.1, .result r.2 none)
  | .pop elem => (circbufPop circBuf elem false).map fun r => (r.1, .result r.2.1 r.2.2)
  | .peek elem => (circbufPop circBuf elem true).map fun r => (r.1, .result r.2.1 r.2.2)
  | .freeSpace => (circbufFreeSpace circBuf).map fun rc => (circBuf, .result rc none)
  | .flush => some (circbufFlush circBuf, .void)

/-- One call on a queue of at most `size` elements. -/
def fifoStep {es : Nat} (size : Nat) (q : List (List UInt8)) :
    CircbufOp es → List (List UInt8) × CircbufOut
  | .push elem _ => if q.length = size then (q, .result (-1) none) else (q ++ [elem], .result 0 none)
  | .pop elem => match q with
    | [] => ([], .result (-1) none)
    | e :: q => (q, .result 0 (if elem then some e else none))
  | .peek elem => match q with
    | [] => ([], .result (-1) none)
    | e :: q => (e :: q, .result 0 (if elem then some e else none))
  | .freeSpace => (q, .result ((size : Int) - q.length) none)
  | .flush => ([], .void)

/-- Every call runs and returns what the queue returns. -/
theorem circbufStep_spec {size es c : Nat} {circBuf : Circbuf} {q : List (List UInt8)}
    (h : CircbufRepr size es circBuf c q) (op : CircbufOp es) :
    ∃ circBuf' c', circbufStep circBuf op = some (circBuf', (fifoStep size q op).2) ∧
      CircbufRepr size es circBuf' c' (fifoStep size q op).1 := by
  cases op with
  | push elem hop =>
    -- a push is refused exactly when the queue is full
    by_cases hfull : q.length = size
    · refine ⟨circBuf, c, ?_, ?_⟩
      · simp only [circbufStep, h.circbufPush_full hfull, Option.map_some, fifoStep, hfull,
          ↓reduceIte]
      · simpa only [fifoStep, hfull, ↓reduceIte] using h
    · have hlen : q.length < size := Nat.lt_of_le_of_ne h.length_le hfull
      obtain ⟨circBuf', hpush, hrepr⟩ := h.circbufPush_spec hlen hop
      refine ⟨circBuf', c, ?_, ?_⟩
      · simp only [circbufStep, hpush, Option.map_some, fifoStep, hfull, ↓reduceIte]
      · simpa only [fifoStep, hfull, ↓reduceIte] using hrepr
  | pop elem =>
    cases q with
    | nil =>
      exact ⟨circBuf, c, by simp only [circbufStep, h.circbufPop_empty, Option.map_some, fifoStep], h⟩
    | cons e q =>
      obtain ⟨circBuf', hpop, hrepr⟩ := h.circbufPop_spec elem
      exact ⟨circBuf', c + 1, by simp only [circbufStep, hpop, Option.map_some, fifoStep], hrepr⟩
  | peek elem =>
    cases q with
    | nil =>
      exact ⟨circBuf, c, by simp only [circbufStep, h.circbufPop_empty, Option.map_some, fifoStep], h⟩
    | cons e q =>
      exact ⟨circBuf, c,
        by simp only [circbufStep, h.circbufPop_readOnly, Option.map_some, fifoStep], h⟩
  | freeSpace =>
    exact ⟨circBuf, c,
      by simp only [circbufStep, h.circbufFreeSpace_spec, Option.map_some, fifoStep], h⟩
  | flush => exact ⟨circbufFlush circBuf, 0, rfl, h.circbufFlush_spec⟩

/-- A buffer with zeroed counters represents the empty queue. -/
theorem circbufRepr_zeroed {size es : Nat} (hsize : 1 ≤ size) (htwo : 2 * (size : Int) ≤ intMax)
    (hdata : (size : Int) * es ≤ intMax) (buffer : Nat → UInt8) :
    CircbufRepr size es ⟨buffer, 0, 0, size, es⟩ 0 [] where
  size_eq := rfl
  elementSize_eq := rfl
  size_pos := hsize
  two_size_le := htwo
  data_le := hdata
  pushCount_eq := by
    rw [List.length_nil, Nat.zero_mod]
    rfl
  popCount_eq := by
    rw [Nat.zero_mod]
    rfl
  length_le := Nat.zero_le _
  elem_length := fun _ he => nomatch he
  holds := .nil

/-- From zeroed counters, and whatever the data array holds, every sequence of calls
    runs and returns what the bounded queue returns: no `int` overflows and no access
    leaves the data array.  Both counters stay below `2 * size`, and failing calls
    change nothing. -/
theorem circbuf_refines_fifo (size es : Nat) (hsize : 1 ≤ size)
    (htwo : 2 * (size : Int) ≤ intMax) (hdata : (size : Int) * es ≤ intMax)
    (buffer : Nat → UInt8) (ops : List (CircbufOp es)) :
    ∃ circBuf q outs, runOut circbufStep ⟨buffer, 0, 0, size, es⟩ ops = some (circBuf, outs) ∧
      runOut (fun q op => some (fifoStep size q op)) [] ops = some (q, outs) ∧
      q.length ≤ size ∧
      (0 ≤ circBuf.pushCount ∧ circBuf.pushCount < 2 * size) ∧
      (0 ≤ circBuf.popCount ∧ circBuf.popCount < 2 * size) ∧
      (q.length = size → ∀ elem, circbufPush circBuf elem = some (circBuf, -1)) ∧
      (q = [] → ∀ elem readOnly, circbufPop circBuf elem readOnly = some (circBuf, -1, none)) := by
  -- the number of pops so far is not part of the buffer
  have hsim : ∀ (circBuf : Circbuf) (q : List (List UInt8)) (op : CircbufOp es),
      (∃ c, CircbufRepr size es circBuf c q) →
      ∃ circBuf', circbufStep circBuf op = some (circBuf', (fifoStep size q op).2) ∧
        ∃ c', CircbufRepr size es circBuf' c' (fifoStep size q op).1 := by
    rintro circBuf q op ⟨c, h⟩
    obtain ⟨circBuf', c', hstep, hrepr⟩ := circbufStep_spec h op
    exact ⟨circBuf', hstep, c', hrepr⟩
  obtain ⟨circBuf, q, outs, hrun, hspec, c, hrepr⟩ :=
    runOut_simulation_total hsim ops ⟨0, circbufRepr_zeroed hsize htwo hdata buffer⟩
  obtain ⟨hpush, hpop⟩ := hrepr.counter_bounds
  refine ⟨circBuf, q, outs, hrun, hspec, hrepr.length_le, hpush, hpop, ?_, ?_⟩
  · exact fun hfull elem => hrepr.circbufPush_full hfull
  · rintro rfl elem readOnly
    exact hrepr.circbufPop_empty elem readOnly

/-- A ring of two elements of two bytes that is filled, emptied and wrapped. -/
theorem circbuf_refines_fifo_run :
    ∃ circBuf q outs, runOut circbufStep ⟨fun _ => 0, 0, 0, (2 : Nat), (2 : Nat)⟩
        [.push [1, 2] rfl, .push [3, 4] rfl, .push [5, 6] rfl, .peek true, .pop true, .pop false,
          .push [7, 8] rfl, .freeSpace, .pop true, .pop true, .flush] = some (circBuf, outs) ∧
      runOut (fun q op => some (fifoStep 2 q op)) []
        [.push [1, 2] rfl, .push [3, 4] rfl, .push [5, 6] rfl, .peek true, .pop true, .pop false,
          .push [7, 8] rfl, .freeSpace, .pop true, .pop true, .flush] = some (q, outs) ∧
      q.length ≤ 2 ∧
      (0 ≤ circBuf.pushCount ∧ circBuf.pushCount < 2 * (2 : Nat)) ∧
      (0 ≤ circBuf.popCount ∧ circBuf.popCount < 2 * (2 : Nat)) ∧
      (q.length = 2 → ∀ elem, circbufPush circBuf elem = some (circBuf, -1)) ∧
      (q = [] → ∀ elem readOnly, circbufPop circBuf elem readOnly = some (circBuf, -1, none)) :=
  circbuf_refines_fifo 2 2 (by decide) (by decide) (by decide) (fun _ => 0)
    ([.push [1, 2] rfl, .push [3, 4] rfl, .push [5, 6] rfl, .peek true, .pop true, .pop false,
      .push [7, 8] rfl, .freeSpace, .pop true, .pop true, .flush] : List (CircbufOp 2))

end CUtils
