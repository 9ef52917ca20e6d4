import CUtils.ForStd.List
import CUtils.ForStd.StepSystem
import CUtils.Native.CircbufThreads
import CUtils.Native.Utils

/-!
# One producer and one consumer on a circular buffer

Between the increment of `push_count` and its wrap to 0 the counter holds
`2 * size`.  A consumer that has popped everything and wrapped its own counter
computes a difference of `2 * size` there instead of 0, and pops a stale element.
This is the only way in which the threads go wrong.

- `spsc_counters_le`: no access overflows an `int` or leaves the data array.
- `SpscInv`: what holds between any two accesses while that reading does not happen.
- `spsc_popped_isPrefix`: then the popped elements are a prefix of the written ones.
- `loadsUnwrapped_pops_empty`: that reading makes a pop on an empty buffer succeed.
- `spsc_stale_pop`: with that reading they need not be.
-/

namespace CUtils

open StepSystem

/-! ## The calls -/

/-- `__circbuf_push` is called by an idle producer, with an element of the buffer's size. -/
private theorem spscStep_push_inv {size es : Nat} {s s' : Spsc} {elem : List UInt8}
    (hstep : spscStep size es s (.push elem) = some s') :
    s.producer = .idle ∧ elem.length = es ∧ s' = { s with producer := .loadPush elem } := by
  simp only [spscStep, Option.ite_none_right_eq_some, Option.some.injEq] at hstep
  obtain ⟨⟨hidle, hes⟩, rfl⟩ := hstep
  exact ⟨hidle, hes, rfl⟩

/-- `__circbuf_pop` is called by an idle consumer. -/
private theorem spscStep_pop_inv {size es : Nat} {s s' : Spsc}
    (hstep : spscStep size es s .pop = some s') :
    s.consumer = .idle ∧ s' = { s with consumer := .loadPush } := by
  simp only [spscStep, Option.ite_none_right_eq_some, Option.some.injEq] at hstep
  obtain ⟨hidle, rfl⟩ := hstep
  exact ⟨hidle, rfl⟩

/-! ## Bounds on every run -/

/-- The producer: outside of the last two accesses its counter is below `2 * size`, and
    the slot that it writes lies in the data array. -/
def PushBounds (size es pushCount : Nat) : PushPc → Prop
  | .idle => pushCount < 2 * size
  | .loadPush elem | .loadPop elem _ | .loadHead elem => pushCount < 2 * size ∧ elem.length = es
  | .copy elem head _ => pushCount < 2 * size ∧ elem.length = es ∧ head + es ≤ size * es
  | .store _ push => push < 2 * size
  | .test | .wrap => True

/-- The consumer, likewise. -/
def PopBounds (size es popCount : Nat) : PopPc → Prop
  | .idle | .loadPush | .loadPop _ | .loadTail => popCount < 2 * size
  | .copy tail _ => popCount < 2 * size ∧ tail + es ≤ size * es
  | .store _ pop => pop < 2 * size
  | .test | .wrap => True

/-- The bounds on both threads. -/
structure SpscBounds (size es : Nat) (s : Spsc) : Prop where
  pushCount_le : s.pushCount ≤ 2 * size
  popCount_le : s.popCount ≤ 2 * size
  producer : PushBounds size es s.pushCount s.producer
  consumer : PopBounds size es s.popCount s.consumer

private theorem circbufPushAccess_bounds {size es : Nat} (hpos : 1 ≤ size) {s s' : Spsc}
    (h : SpscBounds size es s) (hstep : circbufPushAccess size es s = some s') :
    SpscBounds size es s' := by
  obtain ⟨hpush, hpop, hprod, hcons⟩ := h
  unfold circbufPushAccess at hstep
  cases hpc : s.producer with
  | idle => simp only [hpc, reduceCtorEq] at hstep
  | loadPush elem =>
    simp only [hpc, Option.some.injEq, PushBounds] at hstep hprod
    subst hstep
    exact ⟨hpush, hpop, hprod, hcons⟩
  | loadPop elem push =>
    simp only [hpc, PushBounds] at hstep hprod
    split at hstep <;> obtain rfl := Option.some.inj hstep
    · exact ⟨hpush, hpop, hprod.1, hcons⟩
    · exact ⟨hpush, hpop, hprod, hcons⟩
  | loadHead elem =>
    simp only [hpc, Option.some.injEq, PushBounds] at hstep hprod
    subst hstep
    -- the slot is that of a number below `size`
    have hslot : s.pushCount % size * es + es ≤ size * es := slot_bytes_le (Nat.mod_lt _ hpos)
    exact ⟨hpush, hpop, ⟨hprod.1, hprod.2, hslot⟩, hcons⟩
  | copy elem head i =>
    simp only [hpc, PushBounds] at hstep hprod
    split at hstep <;> obtain rfl := Option.some.inj hstep
    · exact ⟨hpush, hpop, hprod, hcons⟩
    · exact ⟨hpush, hpop, hprod.1, hcons⟩
  | store elem push =>
    simp only [hpc, Option.some.injEq, PushBounds] at hstep hprod
    subst hstep
    exact ⟨hprod, hpop, trivial, hcons⟩
  | test =>
    simp only [hpc, Option.some.injEq] at hstep
    subst hstep
    refine ⟨hpush, hpop, ?_, hcons⟩
    show PushBounds size es s.pushCount (if s.pushCount ≥ 2 * size then .wrap else .idle)
    split
    · trivial
    · next hlt => exact Nat.lt_of_not_le hlt
  | wrap =>
    simp only [hpc, Option.some.injEq] at hstep
    subst hstep
    exact ⟨Nat.zero_le _, hpop, Nat.mul_pos Nat.two_pos hpos, hcons⟩

private theorem circbufPopAccess_bounds {size es : Nat} (hpos : 1 ≤ size) {s s' : Spsc}
    (h : SpscBounds size es s) (hstep : circbufPopAccess size es s = some s') :
    SpscBounds size es s' := by
  obtain ⟨hpush, hpop, hprod, hcons⟩ := h
  unfold circbufPopAccess at hstep
  cases hpc : s.consumer with
  | idle => simp only [hpc, reduceCtorEq] at hstep
  | loadPush =>
    simp only [hpc, Option.some.injEq, PopBounds] at hstep hcons
    subst hstep
    exact ⟨hpush, hpop, hprod, hcons⟩
  | loadPop push =>
    simp only [hpc, PopBounds] at hstep hcons
    split at hstep <;> obtain rfl := Option.some.inj hstep
    · exact ⟨hpush, hpop, hprod, hcons⟩
    · exact ⟨hpush, hpop, hprod, hcons⟩
  | loadTail =>
    simp only [hpc, Option.some.injEq, PopBounds] at hstep hcons
    subst hstep
    -- the slot that is read is inside of the buffer
    have hslot : s.popCount % size * es + es ≤ size * es := slot_bytes_le (Nat.mod_lt _ hpos)
    exact ⟨hpush, hpop, hprod, hcons, hslot⟩
  | copy tail elem =>
    simp only [hpc, PopBounds] at hstep hcons
    split at hstep <;> obtain rfl := Option.some.inj hstep
    · exact ⟨hpush, hpop, hprod, hcons⟩
    · exact ⟨hpush, hpop, hprod, hcons.1⟩
  | store elem pop =>
    simp only [hpc, Option.some.injEq, PopBounds] at hstep hcons
    subst hstep
    exact ⟨hpush, hcons, hprod, trivial⟩
  | test =>
    simp only [hpc, Option.some.injEq] at hstep
    subst hstep
    refine ⟨hpush, hpop, hprod, ?_⟩
    show PopBounds size es s.popCount (if s.popCount ≥ 2 * size then .wrap else .idle)
    split
    · trivial
    · next hlt => exact Nat.lt_of_not_le hlt
  | wrap =>
    simp only [hpc, Option.some.injEq] at hstep
    subst hstep
    exact ⟨hpush, Nat.zero_le _, hprod, Nat.mul_pos Nat.two_pos hpos⟩

private theorem spscStep_bounds {size es : Nat} (hpos : 1 ≤ size) (s : Spsc) (a : SpscAct)
    (s' : Spsc) (h : SpscBounds size es s) (hstep : spscStep size es s a = some s') :
    SpscBounds size es s' := by
  cases a with
  | push elem =>
    obtain ⟨hidle, hes, rfl⟩ := spscStep_push_inv hstep
    have hprod := h.producer
    rw [hidle] at hprod
    exact { h with producer := ⟨hprod, hes⟩ }
  | pop =>
    obtain ⟨hidle, rfl⟩ := spscStep_pop_inv hstep
    have hcons := h.consumer
    rw [hidle] at hcons
    exact { h with consumer := hcons }
  | producer => exact circbufPushAccess_bounds hpos h hstep
  | consumer => exact circbufPopAccess_bounds hpos h hstep

/-- In every run the counters, and with them all differences of the threads, are
    between 0 and `2 * size`, and `memcpy` stays inside of the data array. -/
theorem spsc_counters_le {size es : Nat} (hpos : 1 ≤ size) {buffer : Nat → UInt8}
    {as : List SpscAct} {s : Spsc} (hrun : run (spscStep size es) (spscInit buffer) as = some s) :
    s.pushCount ≤ 2 * size ∧ s.popCount ≤ 2 * size ∧
      (∀ elem head i, s.producer = .copy elem head i → i < es → head + i < size * es) ∧
      ∀ tail elem, s.consumer = .copy tail elem → elem.length < es →
        tail + elem.length < size * es := by
  have hinit : SpscBounds size es (spscInit buffer) :=
    ⟨Nat.zero_le _, Nat.zero_le _, Nat.mul_pos Nat.two_pos hpos, Nat.mul_pos Nat.two_pos hpos⟩
  obtain ⟨hpush, hpop, hprod, hcons⟩ := inv_of_run (spscStep_bounds hpos) hinit hrun
  refine ⟨hpush, hpop, ?_, ?_⟩
  · intro elem head i hpc hi
    rw [hpc] at hprod
    have hhead := hprod.2.2
    omega
  · intro tail elem hpc hlt
    rw [hpc] at hcons
    have htail := hcons.2
    omega

/-! ## The invariant -/

/-- A counter stands for the number `n` of elements: it is reduced, or about to be
    wrapped. -/
def CounterOk (size n count : Nat) : Prop :=
  count = n % (2 * size) ∨ (count = 2 * size ∧ n % (2 * size) = 0)

/-- The increment of a reduced counter. -/
theorem counterOk_succ {size n : Nat} (hpos : 1 ≤ size) :
    CounterOk size (n + 1) (n % (2 * size) + 1) := by
  have hwrap := ring_wrap (n := n) hpos
  have hlt : n % (2 * size) < 2 * size := Nat.mod_lt _ (by omega)
  by_cases hge : n % (2 * size) + 1 ≥ 2 * size
  · rw [if_pos hge] at hwrap
    exact .inr ⟨by omega, hwrap.symm⟩
  · rw [if_neg hge] at hwrap
    exact .inl hwrap

/-- The comparison with `2 * size` tells a counter that is not wrapped. -/
theorem CounterOk.unwrapped {size n count : Nat} (h : CounterOk size n count) (hpos : 1 ≤ size)
    (hge : count ≥ 2 * size) : count = 2 * size ∧ n % (2 * size) = 0 := by
  have hlt : n % (2 * size) < 2 * size := Nat.mod_lt _ (by omega)
  rcases h with rfl | h
  · omega
  · exact h

theorem CounterOk.reduced {size n count : Nat} (h : CounterOk size n count)
    (hlt : ¬ count ≥ 2 * size) : count = n % (2 * size) := by
  rcases h with h | h
  · exact h
  · omega

/-- What the producer knows, after `written` elements were pushed and `popped` popped:
    once it has seen a free slot the slot stays free, and `memcpy` has filled a
    beginning of it. -/
def ProducerOk (size es : Nat) (buffer : Nat → UInt8) (written popped pushCount : Nat) :
    PushPc → Prop
  | .idle => pushCount = written % (2 * size)
  | .loadPush elem => pushCount = written % (2 * size) ∧ elem.length = es
  | .loadPop elem push =>
    pushCount = written % (2 * size) ∧ elem.length = es ∧ push = pushCount
  | .loadHead elem =>
    pushCount = written % (2 * size) ∧ elem.length = es ∧ written < popped + size
  | .copy elem head i =>
    pushCount = written % (2 * size) ∧ elem.length = es ∧ written < popped + size ∧
      head = written % size * es ∧ i ≤ es ∧ loadBytes buffer head i = elem.take i
  | .store elem push =>
    pushCount = written % (2 * size) ∧ elem.length = es ∧ written < popped + size ∧
      push = pushCount ∧ loadBytes buffer (written % size * es) es = elem
  | .test => CounterOk size written pushCount
  | .wrap => pushCount = 2 * size ∧ written % (2 * size) = 0

/-- What the consumer knows: the difference that it computes counts elements that are
    still there, and `memcpy` has copied a beginning of the oldest one. -/
def ConsumerOk (size es : Nat) (written : List (List UInt8)) (popped popCount : Nat) :
    PopPc → Prop
  | .idle | .loadPush => popCount = popped % (2 * size)
  | .loadPop push => popCount = popped % (2 * size) ∧
      ∃ n : Nat, popped ≤ n ∧ n ≤ written.length ∧ ringDistance size push popCount = n - popped
  | .loadTail => popCount = popped % (2 * size) ∧ popped < written.length
  | .copy tail elem => popCount = popped % (2 * size) ∧ tail = popped % size * es ∧
      ∃ e, written[popped]? = some e ∧ elem <+: e
  | .store elem pop =>
    popCount = popped % (2 * size) ∧ pop = popCount ∧ written[popped]? = some elem
  | .test => CounterOk size popped popCount
  | .wrap => popCount = 2 * size ∧ popped % (2 * size) = 0

/-- What holds between any two accesses. -/
structure SpscInv (size es : Nat) (s : Spsc) : Prop where
  popped_isPrefix : s.popped <+: s.written
  room : s.written.length ≤ s.popped.length + size
  elem_length : ∀ e ∈ s.written, e.length = es
  holds : RingHolds size (fun k => loadBytes s.buffer (k * es) es) s.popped.length
    (s.written.drop s.popped.length)
  producer : ProducerOk size es s.buffer s.written.length s.popped.length s.pushCount s.producer
  consumer : ConsumerOk size es s.written s.popped.length s.popCount s.consumer

/-- The reading that goes wrong: the consumer loads `push_count` between its increment
    and its wrap, while its own counter is 0. -/
def LoadsUnwrapped (size : Nat) (s : Spsc) (a : SpscAct) : Prop :=
  a = .consumer ∧ s.consumer = .loadPush ∧ s.pushCount = 2 * size ∧ s.popCount = 0

instance (size : Nat) (s : Spsc) (a : SpscAct) : Decidable (LoadsUnwrapped size s a) :=
  inferInstanceAs (Decidable (_ ∧ _))

section

variable {size es : Nat}

theorem ProducerOk.counterOk {buffer : Nat → UInt8} {written popped pushCount : Nat} {pc : PushPc}
    (h : ProducerOk size es buffer written popped pushCount pc) :
    CounterOk size written pushCount := by
  cases pc with
  | idle => exact .inl h
  | test => exact h
  | wrap => exact .inr h
  | loadPush | loadPop | loadHead | copy | store => exact .inl h.1

theorem ConsumerOk.counterOk {written : List (List UInt8)} {popped popCount : Nat} {pc : PopPc}
    (h : ConsumerOk size es written popped popCount pc) : CounterOk size popped popCount := by
  cases pc with
  | idle | loadPush => exact .inl h
  | test => exact h
  | wrap => exact .inr h
  | loadPop | loadTail | copy | store => exact .inl h.1

/-- Pops leave what the producer knows intact. -/
theorem ProducerOk.mono {buffer : Nat → UInt8} {written popped popped' pushCount : Nat}
    {pc : PushPc} (h : ProducerOk size es buffer written popped pushCount pc)
    (hle : popped ≤ popped') : ProducerOk size es buffer written popped' pushCount pc := by
  cases pc with
  | idle | loadPush | loadPop | test | wrap => exact h
  | loadHead elem =>
    obtain ⟨hcount, hes, hfree⟩ := h
    exact ⟨hcount, hes, by omega⟩
  | copy elem head i =>
    obtain ⟨hcount, hes, hfree, hcopied⟩ := h
    exact ⟨hcount, hes, by omega, hcopied⟩
  | store elem push =>
    obtain ⟨hcount, hes, hfree, hstored⟩ := h
    exact ⟨hcount, hes, by omega, hstored⟩

/-- Pushes leave what the consumer knows intact. -/
theorem ConsumerOk.concat {written : List (List UInt8)} {popped popCount : Nat} {pc : PopPc}
    (h : ConsumerOk size es written popped popCount pc) (elem : List UInt8) :
    ConsumerOk size es (written ++ [elem]) popped popCount pc := by
  have hget : ∀ e, written[popped]? = some e → (written ++ [elem])[popped]? = some e := by
    intro e he
    rw [List.getElem?_append_left (List.getElem?_eq_some_iff.mp he).1]
    exact he
  have hlen : written.length ≤ (written ++ [elem]).length := by
    rw [List.length_append]
    exact Nat.le_add_right _ _
  cases pc with
  | idle | loadPush | test | wrap => exact h
  | loadPop push =>
    obtain ⟨hcount, n, hle, hn, hdist⟩ := h
    exact ⟨hcount, n, hle, hn.trans hlen, hdist⟩
  | loadTail => exact ⟨h.1, Nat.lt_of_lt_of_le h.2 hlen⟩
  | copy tail elem' =>
    obtain ⟨hcount, htail, e, he, hpre⟩ := h
    exact ⟨hcount, htail, e, hget e he, hpre⟩
  | store elem' pop => exact ⟨h.1, h.2.1, hget elem' h.2.2⟩

/-- The producer computes the number of stored elements from any counter of the
    consumer. -/
theorem ringDistance_producer {written popped popCount : Nat} (hpos : 1 ≤ size)
    (hle : popped ≤ written) (hroom : written ≤ popped + size)
    (h : CounterOk size popped popCount) :
    ringDistance size (written % (2 * size) : Nat) popCount = written - popped := by
  have hdist := ringDistance_mod hle hroom hpos
  rcases h with rfl | ⟨rfl, hzero⟩
  · exact hdist
  · rw [hzero] at hdist
    rwa [ringDistance_unwrapped_pop (Nat.mod_lt _ (by omega))]

/-- The consumer does so except in the one case. -/
theorem ringDistance_consumer {written popped pushCount : Nat} (hpos : 1 ≤ size)
    (hle : popped ≤ written) (hroom : written ≤ popped + size)
    (h : CounterOk size written pushCount)
    (hne : ¬ (pushCount = 2 * size ∧ popped % (2 * size) = 0)) :
    ringDistance size pushCount (popped % (2 * size) : Nat) = written - popped := by
  have hdist := ringDistance_mod hle hroom hpos
  rcases h with rfl | ⟨rfl, hzero⟩
  · exact hdist
  · rw [hzero] at hdist
    have hpop : 0 < popped % (2 * size) := by
      by_contra hpop
      exact hne ⟨rfl, by omega⟩
    rwa [ringDistance_unwrapped_push hpop (Nat.mod_lt _ (by omega))]

/-! ## Steps of the producer -/

/-- The stored elements that a push leaves alone: `memcpy` writes to the slot behind
    them. -/
private theorem holds_update {s : Spsc} (h : SpscInv size es s) {i : Nat} {b : UInt8}
    (hfree : s.written.length < s.popped.length + size) (hi : i < es) :
    RingHolds size (fun k => loadBytes
        (Function.update s.buffer (s.written.length % size * es + i) b) (k * es) es)
      s.popped.length (s.written.drop s.popped.length) := by
  have hle := h.popped_isPrefix.length_le
  have hlen : (s.written.drop s.popped.length).length = s.written.length - s.popped.length :=
    List.length_drop
  refine h.holds.congr (by omega) fun k hk => loadBytes_congr fun j hj => ?_
  have hslot : s.popped.length + (s.written.drop s.popped.length).length = s.written.length := by
    omega
  rw [hslot] at hk
  exact Function.update_of_ne (slot_bytes_ne hk hj hi) _ _

private theorem circbufPushAccess_inv (hpos : 1 ≤ size) {s s' : Spsc} (h : SpscInv size es s)
    (hstep : circbufPushAccess size es s = some s') : SpscInv size es s' := by
  have hprod := h.producer
  have hle := h.popped_isPrefix.length_le
  unfold circbufPushAccess at hstep
  cases hpc : s.producer with
  | idle => simp only [hpc, reduceCtorEq] at hstep
  | loadPush elem =>
    simp only [hpc, Option.some.injEq] at hstep hprod
    subst hstep
    exact { h with producer := ⟨hprod.1, hprod.2, rfl⟩ }
  | loadPop elem push =>
    simp only [hpc] at hstep hprod
    obtain ⟨hcount, hes, rfl⟩ := hprod
    -- the counter of the consumer may be unwrapped here, which does no harm
    have hdist := ringDistance_producer hpos hle h.room h.consumer.counterOk
    rw [← hcount] at hdist
    split at hstep <;> obtain rfl := Option.some.inj hstep
    · exact { h with producer := hcount }
    · next hlt =>
      have hfree : s.written.length < s.popped.length + size := by omega
      exact { h with producer := ⟨hcount, hes, hfree⟩ }
  | loadHead elem =>
    simp only [hpc, Option.some.injEq] at hstep hprod
    subst hstep
    obtain ⟨hcount, hes, hfree⟩ := hprod
    have hhead : s.pushCount % size * es = s.written.length % size * es := by
      rw [hcount, Nat.mod_mul_left_mod]
    exact { h with producer := ⟨hcount, hes, hfree, hhead, Nat.zero_le _, rfl⟩ }
  | copy elem head i =>
    simp only [hpc] at hstep hprod
    obtain ⟨hcount, hes, hfree, rfl, hle_i, hbytes⟩ := hprod
    split at hstep <;> obtain rfl := Option.some.inj hstep
    · next b hb =>
      have hi : i < es := hes ▸ (List.getElem?_eq_some_iff.mp hb).1
      -- the bytes that were copied are kept, and the stored one extends them
      have hbytes' : loadBytes
          (Function.update s.buffer (s.written.length % size * es + i) b)
          (s.written.length % size * es) (i + 1) = elem.take (i + 1) := by
        have hkeep := loadBytes_congr (n := i) fun j hj => Function.update_of_ne
          (by omega : s.written.length % size * es + j ≠ s.written.length % size * es + i) b
          s.buffer
        rw [loadBytes_succ, hkeep, hbytes, Function.update_self, List.take_add_one, hb]
        rfl
      exact { h with
        holds := holds_update h hfree hi
        producer := ⟨hcount, hes, hfree, rfl, hi, hbytes'⟩ }
    · next hb =>
      -- all bytes are copied
      have hi : i = es := Nat.le_antisymm hle_i (hes ▸ List.getElem?_eq_none_iff.mp hb)
      have hall : elem.take i = elem := List.take_of_length_le (by omega)
      rw [hall, hi] at hbytes
      exact { h with producer := ⟨hcount, hes, hfree, rfl, hbytes⟩ }
  | store elem push =>
    simp only [hpc, Option.some.injEq] at hstep hprod
    subst hstep
    obtain ⟨hcount, hes, hfree, rfl, hbytes⟩ := hprod
    -- the written element becomes the newest stored one
    have hdrop : (s.written ++ [elem]).drop s.popped.length =
        s.written.drop s.popped.length ++ [elem] := List.drop_append_of_le_length hle
    have hlen : (s.written ++ [elem]).length = s.written.length + 1 := by
      rw [List.length_append, List.length_singleton]
    refine
      { popped_isPrefix := h.popped_isPrefix.trans (List.prefix_append _ _)
        room := ?_
        elem_length := ?_
        holds := ?_
        producer := ?_
        consumer := h.consumer.concat elem }
    · show (s.written ++ [elem]).length ≤ s.popped.length + size
      omega
    · intro e he
      rcases List.mem_append.mp he with he | he
      · exact h.elem_length e he
      · rw [List.mem_singleton.mp he, hes]
    · show RingHolds size _ s.popped.length ((s.written ++ [elem]).drop s.popped.length)
      rw [hdrop]
      refine h.holds.push ?_
      rwa [List.length_drop, Nat.add_sub_cancel' hle]
    · show CounterOk size (s.written ++ [elem]).length (s.pushCount + 1)
      rw [hlen, hcount]
      exact counterOk_succ hpos
  | test =>
    simp only [hpc, Option.some.injEq] at hstep hprod
    subst hstep
    refine { h with producer := ?_ }
    show ProducerOk size es s.buffer s.written.length s.popped.length s.pushCount
      (if s.pushCount ≥ 2 * size then .wrap else .idle)
    split
    · next hge => exact hprod.unwrapped hpos hge
    · next hlt => exact hprod.reduced hlt
  | wrap =>
    simp only [hpc, Option.some.injEq] at hstep hprod
    subst hstep
    exact { h with producer := hprod.2.symm }

/-! ## Steps of the consumer -/

private theorem circbufPopAccess_inv (hpos : 1 ≤ size) {s s' : Spsc} (h : SpscInv size es s)
    (hcond : ¬ LoadsUnwrapped size s .consumer)
    (hstep : circbufPopAccess size es s = some s') : SpscInv size es s' := by
  have hcons := h.consumer
  have hle := h.popped_isPrefix.length_le
  unfold circbufPopAccess at hstep
  cases hpc : s.consumer with
  | idle => simp only [hpc, reduceCtorEq] at hstep
  | loadPush =>
    simp only [hpc, Option.some.injEq] at hstep hcons
    subst hstep
    have hcount : s.popCount = s.popped.length % (2 * size) := hcons
    -- the reading that goes wrong is excluded
    have hne : ¬ (s.pushCount = 2 * size ∧ s.popped.length % (2 * size) = 0) :=
      fun hne => hcond ⟨rfl, hpc, hne.1, hcount.trans hne.2⟩
    have hdist := ringDistance_consumer hpos hle h.room h.producer.counterOk hne
    rw [← hcount] at hdist
    exact { h with consumer := ⟨hcount, s.written.length, hle, Nat.le_refl _, hdist⟩ }
  | loadPop push =>
    simp only [hpc] at hstep hcons
    obtain ⟨hcount, n, hle_n, hn, hdist⟩ := hcons
    split at hstep <;> obtain rfl := Option.some.inj hstep
    · exact { h with consumer := hcount }
    · next hne =>
      -- elements may have been pushed since the load, but none can have gone
      have hlt : s.popped.length < s.written.length := by omega
      exact { h with consumer := ⟨hcount, hlt⟩ }
  | loadTail =>
    simp only [hpc, Option.some.injEq] at hstep hcons
    subst hstep
    obtain ⟨hcount, hlt⟩ := hcons
    have htail : s.popCount % size * es = s.popped.length % size * es := by
      rw [hcount, Nat.mod_mul_left_mod]
    exact { h with
      consumer := ⟨hcount, htail, _, List.getElem?_eq_getElem hlt, List.nil_prefix⟩ }
  | copy tail elem =>
    simp only [hpc] at hstep hcons
    obtain ⟨hcount, rfl, e, he, hpre⟩ := hcons
    have hes : e.length = es := h.elem_length e (List.mem_of_getElem? he)
    split at hstep <;> obtain rfl := Option.some.inj hstep
    · next hlt =>
      -- the next byte is that of the oldest stored element
      have hslot : loadBytes s.buffer (s.popped.length % size * es) es = e := by
        refine h.holds 0 e ?_
        rw [List.getElem?_drop, Nat.add_zero]
        exact he
      have hbyte := getElem?_loadBytes s.buffer (s.popped.length % size * es) hlt
      rw [hslot] at hbyte
      exact { h with consumer := ⟨hcount, rfl, e, he, List.isPrefix_concat hpre hbyte⟩ }
    · next hge =>
      -- all bytes are copied
      have hall : elem = e := hpre.eq_of_length_le (by omega)
      subst hall
      exact { h with consumer := ⟨hcount, rfl, he⟩ }
  | store elem pop =>
    simp only [hpc, Option.some.injEq] at hstep hcons
    subst hstep
    obtain ⟨hcount, rfl, he⟩ := hcons
    have hlt : s.popped.length < s.written.length := (List.getElem?_eq_some_iff.mp he).1
    have hlen : (s.popped ++ [elem]).length = s.popped.length + 1 := by
      rw [List.length_append, List.length_singleton]
    -- the popped element is the oldest stored one
    have hdrop := List.drop_eq_getElem_cons hlt
    refine
      { popped_isPrefix := List.isPrefix_concat h.popped_isPrefix he
        room := ?_
        elem_length := h.elem_length
        holds := ?_
        producer := ?_
        consumer := ?_ }
    · show s.written.length ≤ (s.popped ++ [elem]).length + size
      have hroom := h.room
      omega
    · show RingHolds size _ (s.popped ++ [elem]).length
        (s.written.drop (s.popped ++ [elem]).length)
      have hholds := h.holds
      rw [hdrop] at hholds
      rw [hlen]
      exact hholds.pop
    · exact h.producer.mono (by rw [hlen]; exact Nat.le_add_right _ _)
    · show CounterOk size (s.popped ++ [elem]).length (s.popCount + 1)
      rw [hlen, hcount]
      exact counterOk_succ hpos
  | test =>
    simp only [hpc, Option.some.injEq] at hstep hcons
    subst hstep
    refine { h with consumer := ?_ }
    show ConsumerOk size es s.written s.popped.length s.popCount
      (if s.popCount ≥ 2 * size then .wrap else .idle)
    split
    · next hge => exact CounterOk.unwrapped hcons hpos hge
    · next hlt => exact CounterOk.reduced hcons hlt
  | wrap =>
    simp only [hpc, Option.some.injEq] at hstep hcons
    subst hstep
    exact { h with consumer := hcons.2.symm }

/-- Every step keeps the invariant, unless it is the reading that goes wrong. -/
theorem spscStep_inv (hpos : 1 ≤ size) (s : Spsc) (a : SpscAct) (s' : Spsc)
    (h : SpscInv size es s) (hcond : ¬ LoadsUnwrapped size s a)
    (hstep : spscStep size es s a = some s') : SpscInv size es s' := by
  cases a with
  | push elem =>
    obtain ⟨hidle, hes, rfl⟩ := spscStep_push_inv hstep
    have hprod := h.producer
    rw [hidle] at hprod
    exact { h with producer := ⟨hprod, hes⟩ }
  | pop =>
    obtain ⟨hidle, rfl⟩ := spscStep_pop_inv hstep
    have hcons := h.consumer
    rw [hidle] at hcons
    exact { h with consumer := hcons }
  | producer => exact circbufPushAccess_inv hpos h hstep
  | consumer => exact circbufPopAccess_inv hpos h hcond hstep

/-- The reading that goes wrong is taken on an empty buffer, and finds it not empty. -/
theorem loadsUnwrapped_pops_empty (hpos : 1 ≤ size) {s : Spsc} (h : SpscInv size es s)
    (hload : LoadsUnwrapped size s .consumer) :
    s.popped = s.written ∧ ∃ s₁ s₂, spscStep size es s .consumer = some s₁ ∧
      spscStep size es s₁ .consumer = some s₂ ∧ s₂.consumer = .loadTail := by
  obtain ⟨_, hpc, hpush, hpop⟩ := hload
  have hle := h.popped_isPrefix.length_le
  have hcons := h.consumer
  rw [hpc] at hcons
  -- both numbers of elements are multiples of `2 * size`, and at most `size` apart
  have hpopped : s.popped.length % (2 * size) = 0 := hcons.symm.trans hpop
  have hwritten := (h.producer.counterOk.unwrapped hpos (Nat.le_of_eq hpush.symm)).2
  have hdist := ringDistance_mod hle h.room hpos
  rw [hpopped, hwritten] at hdist
  have hlen : s.popped.length = s.written.length := by
    unfold ringDistance at hdist
    split at hdist <;> omega
  refine ⟨h.popped_isPrefix.eq_of_length hlen, { s with consumer := .loadPop s.pushCount },
    { s with consumer := .loadTail }, ?_, ?_, ?_⟩
  · simp only [spscStep, circbufPopAccess, hpc]
  · have hne : ¬ ringDistance size s.pushCount s.popCount = 0 := by
      rw [hpush, hpop]
      unfold ringDistance
      split <;> omega
    simp only [spscStep, circbufPopAccess, hne, ↓reduceIte]
  · rfl

theorem spscInit_inv (buffer : Nat → UInt8) : SpscInv size es (spscInit buffer) where
  popped_isPrefix := List.prefix_refl _
  room := Nat.zero_le _
  elem_length := fun _ he => nomatch he
  holds := .nil
  producer := (Nat.zero_mod _).symm
  consumer := (Nat.zero_mod _).symm

end

/-! ## Results -/

/-- In every interleaving in which the consumer never loads `push_count` between its
    increment and its wrap while `pop_count` is 0, the popped elements are a prefix of
    the written ones. -/
theorem spsc_popped_isPrefix (size es : Nat) (hpos : 1 ≤ size) (buffer : Nat → UInt8)
    (as : List SpscAct) (s : Spsc)
    (hmeets : Meets (spscStep size es) (fun s a => ¬ LoadsUnwrapped size s a) (spscInit buffer) as)
    (hrun : run (spscStep size es) (spscInit buffer) as = some s) : s.popped <+: s.written :=
  (inv_of_meets (spscStep_inv hpos) (spscInit_inv buffer) hmeets hrun).popped_isPrefix

/-- The accesses of one push, up to and including the store of `push_count++`. -/
def pushToStore (elem : List UInt8) : List SpscAct :=
  .push elem :: List.replicate (elem.length + 5) .producer

/-- The accesses of one pop, up to and including the comparison with `2 * size`. -/
def popToTest (es : Nat) : List SpscAct := .pop :: List.replicate (es + 6) .consumer

/-- Two elements pass through a ring of one slot. -/
theorem spsc_popped_isPrefix_run :
    ∃ s, run (spscStep 1 1) (spscInit fun _ => 0) (pushToStore [7] ++ [.producer] ++ popToTest 1 ++
      pushToStore [8] ++ popToTest 1) = some s ∧ s.popped = [[7], [8]] ∧ s.popped <+: s.written :=
  ⟨_, rfl, rfl, spsc_popped_isPrefix 1 1 (by decide) (fun _ => 0)
    (pushToStore [7] ++ [.producer] ++ popToTest 1 ++ pushToStore [8] ++ popToTest 1) _
    (by decide) rfl⟩

/-- A ring of one slot: the second push has not wrapped `push_count` yet when the
    second pop wraps `pop_count`, and the third pop yields the second element again. -/
theorem spsc_stale_pop :
    ∃ s, run (spscStep 1 1) (spscInit fun _ => 0) (pushToStore [7] ++ [.producer] ++ popToTest 1 ++
      pushToStore [8] ++ popToTest 1 ++ [.consumer] ++ popToTest 1) = some s ∧
      s.written = [[7], [8]] ∧ s.popped = [[7], [8], [8]] ∧ ¬ s.popped <+: s.written :=
  ⟨_, rfl, rfl, rfl, by decide⟩

end CUtils
