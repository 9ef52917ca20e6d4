import CUtils.ForStd.Ring

/-!
# Circular buffers between two threads

One producer thread calls `__circbuf_push` and one consumer thread calls
`__circbuf_pop` with `read_only = 0` on the same `circbuf_t`, under sequential
consistency.  A step is one load or one store of a shared location: a counter or a
byte of the data array.  `push_count++` is a load and a store, the wrap to 0 is a
store of its own.

The counters never exceed `2 * size` (`spsc_counters_le`), so no `int` overflows when
`2 * size` is one, and they are modelled by `Nat`.
-/

namespace CUtils

/-- Where the producer is inside of `__circbuf_push`: the constructors name the next
    access and carry the local values. -/
inductive PushPc
  /-- outside of the function -/
  | idle
  /-- `push_count` in the subtraction -/
  | loadPush (elem : List UInt8)
  /-- `pop_count` in the subtraction, and the test for a full buffer -/
  | loadPop (elem : List UInt8) (push : Nat)
  /-- `push_count % size` -/
  | loadHead (elem : List UInt8)
  /-- the store of byte `i` by `memcpy`; after the last byte the load of `push_count++` -/
  | copy (elem : List UInt8) (head i : Nat)
  /-- the store of `push_count++` -/
  | store (elem : List UInt8) (push : Nat)
  /-- `push_count` in the comparison with `2 * size` -/
  | test
  /-- `push_count = 0` -/
  | wrap
deriving DecidableEq

/-- Where the consumer is inside of `__circbuf_pop`. -/
inductive PopPc
  | idle
  /-- `push_count` in the subtraction -/
  | loadPush
  /-- `pop_count` in the subtraction, and the test for an empty buffer -/
  | loadPop (push : Nat)
  /-- `pop_count % size` -/
  | loadTail
  /-- the load of the next byte by `memcpy`; after the last byte the load of `pop_count++` -/
  | copy (tail : Nat) (elem : List UInt8)
  /-- the store of `pop_count++` -/
  | store (elem : List UInt8) (pop : Nat)
  /-- `pop_count` in the comparison with `2 * size` -/
  | test
  /-- `pop_count = 0` -/
  | wrap
deriving DecidableEq

/-- The shared `circbuf_t` and the two threads.  `written` and `popped` record the
    elements whose push and pop have moved the counter; no step depends on them. -/
structure Spsc where
  buffer : Nat → UInt8
  pushCount : Nat
  popCount : Nat
  producer : PushPc
  consumer : PopPc
  written : List (List UInt8)
  popped : List (List UInt8)

/-- What the scheduler can do. -/
inductive SpscAct
  /-- the producer calls `__circbuf_push` with this element -/
  | push (elem : List UInt8)
  /-- the consumer calls `__circbuf_pop` -/
  | pop
  /-- the next access of the producer -/
  | producer
  /-- the next access of the consumer -/
  | consumer
deriving DecidableEq

/-- A buffer with zeroed counters and both threads outside of the functions. -/
def spscInit (buffer : Nat → UInt8) : Spsc :=
  { buffer, pushCount := 0, popCount := 0, producer := .idle, consumer := .idle,
    written := [], popped := [] }

/-- The next access of `__circbuf_push`. -/
def circbufPushAccess (size es : Nat) (s : Spsc) : Option Spsc :=
  match s.producer with
  | .idle => none
  | .loadPush elem => some { s with producer := .loadPop elem s.pushCount }
  | .loadPop elem push =>
    if ringDistance size push s.popCount ≥ size then
      some { s with producer := .idle } -- full
    else
      some { s with producer := .loadHead elem }
  | .loadHead elem => some { s with producer := .copy elem (s.pushCount % size * es) 0 }
  | .copy elem head i => match elem[i]? with
    | some b =>
      some { s with
        buffer := Function.update s.buffer (head + i) b, producer := .copy elem head (i + 1) }
    | none => some { s with producer := .store elem s.pushCount }
  | .store elem push =>
    some { s with pushCount := push + 1, producer := .test, written := s.written ++ [elem] }
  | .test =>
    some { s with producer := if s.pushCount ≥ 2 * size then .wrap else .idle }
  | .wrap => some { s with pushCount := 0, producer := .idle }

/-- The next access of `__circbuf_pop`. -/
def circbufPopAccess (size es : Nat) (s : Spsc) : Option Spsc :=
  match s.consumer with
  | .idle => none
  | .loadPush => some { s with consumer := .loadPop s.pushCount }
  | .loadPop push =>
    if ringDistance size push s.popCount = 0 then
      some { s with consumer := .idle } -- empty
    else
      some { s with consumer := .loadTail }
  | .loadTail => some { s with consumer := .copy (s.popCount % size * es) [] }
  | .copy tail elem =>
    if elem.length < es then
      some { s with consumer := .copy tail (elem ++ [s.buffer (tail + elem.length)]) }
    else
      some { s with consumer := .store elem s.popCount }
  | .store elem pop =>
    some { s with popCount := pop + 1, consumer := .test, popped := s.popped ++ [elem] }
  | .test =>
    some { s with consumer := if s.popCount ≥ 2 * size then .wrap else .idle }
  | .wrap => some { s with popCount := 0, consumer := .idle }

/-- One step of the two threads on a buffer of `size` elements of `es` bytes. -/
def spscStep (size es : Nat) (s : Spsc) : SpscAct → Option Spsc
  | .push elem =>
    if s.producer = .idle ∧ elem.length = es then
      some { s with producer := .loadPush elem }
    else
      none
  | .pop => if s.consumer = .idle then some { s with consumer := .loadPush } else none
  | .producer => circbufPushAccess size es s
  | .consumer => circbufPopAccess size es s

end CUtils
