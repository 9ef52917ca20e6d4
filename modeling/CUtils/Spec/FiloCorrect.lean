import CUtils.ForStd.BlockStack
import CUtils.ForStd.StepSystem
import CUtils.Native.Filo

/-!
# A filo is a bounded stack

The elements lie in the buffer from its start on, and `top` counts them.  All offsets are
exact if the size of the whole buffer is; `filo_alloc` computes that size without a check.

- `filo_refines_stack`: every sequence of calls returns what a bounded stack returns.
- `filoAlloc_safe_iff`: for which sizes all accesses stay inside of the allocated block.
-/

namespace CUtils

open StepSystem

/-! ## Bounded stacks -/

/-- The calls on a filo: an element of the right size for push, and for pop whether the
    element is removed. -/
inductive FiloOp (es : Nat)
  | push (elem : List UInt8) (sized : elem.length = es)
  | pop (remove : Bool)
  | getCount
  | getFreeSpace
  | reset

/-- What a call returns: nothing, the return value with the bytes copied to `*elem`, or a
    number of elements. -/
inductive FiloOut
  | void
  | result (rc : Int) (elem : Option (List UInt8))
  | size (n : Nat)
deriving DecidableEq

/-- One call of the C functions. -/
def filoStep {es : Nat} (pfilo : Filo) : FiloOp es → Option (Filo × FiloOut)
  | .push elem _ => (filoPush pfilo elem).map fun r => (r.1, .result r.2 none)
  | .pop remove => (filoPop pfilo remove).map fun r => (r.1, .result r.2.1 r.2.2)
  | .getCount => some (pfilo, .size (filoGetCount pfilo).toNat)
  | .getFreeSpace => some (pfilo, .size (filoGetFreeSpace pfilo).toNat)
  | .reset => some (filoReset pfilo, .void)

/-- One call on a stack of at most `size` elements, the top first. -/
def stackStep {es : Nat} (size : Nat) (q : List (List UInt8)) :
    FiloOp es → List (List UInt8) × FiloOut
  | .push elem _ => if q.length = size then (q, .result (-1) none) else (elem :: q, .result 0 none)
  | .pop remove => match q with
    | [] => ([], .result (-1) none)
    | e :: q => (if remove then q else e :: q, .result 0 (some e))
  | .getCount => (q, .size q.length)
  | .getFreeSpace => (q, .size (size - q.length))
  | .reset => ([], .void)

/-! ## The elements in the buffer -/

/-- The filo holds the elements `q`, the top first, and its buffer has room for all. -/
structure FiloRepr (es size : UInt64) (pfilo : Filo) (q : List (List UInt8)) : Prop where
  elemSize_eq : pfilo.elemSize = es
  maxSize_eq : pfilo.maxSize = size
  top_eq : pfilo.top.toNat = q.length
  length_le : q.length ≤ size.toNat
  room : es.toNat * size.toNat ≤ pfilo.buffer.length
  fits : es.toNat * size.toNat < 2 ^ 64
  holds : HoldsBlocks es.toNat pfilo.buffer q

/-- The offset of a slot does not wrap. -/
theorem toNat_slot {es k : UInt64} {n : Nat} (hk : k.toNat = n) (hfit : es.toNat * n < 2 ^ 64) :
    (es * k).toNat = es.toNat * n := by
  rw [UInt64.toNat_mul, hk, Nat.mod_eq_of_lt hfit]

namespace FiloRepr

variable {es size : UInt64} {pfilo : Filo} {e : List UInt8} {q : List (List UInt8)}

/-- A slot below the bound has its place in the buffer. -/
theorem slot_le (es : UInt64) {size : UInt64} {k : Nat} (hk : k < size.toNat) :
    es.toNat * k + es.toNat ≤ es.toNat * size.toNat := by
  rw [← Nat.mul_succ]
  exact Nat.mul_le_mul_left es.toNat hk

theorem filoPush_full (h : FiloRepr es size pfilo q) (hfull : q.length = size.toNat)
    (elem : List UInt8) : filoPush pfilo elem = some (pfilo, -1) := by
  have htop : pfilo.top ≥ pfilo.maxSize := by
    rw [ge_iff_le, UInt64.le_iff_toNat_le, h.top_eq, h.maxSize_eq, hfull]
  rw [filoPush, if_pos htop]

/-- A push stores its element behind the others, which stay as they are. -/
theorem filoPush_spec (h : FiloRepr es size pfilo q) (hlt : q.length < size.toNat)
    (he : e.length = es.toNat) :
    ∃ pfilo', filoPush pfilo e = some (pfilo', 0) ∧ FiloRepr es size pfilo' (e :: q) ∧
      pfilo'.buffer.take (es.toNat * q.length) = pfilo.buffer.take (es.toNat * q.length) := by
  have hslot := slot_le es hlt
  have hroom := h.room
  have hfit := h.fits
  have hlt64 := size.toNat_lt
  have htop : ¬ pfilo.top ≥ pfilo.maxSize := by
    rw [ge_iff_le, UInt64.le_iff_toNat_le, h.top_eq, h.maxSize_eq]
    exact Nat.not_le.mpr hlt
  -- the offset, the copy and the new count are exact
  have hoff : (pfilo.elemSize * pfilo.top).toNat = es.toNat * q.length := by
    rw [h.elemSize_eq]
    exact toNat_slot h.top_eq (by omega)
  have hin : es.toNat * q.length + e.length ≤ pfilo.buffer.length := by omega
  have hcopy : memcpy pfilo.buffer (es.toNat * q.length) e pfilo.elemSize.toNat =
      some (splice pfilo.buffer (es.toNat * q.length) e) := by
    rw [h.elemSize_eq, ← he]
    exact memcpy_length (by rwa [he] at *)
  have hnext : (pfilo.top + 1).toNat = q.length + 1 := by
    rw [UInt64.toNat_add, h.top_eq]
    exact Nat.mod_eq_of_lt (show q.length + 1 < 2 ^ 64 by omega)
  have hrun : filoPush pfilo e = some ({ pfilo with
      buffer := splice pfilo.buffer (es.toNat * q.length) e, top := pfilo.top + 1 }, 0) := by
    simp only [filoPush, if_neg htop, hoff, hcopy, Option.bind_eq_bind, Option.bind_some,
      Option.pure_def]
  refine ⟨_, hrun, ⟨h.elemSize_eq, h.maxSize_eq, hnext, hlt, ?_, hfit,
    h.holds.push he (by omega)⟩, take_splice_of_le hin (Nat.le_refl _)⟩
  show es.toNat * size.toNat ≤ (splice pfilo.buffer (es.toNat * q.length) e).length
  rwa [length_splice hin]

theorem filoPop_empty (h : FiloRepr es size pfilo []) (remove : Bool) :
    filoPop pfilo remove = some (pfilo, -1, none) := by
  have htop : pfilo.top = 0 := UInt64.toNat_inj.mp h.top_eq
  rw [filoPop, if_pos htop]

/-- A pop yields the top, and takes it off if it is told to. -/
theorem filoPop_spec (h : FiloRepr es size pfilo (e :: q)) (remove : Bool) :
    ∃ pfilo', filoPop pfilo remove = some (pfilo', 0, some e) ∧
      FiloRepr es size pfilo' (if remove then q else e :: q) := by
  have htop := h.top_eq
  have hle := h.length_le
  rw [List.length_cons] at htop hle
  have hslot := slot_le es hle
  have hfit := h.fits
  have hne : pfilo.top ≠ 0 := by
    intro hzero
    rw [hzero] at htop
    exact absurd htop (Nat.succ_ne_zero _).symm
  have hone : (1 : UInt64) ≤ pfilo.top := by
    rw [UInt64.le_iff_toNat_le, htop]
    exact Nat.le_add_left 1 _
  have hbelow : (pfilo.top - 1).toNat = q.length := by
    rw [UInt64.toNat_sub_of_le _ _ hone, htop]
    rfl
  -- the slot below `top` holds the top of the stack
  have hoff : (pfilo.elemSize * (pfilo.top - 1)).toNat = es.toNat * q.length := by
    rw [h.elemSize_eq]
    exact toNat_slot hbelow (by omega)
  have hread : readAt pfilo.buffer (es.toNat * q.length) pfilo.elemSize.toNat = some e := by
    rw [h.elemSize_eq]
    exact h.holds.top
  have hrun : filoPop pfilo remove =
      some (if remove then { pfilo with top := pfilo.top - 1 } else pfilo, 0, some e) := by
    simp only [filoPop, if_neg hne, hoff, hread, Option.bind_eq_bind, Option.bind_some,
      Option.pure_def]
  refine ⟨_, hrun, ?_⟩
  cases remove with
  | false => exact h
  | true =>
    exact ⟨h.elemSize_eq, h.maxSize_eq, hbelow, Nat.le_of_succ_le hle, h.room, hfit, h.holds.pop⟩

theorem filoGetFreeSpace_eq (h : FiloRepr es size pfilo q) :
    (filoGetFreeSpace pfilo).toNat = size.toNat - q.length := by
  have hle : pfilo.top ≤ pfilo.maxSize := by
    rw [UInt64.le_iff_toNat_le, h.top_eq, h.maxSize_eq]
    exact h.length_le
  rw [filoGetFreeSpace, UInt64.toNat_sub_of_le _ _ hle, h.top_eq, h.maxSize_eq]

theorem filoReset_spec (h : FiloRepr es size pfilo q) : FiloRepr es size (filoReset pfilo) [] :=
  ⟨h.elemSize_eq, h.maxSize_eq, rfl, Nat.zero_le _, h.room, h.fits, HoldsBlocks.nil _ _⟩

/-- Every call runs and returns what the stack returns. -/
theorem filoStep_spec (h : FiloRepr es size pfilo q) (op : FiloOp es.toNat) :
    ∃ pfilo', filoStep pfilo op = some (pfilo', (stackStep size.toNat q op).2) ∧
      FiloRepr es size pfilo' (stackStep size.toNat q op).1 := by
  cases op with
  | push elem hop =>
    by_cases hfull : q.length = size.toNat
    · rw [stackStep, if_pos hfull]
      refine ⟨pfilo, ?_, h⟩
      rw [filoStep, h.filoPush_full hfull]
      rfl
    · have hlt : q.length < size.toNat := Nat.lt_of_le_of_ne h.length_le hfull
      obtain ⟨pfilo', hpush, hrepr, _⟩ := h.filoPush_spec hlt hop
      rw [stackStep, if_neg hfull]
      refine ⟨pfilo', ?_, hrepr⟩
      rw [filoStep, hpush]
      rfl
  | pop remove =>
    cases q with
    | nil =>
      refine ⟨pfilo, ?_, h⟩
      rw [filoStep, h.filoPop_empty]
      rfl
    | cons e q =>
      obtain ⟨pfilo', hpop, hrepr⟩ := h.filoPop_spec remove
      refine ⟨pfilo', ?_, hrepr⟩
      rw [filoStep, hpop]
      rfl
  | getCount =>
    refine ⟨pfilo, ?_, h⟩
    rw [filoStep, filoGetCount, h.top_eq]
    rfl
  | getFreeSpace =>
    refine ⟨pfilo, ?_, h⟩
    rw [filoStep, h.filoGetFreeSpace_eq]
    rfl
  | reset => exact ⟨filoReset pfilo, rfl, h.filoReset_spec⟩

end FiloRepr

theorem filoInit_repr {es size : UInt64} {buffer : List UInt8}
    (hfit : es.toNat * size.toNat < 2 ^ 64) (hbuf : es.toNat * size.toNat ≤ buffer.length) :
    FiloRepr es size (filoInit buffer es size) [] :=
  ⟨rfl, rfl, rfl, Nat.zero_le _, hbuf, hfit, HoldsBlocks.nil _ _⟩

theorem filoPush_failed {pfilo pfilo' : Filo} {elem : List UInt8}
    (h : filoPush pfilo elem = some (pfilo', -1)) : pfilo' = pfilo := by
  unfold filoPush at h
  split at h
  · obtain ⟨rfl, _⟩ := Prod.mk.inj (Option.some.inj h)
    rfl
  · -- a push with room returns 0, if it does not fault
    obtain ⟨_, _, h⟩ := Option.bind_eq_some_iff.mp h
    obtain ⟨_, hrc⟩ := Prod.mk.inj (Option.some.inj h)
    cases hrc

theorem filoPop_failed {pfilo pfilo' : Filo} {remove : Bool} {elem : Option (List UInt8)}
    (h : filoPop pfilo remove = some (pfilo', -1, elem)) : pfilo' = pfilo := by
  unfold filoPop at h
  split at h
  · obtain ⟨rfl, _⟩ := Prod.mk.inj (Option.some.inj h)
    rfl
  · obtain ⟨_, _, h⟩ := Option.bind_eq_some_iff.mp h
    obtain ⟨_, hrc⟩ := Prod.mk.inj (Option.some.inj h)
    cases (Prod.mk.inj hrc).1

/-- A call that fails changes nothing. -/
theorem filoStep_failed {es : Nat} {pfilo pfilo' : Filo} {op : FiloOp es}
    {elem : Option (List UInt8)} (h : filoStep pfilo op = some (pfilo', .result (-1) elem)) :
    pfilo' = pfilo := by
  cases op with
  | push e _ =>
    obtain ⟨⟨f, rc⟩, hpush, hr⟩ := Option.map_eq_some_iff.mp h
    simp only [Prod.mk.injEq, FiloOut.result.injEq] at hr
    obtain ⟨rfl, rfl, _⟩ := hr
    exact filoPush_failed hpush
  | pop remove =>
    obtain ⟨⟨f, rc, copied⟩, hpop, hr⟩ := Option.map_eq_some_iff.mp h
    simp only [Prod.mk.injEq, FiloOut.result.injEq] at hr
    obtain ⟨rfl, rfl, _⟩ := hr
    exact filoPop_failed hpop
  | getCount => simp [filoStep] at h
  | getFreeSpace => simp [filoStep] at h
  | reset => simp [filoStep] at h

/-- Every sequence of calls runs as on the stack. -/
theorem filo_run_spec {es size : UInt64} {buffer : List UInt8}
    (hfit : es.toNat * size.toNat < 2 ^ 64) (hbuf : es.toNat * size.toNat ≤ buffer.length)
    (ops : List (FiloOp es.toNat)) :
    ∃ pfilo q outs, runOut filoStep (filoInit buffer es size) ops = some (pfilo, outs) ∧
      runOut (fun q op => some (stackStep size.toNat q op)) [] ops = some (q, outs) ∧
      FiloRepr es size pfilo q := by
  have hsim : ∀ (pfilo : Filo) q (op : FiloOp es.toNat), FiloRepr es size pfilo q →
      ∃ pfilo', filoStep pfilo op = some (pfilo', (stackStep size.toNat q op).2) ∧
        FiloRepr es size pfilo' (stackStep size.toNat q op).1 :=
    fun pfilo q op h => h.filoStep_spec op
  exact runOut_simulation_total hsim ops (filoInit_repr hfit hbuf)

/-- Every sequence of calls on a buffer with room for `size` elements of `es` bytes returns
    what a stack of at most `size` elements returns.  Afterwards the buffer holds the
    elements of the stack, a call that fails changes nothing, and a push leaves the bytes
    of all stored elements alone. -/
theorem filo_refines_stack {es size : UInt64} {buffer : List UInt8}
    (hfit : es.toNat * size.toNat < 2 ^ 64) (hbuf : es.toNat * size.toNat ≤ buffer.length)
    (ops : List (FiloOp es.toNat)) :
    ∃ pfilo q outs, runOut filoStep (filoInit buffer es size) ops = some (pfilo, outs) ∧
      runOut (fun q op => some (stackStep size.toNat q op)) [] ops = some (q, outs) ∧
      FiloRepr es size pfilo q ∧
      (filoGetCount pfilo).toNat + (filoGetFreeSpace pfilo).toNat = size.toNat ∧
      (∀ (op : FiloOp es.toNat) pfilo' elem,
        filoStep pfilo op = some (pfilo', .result (-1) elem) → pfilo' = pfilo) ∧
      ∀ elem pfilo' rc, elem.length = es.toNat → filoPush pfilo elem = some (pfilo', rc) →
        pfilo'.buffer.take (es.toNat * q.length) = pfilo.buffer.take (es.toNat * q.length) := by
  obtain ⟨pfilo, q, outs, hrun, hspec, h⟩ := filo_run_spec hfit hbuf ops
  refine ⟨pfilo, q, outs, hrun, hspec, h, ?_, fun op pfilo' elem => filoStep_failed, ?_⟩
  · have hle := h.length_le
    rw [h.filoGetFreeSpace_eq, filoGetCount, h.top_eq]
    omega
  · -- a push that is refused leaves all bytes alone
    intro elem pfilo' rc he hpush
    by_cases hfull : q.length = size.toNat
    · rw [h.filoPush_full hfull] at hpush
      obtain ⟨rfl, _⟩ := Prod.mk.inj (Option.some.inj hpush)
      rfl
    · have hlt : q.length < size.toNat := Nat.lt_of_le_of_ne h.length_le hfull
      obtain ⟨pfilo₁, hpush₁, _, hkeep⟩ := h.filoPush_spec hlt he
      rw [hpush₁] at hpush
      obtain ⟨rfl, _⟩ := Prod.mk.inj (Option.some.inj hpush)
      exact hkeep

/-- Two elements of two bytes; the third one is refused. -/
theorem filo_refines_stack_two : ∃ pfilo, runOut filoStep (filoInit [7, 7, 7, 7] 2 2)
      ([.push [1, 2] rfl, .push [3, 4] rfl, .push [5, 6] rfl, .pop false, .pop true,
        .getFreeSpace] : List (FiloOp 2)) =
      some (pfilo, [.result 0 none, .result 0 none, .result (-1) none, .result 0 (some [3, 4]),
        .result 0 (some [3, 4]), .size 1]) ∧ FiloRepr 2 2 pfilo [[1, 2]] := by
  have hfit : (2 : UInt64).toNat * (2 : UInt64).toNat < 2 ^ 64 := by decide
  have hbuf : (2 : UInt64).toNat * (2 : UInt64).toNat ≤ ([7, 7, 7, 7] : List UInt8).length := by
    decide
  obtain ⟨pfilo, q, outs, hrun, hspec, hrepr, _⟩ := filo_refines_stack hfit hbuf
    [.push [1, 2] rfl, .push [3, 4] rfl, .push [5, 6] rfl, .pop false, .pop true, .getFreeSpace]
  obtain ⟨rfl, rfl⟩ := Prod.mk.inj (Option.some.inj hspec)
  exact ⟨pfilo, hrun, hrepr⟩

/-! ## filo_alloc -/

/-- The calls that read or write an element. -/
def FiloOp.accesses {es : Nat} : FiloOp es → Bool
  | .push _ _ => true
  | .pop _ => true
  | _ => false

/-- A push below the bound accesses its slot, or it faults. -/
theorem filoPush_eq_some {pfilo pfilo' : Filo} {elem : List UInt8} {rc : Int}
    (hlt : pfilo.top < pfilo.maxSize) (h : filoPush pfilo elem = some (pfilo', rc)) :
    ∃ buffer, pfilo' = { pfilo with buffer, top := pfilo.top + 1 } ∧
      buffer.length = pfilo.buffer.length ∧
      (pfilo.elemSize * pfilo.top).toNat + pfilo.elemSize.toNat ≤ pfilo.buffer.length := by
  rw [filoPush, if_neg (UInt64.not_le.mpr hlt)] at h
  obtain ⟨buffer, hcopy, h⟩ := Option.bind_eq_some_iff.mp h
  obtain ⟨_, hin, hlen⟩ := memcpy_eq_some hcopy
  obtain ⟨rfl, _⟩ := Prod.mk.inj (Option.some.inj h)
  exact ⟨buffer, rfl, hlen, hin⟩

/-- A run of pushes of which the first one faults. -/
theorem runOut_pushes_of_fault {es : Nat} {pfilo : Filo} {elem : List UInt8}
    (he : elem.length = es) (hpush : filoPush pfilo elem = none) (k : Nat) :
    runOut filoStep pfilo (List.replicate (k + 1) (FiloOp.push elem he)) = none := by
  rw [List.replicate_succ, runOut, filoStep, hpush]
  rfl

/-- The slot with the number `n` ends behind every block, so a run of pushes that gets there
    faults. -/
theorem runOut_pushes_eq_none {es size : UInt64} {n k : Nat} {pfilo : Filo} {elem : List UInt8}
    (he : elem.length = es.toNat) (hes : pfilo.elemSize = es) (hsize : pfilo.maxSize = size)
    (hk : pfilo.top.toNat + k = n) (hn : n < size.toNat) (hlo : es.toNat * n < 2 ^ 64)
    (hhi : 2 ^ 64 ≤ es.toNat * n + es.toNat) (hbuf : pfilo.buffer.length < 2 ^ 64) :
    runOut filoStep pfilo (List.replicate (k + 1) (FiloOp.push elem he)) = none := by
  -- by induction on the pushes in front of the last one
  induction k generalizing pfilo with
  | zero =>
    have hlt : pfilo.top < pfilo.maxSize := by
      rw [UInt64.lt_iff_toNat_lt, hsize]
      omega
    cases hpush : filoPush pfilo elem with
    | none => exact runOut_pushes_of_fault he hpush _
    | some r =>
      obtain ⟨buffer, _, _, hin⟩ := filoPush_eq_some hlt hpush
      have hoff : (pfilo.elemSize * pfilo.top).toNat = es.toNat * n := by
        rw [hes]
        exact toNat_slot hk hlo
      rw [hoff, hes] at hin
      omega
  | succ k ih =>
    have hlt : pfilo.top < pfilo.maxSize := by
      rw [UInt64.lt_iff_toNat_lt, hsize]
      omega
    cases hpush : filoPush pfilo elem with
    | none => exact runOut_pushes_of_fault he hpush _
    | some r =>
      obtain ⟨pfilo', rc⟩ := r
      obtain ⟨buffer, rfl, hlen, _⟩ := filoPush_eq_some hlt hpush
      have hnext : (pfilo.top + 1).toNat = pfilo.top.toNat + 1 := by
        have hbound := size.toNat_lt
        rw [UInt64.toNat_add]
        exact Nat.mod_eq_of_lt (show pfilo.top.toNat + 1 < 2 ^ 64 by omega)
      have hrest : runOut filoStep { pfilo with buffer, top := pfilo.top + 1 }
          (List.replicate (k + 1) (FiloOp.push elem he)) = none :=
        ih hes hsize (by rw [hnext]; omega) (by rwa [hlen])
      rw [List.replicate_succ, runOut, filoStep, hpush, Option.map_some, Option.bind_some, hrest]
      rfl

/-- If the exact product is too large, one of the slots starts below 2 ^ 64 and ends behind it. -/
theorem exists_slot_across {es size : Nat} (hge : 2 ^ 64 ≤ es * size) :
    ∃ n < size, es * n < 2 ^ 64 ∧ 2 ^ 64 ≤ es * n + es := by
  have hpos : 0 < es := by
    by_contra hzero
    rw [Nat.eq_zero_of_not_pos hzero, Nat.zero_mul] at hge
    exact absurd hge (by decide)
  -- the last slot that starts below 2 ^ 64
  obtain ⟨n, hn⟩ : ∃ n, n = (2 ^ 64 - 1) / es := ⟨_, rfl⟩
  have hlo := Nat.mul_div_le (2 ^ 64 - 1) es
  have hhi := Nat.lt_mul_div_succ (2 ^ 64 - 1) hpos
  rw [← hn] at hlo
  rw [← hn, Nat.mul_succ] at hhi
  refine ⟨n, ?_, by omega, by omega⟩
  by_contra hle
  have hmul := Nat.mul_le_mul_left es (Nat.le_of_not_lt hle)
  omega

/-- All accesses to a filo that `filo_alloc` returned stay inside of its block exactly if the
    size of the block is the exact product. -/
theorem filoAlloc_safe_iff (junk : Nat → UInt8) (es size : UInt64) :
    (∀ ops : List (FiloOp es.toNat), (∀ op ∈ ops, op.accesses = true) →
      (runOut filoStep (filoAlloc junk es size) ops).isSome) ↔
    es.toNat * size.toNat < 2 ^ 64 := by
  constructor
  · intro hsafe
    by_contra hge
    obtain ⟨n, hsize, hlo, hhi⟩ := exists_slot_across (Nat.le_of_not_lt hge)
    have hlen : (filoAlloc junk es size).buffer.length < 2 ^ 64 := by
      rw [filoAlloc, filoInit, length_safeMalloc]
      exact (es * size).toNat_lt
    have hzeros : (List.replicate es.toNat (0 : UInt8)).length = es.toNat := List.length_replicate
    have hrun := hsafe (List.replicate (n + 1) (.push (List.replicate es.toNat 0) hzeros))
      fun op hop => by rw [List.eq_of_mem_replicate hop, FiloOp.accesses]
    rw [runOut_pushes_eq_none hzeros rfl rfl (Nat.zero_add n) hsize hlo hhi hlen] at hrun
    cases hrun
  · intro hfit ops _
    have hbuf : es.toNat * size.toNat ≤ (safeMalloc junk (es * size).toNat).length := by
      rw [length_safeMalloc, toNat_slot rfl hfit]
    obtain ⟨pfilo, q, outs, hrun, _⟩ := filo_run_spec hfit hbuf ops
    rw [filoAlloc, hrun]
    rfl

/-- A block without any byte for 2 ^ 63 elements of two bytes. -/
theorem filoAlloc_wraps :
    runOut filoStep (filoAlloc (fun _ => 7) 2 0x8000000000000000)
      ([.push [1, 2] rfl] : List (FiloOp 2)) = none ∧
    ¬ ∀ ops : List (FiloOp (2 : UInt64).toNat), (∀ op ∈ ops, op.accesses = true) →
      (runOut filoStep (filoAlloc (fun _ => 7) 2 0x8000000000000000) ops).isSome := by
  have hempty : filoAlloc (fun _ => 7) 2 0x8000000000000000 =
      ⟨[], 0, 2, 0x8000000000000000⟩ := by
    have hsize : (2 * 0x8000000000000000 : UInt64) = 0 := by decide
    rw [filoAlloc, hsize]
    rfl
  have hrun : runOut filoStep (filoAlloc (fun _ => 7) 2 0x8000000000000000)
      ([.push [1, 2] rfl] : List (FiloOp 2)) = none := by
    rw [hempty]
    decide
  refine ⟨hrun, fun hsafe => ?_⟩
  have hsome := hsafe [.push [1, 2] rfl] fun op hop => by
    obtain rfl := List.mem_singleton.mp hop
    rfl
  rw [hrun] at hsome
  cases hsome

end CUtils
