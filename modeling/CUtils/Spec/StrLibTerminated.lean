import CUtils.Spec.StrLibCorrect

/-!
# When every string has its terminator

Each function of `strlib.c` stores a terminator by its own rule.  `string_create` without a
source stores it behind the capacity and sets `len` to 0, where fresh memory is.

- `strlib_terminated_iff`: the strings of a run always have a terminator at `len` exactly if
  each `string_create` without a source has no capacity or finds a zero in fresh memory.
-/

namespace CUtils

open StepSystem

/-- The byte behind the bytes of a live string is NUL. -/
def Terminated (s : StringT) : Prop := ∀ obj, s.buf = some obj → obj[s.len]? = some 0

/-- All strings of a program are terminated. -/
def AllTerminated (vars : Nat → Option StringT) : Prop :=
  ∀ var s, vars var = some s → Terminated s

/-- A call that does not leave fresh memory at the end of an empty string. -/
def StrOp.ClearsStart : StrOp → Prop
  | .create _ none len junk => len = 0 ∨ junk 0 = 0
  | _ => True

/-- `strlen` of a terminated string without a NUL in it is its length. -/
theorem Terminated.strlen_eq {s : StringT} {obj : List UInt8} (h : Terminated s)
    (hbuf : s.buf = some obj) (hnul : 0 ∉ obj.take s.len) :
    strlenBytes obj = some s.len := by
  have hget := h obj hbuf
  obtain ⟨hlt, hzero⟩ := List.getElem?_eq_some_iff.mp hget
  have hsplit : obj = obj.take s.len ++ 0 :: obj.drop (s.len + 1) := by
    rw [← hzero, List.getElem_cons_drop, List.take_append_drop]
  have hlen : (obj.take s.len).length = s.len := List.length_take_of_le (Nat.le_of_lt hlt)
  have hmem : 0 ∈ obj := List.mem_of_getElem? hget
  rw [strlenBytes, if_pos hmem, hsplit, cstring_append hnul, hlen]

/-! ## Functions -/

section

variable {s s' : StringT} {obj obj' str : List UInt8} {mode : StringMode} {len k : Nat}
  {ret : Int}

/-- A terminator that was stored. -/
theorem getElem?_writeAt_nul (h : writeAt obj k [0] = some obj') : obj'[k]? = some 0 := by
  obtain ⟨hin, rfl⟩ := writeAt_eq_some h
  have hget := getElem?_splice_add hin (i := 0) (by decide)
  rwa [Nat.add_zero] at hget

/-- A string whose terminator was stored at its end. -/
theorem terminated_of_writeAt {flags : UInt32} {maxLen : Nat}
    (h : writeAt obj k [0] = some obj') : Terminated ⟨flags, some obj', k, maxLen⟩ := by
  intro o ho
  obtain rfl := Option.some.inj ho
  exact getElem?_writeAt_nul h

/-- A terminator at another place does not matter. -/
theorem getElem?_writeAt_of_lt (h : writeAt obj k [0] = some obj') {i : Nat} (hi : i < k) :
    obj'[i]? = obj[i]? := by
  obtain ⟨hin, rfl⟩ := writeAt_eq_some h
  exact getElem?_splice_of_lt hin hi

theorem stringDef_terminated (length : Nat) : Terminated (stringDef length) := by
  intro obj hobj
  obtain rfl := Option.some.inj hobj
  rfl

theorem stringCopyAt_terminated {start : Int}
    (h : stringCopyAt s start str len = some (s', ret)) : Terminated s' := by
  obtain ⟨obj, _, h⟩ := Option.bind_eq_some_iff.mp h
  obtain ⟨off, _, h⟩ := Option.bind_eq_some_iff.mp h
  obtain ⟨obj₁, _, h⟩ := Option.bind_eq_some_iff.mp h
  obtain ⟨obj₂, hnul, h⟩ := Option.bind_eq_some_iff.mp h
  obtain ⟨rfl, _⟩ := Prod.mk.inj (Option.some.inj h)
  exact terminated_of_writeAt hnul

/-- `string_copy` stores a terminator, or leaves the string as it is. -/
theorem stringCopy_terminated (hs : Terminated s)
    (h : stringCopy s mode str len = some (s', ret)) : Terminated s' := by
  simp only [stringCopy] at h
  split at h
  · split at h
    · obtain ⟨rfl, _⟩ := Prod.mk.inj (Option.some.inj h)
      exact hs
    · exact stringCopyAt_terminated h
  · exact stringCopyAt_terminated h

theorem strFlush_terminated (h : strFlush s = some s') : Terminated s' := by
  obtain ⟨obj, _, h⟩ := Option.bind_eq_some_iff.mp h
  obtain ⟨obj', hnul, h⟩ := Option.bind_eq_some_iff.mp h
  obtain rfl := Option.some.inj h
  exact terminated_of_writeAt hnul

/-- A copy of a source is terminated. -/
theorem stringCreate_some_terminated {junk : Nat → UInt8} {src : List UInt8}
    (h : stringCreate junk (some src) len = some s) : Terminated s := by
  obtain ⟨obj, _, h⟩ := Option.bind_eq_some_iff.mp h
  obtain ⟨obj', hnul, h⟩ := Option.bind_eq_some_iff.mp h
  obtain rfl := Option.some.inj h
  exact terminated_of_writeAt hnul

/-- A new string without a source starts with fresh memory if it has a capacity. -/
theorem stringCreate_none_terminated_iff {junk : Nat → UInt8}
    (h : stringCreate junk none len = some s) : Terminated s ↔ len = 0 ∨ junk 0 = 0 := by
  obtain ⟨obj, hnul, h⟩ := Option.bind_eq_some_iff.mp h
  obtain rfl := Option.some.inj h
  have hlen := (writeAt_eq_some hnul).1
  rw [length_safeMalloc, List.length_singleton] at hlen
  have hterm : Terminated ⟨stringAllocated, some obj, 0, len⟩ ↔ obj[0]? = some 0 :=
    ⟨fun hs => hs obj rfl, fun hget o ho => Option.some.inj ho ▸ hget⟩
  rw [hterm]
  by_cases hzero : len = 0
  · subst hzero
    exact iff_of_true (getElem?_writeAt_nul hnul) (.inl rfl)
  · -- the terminator is behind the first byte
    have hfirst : (safeMalloc junk (castSize (len + 1)))[0]? = some (junk 0) := by
      rw [safeMalloc, List.getElem?_map, List.getElem?_range (by omega), Option.map_some]
    rw [getElem?_writeAt_of_lt hnul (by omega), hfirst, Option.some.injEq, or_iff_right hzero]

/-- `string_resize` keeps the terminator when it grows, and stores one when it shrinks. -/
theorem stringResize_terminated {junk : Nat → UInt8} {newLen : Nat} (hbuf : s.buf = some obj)
    (hs : Terminated s) (h : stringResize junk s newLen = some (s', ret)) : Terminated s' := by
  unfold stringResize at h
  split at h
  · obtain ⟨rfl, _⟩ := Prod.mk.inj (Option.some.inj h)
    exact hs
  · obtain ⟨obj', hnul, h⟩ := Option.bind_eq_some_iff.mp h
    obtain ⟨rfl, _⟩ := Prod.mk.inj (Option.some.inj h)
    rw [hbuf, Option.getD_some] at hnul
    intro o ho
    obtain rfl := Option.some.inj ho
    show obj'[if s.len > newLen then newLen else s.len]? = some 0
    split
    · exact getElem?_writeAt_nul hnul
    · by_cases heq : s.len = newLen
      · rw [heq]
        exact getElem?_writeAt_nul hnul
      · -- the old terminator has been kept
        have hin := (writeAt_eq_some hnul).1
        rw [length_safeRealloc, List.length_singleton] at hin
        have hget := hs obj hbuf
        obtain ⟨hlt, _⟩ := List.getElem?_eq_some_iff.mp hget
        have htake := take_safeRealloc junk (show s.len + 1 ≤ castSize (newLen + 1) by omega)
          (show s.len + 1 ≤ obj.length by omega)
        have hkept := congrArg (fun l => l[s.len]?) htake
        simp only [List.getElem?_take_of_lt (Nat.lt_succ_self _)] at hkept
        rw [getElem?_writeAt_of_lt hnul (by omega), hkept, hget]

/-- The second half of `string_merge`, behind a possible `string_resize`. -/
theorem mergeInto_terminated {p p' q q' : StringT} {rc : Int} (hp : Terminated p)
    (hq : Terminated q)
    (h : (if rc ≠ 0 then some (p, q, -1)
      else q.buf.bind fun str => (stringCopy p .a str q.len).bind fun r =>
        some (r.1, stringDestroy q, 0)) = some (p', q', ret)) :
    Terminated p' ∧ Terminated q' := by
  split at h
  · simp only [Option.some.injEq, Prod.mk.injEq] at h
    obtain ⟨rfl, rfl, _⟩ := h
    exact ⟨hp, hq⟩
  · obtain ⟨src, _, h⟩ := Option.bind_eq_some_iff.mp h
    obtain ⟨⟨p₁, n⟩, hcopy, h⟩ := Option.bind_eq_some_iff.mp h
    simp only [Option.some.injEq, Prod.mk.injEq] at h
    obtain ⟨rfl, rfl, _⟩ := h
    exact ⟨stringCopy_terminated hp hcopy, fun obj hobj => by cases hobj⟩

/-- `string_merge` copies to the end of its first string and destroys the second. -/
theorem stringMerge_terminated {junk : Nat → UInt8} {p p' q q' : StringT} (hbuf : p.buf = some obj)
    (hp : Terminated p) (hq : Terminated q)
    (h : stringMerge junk p q = some (p', q', ret)) : Terminated p' ∧ Terminated q' := by
  simp only [stringMerge, Option.bind_eq_bind, Option.pure_def] at h
  split at h
  · obtain ⟨⟨p₁, rc⟩, hgrow, h⟩ := Option.bind_eq_some_iff.mp h
    exact mergeInto_terminated (stringResize_terminated hbuf hp hgrow) hq h
  · rw [Option.bind_some] at h
    exact mergeInto_terminated hp hq h

end

/-! ## Runs -/

section

variable {vars vars' : Nat → Option StringT} {abs abs' : Nat → Option AbsString} {s : StringT}

theorem AllTerminated.update (h : AllTerminated vars) (var : Nat) (hs : Terminated s) :
    AllTerminated (Function.update vars var (some s)) := by
  intro v t ht
  by_cases hv : v = var
  · rw [hv, Function.update_self] at ht
    exact Option.some.inj ht ▸ hs
  · rw [Function.update_of_ne hv] at ht
    exact h v t ht

/-- A variable that an accepted call reads has a buffer. -/
theorem VarsRepr.buf_eq_some (h : VarsRepr vars abs) {var : Nat} {a : AbsString}
    (ha : abs var = some a) (hs : vars var = some s) : ∃ obj, s.buf = some obj := by
  obtain ⟨t, ht, hrepr⟩ := h.live ha
  obtain rfl := Option.some.inj (hs.symm.trans ht)
  obtain ⟨obj, hbuf, _⟩ := hrepr.buf_eq
  exact ⟨obj, hbuf⟩

/-- The step lemma: an accepted call keeps all strings terminated exactly if it is not a
    `string_create` that finds other bytes in fresh memory. -/
theorem strStep_terminated_iff (hR : VarsRepr vars abs) (hP : AllTerminated vars) {op : StrOp}
    {ret ret' : Int} (hop : absStep abs op = some (abs', ret))
    (h : strStep vars op = some (vars', ret')) : AllTerminated vars' ↔ op.ClearsStart := by
  cases op with
  | define var length =>
    obtain ⟨rfl, _⟩ := Prod.mk.inj (Option.some.inj h)
    exact iff_of_true (hP.update var (stringDef_terminated length)) trivial
  | create var buf len junk =>
    obtain ⟨s, hcreate, h⟩ := Option.bind_eq_some_iff.mp h
    obtain ⟨rfl, _⟩ := Prod.mk.inj (Option.some.inj h)
    cases buf with
    | none =>
      show _ ↔ len = 0 ∨ junk 0 = 0
      rw [← stringCreate_none_terminated_iff hcreate]
      exact ⟨fun hall => hall var s (Function.update_self ..), hP.update var⟩
    | some src => exact iff_of_true (hP.update var (stringCreate_some_terminated hcreate)) trivial
  | clone dest src junk =>
    obtain ⟨a, ha, _⟩ := Option.bind_eq_some_iff.mp hop
    obtain ⟨s, hs, h⟩ := Option.bind_eq_some_iff.mp h
    obtain ⟨d, hclone, h⟩ := Option.bind_eq_some_iff.mp h
    obtain ⟨rfl, _⟩ := Prod.mk.inj (Option.some.inj h)
    -- the source is live, so it is copied
    obtain ⟨obj, hbuf⟩ := hR.buf_eq_some ha hs
    rw [stringClone, hbuf] at hclone
    exact iff_of_true (hP.update dest (stringCreate_some_terminated hclone)) trivial
  | copy var mode str len =>
    obtain ⟨s, hs, h⟩ := Option.bind_eq_some_iff.mp h
    obtain ⟨⟨s', n⟩, hcopy, h⟩ := Option.bind_eq_some_iff.mp h
    obtain ⟨rfl, _⟩ := Prod.mk.inj (Option.some.inj h)
    exact iff_of_true (hP.update var (stringCopy_terminated (hP var s hs) hcopy)) trivial
  | resize var newLen junk =>
    obtain ⟨_, _, hop⟩ := Option.bind_eq_some_iff.mp hop
    obtain ⟨a, ha, _⟩ := Option.bind_eq_some_iff.mp hop
    obtain ⟨s, hs, h⟩ := Option.bind_eq_some_iff.mp h
    obtain ⟨⟨s', n⟩, hresize, h⟩ := Option.bind_eq_some_iff.mp h
    obtain ⟨rfl, _⟩ := Prod.mk.inj (Option.some.inj h)
    obtain ⟨obj, hbuf⟩ := hR.buf_eq_some ha hs
    exact iff_of_true
      (hP.update var (stringResize_terminated hbuf (hP var s hs) hresize)) trivial
  | merge primary secondary junk =>
    obtain ⟨_, _, hop⟩ := Option.bind_eq_some_iff.mp hop
    obtain ⟨a, ha, _⟩ := Option.bind_eq_some_iff.mp hop
    obtain ⟨p, hp, h⟩ := Option.bind_eq_some_iff.mp h
    obtain ⟨q, hq, h⟩ := Option.bind_eq_some_iff.mp h
    obtain ⟨⟨p', q', n⟩, hmerge, h⟩ := Option.bind_eq_some_iff.mp h
    obtain ⟨rfl, _⟩ := Prod.mk.inj (Option.some.inj h)
    obtain ⟨obj, hbuf⟩ := hR.buf_eq_some ha hp
    obtain ⟨hp', hq'⟩ :=
      stringMerge_terminated hbuf (hP primary p hp) (hP secondary q hq) hmerge
    exact iff_of_true ((hP.update primary hp').update secondary hq') trivial
  | flush var =>
    obtain ⟨s, hs, h⟩ := Option.bind_eq_some_iff.mp h
    obtain ⟨s', hflush, h⟩ := Option.bind_eq_some_iff.mp h
    obtain ⟨rfl, _⟩ := Prod.mk.inj (Option.some.inj h)
    exact iff_of_true (hP.update var (strFlush_terminated hflush)) trivial

end

/-- A program whose calls are accepted runs, and after each of its calls every live string
    has a terminator at its length exactly if no `string_create` without a source takes
    fresh memory as the end of its empty string.  A terminated string without a NUL in it
    has its length as its `strlen`. -/
theorem strlib_terminated_iff {ops : List StrOp} {abs : Nat → Option AbsString} {rets : List Int}
    (h : runOut absStep (fun _ => none) ops = some (abs, rets)) :
    (∃ vars, runOut strStep (fun _ => none) ops = some (vars, rets)) ∧
    ((∀ pre vars outs, pre <+: ops → runOut strStep (fun _ => none) pre = some (vars, outs) →
      AllTerminated vars) ↔ ∀ op ∈ ops, op.ClearsStart) ∧
    ∀ s obj, Terminated s → s.buf = some obj → 0 ∉ obj.take s.len →
      strlenBytes obj = some s.len := by
  have hsim : ∀ vars abs op abs' ret, VarsRepr vars abs → AllTerminated vars →
      absStep abs op = some (abs', ret) →
      ∃ vars', strStep vars op = some (vars', ret) ∧ VarsRepr vars' abs' ∧
        (AllTerminated vars' ↔ op.ClearsStart) := by
    intro vars abs op abs' ret hR hP hop
    obtain ⟨vars', hstep, hR'⟩ := hR.strStep_refines hop
    exact ⟨vars', hstep, hR', strStep_terminated_iff hR hP hop hstep⟩
  have hinit : AllTerminated fun _ => none := fun var s hs => by cases hs
  obtain ⟨vars, hvars, _⟩ := VarsRepr.nil.runOut_refines h
  exact ⟨⟨vars, hvars⟩, forall_prefix_runOut_iff hsim VarsRepr.nil hinit h,
    fun s obj hs hbuf hnul => hs.strlen_eq hbuf hnul⟩

/-- A string grows, is extended and shrinks again, and another one has no room. -/
def terminatedProgram : List StrOp :=
  [.create 0 (some [97, 98]) 2 (fun _ => 7), .resize 0 5 (fun _ => 7), .copy 0 .a [99, 100] 2,
    .resize 0 3 (fun _ => 7), .create 1 none 0 (fun _ => 7)]

/-- `strlib_terminated_iff` for this program. -/
theorem strlib_terminated_iff_program :
    (∃ vars, runOut strStep (fun _ => none) terminatedProgram = some (vars, [0, 0, 2, 0, 0])) ∧
    ∀ pre vars outs, pre <+: terminatedProgram →
      runOut strStep (fun _ => none) pre = some (vars, outs) → AllTerminated vars := by
  have hspec : runOut absStep (fun _ => none) terminatedProgram = some (_, [0, 0, 2, 0, 0]) := rfl
  have hclears : ∀ op ∈ terminatedProgram, op.ClearsStart := by
    simp [terminatedProgram, StrOp.ClearsStart]
  obtain ⟨hrun, hiff, _⟩ := strlib_terminated_iff hspec
  exact ⟨hrun, hiff.mpr hclears⟩

/-- An empty string of capacity two whose first byte is what fresh memory holds. -/
theorem stringCreate_not_terminated :
    runOut absStep (fun _ => none) [.create 0 none 2 (fun _ => 7)] ≠ none ∧
    ∃ vars, runOut strStep (fun _ => none) [.create 0 none 2 (fun _ => 7)] = some (vars, [0]) ∧
      vars 0 = some ⟨stringAllocated, some [7, 7, 0], 0, 2⟩ ∧ ¬ AllTerminated vars := by
  refine ⟨Option.some_ne_none _, _, rfl, rfl, fun hall => ?_⟩
  have hnul := hall 0 _ rfl [7, 7, 0] rfl
  cases hnul

end CUtils
