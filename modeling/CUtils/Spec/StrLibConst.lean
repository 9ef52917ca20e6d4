import CUtils.Spec.StrLibPrintf

/-!
# When `str_const_copy` agrees with `str_flush` and `str_const_append`

`str_const_append` measures its text, `str_const_copy` the `string_t`, whose first bytes
are its flags.

- `strConstCopy_agrees_iff`: the two agree exactly when the text is as long as that.
-/

namespace CUtils

/-- Both ways to replace a string by a text leave the same contents, length and terminator,
    and return the same value. -/
def ConstCopyAgrees (s : StringT) (rest str : List UInt8) : Prop :=
  ∃ s₁ s₂ ret, strConstCopy s rest str = some (s₁, ret) ∧
    ((strFlush s).bind fun s => strConstAppend s str) = some (s₂, ret) ∧
    s₁.len = s₂.len ∧ s₁.buf.map (List.take s₁.len) = s₂.buf.map (List.take s₂.len) ∧
    s₁.buf.bind (·[s₁.len]?) = some 0 ∧ s₂.buf.bind (·[s₂.len]?) = some 0

theorem strlenBytes_append {t : List UInt8} (hnul : 0 ∉ t) (more : List UInt8) :
    strlenBytes (t ++ 0 :: more) = some t.length := by
  have hmem : (0 : UInt8) ∈ t ++ 0 :: more := List.mem_append_right t List.mem_cons_self
  rw [strlenBytes, if_pos hmem, cstring_append hnul]

/-- The flags are one byte, and it is zero if none is set. -/
theorem strlenBytes_stringBytes {s : StringT} (hflags : s.flags = 0 ∨ s.flags = stringAllocated)
    (rest : List UInt8) : strlenBytes (stringBytes s rest) = some s.flags.toNat := by
  rcases hflags with hflags | hflags
  · have hbytes : stringBytes s rest = [] ++ 0 :: ([0, 0, 0] ++ rest) := by
      rw [stringBytes, hflags]
      rfl
    rw [hbytes, strlenBytes_append List.not_mem_nil, hflags]
    rfl
  · have hbytes : stringBytes s rest = [1] ++ 0 :: ([0, 0] ++ rest) := by
      rw [stringBytes, hflags]
      rfl
    rw [hbytes, strlenBytes_append (by decide), hflags]
    rfl

section

variable {s : StringT} {obj str : List UInt8} {len : Nat}

/-- A copy to the start of the buffer. -/
theorem stringCopy_front (h : StringValid s obj) (mode : StringMode)
    (hstart : stringStart s mode = 0) (hfit : len ≤ s.maxLen) (hstr : len ≤ str.length) :
    ∃ obj', stringCopy s mode str len =
        some ({ s with buf := some obj', len := len }, castInt len) ∧
      obj'.take len = str.take len ∧ obj'[len]? = some 0 := by
  have hlt := h.maxLen_lt
  have hobj := h.length_eq
  have hsrc : (str.take len).length = len := List.length_take_of_le hstr
  have hsum : castSize ((0 : Int) + len) = len := castSize_eq (Int.zero_add _) (by omega)
  have hin : 0 + (str.take len).length ≤ obj.length := by omega
  -- the bytes are copied to the start and the terminator behind them
  have hcopy : memcpy obj 0 str len = some (splice obj 0 (str.take len)) :=
    memcpy_of_le hstr (by omega)
  have hend : len + [(0 : UInt8)].length ≤ (splice obj 0 (str.take len)).length := by
    rw [length_splice hin, List.length_singleton]
    omega
  refine ⟨splice (splice obj 0 (str.take len)) len [0], ?_, ?_, ?_⟩
  · simp only [stringCopy, hstart, hsum, if_neg (Nat.not_lt.mpr hfit), stringCopyAt, h.buf_eq,
      cOffset_of_nonneg (Int.le_refl 0), Int.toNat_zero, hcopy, writeAt_of_le hend,
      Option.bind_eq_bind, Option.bind_some, Option.pure_def]
  · rw [take_splice_of_le hend (Nat.le_refl _)]
    have htake := take_splice hin
    rwa [Nat.zero_add, hsrc, List.take_zero, List.nil_append] at htake
  · have hget := getElem?_splice_add hend (i := 0) (by decide)
    rwa [Nat.add_zero] at hget

/-- A length that exceeds the capacity is rejected. -/
theorem stringCopy_reject (hgt : s.maxLen < len) (hlen : len < 2 ^ 64) :
    stringCopy s .c str len = some (s, -1) := by
  have hsum : castSize ((0 : Int) + len) = len := castSize_eq (Int.zero_add _) hlen
  have hstart : stringStart s .c = 0 := rfl
  have hfill : StringMode.c.chars[1]? ≠ some 'f' := by decide
  simp only [stringCopy, hstart, hsum, if_pos hgt, if_pos hfill]

/-- `str_flush` leaves a valid, empty string. -/
theorem strFlush_valid (h : StringValid s obj) :
    ∃ obj', strFlush s = some { s with buf := some obj', len := 0 } ∧
      StringValid { s with buf := some obj', len := 0 } obj' := by
  have hobj := h.length_eq
  have hin : 0 + [(0 : UInt8)].length ≤ obj.length := by
    rw [List.length_singleton]
    omega
  refine ⟨splice obj 0 [0], ?_, rfl, ?_, Nat.zero_le _, ?_, h.maxLen_lt⟩
  · simp only [strFlush, h.buf_eq, writeAt_of_le hin, Option.bind_eq_bind, Option.bind_some,
      Option.pure_def]
  · rw [length_splice hin, hobj]
  · exact getElem?_splice_add hin (i := 0) (by decide)

end

/-- `str_const_copy` does what `str_flush` and `str_const_append` do exactly if the text has
    one byte and the string was allocated, or none and it was not. -/
theorem strConstCopy_agrees_iff {s : StringT} {obj : List UInt8} (h : StringValid s obj)
    (hflags : s.flags = 0 ∨ s.flags = stringAllocated) (rest : List UInt8) {t : List UInt8}
    (hnul : 0 ∉ t) (hfit : t.length ≤ s.maxLen) (more : List UInt8) :
    ConstCopyAgrees s rest (t ++ 0 :: more) ↔ t.length = s.flags.toNat := by
  have hle : s.flags.toNat ≤ 1 := by
    rcases hflags with hflags | hflags
    · rw [hflags]
      decide
    · rw [hflags]
      decide
  -- flushing and appending stores the text
  have hstr : t.length ≤ (t ++ 0 :: more).length := by
    rw [List.length_append]
    omega
  obtain ⟨obj₀, hflush, hvalid⟩ := strFlush_valid h
  have happends : stringStart { s with buf := some obj₀, len := 0 } .a = 0 := by
    rw [stringStart, if_pos (by decide)]
    show castInt 0 = 0
    decide
  obtain ⟨obj₂, happend, htake₂, hnul₂⟩ := stringCopy_front hvalid .a happends hfit hstr
  have hright : ((strFlush s).bind fun s => strConstAppend s (t ++ 0 :: more)) =
      some ({ s with buf := some obj₂, len := t.length }, castInt t.length) := by
    rw [hflush, Option.bind_some, strConstAppend, strlenBytes_append hnul, Option.bind_eq_bind,
      Option.bind_some, happend]
  -- the other one stores as many bytes as there are flags
  have hleft : strConstCopy s rest (t ++ 0 :: more) =
      stringCopy s .c (t ++ 0 :: more) s.flags.toNat := by
    rw [strConstCopy, strlenBytes_stringBytes hflags, Option.bind_eq_bind, Option.bind_some]
  unfold ConstCopyAgrees
  rw [hright, hleft]
  by_cases hcap : s.flags.toNat ≤ s.maxLen
  · have hone : s.flags.toNat ≤ (t ++ 0 :: more).length := by
      rw [List.length_append, List.length_cons]
      omega
    obtain ⟨obj₁, hcopy, htake₁, hnul₁⟩ := stringCopy_front h .c rfl hcap hone
    rw [hcopy]
    constructor
    · intro ⟨s₁, s₂, ret, hs₁, hs₂, hlen, _⟩
      obtain ⟨rfl, _⟩ := Prod.mk.inj (Option.some.inj hs₁)
      obtain ⟨rfl, _⟩ := Prod.mk.inj (Option.some.inj hs₂)
      exact hlen.symm
    · intro hlen
      rw [← hlen] at htake₁ hnul₁ ⊢
      refine ⟨_, _, _, rfl, rfl, rfl, ?_, hnul₁, hnul₂⟩
      show some (obj₁.take t.length) = some (obj₂.take t.length)
      rw [htake₁, htake₂]
  · -- a byte does not fit, and the text is empty
    have hzero : t.length = 0 := by omega
    rw [stringCopy_reject (by omega) (by omega)]
    refine iff_of_false ?_ (by omega)
    intro ⟨s₁, s₂, ret, hs₁, hs₂, _⟩
    obtain ⟨_, rfl⟩ := Prod.mk.inj (Option.some.inj hs₁)
    obtain ⟨_, hret⟩ := Prod.mk.inj (Option.some.inj hs₂)
    rw [hzero] at hret
    exact absurd hret (by decide)

/-- One byte in an allocated string of capacity four. -/
theorem strConstCopy_agrees_one :
    ConstCopyAgrees ⟨stringAllocated, some [120, 0, 0, 0, 0], 1, 4⟩ [] ([97] ++ 0 :: []) := by
  have hvalid : StringValid ⟨stringAllocated, some [120, 0, 0, 0, 0], 1, 4⟩ [120, 0, 0, 0, 0] :=
    ⟨rfl, rfl, by decide, rfl, by decide⟩
  exact (strConstCopy_agrees_iff hvalid (.inr rfl) [] (by decide) (by decide) []).mpr rfl

/-- Copying "ab" to an empty string that is not allocated copies nothing. -/
theorem strConstCopy_measures_flags :
    StringValid (stringDef 4) [0, 0, 0, 0, 0] ∧
      strConstCopy (stringDef 4) [] [97, 98, 0] = some (stringDef 4, 0) ∧
      ((strFlush (stringDef 4)).bind fun s => strConstAppend s [97, 98, 0]) =
        some (⟨0, some [97, 98, 0, 0, 0], 2, 4⟩, 2) ∧
      ¬ ConstCopyAgrees (stringDef 4) [] [97, 98, 0] := by
  have hcopy : strConstCopy (stringDef 4) [] [97, 98, 0] = some (stringDef 4, 0) := by
    decide +kernel
  have happend : ((strFlush (stringDef 4)).bind fun s => strConstAppend s [97, 98, 0]) =
      some (⟨0, some [97, 98, 0, 0, 0], 2, 4⟩, 2) := by
    decide +kernel
  refine ⟨⟨rfl, rfl, by decide, rfl, by decide⟩, hcopy, happend, ?_⟩
  intro ⟨s₁, s₂, ret, hs₁, hs₂, _⟩
  obtain ⟨_, rfl⟩ := Prod.mk.inj (Option.some.inj (hcopy.symm.trans hs₁))
  obtain ⟨_, hret⟩ := Prod.mk.inj (Option.some.inj (happend.symm.trans hs₂))
  cases hret

end CUtils
