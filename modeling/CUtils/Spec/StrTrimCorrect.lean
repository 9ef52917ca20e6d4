import CUtils.Native.StrTrim
import CUtils.Spec.StrBuffer
import Mathlib.Data.List.DropRight

/-!
# Trimmed strings

`rstrip`, `lstrip` and `strip` leave the right characters, but `lstrip` returns one less
than their number, and `strip` hands that on.  `trim_suffix` cuts off whatever part of the
suffix it has found.

- `rstripLoop_spec`, `lstripLoop_spec`, `trimSuffixLoop_spec`: the loops.
- `strip_lengths_iff`: when the lengths returned are right.
- `trimSuffix_correct_iff`: when `trim_suffix` does what its name says.
-/

namespace CUtils

/-! ## rstrip -/

/-- The space character. -/
def isSpace (c : Int8) : Bool := c = 32

theorem rstripLoop_spec {buf cs : List Int8} (h : StrAt buf 0 cs) :
    ∃ buf', rstripLoop cs.length buf = some (buf', (cs.rdropWhile isSpace).length) ∧
      StrAt buf' 0 (cs.rdropWhile isSpace) := by
  induction cs using List.reverseRecOn generalizing buf with
  | nil => exact ⟨buf, rfl, h⟩
  | append_singleton cs c ih =>
    have hget : buf[cs.length]? = some c := by
      have hat := h.getElem?_add (show cs.length < (cs ++ [c]).length by simp)
      rwa [Nat.zero_add, List.getElem?_concat_length] at hat
    rw [List.length_append, List.length_singleton]
    by_cases hc : c = 32
    · -- the space is overwritten
      obtain ⟨buf₁, hwrite, hat₁⟩ := h.terminate (show cs.length ≤ (cs ++ [c]).length by simp)
      rw [Nat.zero_add] at hwrite
      rw [List.take_left] at hat₁
      obtain ⟨buf', hloop, hat'⟩ := ih hat₁
      rw [List.rdropWhile_concat_pos _ _ _ (by simpa [isSpace] using hc)]
      refine ⟨buf', ?_, hat'⟩
      simp only [rstripLoop, hget, hc, hwrite, hloop, ↓reduceIte, Option.bind_eq_bind,
        Option.bind_some]
    · rw [List.rdropWhile_concat_neg _ _ _ (by simpa [isSpace] using hc)]
      refine ⟨buf, ?_, h⟩
      simp only [rstripLoop, hget, hc, ↓reduceIte, Option.bind_eq_bind, Option.bind_some,
        List.length_append, List.length_singleton]
      rfl

/-- `rstrip` removes the spaces at the end and returns the length. -/
theorem rstrip_spec {buf cs : List Int8} (h : StrAt buf 0 cs) (hlen : cs.length < 2 ^ 31) :
    ∃ buf', rstrip buf = some (buf', ((cs.rdropWhile isSpace).length : Int)) ∧
      StrAt buf' 0 (cs.rdropWhile isSpace) := by
  have hcast : castInt (cs.length : Int) = cs.length := castInt_of_lt (by omega) (by omega)
  rw [rstrip, h.strlen_eq, Option.bind_eq_bind, Option.bind_some, hcast]
  by_cases hpos : (cs.length : Int) > 0
  · obtain ⟨buf', hloop, hat⟩ := rstripLoop_spec h
    refine ⟨buf', ?_, hat⟩
    rw [if_pos hpos, Int.toNat_natCast, hloop]
    rfl
  · have hnil : cs = [] := List.eq_nil_of_length_eq_zero (by omega)
    subst hnil
    exact ⟨buf, by rw [if_neg hpos]; rfl, h⟩

/-! ## lstrip -/

/-- The characters from `str[i]` on are moved to `str[j]`. -/
theorem lstripLoop_spec {buf ds : List Int8} {n i j : Nat} (h : StrAt buf i ds) (hji : j ≤ i)
    (hn : ds.length < n) (hlen : i + ds.length < 2 ^ 31) :
    ∃ buf', lstripLoop n buf i j = some (buf', j + ds.length) ∧
      buf'.take (j + ds.length) = buf.take j ++ ds ∧ buf'.length = buf.length := by
  induction ds generalizing buf n i j with
  | nil =>
    obtain ⟨n, rfl⟩ := Nat.exists_eq_succ_of_ne_zero (Nat.ne_of_gt hn)
    have hget : buf[i]? = some 0 := h.getElem?_eq
    refine ⟨buf, ?_, (List.append_nil _).symm, rfl⟩
    simp only [lstripLoop, hget, Option.bind_eq_bind, Option.bind_some, ne_eq, not_true_eq_false,
      ↓reduceIte]
    rfl
  | cons c ds ih =>
    obtain ⟨n, rfl⟩ := Nat.exists_eq_succ_of_ne_zero (Nat.ne_of_gt (Nat.zero_lt_of_lt hn))
    have hget : buf[i]? = some c := h.getElem?_eq
    have hc : c ≠ 0 := fun h0 => h.nul_free (h0 ▸ List.mem_cons_self)
    rw [List.length_cons] at hn hlen
    have hin : j + [c].length ≤ buf.length := by
      have hlt := h.add_length_lt
      rw [List.length_cons] at hlt
      rw [List.length_singleton]
      omega
    -- the store is in front of the characters that are left
    have hrest : StrAt (splice buf j [c]) (i + 1) ds := by
      obtain ⟨tail, htail⟩ := h.tail.drop_eq
      refine ⟨h.tail.nul_free, tail, ?_⟩
      rw [drop_splice_of_le hin (by rw [List.length_singleton]; omega), htail]
    obtain ⟨buf', hloop, htake, hsize⟩ := ih hrest (Nat.succ_le_succ hji)
      (Nat.lt_of_succ_lt_succ hn) (by omega)
    refine ⟨buf', ?_, ?_, by rw [hsize, length_splice hin]⟩
    · simp only [lstripLoop, hget, Option.bind_eq_bind, Option.bind_some, ne_eq, hc,
        not_false_eq_true, ↓reduceIte, writeAt_of_le hin,
        cInt_eq_natCast (show (i : Int) + 1 = ((i + 1 : Nat) : Int) from rfl) (by omega),
        cInt_eq_natCast (show (j : Int) + 1 = ((j + 1 : Nat) : Int) from rfl) (by omega),
        Int.toNat_natCast, hloop]
      rw [List.length_cons, Nat.succ_add_eq_add_succ]
    · have hfirst := take_splice hin
      rw [List.length_singleton] at hfirst
      rw [List.length_cons, Nat.add_comm ds.length, ← Nat.add_assoc, htake, hfirst,
        List.append_assoc, List.singleton_append]

/-- What `lstrip` returns when it leaves the string `ds` of `cs`. -/
def lstripResult (cs ds : List Int8) : Int :=
  if cs.takeWhile isSpace = [] then -1 else if ds.length > 0 then (ds.length : Int) - 1 else 0

/-- `lstrip` removes the spaces in front. -/
theorem lstrip_spec {buf cs : List Int8} (h : StrAt buf 0 cs) (hlen : cs.length < 2 ^ 31) :
    ∃ buf', lstrip buf = some (buf', lstripResult cs (cs.dropWhile isSpace)) ∧
      StrAt buf' 0 (cs.dropWhile isSpace) := by
  have hsplit : cs.takeWhile isSpace ++ cs.dropWhile isSpace = cs := List.takeWhile_append_dropWhile
  have hspan : strSpan (fun c => decide (c = 32)) buf = some (cs.takeWhile isSpace).length :=
    h.strSpan_eq isSpace
  have hadd : (cs.takeWhile isSpace).length + (cs.dropWhile isSpace).length = cs.length := by
    rw [← List.length_append, hsplit]
  have hint : cInt ((cs.takeWhile isSpace).length : Int) =
      some (((cs.takeWhile isSpace).length : Nat) : Int) := cInt_eq_natCast rfl (by omega)
  have hdrop := h.dropWhile isSpace
  rw [Nat.zero_add] at hdrop
  simp only [lstrip, hspan, hint, Option.bind_eq_bind, Option.bind_some, Int.toNat_natCast]
  unfold lstripResult
  by_cases hnil : cs.takeWhile isSpace = []
  · -- unchanged
    have hsame : cs.dropWhile isSpace = cs := by
      rwa [hnil, List.nil_append] at hsplit
    rw [if_pos hnil, hsame]
    exact ⟨buf, by rw [hnil]; rfl, h⟩
  · have hpos : ((cs.takeWhile isSpace).length : Int) ≠ 0 := by
      have hlt := List.length_pos_iff.mpr hnil
      omega
    have hlt := hdrop.add_length_lt
    obtain ⟨buf₁, hloop, htake, hsize⟩ := lstripLoop_spec hdrop (Nat.zero_le _)
      (show (cs.dropWhile isSpace).length < buf.length - (cs.takeWhile isSpace).length by omega)
      (by omega)
    rw [Nat.zero_add] at hloop htake
    rw [List.take_zero, List.nil_append] at htake
    obtain ⟨buf', hwrite, hat⟩ := StrAt.of_take (p := 0) hdrop.nul_free htake (by omega)
    rw [Nat.zero_add] at hwrite
    refine ⟨buf', ?_, hat⟩
    rw [if_neg hnil, if_neg hpos, hloop, Option.bind_some, hwrite]
    simp only [Option.bind_some, Option.pure_def]

/-! ## strip -/

/-- What `strip` returns when `rstrip` leaves the string `rs`, and `lstrip` then `ds`. -/
def stripResult (rs ds : List Int8) : Int :=
  if lstripResult rs ds > 0 then lstripResult rs ds else rs.length

/-- `strip` removes the spaces at both ends. -/
theorem strip_spec {buf cs : List Int8} (h : StrAt buf 0 cs) (hlen : cs.length < 2 ^ 31) :
    ∃ buf', strip buf = some (buf', stripResult (cs.rdropWhile isSpace)
        ((cs.rdropWhile isSpace).dropWhile isSpace)) ∧
      StrAt buf' 0 ((cs.rdropWhile isSpace).dropWhile isSpace) := by
  obtain ⟨buf₁, hright, hat₁⟩ := rstrip_spec h hlen
  have hle := (List.rdropWhile_prefix isSpace (l := cs)).length_le
  obtain ⟨buf', hleft, hat⟩ := lstrip_spec hat₁ (Nat.lt_of_le_of_lt hle hlen)
  refine ⟨buf', ?_, hat⟩
  simp only [strip, hright, hleft, Option.bind_eq_bind, Option.bind_some, Option.pure_def,
    stripResult]

section Lengths

variable (cs : List Int8)

theorem length_spaces_add : (cs.takeWhile isSpace).length + (cs.dropWhile isSpace).length =
    cs.length := by
  rw [← List.length_append, List.takeWhile_append_dropWhile]

theorem dropWhile_isSpace_eq_self_iff :
    cs.dropWhile isSpace = cs ↔ cs.takeWhile isSpace = [] := by
  have hsplit : cs.takeWhile isSpace ++ cs.dropWhile isSpace = cs := List.takeWhile_append_dropWhile
  constructor
  · intro hsame
    have hadd := length_spaces_add cs
    rw [hsame] at hadd
    exact List.eq_nil_of_length_eq_zero (by omega)
  · intro hnil
    rwa [hnil, List.nil_append] at hsplit

theorem takeWhile_isSpace_eq_nil_iff : cs.takeWhile isSpace = [] ↔ cs.head? ≠ some 32 := by
  cases cs with
  | nil => simp
  | cons c cs => simp [isSpace, List.takeWhile_cons]

/-- `lstrip` returns what it should if it changes nothing or leaves nothing. -/
theorem lstripResult_right_iff :
    (if cs.dropWhile isSpace = cs then lstripResult cs (cs.dropWhile isSpace) < 0
      else lstripResult cs (cs.dropWhile isSpace) = (cs.dropWhile isSpace).length) ↔
      cs.takeWhile isSpace = [] ∨ cs.dropWhile isSpace = [] := by
  unfold lstripResult
  simp only [dropWhile_isSpace_eq_self_iff]
  rw [← List.length_eq_zero_iff (l := cs.dropWhile isSpace)]
  by_cases hnil : cs.takeWhile isSpace = []
  · simp [hnil]
  · simp only [hnil, ↓reduceIte, false_or]
    split <;> omega

/-- `strip` returns what it should if no space is in front. -/
theorem stripResult_right_iff (hlast : cs ≠ [] → cs.dropWhile isSpace ≠ []) :
    stripResult cs (cs.dropWhile isSpace) = (cs.dropWhile isSpace).length ↔
      cs.takeWhile isSpace = [] := by
  have hadd := length_spaces_add cs
  unfold stripResult lstripResult
  by_cases hnil : cs.takeWhile isSpace = []
  · rw [hnil, List.length_nil] at hadd
    simp only [hnil, ↓reduceIte, iff_true]
    omega
  · have hfront := List.length_pos_iff.mpr hnil
    have hne : cs ≠ [] := by
      rintro rfl
      exact hnil rfl
    have hrest := List.length_pos_iff.mpr (hlast hne)
    simp only [hnil, ↓reduceIte, iff_false]
    split <;> split <;> omega

/-- What `rstrip` leaves does not end with a space. -/
theorem dropWhile_rdropWhile_ne_nil (hne : cs.rdropWhile isSpace ≠ []) :
    (cs.rdropWhile isSpace).dropWhile isSpace ≠ [] := by
  intro hnil
  have hall := List.dropWhile_eq_nil_iff.mp hnil
  exact List.rdropWhile_last_not isSpace cs hne (hall _ (List.getLast_mem hne))

/-- Spaces in front stay in front, unless there is nothing else. -/
theorem takeWhile_rdropWhile_eq_nil_iff :
    (cs.rdropWhile isSpace).takeWhile isSpace = [] ↔
      cs.takeWhile isSpace = [] ∨ cs.dropWhile isSpace = [] := by
  have hdrop : cs.dropWhile isSpace = [] ↔ cs.rdropWhile isSpace = [] := by
    rw [List.dropWhile_eq_nil_iff, List.rdropWhile_eq_nil_iff]
  rw [hdrop]
  cases hrs : cs.rdropWhile isSpace with
  | nil => simp
  | cons c rest =>
    obtain ⟨tail, htail⟩ := List.rdropWhile_prefix isSpace (l := cs)
    rw [hrs] at htail
    rw [← htail, takeWhile_isSpace_eq_nil_iff, takeWhile_isSpace_eq_nil_iff]
    simp

end Lengths

/-- `rstrip`, `lstrip` and `strip` leave the string without its spaces at the end, in front
    and at both ends, and `rstrip` returns the length.  What the other two return is right,
    for `lstrip` a negative number if nothing has changed, exactly when no space is in
    front or there are only spaces. -/
theorem strip_lengths_iff {buf cs : List Int8} (h : StrAt buf 0 cs) (hlen : cs.length < 2 ^ 31) :
    ∃ buf₁ buf₂ buf₃ lsLen len,
      (rstrip buf = some (buf₁, ((cs.rdropWhile isSpace).length : Int)) ∧
        StrAt buf₁ 0 (cs.rdropWhile isSpace)) ∧
      (lstrip buf = some (buf₂, lsLen) ∧ StrAt buf₂ 0 (cs.dropWhile isSpace)) ∧
      (strip buf = some (buf₃, len) ∧
        StrAt buf₃ 0 ((cs.rdropWhile isSpace).dropWhile isSpace)) ∧
      (((if cs.dropWhile isSpace = cs then lsLen < 0 else lsLen = (cs.dropWhile isSpace).length) ∧
        len = ((cs.rdropWhile isSpace).dropWhile isSpace).length) ↔
        (cs.head? ≠ some 32 ∨ ∀ c ∈ cs, c = 32)) := by
  obtain ⟨buf₁, hright, hat₁⟩ := rstrip_spec h hlen
  obtain ⟨buf₂, hleft, hat₂⟩ := lstrip_spec h hlen
  obtain ⟨buf₃, hboth, hat₃⟩ := strip_spec h hlen
  have hspaces : cs.dropWhile isSpace = [] ↔ ∀ c ∈ cs, c = 32 := by
    simp [List.dropWhile_eq_nil_iff, isSpace]
  refine ⟨buf₁, buf₂, buf₃, _, _, ⟨hright, hat₁⟩, ⟨hleft, hat₂⟩, ⟨hboth, hat₃⟩, ?_⟩
  rw [lstripResult_right_iff, stripResult_right_iff _ (dropWhile_rdropWhile_ne_nil cs),
    takeWhile_rdropWhile_eq_nil_iff, and_self, takeWhile_isSpace_eq_nil_iff, hspaces]

/-- The string `"ab "`. -/
theorem strip_lengths_iff_trailing : ∃ buf₁ buf₂ buf₃ lsLen len,
    (rstrip [97, 98, 32, 0] = some (buf₁, 2) ∧ StrAt buf₁ 0 [97, 98]) ∧
    (lstrip [97, 98, 32, 0] = some (buf₂, lsLen) ∧ StrAt buf₂ 0 [97, 98, 32]) ∧
    (strip [97, 98, 32, 0] = some (buf₃, len) ∧ StrAt buf₃ 0 [97, 98]) ∧
    ((lsLen < 0 ∧ len = 2) ↔
      (([97, 98, 32] : List Int8).head? ≠ some 32 ∨ ∀ c ∈ ([97, 98, 32] : List Int8), c = 32)) :=
  strip_lengths_iff (show StrAt _ 0 [97, 98, 32] from ⟨by decide, [], rfl⟩) (by decide)

/-- Of `" ab"` the functions leave two characters, and both return 1. -/
theorem strip_lengths_short :
    lstrip [32, 97, 98, 0] = some ([97, 98, 0, 0], 1) ∧
      strip [32, 97, 98, 0] = some ([97, 98, 0, 0], 1) ∧ StrAt [97, 98, 0, 0] 0 [97, 98] :=
  ⟨by decide, by decide, by decide, [0], rfl⟩

/-! ## trim_suffix -/

/-- The loop stops where the characters in front differ, or when the whole suffix is
    found.  The string has `m` characters more than the suffix. -/
theorem trimSuffixLoop_spec {str suffix cs ss : List Int8} (h : StrAt str 0 cs)
    (hs : StrAt suffix 0 ss) {m j : Nat} (hm : cs.length = m + ss.length) (hj : j ≤ ss.length)
    (hmatch : cs.drop (m + j) = ss.drop j) :
    ∃ k ≤ j, trimSuffixLoop str suffix j ((m + j : Nat) : Int) = some ((m + k : Nat) : Int) ∧
      cs.drop (m + k) = ss.drop k ∧ (0 < k → cs[m + k - 1]? ≠ ss[k - 1]?) := by
  induction j with
  | zero => exact ⟨0, Nat.le_refl 0, rfl, hmatch, fun hpos => absurd hpos (Nat.lt_irrefl 0)⟩
  | succ j ih =>
    have hget : cs[m + j]? = some cs[m + j] := List.getElem?_eq_getElem (by omega)
    have hget' : ss[j]? = some ss[j] := List.getElem?_eq_getElem (by omega)
    have hc : str[m + j]? = some cs[m + j] := by
      have hat := h.getElem?_add (show m + j < cs.length by omega)
      rwa [Nat.zero_add, hget] at hat
    have hd : suffix[j]? = some ss[j] := by
      have hat := hs.getElem?_add (show j < ss.length by omega)
      rwa [Nat.zero_add, hget'] at hat
    have hpred : ((m + (j + 1) : Nat) : Int) - 1 = ((m + j : Nat) : Int) := by omega
    have hoff : cOffset ((m + j : Nat) : Int) = some (m + j) :=
      cOffset_of_nonneg (Int.natCast_nonneg _)
    simp only [trimSuffixLoop, hpred, hoff, hc, hd, Option.bind_eq_bind, Option.bind_some]
    by_cases heq : cs[m + j] = ss[j]
    · -- one more character of the suffix
      have hmatch' : cs.drop (m + j) = ss.drop j := by
        rw [List.drop_eq_getElem_cons (by omega), List.drop_eq_getElem_cons (show j < ss.length by
          omega), heq]
        exact congrArg _ hmatch
      obtain ⟨k, hk, hloop, hrest, hstop⟩ := ih (by omega) hmatch'
      rw [if_pos heq]
      exact ⟨k, by omega, hloop, hrest, hstop⟩
    · rw [if_neg heq]
      refine ⟨j + 1, Nat.le_refl _, rfl, hmatch, fun _ => ?_⟩
      rw [show m + (j + 1) - 1 = m + j from rfl, Nat.add_sub_cancel, hget, hget']
      simpa using heq

/-- A call on strings of which the first is not the shorter one: from the end of the first
    string it cuts off the characters that agree with the end of the suffix. -/
theorem trimSuffix_spec {str suffix cs ss : List Int8} (h : StrAt str 0 cs)
    (hs : StrAt suffix 0 ss) {m : Nat} (hm : cs.length = m + ss.length)
    (hlen : cs.length < 2 ^ 31) :
    ∃ str' k, trimSuffix (some str) (some suffix) = some (some str', 0) ∧ k ≤ ss.length ∧
      StrAt str' 0 (cs.take (m + k)) ∧ cs.drop (m + k) = ss.drop k ∧
      (0 < k → cs[m + k - 1]? ≠ ss[k - 1]?) := by
  have hcast : castInt (cs.length : Int) = ((m + ss.length : Nat) : Int) := by
    rw [castInt_of_lt (by omega) (by omega), hm]
  have hcast' : castInt (ss.length : Int) = ss.length := castInt_of_lt (by omega) (by omega)
  have hmatch : cs.drop (m + ss.length) = ss.drop ss.length := by
    rw [← hm, List.drop_length, List.drop_length]
  obtain ⟨k, hk, hloop, hrest, hstop⟩ := trimSuffixLoop_spec h hs hm (Nat.le_refl _) hmatch
  obtain ⟨str', hwrite, hat⟩ := h.terminate (show m + k ≤ cs.length by omega)
  rw [Nat.zero_add] at hwrite
  refine ⟨str', k, ?_, hk, hat, hrest, hstop⟩
  have hnot : ¬(ss.length : Int) > ((m + ss.length : Nat) : Int) := by omega
  have hoff : cOffset ((m + k : Nat) : Int) = some (m + k) := cOffset_of_nonneg (by omega)
  rw [trimSuffix, h.strlen_eq, hs.strlen_eq, Option.bind_eq_bind, Option.bind_some,
    Option.bind_some, hcast, hcast', if_neg hnot, Int.toNat_natCast, hloop]
  simp only [Option.bind_eq_bind, Option.bind_some, hoff, hwrite, Option.pure_def]

/-- A suffix that is longer than the string. -/
theorem trimSuffix_of_gt {str suffix cs ss : List Int8} (h : StrAt str 0 cs)
    (hs : StrAt suffix 0 ss) (hgt : cs.length < ss.length) (hlen : ss.length < 2 ^ 31) :
    trimSuffix (some str) (some suffix) = some (some str, -1) := by
  have hcast : castInt (cs.length : Int) = cs.length := castInt_of_lt (by omega) (by omega)
  have hcast' : castInt (ss.length : Int) = ss.length := castInt_of_lt (by omega) (by omega)
  rw [trimSuffix, h.strlen_eq, hs.strlen_eq, Option.bind_eq_bind, Option.bind_some,
    Option.bind_some, hcast, hcast', if_pos (by omega)]
  rfl

/-- `trim_suffix` stays inside of the two strings.  It leaves the string without the suffix
    if it ends with it, and unchanged if not, exactly when it ends with it, is shorter, or
    has another last character. -/
theorem trimSuffix_correct_iff {str suffix cs ss : List Int8} (h : StrAt str 0 cs)
    (hs : StrAt suffix 0 ss) (hlen : cs.length < 2 ^ 31) (hslen : ss.length < 2 ^ 31) :
    ∃ str' rc, trimSuffix (some str) (some suffix) = some (some str', rc) ∧
      (StrAt str' 0 (if ss <:+ cs then cs.take (cs.length - ss.length) else cs) ↔
        (ss <:+ cs ∨ cs.length < ss.length ∨ cs.getLast? ≠ ss.getLast?)) := by
  by_cases hgt : cs.length < ss.length
  · have hnot : ¬ss <:+ cs := fun hsuffix => Nat.not_le_of_lt hgt hsuffix.length_le
    refine ⟨str, -1, trimSuffix_of_gt h hs hgt hslen, ?_⟩
    simp only [hnot, ↓reduceIte, h, hgt, true_or, or_true]
  · obtain ⟨m, hm⟩ : ∃ m, cs.length = m + ss.length := ⟨cs.length - ss.length, by omega⟩
    obtain ⟨str', k, hrun, hk, hat, hrest, hstop⟩ := trimSuffix_spec h hs hm hlen
    refine ⟨str', 0, hrun, ?_⟩
    have hsub : cs.length - ss.length = m := by omega
    by_cases hsuffix : ss <:+ cs
    · -- then the loop has run to the end
      have hdrop : ss = cs.drop m := by
        rw [← hsub]
        exact List.suffix_iff_eq_drop.mp hsuffix
      have hzero : k = 0 := by
        by_contra hne
        apply hstop (Nat.pos_of_ne_zero hne)
        rw [hdrop, List.getElem?_drop, Nat.add_sub_assoc (Nat.pos_of_ne_zero hne)]
      subst hzero
      simp only [hsuffix, ↓reduceIte, hsub, true_or, iff_true]
      exact hat
    · simp only [hsuffix, ↓reduceIte, hgt, false_or]
      have hcut : StrAt str' 0 cs ↔ k = ss.length := by
        constructor
        · intro hsame
          have htake := congrArg List.length (hsame.unique hat)
          rw [List.length_take] at htake
          omega
        · rintro rfl
          rwa [← hm, List.take_length] at hat
      rw [hcut]
      constructor
      · -- nothing was cut off
        rintro rfl
        have hpos : 0 < ss.length := by
          apply List.length_pos_iff.mpr
          rintro rfl
          exact hsuffix List.nil_suffix
        rw [List.getLast?_eq_getElem?, List.getLast?_eq_getElem?, hm]
        exact hstop hpos
      · -- otherwise the last characters agree
        intro hlast
        by_contra hne
        apply hlast
        have heq := congrArg List.getLast? hrest
        rwa [List.getLast?_drop, List.getLast?_drop, if_neg (by omega), if_neg (by omega)] at heq

/-- `"abc"` ends with `"bc"`. -/
theorem trimSuffix_correct_iff_found : ∃ str' rc,
    trimSuffix (some [97, 98, 99, 0]) (some [98, 99, 0]) = some (some str', rc) ∧
    (StrAt str' 0 (if ([98, 99] : List Int8) <:+ [97, 98, 99] then
        ([97, 98, 99] : List Int8).take 1 else [97, 98, 99]) ↔
      (([98, 99] : List Int8) <:+ [97, 98, 99] ∨ 3 < 2 ∨
        ([97, 98, 99] : List Int8).getLast? ≠ ([98, 99] : List Int8).getLast?)) :=
  trimSuffix_correct_iff (show StrAt _ 0 [97, 98, 99] from ⟨by decide, [], rfl⟩)
    (show StrAt _ 0 [98, 99] from ⟨by decide, [], rfl⟩) (by decide) (by decide)

/-- `"abc"` does not end with `"xc"`, and loses its last character. -/
theorem trimSuffix_cuts_part :
    trimSuffix (some [97, 98, 99, 0]) (some [120, 99, 0]) = some (some [97, 98, 0, 0], 0) ∧
      ¬([120, 99] : List Int8) <:+ [97, 98, 99] ∧ ¬StrAt [97, 98, 0, 0] 0 [97, 98, 99] := by
  refine ⟨by decide, by decide, ?_⟩
  intro h
  have hat : StrAt [97, 98, 0, 0] 0 [97, 98] := ⟨by decide, [0], rfl⟩
  exact absurd (h.unique hat) (by decide)

end CUtils
