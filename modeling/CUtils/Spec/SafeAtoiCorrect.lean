import CUtils.Native.StrUtils
import Mathlib.Data.List.TakeWhile

/-!
# When safe_atoi finds a number

`safe_atoi` takes a result of 0 for a number only if the string starts with `'0'`, so it
does not see a zero behind white space or a sign.

- `hasNumber_iff`, `hasZero_iff`: the numbers in terms of the digits that `atoi` reads.
- `safeAtoi_correct_iff`: the strings for which `safe_atoi` is right.
-/

namespace CUtils

/-- White space, as `isspace` has it. -/
def isWhite (c : Int8) : Bool := c = 32 ∨ 9 ≤ c ∧ c ≤ 13

/-- The decimal digits. -/
def isDigit (c : Int8) : Bool := 48 ≤ c ∧ c ≤ 57

/-- A text of optional white space, an optional sign and at least one decimal digit,
    followed by anything. -/
structure Numeral (cs ws sign digits rest : List Int8) : Prop where
  split : cs = ws ++ (sign ++ (digits ++ rest))
  white : ∀ c ∈ ws, isWhite c
  sign_eq : sign = [] ∨ sign = [45] ∨ sign = [43]
  ne_nil : digits ≠ []
  digit : ∀ c ∈ digits, isDigit c

/-- The text starts with a number. -/
def HasNumber (cs : List Int8) : Prop := ∃ ws sign digits rest, Numeral cs ws sign digits rest

/-- The number in front of the text is a zero: all of its digits are. -/
def HasZero (cs : List Int8) : Prop :=
  ∃ ws sign digits rest, Numeral cs ws sign digits rest ∧ (∀ c ∈ digits, c = 48) ∧
    ∀ c, rest.head? = some c → ¬isDigit c

/-! ## Characters -/

theorem isDigit_not_isWhite {c : Int8} (h : isDigit c) : isWhite c = false := by
  simp only [isDigit, decide_eq_true_eq] at h
  simp only [isWhite, decide_eq_false_iff_not, not_or, not_and]
  constructor
  · rintro rfl
    exact absurd h.1 (by decide)
  · intro _ hle
    exact absurd (Int8.le_trans h.1 hle) (by decide)

theorem ne_of_isDigit {c d : Int8} (h : isDigit c) (hd : isDigit d = false) : c ≠ d := by
  rintro rfl
  rw [hd] at h
  cases h

/-! ## Values -/

/-- The value of a list of digits behind the value `n`. -/
theorem foldl_digits_eq_zero_iff {ds : List Int8} (h : ∀ c ∈ ds, isDigit c) {n : Int} (hn : 0 ≤ n) :
    ds.foldl (fun n c => n * 10 + (c.toInt - 48)) n = 0 ↔ n = 0 ∧ ∀ c ∈ ds, c = 48 := by
  induction ds generalizing n with
  | nil => simp
  | cons d ds ih =>
    have hd : 48 ≤ d := by
      have hdigit := h d List.mem_cons_self
      simp only [isDigit, decide_eq_true_eq] at hdigit
      exact hdigit.1
    have hle : (48 : Int) ≤ d.toInt := Int8.le_iff_toInt_le.mp hd
    have hzero : d = 48 ↔ d.toInt = 48 := by
      rw [← Int8.toInt_inj]
      rfl
    rw [List.foldl_cons, ih (fun c hc => h c (List.mem_cons_of_mem d hc)) (by omega),
      List.forall_mem_cons, hzero]
    constructor
    · rintro ⟨hsum, hrest⟩
      exact ⟨by omega, by omega, hrest⟩
    · rintro ⟨rfl, hd48, hrest⟩
      exact ⟨by omega, hrest⟩

/-- A text stands for 0 when the digits in front of it are zeros. -/
theorem decimalValue_eq_zero_iff (cs : List Int8) :
    decimalValue cs = 0 ↔ ∀ c ∈ cs.takeWhile isDigit, c = 48 := by
  have hdigits : ∀ c ∈ cs.takeWhile isDigit, isDigit c := by
    intro c hc
    exact List.mem_takeWhile_imp hc
  have hiff := foldl_digits_eq_zero_iff hdigits (Int.le_refl 0)
  simp only [true_and] at hiff
  exact hiff

/-! ## atoi -/

/-- The text behind an optional sign. -/
def dropSign : List Int8 → List Int8
  | [] => []
  | c :: cs => if c = 45 ∨ c = 43 then cs else c :: cs

/-- The text in which `atoi` reads its digits. -/
def atoiDigits (cs : List Int8) : List Int8 := dropSign (cs.dropWhile isWhite)

/-- `atoi` returns the number that the digits stand for, with a sign. -/
theorem atoi_eq (s : CString) : ∃ v, atoi s = cInt v ∧
    (v = decimalValue (atoiDigits s.chars) ∨ v = -decimalValue (atoiDigits s.chars)) := by
  have hwhite : (s.chars.dropWhile fun c => decide (c = 32 ∨ 9 ≤ c ∧ c ≤ 13)) =
      s.chars.dropWhile isWhite := rfl
  rw [atoi, hwhite, atoiDigits]
  cases s.chars.dropWhile isWhite with
  | nil => exact ⟨0, rfl, .inl rfl⟩
  | cons c cs =>
    by_cases hminus : c = 45
    · subst hminus
      exact ⟨_, rfl, .inr rfl⟩
    · by_cases hplus : c = 43
      · subst hplus
        exact ⟨_, rfl, .inl rfl⟩
      · simp only [hminus, hplus, ↓reduceIte, dropSign, or_self]
        exact ⟨_, rfl, .inl rfl⟩

/-- It returns 0 when the digits are zeros, or when there are none. -/
theorem atoi_eq_zero_iff {s : CString} {v : Int} (h : atoi s = some v) :
    v = 0 ↔ ∀ c ∈ (atoiDigits s.chars).takeWhile isDigit, c = 48 := by
  obtain ⟨w, hw, hsign⟩ := atoi_eq s
  have hv := (of_cInt (hw.symm.trans h)).1
  rw [← decimalValue_eq_zero_iff]
  omega

/-- The digits of a numeral are where `atoi` reads them. -/
theorem Numeral.atoiDigits_eq {cs ws sign digits rest : List Int8}
    (h : Numeral cs ws sign digits rest) : atoiDigits cs = digits ++ rest := by
  obtain ⟨d, ds, hdigits⟩ := List.exists_cons_of_ne_nil h.ne_nil
  have hd : isDigit d = true := h.digit d (hdigits ▸ List.mem_cons_self)
  have hminus : d ≠ 45 := ne_of_isDigit hd (by decide)
  have hplus : d ≠ 43 := ne_of_isDigit hd (by decide)
  rw [atoiDigits, h.split, List.dropWhile_append_of_pos h.white, hdigits]
  rcases h.sign_eq with rfl | rfl | rfl
  · rw [List.nil_append, List.cons_append,
      List.dropWhile_cons_of_neg (by simp [isDigit_not_isWhite hd]), dropSign,
      if_neg (not_or.mpr ⟨hminus, hplus⟩)]
  · rfl
  · rfl

/-- What `atoi` reads is a numeral if it starts with a digit. -/
theorem numeral_of_atoiDigits {cs : List Int8}
    (h : (atoiDigits cs).takeWhile isDigit ≠ []) :
    ∃ ws sign, Numeral cs ws sign ((atoiDigits cs).takeWhile isDigit)
      ((atoiDigits cs).dropWhile isDigit) := by
  obtain ⟨sign, hsign, hsplit⟩ : ∃ sign : List Int8,
      (sign = [] ∨ sign = [45] ∨ sign = [43]) ∧
        cs.dropWhile isWhite = sign ++ atoiDigits cs := by
    unfold atoiDigits
    cases cs.dropWhile isWhite with
    | nil => exact ⟨[], .inl rfl, rfl⟩
    | cons c cs =>
      by_cases hc : c = 45 ∨ c = 43
      · refine ⟨[c], ?_, by rw [dropSign, if_pos hc, List.singleton_append]⟩
        rcases hc with rfl | rfl
        · exact .inr (.inl rfl)
        · exact .inr (.inr rfl)
      · exact ⟨[], .inl rfl, by rw [dropSign, if_neg hc, List.nil_append]⟩
  refine ⟨cs.takeWhile isWhite, sign, ?_, fun c hc => List.mem_takeWhile_imp hc, hsign, h,
    fun c hc => List.mem_takeWhile_imp hc⟩
  rw [List.takeWhile_append_dropWhile, ← hsplit, List.takeWhile_append_dropWhile]

theorem hasNumber_iff (cs : List Int8) :
    HasNumber cs ↔ (atoiDigits cs).takeWhile isDigit ≠ [] := by
  constructor
  · rintro ⟨ws, sign, digits, rest, h⟩
    rw [h.atoiDigits_eq, List.takeWhile_append_of_pos h.digit]
    exact List.append_ne_nil_of_left_ne_nil h.ne_nil _
  · intro h
    obtain ⟨ws, sign, hnum⟩ := numeral_of_atoiDigits h
    exact ⟨ws, sign, _, _, hnum⟩

theorem hasZero_iff (cs : List Int8) :
    HasZero cs ↔ HasNumber cs ∧ ∀ c ∈ (atoiDigits cs).takeWhile isDigit, c = 48 := by
  constructor
  · rintro ⟨ws, sign, digits, rest, h, hzero, hrest⟩
    refine ⟨⟨ws, sign, digits, rest, h⟩, ?_⟩
    have hall : (atoiDigits cs).takeWhile isDigit = digits := by
      rw [h.atoiDigits_eq, List.takeWhile_append_of_pos h.digit]
      cases rest with
      | nil => rw [List.takeWhile_nil, List.append_nil]
      | cons c rest => rw [List.takeWhile_cons_of_neg (hrest c rfl), List.append_nil]
    rwa [hall]
  · rintro ⟨hnum, hzero⟩
    obtain ⟨ws, sign, h⟩ := numeral_of_atoiDigits ((hasNumber_iff cs).mp hnum)
    refine ⟨ws, sign, _, _, h, hzero, ?_⟩
    intro c hc
    have hstop := List.head?_dropWhile_not isDigit (atoiDigits cs)
    rw [hc] at hstop
    simpa using hstop

/-! ## safe_atoi -/

/-- `safe_atoi` returns 0 and stores the number if the string starts with one, and returns
    -1 and stores nothing if not, or if there is no string. -/
def SafeAtoiRight (i : Int) : Option CString → Prop
  | none => safeAtoi none i = some (-1, i)
  | some s =>
    (HasNumber s.chars → ∃ v, atoi s = some v ∧ safeAtoi (some s) i = some (0, v)) ∧
    (¬HasNumber s.chars → safeAtoi (some s) i = some (-1, i))

/-- A string that starts with `'0'` starts with a number. -/
theorem hasNumber_of_head {cs : List Int8} (h : cs.headD 0 = 48) : HasNumber cs := by
  cases cs with
  | nil => cases h
  | cons c cs =>
    obtain rfl : c = 48 := h
    refine ⟨[], [], [48], cs, rfl, ?_, .inl rfl, List.cons_ne_nil 48 [], ?_⟩
    · intro c hc
      cases hc
    · intro c hc
      rw [List.mem_singleton.mp hc]
      decide

theorem headD_eq_48_iff (cs : List Int8) : cs.headD 0 = 48 ↔ cs.head? = some 48 := by
  cases cs <;> simp

/-- `safe_atoi` never takes anything else for a number, and misses the zeros that do not
    start with `'0'`. -/
theorem safeAtoi_string_iff {s : CString} {v : Int} (hv : atoi s = some v) (i : Int) :
    SafeAtoiRight i (some s) ↔ (HasZero s.chars → s.chars.head? = some 48) := by
  have hrun : safeAtoi (some s) i =
      if v = 0 ∧ s.chars.headD 0 ≠ 48 then some (-1, i) else some (0, v) := by
    simp only [safeAtoi, hv, Option.bind_eq_bind, Option.bind_some, Option.pure_def]
  have hzero := hasZero_iff s.chars
  rw [← atoi_eq_zero_iff hv] at hzero
  rw [SafeAtoiRight, hrun, ← headD_eq_48_iff]
  by_cases hnum : HasNumber s.chars
  · constructor
    · -- a zero that is not recognised is refused
      rintro ⟨hfound, _⟩ hz
      obtain ⟨_, _, hret⟩ := hfound hnum
      by_contra hne
      rw [if_pos ⟨(hzero.mp hz).2, hne⟩] at hret
      cases hret
    · intro hcond
      refine ⟨fun _ => ⟨v, hv, ?_⟩, fun hnot => absurd hnum hnot⟩
      rw [if_neg]
      rintro ⟨hv0, hne⟩
      exact hne (hcond (hzero.mpr ⟨hnum, hv0⟩))
  · -- without digits `atoi` returns 0, and the first character is no digit
    have hv0 : v = 0 := by
      have hnil := (hasNumber_iff s.chars).not.mp hnum
      rw [not_ne_iff] at hnil
      rw [atoi_eq_zero_iff hv, hnil]
      intro c hc
      cases hc
    have hne : s.chars.headD 0 ≠ 48 := fun h48 => hnum (hasNumber_of_head h48)
    constructor
    · intro _ hz
      exact absurd (hzero.mp hz).1 hnum
    · intro _
      exact ⟨fun hnum' => absurd hnum' hnum, fun _ => if_pos ⟨hv0, hne⟩⟩

/-- With all values within `int`, `safe_atoi` is right about a string exactly when that
    does not start with a zero, or starts with `'0'`. -/
theorem safeAtoi_correct_iff (a : Option CString) (i : Int) (hint : ∀ s ∈ a, (atoi s).isSome) :
    SafeAtoiRight i a ↔ ∀ s ∈ a, HasZero s.chars → s.chars.head? = some 48 := by
  cases a with
  | none =>
    constructor
    · intro _ s hs
      cases hs
    · intro _
      rfl
  | some s =>
    obtain ⟨v, hv⟩ := Option.isSome_iff_exists.mp (hint s rfl)
    rw [safeAtoi_string_iff hv]
    simp only [Option.mem_def, Option.some.injEq, forall_eq']

/-- The string `"00x"`. -/
theorem safeAtoi_correct_iff_zeros :
    SafeAtoiRight 7 (some ⟨[48, 48, 120], by decide⟩) ↔
      ∀ s ∈ some (⟨[48, 48, 120], by decide⟩ : CString),
        HasZero s.chars → s.chars.head? = some 48 := by
  apply safeAtoi_correct_iff
  intro s hs
  obtain rfl := Option.some.inj hs
  decide

/-- The string `" 0"` is refused. -/
theorem safeAtoi_refuses_zero :
    HasNumber [32, 48] ∧ atoi ⟨[32, 48], by decide⟩ = some 0 ∧
      safeAtoi (some ⟨[32, 48], by decide⟩) 7 = some (-1, 7) := by
  refine ⟨⟨[32], [], [48], [], rfl, ?_, .inl rfl, by decide, ?_⟩, ?_, ?_⟩
  · exact List.forall_mem_singleton.mpr (by decide)
  · exact List.forall_mem_singleton.mpr (by decide)
  · decide
  · decide

end CUtils
