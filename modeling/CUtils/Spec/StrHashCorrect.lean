import CUtils.ForStd.List
import CUtils.Spec.PolyHashCorrect
import Mathlib.Data.Nat.ModEq

/-!
# The string hashes tell neighbouring strings apart

Both hashes fold the characters into a word, and for a given character the step is injective
in the word: once two hashes differ, equal characters behind the difference keep them apart.

- `hash32_checked`: where the wrapping decrement of `len` is the one of `poly_hash`.
- `hash32_neighbour`: one changed character, or two adjacent ones that are swapped.
-/

namespace CUtils

/-- The step of `hash32_djb2`. -/
def djb2Step (hash : UInt32) (c : Int8) : UInt32 := ((hash <<< 5) + hash) + c.toInt32.toUInt32

/-- The multiplication by the FNV prime. -/
def fnvTimes (hval : UInt32) : UInt32 :=
  hval + ((hval <<< 1) + (hval <<< 4) + (hval <<< 7) + (hval <<< 8) + (hval <<< 24))

/-- The step of `hash32_fnv`. -/
def fnvStep (hval : UInt32) (c : Int8) : UInt32 := fnvTimes hval ^^^ c.toUInt8.toUInt32

/-! ## The loops as folds -/

theorem toNat_int32_pred {len : Int32} (h : len ≠ 0) :
    len.toUInt32.toNat = (len - 1).toUInt32.toNat + 1 := by
  have hpos : len.toUInt32.toNat ≠ 0 := by
    intro hzero
    exact h (congrArg Int32.ofUInt32 (UInt32.toNat_inj.mp hzero))
  have hlt := len.toUInt32.toNat_lt
  rw [Int32.toUInt32_sub, UInt32.toNat_sub]
  show _ = (2 ^ 32 - 1 + len.toUInt32.toNat) % 2 ^ 32 + 1
  omega

theorem hash32Djb2Loop_eq (str : List Int8) (len : Int32) (hash : UInt32) :
    hash32Djb2Loop str len hash = (str.take len.toUInt32.toNat).foldl djb2Step hash := by
  induction str generalizing len hash with
  | nil => rw [List.take_nil]; rfl
  | cons c str ih =>
    rw [hash32Djb2Loop]
    split
    · next hlen =>
      rw [ih, toNat_int32_pred hlen, List.take_succ_cons]
      rfl
    · next hlen =>
      rw [not_not.mp hlen]
      rfl

theorem hash32FnvLoop_eq (str : List Int8) (len : Int32) (hval : UInt32) :
    hash32FnvLoop str len hval = (str.take len.toUInt32.toNat).foldl fnvStep hval := by
  induction str generalizing len hval with
  | nil => rw [List.take_nil]; rfl
  | cons c str ih =>
    rw [hash32FnvLoop]
    split
    · next hlen =>
      rw [ih, toNat_int32_pred hlen, List.take_succ_cons]
      rfl
    · next hlen =>
      rw [not_not.mp hlen]
      rfl

/-- The word that counts the rounds selects the same characters. -/
theorem take_toUInt32 {str : List Int8} {len : Int32} (hfit : DecrementsFit str.length len.toInt) :
    str.take len.toUInt32.toNat = str.take (hashedLen str.length len.toInt) := by
  have hword : (len.toUInt32.toNat : Int) = len.toInt % 2 ^ 32 := by
    have hlt := len.toUInt32.toNat_lt
    have hcond : len.toInt = _ := BitVec.toInt_eq_toNat_cond len.toBitVec
    have hnat : len.toBitVec.toNat = len.toUInt32.toNat := rfl
    rw [hcond, hnat]
    split <;> omega
  have hmin : -2 ^ 31 ≤ len.toInt := len.le_toInt
  have hmax : len.toInt < 2 ^ 31 := len.toInt_lt
  apply List.take_eq_take_iff.mpr
  unfold DecrementsFit intMax at hfit
  unfold hashedLen
  split <;> omega

/-- With the decrement checked as in `poly_hash`, both hashes have the same result where no
    decrement leaves the range of `int`, and none otherwise. -/
theorem hash32_checked (str : CString) (len : Int32) :
    countedLoop djb2Step str.chars len.toInt 5381 =
        (if DecrementsFit str.chars.length len.toInt then some (hash32Djb2 str len) else none) ∧
      countedLoop fnvStep str.chars len.toInt 0 =
        (if DecrementsFit str.chars.length len.toInt then some (hash32Fnv str len) else none) := by
  have hmin : -intMax - 1 ≤ len.toInt := len.le_toInt
  have hmax : len.toInt ≤ intMax := Int.le_of_lt_add_one len.toInt_lt
  rw [countedLoop_eq _ _ _ hmin hmax, countedLoop_eq _ _ _ hmin hmax]
  unfold hash32Djb2 hash32Fnv
  rw [hash32Djb2Loop_eq, hash32FnvLoop_eq]
  by_cases hfit : DecrementsFit str.chars.length len.toInt
  · rw [take_toUInt32 hfit]
    exact ⟨rfl, rfl⟩
  · rw [if_neg hfit, if_neg hfit, if_neg hfit, if_neg hfit]
    exact ⟨rfl, rfl⟩

/-! ## Steps -/

theorem toNat_djb2Step (hash : UInt32) (c : Int8) :
    (djb2Step hash c).toNat = (33 * hash.toNat + c.toInt32.toUInt32.toNat) % 2 ^ 32 := by
  rw [djb2Step, UInt32.toNat_add, UInt32.toNat_add, UInt32.toNat_shiftLeft, Nat.shiftLeft_eq]
  show ((hash.toNat * 2 ^ 5 % 2 ^ 32 + hash.toNat) % 2 ^ 32 + _) % 2 ^ 32 = _
  omega

/-- A character as the word that `hash32_djb2` adds. -/
theorem toNat_char (c : Int8) :
    (c.toInt32.toUInt32.toNat : Int) = c.toInt ∨
      (c.toInt32.toUInt32.toNat : Int) = c.toInt + 2 ^ 32 := by
  have hint : c.toInt32.toBitVec.toInt = c.toInt := Int8.toInt_toInt32 c
  rw [BitVec.toInt_eq_toNat_cond] at hint
  show (c.toInt32.toBitVec.toNat : Int) = _ ∨ (c.toInt32.toBitVec.toNat : Int) = _
  split at hint <;> omega

theorem toNat_fnvTimes (hval : UInt32) :
    (fnvTimes hval).toNat = 16777619 * hval.toNat % 2 ^ 32 := by
  simp only [fnvTimes, UInt32.toNat_add, UInt32.toNat_shiftLeft, Nat.shiftLeft_eq]
  show (hval.toNat + ((((hval.toNat * 2 ^ 1 % 2 ^ 32 + hval.toNat * 2 ^ 4 % 2 ^ 32) % 2 ^ 32 +
    hval.toNat * 2 ^ 7 % 2 ^ 32) % 2 ^ 32 + hval.toNat * 2 ^ 8 % 2 ^ 32) % 2 ^ 32 +
    hval.toNat * 2 ^ 24 % 2 ^ 32) % 2 ^ 32) % 2 ^ 32 = _
  omega

theorem djb2Step_injective (c : Int8) : Function.Injective fun hash => djb2Step hash c := by
  intro x y h
  have hnat := congrArg UInt32.toNat h
  simp only [toNat_djb2Step] at hnat
  have hmul : 33 * x.toNat ≡ 33 * y.toNat [MOD 2 ^ 32] := Nat.ModEq.add_right_cancel' _ hnat
  have hmod := hmul.cancel_left_of_coprime (by decide)
  exact UInt32.toNat_inj.mp (hmod.eq_of_lt_of_lt x.toNat_lt y.toNat_lt)

theorem fnvTimes_injective : Function.Injective fnvTimes := by
  intro x y h
  have hmul : 16777619 * x.toNat ≡ 16777619 * y.toNat [MOD 2 ^ 32] := by
    rw [Nat.ModEq, ← toNat_fnvTimes, ← toNat_fnvTimes, h]
  have hmod := hmul.cancel_left_of_coprime (by decide)
  exact UInt32.toNat_inj.mp (hmod.eq_of_lt_of_lt x.toNat_lt y.toNat_lt)

theorem fnvStep_injective (c : Int8) : Function.Injective fun hval => fnvStep hval c := by
  intro x y h
  have hcancel := congrArg (· ^^^ c.toUInt8.toUInt32) h
  simp only [fnvStep, UInt32.xor_assoc, UInt32.xor_self, UInt32.xor_zero] at hcancel
  exact fnvTimes_injective hcancel

/-! ## Different characters -/

theorem djb2Step_ne (hash : UInt32) {c d : Int8} (h : c ≠ d) :
    djb2Step hash c ≠ djb2Step hash d := by
  intro heq
  have hnat := congrArg UInt32.toNat heq
  rw [toNat_djb2Step, toNat_djb2Step] at hnat
  have hmod := Nat.ModEq.add_left_cancel' _ hnat
  have heq := hmod.eq_of_lt_of_lt c.toInt32.toUInt32.toNat_lt d.toInt32.toUInt32.toNat_lt
  apply h
  apply Int8.toInt_inj.mp
  have hc := toNat_char c
  have hd := toNat_char d
  have := c.toInt_lt
  have := d.toInt_lt
  have := c.le_toInt
  have := d.le_toInt
  omega

theorem fnvStep_ne (hval : UInt32) {c d : Int8} (h : c ≠ d) : fnvStep hval c ≠ fnvStep hval d := by
  intro heq
  have hcancel := congrArg (fnvTimes hval ^^^ ·) heq
  simp only [fnvStep, ← UInt32.xor_assoc, UInt32.xor_self, UInt32.zero_xor] at hcancel
  exact h (congrArg UInt8.toInt8 (UInt8.toUInt32_inj.mp hcancel))

theorem djb2Step_swap_ne (hash : UInt32) {c d : Int8} (h : c ≠ d) :
    djb2Step (djb2Step hash c) d ≠ djb2Step (djb2Step hash d) c := by
  intro heq
  have hnat := congrArg UInt32.toNat heq
  simp only [toNat_djb2Step] at hnat
  -- the two words differ by 32 times the difference of the characters
  have hmul : 32 * c.toInt32.toUInt32.toNat % 2 ^ 32 = 32 * d.toInt32.toUInt32.toNat % 2 ^ 32 := by
    omega
  apply h
  apply Int8.toInt_inj.mp
  have hc := toNat_char c
  have hd := toNat_char d
  have := c.toInt_lt
  have := d.toInt_lt
  have := c.le_toInt
  have := d.le_toInt
  omega

/-- A character changes only the low byte of a word. -/
theorem xor_char_div (x : UInt32) (c : Int8) : (x ^^^ c.toUInt8.toUInt32).toNat / 2 ^ 8 =
    x.toNat / 2 ^ 8 := by
  have hlow : c.toUInt8.toNat / 2 ^ 8 = 0 := Nat.div_eq_of_lt c.toUInt8.toNat_lt
  rw [UInt32.toNat_xor, Nat.xor_div_two_pow, UInt8.toNat_toUInt32, hlow, Nat.xor_zero]

/-- Two words with the same high bytes, whose products with the FNV prime have the same high
    bytes, are equal. -/
theorem eq_of_fnvTimes_high {x y : Nat} (hhigh : x / 2 ^ 8 = y / 2 ^ 8)
    (htimes : 16777619 * x % 2 ^ 32 / 2 ^ 8 = 16777619 * y % 2 ^ 32 / 2 ^ 8) : x = y := by
  have hx := Nat.div_add_mod (16777619 * x) (2 ^ 32)
  have hy := Nat.div_add_mod (16777619 * y) (2 ^ 32)
  generalize 16777619 * x % 2 ^ 32 = u at hx htimes
  generalize 16777619 * y % 2 ^ 32 = v at hy htimes
  generalize 16777619 * x / 2 ^ 32 = m at hx
  generalize 16777619 * y / 2 ^ 32 = n at hy
  -- the prime is 2 ^ 24 + 403, and 255 * 403 + 255 is below 2 ^ 24
  have hprod : 16777216 * (x - y - 256 * (m - n) : Int) = (u - v : Int) - 403 * (x - y : Int) := by
    omega
  have hlow : -256 < (x - y : Int) ∧ (x - y : Int) < 256 := by omega
  have hlow' : -256 < (u - v : Int) ∧ (u - v : Int) < 256 := by omega
  have hzero : (x - y - 256 * (m - n) : Int) = 0 := by omega
  omega

theorem fnvStep_swap_ne (hval : UInt32) {c d : Int8} (h : c ≠ d) :
    fnvStep (fnvStep hval c) d ≠ fnvStep (fnvStep hval d) c := by
  intro heq
  apply fnvStep_ne hval h
  have htimes := congrArg (fun word : UInt32 => word.toNat / 2 ^ 8) heq
  simp only [fnvStep, xor_char_div, toNat_fnvTimes] at htimes
  apply UInt32.toNat_inj.mp
  apply eq_of_fnvTimes_high
  · exact (xor_char_div _ c).trans (xor_char_div _ d).symm
  · exact htimes

/-! ## Neighbouring strings -/

/-- Two texts that differ in the character behind `pre`, or in the order of the two different
    characters behind it. -/
inductive Neighbours (pre : List Int8) : List Int8 → List Int8 → Prop
  | change {c d : Int8} (suf : List Int8) (h : c ≠ d) :
    Neighbours pre (pre ++ c :: suf) (pre ++ d :: suf)
  | swap {c d : Int8} (suf : List Int8) (h : c ≠ d) :
    Neighbours pre (pre ++ c :: d :: suf) (pre ++ d :: c :: suf)

/-- A fold tells neighbours apart if the part that is folded reaches the difference. -/
theorem Neighbours.foldl_take_eq_iff {f : UInt32 → Int8 → UInt32} {pre as bs : List Int8}
    (hinj : ∀ c, Function.Injective fun hash => f hash c)
    (hne : ∀ hash {c d}, c ≠ d → f hash c ≠ f hash d)
    (hswap : ∀ hash {c d}, c ≠ d → f (f hash c) d ≠ f (f hash d) c)
    (h : Neighbours pre as bs) (n : Nat) (hash : UInt32) :
    (as.take n).foldl f hash = (bs.take n).foldl f hash ↔ n ≤ pre.length := by
  apply Iff.intro
  · intro heq
    apply Nat.le_of_not_lt
    intro hlt
    cases h with
    | @change c d suf hcd =>
      obtain ⟨k, hk⟩ : ∃ k, n - pre.length = k + 1 := ⟨n - pre.length - 1, by omega⟩
      simp only [List.take_append, hk, List.take_succ_cons, List.foldl_append, List.foldl_cons]
        at heq
      exact hne _ hcd (List.foldl_injective hinj _ heq)
    | @swap c d suf hcd =>
      obtain ⟨k, hk⟩ : ∃ k, n - pre.length = k + 1 := ⟨n - pre.length - 1, by omega⟩
      cases k with
      | zero =>
        simp only [List.take_append, hk, List.take_succ_cons, List.foldl_append, List.foldl_cons,
          List.take_zero] at heq
        exact hne _ hcd heq
      | succ k =>
        simp only [List.take_append, hk, List.take_succ_cons, List.foldl_append, List.foldl_cons]
          at heq
        exact hswap _ hcd (List.foldl_injective hinj _ heq)
  · intro hle
    cases h with
    | change => rw [List.take_append_of_le_length hle, List.take_append_of_le_length hle]
    | swap => rw [List.take_append_of_le_length hle, List.take_append_of_le_length hle]

/-- Neither hash collides on two strings that differ in one character or by a swap of two
    adjacent ones, unless `len` ends the hashed part before the difference.  A negative `len`
    counts as the word that it is. -/
theorem hash32_neighbour {a b : CString} {pre : List Int8} (h : Neighbours pre a.chars b.chars)
    (len : Int32) :
    (hash32Djb2 a len = hash32Djb2 b len ↔ len.toUInt32.toNat ≤ pre.length) ∧
      (hash32Fnv a len = hash32Fnv b len ↔ len.toUInt32.toNat ≤ pre.length) := by
  unfold hash32Djb2 hash32Fnv
  rw [hash32Djb2Loop_eq, hash32Djb2Loop_eq, hash32FnvLoop_eq, hash32FnvLoop_eq]
  exact ⟨h.foldl_take_eq_iff djb2Step_injective djb2Step_ne djb2Step_swap_ne _ _,
    h.foldl_take_eq_iff fnvStep_injective fnvStep_ne fnvStep_swap_ne _ _⟩

/-- "tty0" and "tty1", the whole string hashed. -/
theorem hash32_neighbour_tty :
    hash32Djb2 ⟨[116, 116, 121, 48], by decide⟩ (-1) ≠
      hash32Djb2 ⟨[116, 116, 121, 49], by decide⟩ (-1) := by
  have h : Neighbours [116, 116, 121] [116, 116, 121, 48] [116, 116, 121, 49] :=
    .change [] (by decide)
  have hpair := hash32_neighbour (a := ⟨[116, 116, 121, 48], by decide⟩)
    (b := ⟨[116, 116, 121, 49], by decide⟩) h (-1)
  intro heq
  exact absurd (hpair.1.mp heq) (by decide)

end CUtils
