import CUtils.ForStd.List
import CUtils.Native.StrHex
import CUtils.Spec.StrBuffer

/-!
# Hexadecimal strings are a codec

`atohstr` writes two upper-case digits a byte, and `hstrtoa` reads digits of either case.
The length of a string is converted to an `int`, so `hstrtoa` looks at the first
`length % 2 ^ 32` characters, or at none.

- `atohstr_spec`, `hstrtoa_spec`: what the two functions do.
- `hexCodec_correct_iff`: arrays survive the way to a string and back, and the strings on
  which decoding accepts what it should.
-/

namespace CUtils

/-! ## Digits -/

/-- A hexadecimal digit of either case. -/
def IsHexDigit (c : Int8) : Prop :=
  48 ≤ c ∧ c ≤ 57 ∨ 65 ≤ c ∧ c ≤ 70 ∨ 97 ≤ c ∧ c ≤ 102

instance (c : Int8) : Decidable (IsHexDigit c) :=
  inferInstanceAs (Decidable (48 ≤ c ∧ c ≤ 57 ∨ 65 ≤ c ∧ c ≤ 70 ∨ 97 ≤ c ∧ c ≤ 102))

/-- A character in upper case. -/
def upperChar (c : Int8) : Int8 := if 97 ≤ c ∧ c ≤ 122 then c - 32 else c

/-- The two digits of a byte, the high half first. -/
def hexPair (b : UInt8) : List Int8 := [int2hex (byteToInt b >>> 4), int2hex (byteToInt b)]

private theorem of_all_uint8 {P : UInt8 → Prop} (h : ∀ n < 256, P (UInt8.ofNat n)) (b : UInt8) :
    P b := by
  have hb := h b.toNat b.toNat_lt
  rwa [UInt8.ofNat_toNat] at hb

private theorem of_all_int8 {P : Int8 → Prop} (h : ∀ n < 256, P (UInt8.ofNat n).toInt8)
    (c : Int8) : P c := by
  have hc := of_all_uint8 (P := fun b => P b.toInt8) h c.toUInt8
  rwa [Int8.toInt8_toUInt8] at hc

/-- `hex2int` accepts the digits and nothing else. -/
theorem hex2int_ne_iff (c : Int8) : hex2int c ≠ -1 ↔ IsHexDigit c :=
  of_all_int8 (P := fun c => hex2int c ≠ -1 ↔ IsHexDigit c) (by decide +kernel) c

/-- The value of a digit is the number of a digit, which `int2hex` writes in upper case. -/
theorem exists_hex2int_eq {c : Int8} (h : IsHexDigit c) :
    ∃ v, v < 16 ∧ hex2int c = Int32.ofNat v ∧ int2hex (Int32.ofNat v) = upperChar c :=
  of_all_int8 (P := fun c => IsHexDigit c →
    ∃ v, v < 16 ∧ hex2int c = Int32.ofNat v ∧ int2hex (Int32.ofNat v) = upperChar c)
    (by decide +kernel) c h

private theorem hexPair_nibbles_all : ∀ v < 16, ∀ w < 16,
    hexPair (nibbles (Int32.ofNat v) (Int32.ofNat w)) =
      [int2hex (Int32.ofNat v), int2hex (Int32.ofNat w)] := by
  decide +kernel

/-- The digits of a byte that is made of the values of two digits. -/
theorem hexPair_nibbles {c d : Int8} (hc : IsHexDigit c) (hd : IsHexDigit d) :
    hexPair (nibbles (hex2int c) (hex2int d)) = [upperChar c, upperChar d] := by
  obtain ⟨v, hv, hcv, hvu⟩ := exists_hex2int_eq hc
  obtain ⟨w, hw, hdw, hwu⟩ := exists_hex2int_eq hd
  rw [hcv, hdw, hexPair_nibbles_all v hv w hw, hvu, hwu]

/-- The two digits of a byte stand for it. -/
theorem nibbles_hexPair (b : UInt8) :
    nibbles (hex2int (int2hex (byteToInt b >>> 4))) (hex2int (int2hex (byteToInt b))) = b :=
  of_all_uint8 (P := fun b =>
    nibbles (hex2int (int2hex (byteToInt b >>> 4))) (hex2int (int2hex (byteToInt b))) = b)
    (by decide +kernel) b

theorem isHexDigit_of_mem_hexPair (b : UInt8) : ∀ c ∈ hexPair b, IsHexDigit c := by
  have hpair : IsHexDigit (int2hex (byteToInt b >>> 4)) ∧ IsHexDigit (int2hex (byteToInt b)) :=
    of_all_uint8 (P := fun b =>
      IsHexDigit (int2hex (byteToInt b >>> 4)) ∧ IsHexDigit (int2hex (byteToInt b)))
      (by decide +kernel) b
  rw [hexPair, List.forall_mem_cons, List.forall_mem_singleton]
  exact hpair

theorem IsHexDigit.ne_zero {c : Int8} (h : IsHexDigit c) : c ≠ 0 := by
  intro h0
  rw [h0] at h
  exact absurd h (by decide)

/-! ## Strings of digits -/

/-- A non-empty string of even length whose characters are hexadecimal digits. -/
structure HexString (cs : List Int8) : Prop where
  ne_nil : cs ≠ []
  even : cs.length % 2 = 0
  digits : ∀ c ∈ cs, IsHexDigit c

/-- The digits of the bytes of an array. -/
def hexChars (arr : List UInt8) : List Int8 := arr.flatMap hexPair

/-- The bytes that pairs of digits stand for. -/
def decodePairs : List Int8 → List UInt8
  | c :: d :: cs => nibbles (hex2int c) (hex2int d) :: decodePairs cs
  | _ => []

theorem length_hexChars (arr : List UInt8) : (hexChars arr).length = 2 * arr.length := by
  induction arr with
  | nil => rfl
  | cons b arr ih =>
    rw [hexChars, List.flatMap_cons, List.length_append, List.length_cons, ← hexChars, ih, hexPair]
    simp only [List.length_cons, List.length_nil]
    omega

theorem isHexDigit_of_mem_hexChars (arr : List UInt8) : ∀ c ∈ hexChars arr, IsHexDigit c := by
  intro c hc
  obtain ⟨b, _, hcb⟩ := List.mem_flatMap.mp hc
  exact isHexDigit_of_mem_hexPair b c hcb

/-- Decoding the digits of an array. -/
theorem decodePairs_hexChars (arr : List UInt8) : decodePairs (hexChars arr) = arr := by
  induction arr with
  | nil => rfl
  | cons b arr ih =>
    rw [hexChars, List.flatMap_cons, hexPair, List.cons_append, List.cons_append, List.nil_append,
      decodePairs, nibbles_hexPair, ← hexChars, ih]

/-- Encoding what was decoded gives the digits in upper case. -/
theorem hexChars_decodePairs (cs : List Int8) (hlen : cs.length % 2 = 0)
    (hcs : ∀ c ∈ cs, IsHexDigit c) : hexChars (decodePairs cs) = cs.map upperChar := by
  induction cs using decodePairs.induct with
  | case1 c d cs ih =>
    have hlen' : cs.length % 2 = 0 := by
      simp only [List.length_cons] at hlen
      omega
    have hpair := hexPair_nibbles (hcs c (by simp)) (hcs d (by simp))
    rw [decodePairs, hexChars, List.flatMap_cons, hpair, ← hexChars,
      ih hlen' fun x hx => hcs x (by simp [hx])]
    rfl
  | case2 cs h =>
    -- a single character is left over from an odd length
    cases cs with
    | nil => rfl
    | cons c cs =>
      cases cs with
      | nil => exact absurd hlen (by simp)
      | cons d cs => exact absurd rfl (h c d cs)

theorem length_decodePairs (cs : List Int8) : (decodePairs cs).length = cs.length / 2 := by
  induction cs using decodePairs.induct with
  | case1 c d cs ih =>
    rw [decodePairs, List.length_cons, ih, List.length_cons, List.length_cons]
    omega
  | case2 cs h =>
    cases cs with
    | nil => rfl
    | cons c cs =>
      cases cs with
      | nil => simp [decodePairs]
      | cons d cs => exact absurd rfl (h c d cs)

/-! ## Encoding -/

/-- An iteration writes the digits of one byte. -/
theorem atohstrBody_spec {hstr : List Int8} {arr : List UInt8} {k : Nat} (hk : k < arr.length)
    (hint : 2 * k + 1 < 2 ^ 31) (hlen : 2 * k + 1 < hstr.length)
    (htake : hstr.take (2 * k) = hexChars (arr.take k)) :
    ∃ hstr', atohstrBody arr hstr k = some hstr' ∧ hstr'.length = hstr.length ∧
      hstr'.take (2 * (k + 1)) = hexChars (arr.take (k + 1)) := by
  have hb : arr[k]? = some arr[k] := List.getElem?_eq_getElem hk
  have hj : cInt ((k : Int) * 2 + 0) = some ((2 * k : Nat) : Int) :=
    cInt_eq_natCast (by omega) (by omega)
  have hj' : cInt ((k : Int) * 2 + 1) = some ((2 * k + 1 : Nat) : Int) :=
    cInt_eq_natCast (by omega) hint
  have hin : 2 * k + [int2hex (byteToInt arr[k] >>> 4)].length ≤ hstr.length := by
    rw [List.length_singleton]
    omega
  have hin' : 2 * k + 1 + [int2hex (byteToInt arr[k])].length ≤
      (splice hstr (2 * k) [int2hex (byteToInt arr[k] >>> 4)]).length := by
    rw [length_splice hin, List.length_singleton]
    omega
  -- both writes extend the part that is done
  have hfirst := take_splice hin
  have hsecond := take_splice hin'
  rw [List.length_singleton] at hfirst hsecond
  refine ⟨_, ?_, (length_splice hin').trans (length_splice hin), ?_⟩
  · simp only [atohstrBody, hb, hj, hj', Int.toNat_natCast, Option.bind_eq_bind, Option.bind_some,
      writeAt_of_le hin, writeAt_of_le hin']
  · have htwo : 2 * (k + 1) = 2 * k + 1 + 1 := by omega
    rw [htwo, hsecond, hfirst, htake, List.take_add_one, hb, Option.toList_some, hexChars,
      hexChars, List.flatMap_append, List.flatMap_singleton, hexPair, List.append_assoc,
      List.singleton_append]

/-- `atohstr` writes the digits of the array and a terminator. -/
theorem atohstr_spec {hstr : List Int8} {arr : List UInt8} {n : Nat} (harr : n ≤ arr.length)
    (hn : 2 * n < 2 ^ 31) (hlen : 2 * n < hstr.length) :
    ∃ hstr', atohstr hstr arr n = some (hstr', 0) ∧ StrAt hstr' 0 (hexChars (arr.take n)) := by
  obtain ⟨mid, hloop, hmid, htake⟩ :
      ∃ mid, (List.range n).foldlM (atohstrBody arr) hstr = some mid ∧
        mid.length = hstr.length ∧ mid.take (2 * n) = hexChars (arr.take n) := by
    apply List.foldlM_range_inv (P := fun (k : Nat) (obj : List Int8) =>
      obj.length = hstr.length ∧ obj.take (2 * k) = hexChars (arr.take k))
    · exact ⟨rfl, rfl⟩
    · intro k obj hk ⟨hobj, htake⟩
      obtain ⟨obj', hbody, hobj', htake'⟩ := atohstrBody_spec (by omega) (by omega) (by omega) htake
      exact ⟨obj', hbody, hobj'.trans hobj, htake'⟩
  have hint : cInt ((n : Int) * 2) = some ((2 * n : Nat) : Int) :=
    cInt_eq_natCast (by omega) hn
  have hin : 2 * n + [(0 : Int8)].length ≤ mid.length := by
    rw [List.length_singleton]
    omega
  have hend := take_splice hin
  rw [List.length_singleton, htake] at hend
  refine ⟨splice mid (2 * n) [0], ?_, ?_, (splice mid (2 * n) [0]).drop (2 * n + 1), ?_⟩
  · simp only [atohstr, Int.toNat_natCast, hloop, hint, Option.bind_eq_bind, Option.bind_some,
      writeAt_of_le hin, Option.pure_def]
  · intro h0
    exact (isHexDigit_of_mem_hexChars _ 0 h0).ne_zero rfl
  · have hsplit := List.take_append_drop (2 * n + 1) (splice mid (2 * n) [0])
    rw [hend, List.append_assoc] at hsplit
    exact hsplit.symm

/-! ## Decoding -/

/-- The loop from `i` on decodes `n` pairs of digits, or fails. -/
theorem hstrtoaLoop_spec (cs tail : List Int8) (len : Int) {n i : Nat} {arr : List UInt8}
    (hcs : 2 * (i + n) ≤ cs.length) (harr : i + n ≤ arr.length) :
    ∃ arr' ret, hstrtoaLoop (cs ++ tail) len n i arr = some (arr', ret) ∧
      ((∀ c ∈ (cs.drop (2 * i)).take (2 * n), IsHexDigit c) → ret = len ∧
        arr'.take (i + n) = arr.take i ++ decodePairs ((cs.drop (2 * i)).take (2 * n))) ∧
      (¬(∀ c ∈ (cs.drop (2 * i)).take (2 * n), IsHexDigit c) → ret = -1) := by
  induction n generalizing i arr with
  | zero =>
    refine ⟨arr, len, rfl, ?_, ?_⟩
    · intro _
      simp [decodePairs]
    · intro hnot
      exact absurd (by simp) hnot
  | succ n ih =>
    have hfst : 2 * i < cs.length := by omega
    have hsnd : 2 * i + 1 < cs.length := by omega
    have hc : cs[2 * i]? = some cs[2 * i] := List.getElem?_eq_getElem hfst
    have hd : cs[2 * i + 1]? = some cs[2 * i + 1] := List.getElem?_eq_getElem hsnd
    have hdrop : (cs.drop (2 * i)).take (2 * (n + 1)) =
        cs[2 * i] :: cs[2 * i + 1] :: (cs.drop (2 * (i + 1))).take (2 * n) := by
      rw [List.drop_eq_getElem_cons hfst, List.drop_eq_getElem_cons hsnd]
      rfl
    generalize cs[2 * i] = c at hc hdrop
    generalize cs[2 * i + 1] = d at hd hdrop
    have hget : (cs ++ tail)[i * 2 + 0]? = some c := by
      rw [List.getElem?_append_left (by omega), Nat.add_zero, Nat.mul_comm, hc]
    have hget' : (cs ++ tail)[i * 2 + 1]? = some d := by
      rw [List.getElem?_append_left (by omega), Nat.mul_comm, hd]
    have hall : (∀ x ∈ (cs.drop (2 * i)).take (2 * (n + 1)), IsHexDigit x) ↔
        IsHexDigit c ∧ IsHexDigit d ∧ ∀ x ∈ (cs.drop (2 * (i + 1))).take (2 * n), IsHexDigit x := by
      rw [hdrop, List.forall_mem_cons, List.forall_mem_cons]
    simp only [hstrtoaLoop, hget, hget', Option.bind_eq_bind, Option.bind_some, hall]
    split
    · -- one of the characters is no digit
      rename_i hbad
      refine ⟨arr, -1, rfl, ?_, fun _ => rfl⟩
      intro ⟨hcx, hdx, _⟩
      rcases hbad with hbad | hbad
      · exact absurd hbad ((hex2int_ne_iff c).mpr hcx)
      · exact absurd hbad ((hex2int_ne_iff d).mpr hdx)
    · -- one more byte is stored
      rename_i hgood
      rw [not_or] at hgood
      have hcx := (hex2int_ne_iff c).mp hgood.1
      have hdx := (hex2int_ne_iff d).mp hgood.2
      have hin : i + [nibbles (hex2int c) (hex2int d)].length ≤ arr.length := by
        rw [List.length_singleton]
        omega
      have hfirst := take_splice hin
      rw [List.length_singleton] at hfirst
      obtain ⟨arr', ret, hrun, hok, hfail⟩ :=
        @ih (i + 1) (splice arr i [nibbles (hex2int c) (hex2int d)]) (by omega)
          (by rw [length_splice hin]; omega)
      refine ⟨arr', ret, ?_, ?_, ?_⟩
      · rw [writeAt_of_le hin, Option.bind_some]
        exact hrun
      · intro ⟨_, _, hrest⟩
        obtain ⟨hret, htake⟩ := hok hrest
        have hone : i + (n + 1) = i + 1 + n := by omega
        refine ⟨hret, ?_⟩
        rw [hone, htake, hfirst, hdrop, decodePairs, List.append_assoc, List.singleton_append]
      · intro hnot
        exact hfail fun hrest => hnot ⟨hcx, hdx, hrest⟩

/-- The conversion of a length to an `int` keeps the low 32 bits. -/
private theorem castInt_length (n : Nat) :
    castInt n = if n % 2 ^ 32 < 2 ^ 31 then ((n % 2 ^ 32 : Nat) : Int)
      else (n % 2 ^ 32 : Nat) - (2 ^ 32 : Nat) := by
  simp only [castInt, Int.bmod]
  split <;> split <;> omega

/-- What `hstrtoa` looks at is not empty, and a hexadecimal string. -/
def DecodesHead (s : CString) : Prop :=
  s.chars.length % 2 ^ 32 < 2 ^ 31 ∧ HexString (s.chars.take (s.chars.length % 2 ^ 32))

/-- `hstrtoa` decodes the first `length % 2 ^ 32` characters, or fails. -/
theorem hstrtoa_spec (s : CString) {arr : List UInt8} (harr : s.chars.length / 2 ≤ arr.length) :
    ∃ arr' ret, hstrtoa arr s = some (arr', ret) ∧
      (DecodesHead s ∧ ret = (s.chars.length % 2 ^ 32 / 2 : Nat) ∧
        arr'.take (s.chars.length % 2 ^ 32 / 2) =
          decodePairs (s.chars.take (s.chars.length % 2 ^ 32)) ∨
        ¬DecodesHead s ∧ ret < 0) := by
  have hcast := castInt_length s.chars.length
  have hle : s.chars.length % 2 ^ 32 ≤ s.chars.length := Nat.mod_le ..
  have hr : s.chars.length % 2 ^ 32 < 2 ^ 32 := Nat.mod_lt _ (by decide)
  unfold DecodesHead
  generalize s.chars.length % 2 ^ 32 = r at *
  have hlen : (s.chars.take r).length = r := List.length_take_of_le hle
  by_cases hodd : castInt s.chars.length % 2 = 1 ∨ castInt s.chars.length = 0
  · -- no character, or an odd number of them
    refine ⟨arr, -1, by simp only [hstrtoa, if_pos hodd], .inr ⟨?_, by decide⟩⟩
    intro ⟨hlt, hhex⟩
    have hpos : 0 < r := hlen ▸ List.length_pos_iff.mpr hhex.ne_nil
    have heven := hhex.even
    rw [hcast, if_pos hlt] at hodd
    omega
  · by_cases hlt : r < 2 ^ 31
    · -- the loop runs over the first `r` characters
      rw [if_pos hlt] at hcast
      have hhalf : (castInt s.chars.length).tdiv 2 = (r / 2 : Nat) := by
        rw [hcast, Int.tdiv_eq_ediv_of_nonneg (by omega)]
        rfl
      have htwo : 2 * (r / 2) = r := by omega
      obtain ⟨arr', ret, hrun, hok, hfail⟩ := hstrtoaLoop_spec s.chars [0]
        ((r / 2 : Nat) : Int) (show 2 * (0 + r / 2) ≤ s.chars.length by omega)
        (show 0 + r / 2 ≤ arr.length by omega)
      rw [Nat.mul_zero, List.drop_zero, htwo] at hok hfail
      refine ⟨arr', ret, ?_, ?_⟩
      · simp only [hstrtoa, if_neg hodd, hhalf, Int.toNat_natCast]
        exact hrun
      · by_cases hdigits : ∀ c ∈ s.chars.take r, IsHexDigit c
        · obtain ⟨hret, htake⟩ := hok hdigits
          rw [Nat.zero_add, List.take_zero, List.nil_append] at htake
          have hne : s.chars.take r ≠ [] := by
            intro hnil
            rw [hnil, List.length_nil] at hlen
            omega
          exact .inl ⟨⟨hlt, hne, by omega, hdigits⟩, hret, htake⟩
        · exact .inr ⟨fun h => hdigits h.2.digits, by rw [hfail hdigits]; decide⟩
    · -- a negative length: the loop does not run
      rw [if_neg hlt] at hcast
      have hneg : (castInt s.chars.length).tdiv 2 < 0 := by
        rw [Int.tdiv_eq_ediv_of_dvd (by omega)]
        omega
      refine ⟨arr, (castInt s.chars.length).tdiv 2, ?_, .inr ⟨fun h => hlt h.1, hneg⟩⟩
      simp only [hstrtoa, if_neg hodd, Int.toNat_of_nonpos (Int.le_of_lt hneg), hstrtoaLoop]

/-! ## The codec -/

/-- What is expected of the codec on one string: decoding into an array of half its length
    succeeds exactly if it is a hexadecimal string, and encoding the decoded bytes then
    gives the string in upper case. -/
def HexCodecOn (s : CString) : Prop :=
  ∀ arr : List UInt8, s.chars.length / 2 ≤ arr.length →
    ∃ arr' ret, hstrtoa arr s = some (arr', ret) ∧ (0 ≤ ret ↔ HexString s.chars) ∧
      (HexString s.chars → ∀ hstr : List Int8, s.chars.length < hstr.length →
        ∃ hstr', atohstr hstr arr' ret = some (hstr', 0) ∧
          StrAt hstr' 0 (s.chars.map upperChar))

/-- What is expected of the codec on one array: encoding it makes a string that is decoded
    to the array. -/
def HexArrayOn (a : List UInt8) : Prop :=
  ∀ (hstr : List Int8) (arr : List UInt8), 2 * a.length < hstr.length → a.length ≤ arr.length →
    ∃ (hstr' : List Int8) (s : CString) (arr' : List UInt8),
      atohstr hstr a a.length = some (hstr', 0) ∧ StrAt hstr' 0 s.chars ∧
      hstrtoa arr s = some (arr', (a.length : Int)) ∧ arr'.take a.length = a

/-- Where the length is an `int`, decoding sees the whole string. -/
private theorem decodesHead_iff {s : CString} (hlen : s.chars.length < 2 ^ 31) :
    DecodesHead s ↔ HexString s.chars := by
  have hmod : s.chars.length % 2 ^ 32 = s.chars.length := Nat.mod_eq_of_lt (by omega)
  rw [DecodesHead, hmod, List.take_length]
  exact ⟨fun h => h.2, fun h => ⟨hlen, h⟩⟩

/-- The codec works on every string whose length is an `int`. -/
theorem hexCodecOn_of_lt {s : CString} (hlen : s.chars.length < 2 ^ 31) : HexCodecOn s := by
  intro arr harr
  have hmod : s.chars.length % 2 ^ 32 = s.chars.length := Nat.mod_eq_of_lt (by omega)
  obtain ⟨arr', ret, hrun, ⟨hhead, hret, htake⟩ | ⟨hhead, hret⟩⟩ := hstrtoa_spec s harr
  · rw [decodesHead_iff hlen] at hhead
    rw [hmod, List.take_length] at htake
    rw [hmod] at hret
    refine ⟨arr', ret, hrun, ⟨fun _ => hhead, fun _ => by omega⟩, ?_⟩
    intro _ hstr hbuf
    have hbytes : s.chars.length / 2 ≤ arr'.length := by
      have hcut := congrArg List.length htake
      rw [length_decodePairs, List.length_take] at hcut
      omega
    obtain ⟨hstr', henc, hat⟩ := atohstr_spec hbytes (by omega) (show _ < hstr.length by omega)
    rw [htake, hexChars_decodePairs s.chars hhead.even hhead.digits] at hat
    exact ⟨hstr', by rw [hret]; exact henc, hat⟩
  · rw [decodesHead_iff hlen] at hhead
    refine ⟨arr', ret, hrun, ⟨fun h => absurd h (by omega), fun h => absurd h hhead⟩, ?_⟩
    intro h
    exact absurd h hhead

/-- The codec fails on a longer string that is hexadecimal or of which decoding sees a
    hexadecimal string. -/
theorem hexCodecOn_iff_of_le {s : CString} (hlen : 2 ^ 31 ≤ s.chars.length) :
    HexCodecOn s ↔ ¬HexString s.chars ∧ ¬DecodesHead s := by
  constructor
  · intro h
    -- any array and any buffer of the right size show the failure
    have hsize : s.chars.length / 2 ≤ (List.replicate (s.chars.length / 2) (0 : UInt8)).length := by
      rw [List.length_replicate]
    obtain ⟨arr', ret, hrun, hsucc, henc⟩ := h _ hsize
    obtain ⟨arr'', ret', hrun', hcases⟩ := hstrtoa_spec s hsize
    obtain ⟨rfl, rfl⟩ := Prod.mk.inj (Option.some.inj (hrun.symm.trans hrun'))
    have hnot : ¬HexString s.chars := by
      intro hhex
      obtain ⟨⟨hlt, _⟩, hret, htake⟩ | ⟨_, hneg⟩ := hcases
      · -- fewer characters were decoded than the string has
        have hbytes : s.chars.length % 2 ^ 32 / 2 ≤ arr'.length := by
          have hcut := congrArg List.length htake
          rw [length_decodePairs, List.length_take, List.length_take] at hcut
          omega
        have hbuf : s.chars.length < (List.replicate (s.chars.length + 1) (0 : Int8)).length := by
          rw [List.length_replicate]
          omega
        obtain ⟨hstr', hrun₁, hat⟩ := henc hhex _ hbuf
        obtain ⟨hstr'', hrun₂, hat'⟩ :=
          atohstr_spec hbytes (by omega) (Nat.lt_of_le_of_lt (by omega) hbuf)
        rw [hret] at hrun₁
        obtain rfl := (Prod.mk.inj (Option.some.inj (hrun₁.symm.trans hrun₂))).1
        have hshort := congrArg List.length (hat.unique hat')
        rw [List.length_map, length_hexChars, List.length_take] at hshort
        omega
      · have hpos := hsucc.mpr hhex
        omega
    refine ⟨hnot, fun hhead => ?_⟩
    obtain ⟨_, hret, _⟩ | ⟨hno, _⟩ := hcases
    · exact hnot (hsucc.mp (by omega))
    · exact hno hhead
  · intro ⟨hnot, hhead⟩ arr harr
    obtain ⟨arr', ret, hrun, ⟨hhead', _, _⟩ | ⟨_, hret⟩⟩ := hstrtoa_spec s harr
    · exact absurd hhead' hhead
    · refine ⟨arr', ret, hrun, ⟨fun h => absurd h (by omega), fun h => absurd h hnot⟩, ?_⟩
      intro h
      exact absurd h hnot

/-- Every array whose digits fit into a string of `int` length survives the way to that
    string and back. -/
theorem hexArrayOn_of_lt {a : List UInt8} (hpos : 1 ≤ a.length) (hlen : 2 * a.length < 2 ^ 31) :
    HexArrayOn a := by
  intro hstr arr hbuf harr
  obtain ⟨hstr', henc, hat⟩ := atohstr_spec (Nat.le_refl a.length) hlen hbuf
  rw [List.take_length] at hat
  have hchars : (hexChars a).length = 2 * a.length := length_hexChars a
  have hmod : (hexChars a).length % 2 ^ 32 = 2 * a.length := by omega
  have hhex : HexString (hexChars a) := by
    constructor
    · intro h
      rw [h, List.length_nil] at hchars
      omega
    · omega
    · exact isHexDigit_of_mem_hexChars a
  have hdecodes : DecodesHead ⟨hexChars a, hat.nul_free⟩ :=
    (decodesHead_iff (show (hexChars a).length < 2 ^ 31 by omega)).mpr hhex
  obtain ⟨arr', ret, hrun, ⟨_, hret, htake⟩ | ⟨hno, _⟩⟩ :=
    hstrtoa_spec ⟨hexChars a, hat.nul_free⟩ (show (hexChars a).length / 2 ≤ arr.length by omega)
  · have hhalf : 2 * a.length / 2 = a.length := Nat.mul_div_cancel_left _ (by decide)
    simp only [hmod, hhalf] at hret htake
    rw [← hchars, List.take_length, decodePairs_hexChars] at htake
    rw [hret] at hrun
    exact ⟨hstr', ⟨hexChars a, hat.nul_free⟩, arr', henc, hat, hrun, htake⟩
  · exact absurd hdecodes hno

/-- Every array whose digits fit into a string of `int` length survives the way to that
    string and back, and the codec works on a string exactly if its length is an `int`, or
    if neither the string nor its first `length % 2 ^ 32` characters, where they are fewer
    than `2 ^ 31`, are a hexadecimal string. -/
theorem hexCodec_correct_iff (a : List UInt8) (s : CString) :
    (1 ≤ a.length → 2 * a.length < 2 ^ 31 → HexArrayOn a) ∧
      (HexCodecOn s ↔ s.chars.length < 2 ^ 31 ∨
        ¬HexString s.chars ∧ ¬(s.chars.length % 2 ^ 32 < 2 ^ 31 ∧
          HexString (s.chars.take (s.chars.length % 2 ^ 32)))) := by
  constructor
  · intro hpos hlen
    exact hexArrayOn_of_lt hpos hlen
  · by_cases hlen : s.chars.length < 2 ^ 31
    · exact ⟨fun _ => .inl hlen, fun _ => hexCodecOn_of_lt hlen⟩
    · rw [hexCodecOn_iff_of_le (Nat.le_of_not_lt hlen), or_iff_right hlen]
      rfl

/-- A string of `n` digits 0. -/
private def zeros (n : Nat) : CString :=
  ⟨List.replicate n 48, fun h => absurd (List.eq_of_mem_replicate h) (by decide)⟩

private theorem hexString_zeros {n : Nat} (hpos : 0 < n) (heven : n % 2 = 0) :
    HexString (zeros n).chars := by
  constructor
  · intro h
    have hlen : n = 0 := by simpa [zeros] using h
    omega
  · rw [zeros, List.length_replicate, heven]
  · intro c hc
    rw [List.eq_of_mem_replicate hc]
    decide

private theorem hstrtoa_zeros (arr : List UInt8) {n : Nat} (hn : n % 2 ^ 32 = 0) :
    hstrtoa arr (zeros n) = some (arr, -1) := by
  have hlen : (zeros n).chars.length = n := List.length_replicate
  have hcast : castInt (zeros n).chars.length = 0 := by
    rw [castInt_length, hlen, hn]
    rfl
  rw [hstrtoa, hcast]
  rfl

/-- A string of `2 ^ 32` digits is not decoded: its length is 0 as an `int`. -/
theorem hexCodec_rejects_long : ∃ s : CString, s.chars.length = 2 ^ 32 ∧ HexString s.chars ∧
    (∀ arr, hstrtoa arr s = some (arr, -1)) ∧ ¬HexCodecOn s := by
  have hhex : HexString (zeros (2 ^ 32)).chars := hexString_zeros (by decide) (by decide)
  have hrun := fun arr => hstrtoa_zeros arr (show 2 ^ 32 % 2 ^ 32 = 0 by decide)
  refine ⟨zeros (2 ^ 32), List.length_replicate, hhex, hrun, fun h => ?_⟩
  obtain ⟨arr', ret, hrun', hsucc, _⟩ :=
    h (List.replicate ((zeros (2 ^ 32)).chars.length / 2) 0) (by rw [List.length_replicate])
  obtain ⟨rfl, rfl⟩ := Prod.mk.inj (Option.some.inj ((hrun _).symm.trans hrun'))
  exact absurd (hsucc.mpr hhex) (by decide)

end CUtils
