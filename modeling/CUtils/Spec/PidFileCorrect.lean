import CUtils.Native.Pids

/-!
# The number of a process in a file

`write_pid` does not look at what `fputs` returns, so a full disk leaves the first digits of the
number in the file, and `read_pid` takes them for the number.

- `decimalValue_decimalChars`: the text of a number stands for it.
- `readPid_writePid`: what is read back, whatever fits on the disk.
-/

namespace CUtils

/-! ## Decimal text -/

/-- The characters of a natural number. -/
def decimalChars (n : Nat) : List Int8 := charsOf (Nat.toDigits 10 n)

/-- The last digit is the remainder. -/
theorem decimalChars_of_le {n : Nat} (h : 10 ≤ n) :
    decimalChars n = decimalChars (n / 10) ++ decimalChars (n % 10) := by
  have hmod : n % 10 < 10 := Nat.mod_lt n (by decide)
  rw [decimalChars, Nat.toDigits_of_base_le (by decide) h, charsOf, List.map_append]
  rw [decimalChars, decimalChars, charsOf, charsOf, Nat.toDigits_of_lt_base hmod]

/-- A single digit. -/
theorem decimalChars_of_lt {n : Nat} (h : n < 10) :
    ∃ c : Int8, decimalChars n = [c] ∧ isdigit c = true ∧ c.toInt = 48 + n := by
  have hall : ∀ n : Fin 10, ∃ c : Int8, decimalChars n = [c] ∧ isdigit c = true ∧
      c.toInt = 48 + n.val := by
    intro n
    exact ⟨_, by rw [decimalChars, Nat.toDigits_of_lt_base n.isLt]; rfl, by revert n; decide,
      by revert n; decide⟩
  exact hall ⟨n, h⟩

theorem isdigit_decimalChars (n : Nat) : ∀ c ∈ decimalChars n, isdigit c = true := by
  induction n using Nat.strong_induction_on with
  | h n ih =>
    by_cases hn : n < 10
    · obtain ⟨d, hd, hdigit, _⟩ := decimalChars_of_lt hn
      rw [hd]
      intro c hc
      rw [List.mem_singleton.mp hc]
      exact hdigit
    · rw [decimalChars_of_le (by omega)]
      intro c hc
      rcases List.mem_append.mp hc with hc | hc
      · exact ih (n / 10) (by omega) c hc
      · exact ih (n % 10) (by omega) c hc

/-- The value of digits. -/
theorem foldl_decimalChars (n : Nat) :
    (decimalChars n).foldl (fun n c => n * 10 + (c.toInt - 48)) 0 = (n : Int) := by
  induction n using Nat.strong_induction_on with
  | h n ih =>
    by_cases hn : n < 10
    · obtain ⟨d, hd, _, hval⟩ := decimalChars_of_lt hn
      rw [hd, List.foldl_cons, List.foldl_nil, hval]
      omega
    · obtain ⟨d, hd, _, hval⟩ := decimalChars_of_lt (Nat.mod_lt n (by decide : 0 < 10))
      rw [decimalChars_of_le (by omega), List.foldl_append, ih (n / 10) (by omega), hd,
        List.foldl_cons, List.foldl_nil, hval]
      omega

theorem decimalChars_ne_nil (n : Nat) : decimalChars n ≠ [] := by
  rw [decimalChars, charsOf, ne_eq, List.map_eq_nil_iff]
  exact Nat.toDigits_ne_nil

/-- The first digits of a number are the digits of a smaller one. -/
theorem take_decimalChars {k : Nat} (hk : 0 < k) (n : Nat) :
    (decimalChars n).take k = decimalChars (n / 10 ^ ((decimalChars n).length - k)) := by
  obtain ⟨d, hd⟩ : ∃ d, d = (decimalChars n).length - k := ⟨_, rfl⟩
  rw [← hd]
  induction d generalizing n with
  | zero => rw [Nat.pow_zero, Nat.div_one, List.take_of_length_le (by omega)]
  | succ d ih =>
    have hn : ¬ n < 10 := by
      intro hn
      obtain ⟨c, hc, _⟩ := decimalChars_of_lt hn
      rw [hc, List.length_singleton] at hd
      omega
    -- the last digit is not among the first ones
    obtain ⟨c, hc, _⟩ := decimalChars_of_lt (Nat.mod_lt n (by decide : 0 < 10))
    have hsplit := decimalChars_of_le (Nat.le_of_not_lt hn)
    rw [hsplit, hc, List.length_append, List.length_singleton] at hd
    rw [hsplit, List.take_append_of_le_length (by omega), ih (n / 10) (by omega),
      Nat.div_div_eq_div_mul, ← Nat.pow_succ']

section

variable {n : Nat} {rest : List Int8}

/-- The digits of a text that begins with a number. -/
theorem takeWhile_decimalChars (hrest : rest.takeWhile isdigit = []) :
    (decimalChars n ++ rest).takeWhile isdigit = decimalChars n := by
  rw [List.takeWhile_append_of_pos (isdigit_decimalChars n), hrest, List.append_nil]

theorem decimalValue_decimalChars (hrest : rest.takeWhile isdigit = []) :
    decimalValue (decimalChars n ++ rest) = n := by
  have hdigits : (decimalChars n ++ rest).takeWhile (fun c => decide (48 ≤ c ∧ c ≤ 57)) =
      decimalChars n := takeWhile_decimalChars hrest
  rw [decimalValue, hdigits, foldl_decimalChars]

/-- Neither white space nor a sign stands in front of the digits. -/
theorem decimalChars_unsigned (n : Nat) (rest : List Int8) :
    (decimalChars n ++ rest).dropWhile isspace = decimalChars n ++ rest ∧
      ¬ ((decimalChars n ++ rest).head? = some 45 ∨ (decimalChars n ++ rest).head? = some 43) ∧
      (decimalChars n ++ rest).head? ≠ some 45 := by
  obtain ⟨c, cs, hcs⟩ := List.exists_cons_of_ne_nil (decimalChars_ne_nil n)
  have hc : isdigit c = true := isdigit_decimalChars n c (hcs ▸ List.mem_cons_self)
  have hspace : isspace c = false := by
    simp only [isdigit, decide_eq_true_eq] at hc
    simp only [isspace, decide_eq_false_iff_not]
    have hlo := Int8.le_iff_toInt_le.mp hc.1
    intro hwhite
    rcases hwhite with rfl | ⟨_, hle⟩
    · exact absurd hlo (by decide)
    · exact absurd (Int.le_trans hlo (Int8.le_iff_toInt_le.mp hle)) (by decide)
  have hsign : ∀ d : Int8, isdigit d = false → c ≠ d := by
    rintro d hd rfl
    cases hd.symm.trans hc
  rw [hcs, List.cons_append, List.dropWhile_cons, hspace, List.head?_cons]
  have h45 : c ≠ 45 := hsign 45 rfl
  have h43 : c ≠ 43 := hsign 43 rfl
  simp [h45, h43]

/-- `fscanf` reads the number in front of the text. -/
theorem fscanfInt_decimalChars {bytes : List UInt8} (hrest : rest.takeWhile isdigit = [])
    (hn : n ≤ 2147483647) (hbytes : bytes.map UInt8.toInt8 = decimalChars n ++ rest) :
    fscanfInt bytes = some (some (n : Int)) := by
  have hmax : intMax = 2147483647 := rfl
  obtain ⟨hdrop, hsign, hminus⟩ := decimalChars_unsigned n rest
  rw [fscanfInt, hbytes, hdrop, if_neg hsign, takeWhile_decimalChars hrest,
    if_neg (decimalChars_ne_nil n), if_neg hminus, decimalValue_decimalChars hrest,
    cInt_eq_some (by omega) (by omega)]
  rfl

/-- The name of the directory of a process is its number. -/
theorem strtoul_decimalChars (hn : n < 2 ^ 64) : strtoul (decimalChars n) = (n, []) := by
  have hnil : (decimalChars n).dropWhile isdigit = [] :=
    List.dropWhile_eq_nil_iff.mpr (isdigit_decimalChars n)
  have hrest : ([] : List Int8).takeWhile isdigit = [] := rfl
  have hval := decimalValue_decimalChars (n := n) hrest
  have htake := takeWhile_decimalChars (n := n) hrest
  obtain ⟨hdrop, hsign, hminus⟩ := decimalChars_unsigned n []
  rw [List.append_nil] at hval htake hdrop hsign hminus
  simp only [strtoul, hdrop]
  rw [if_neg hsign]
  simp only [htake, decimalChars_ne_nil n, ↓reduceIte, hval, Int.toNat_natCast,
    Nat.not_le.mpr hn, hminus, hnil]

end

/-! ## The round trip -/

theorem map_decimalText (n : Nat) : (decimalText n).map UInt8.toInt8 = decimalChars n := by
  rw [decimalText, if_neg (by omega), List.nil_append, List.map_map]
  rfl

/-- The characters of the file: the digits that fit, and perhaps the end of the line. -/
theorem map_take_decimalText {k : Nat} (hk : 0 < k) (n : Nat) :
    ∃ rest : List Int8, rest.takeWhile isdigit = [] ∧
      ((decimalText n ++ [10]).take k).map UInt8.toInt8 =
        decimalChars (n / 10 ^ ((Nat.toDigits 10 n).length - k)) ++ rest := by
  have hlen : (decimalChars n).length = (Nat.toDigits 10 n).length := List.length_map ..
  refine ⟨[10].take (k - (decimalChars n).length), ?_, ?_⟩
  · cases k - (decimalChars n).length with
    | zero => rfl
    | succ m => rw [List.take_succ_cons]; rfl
  · rw [List.map_take, List.map_append, map_decimalText, List.take_append,
      take_decimalChars hk n, hlen]
    rfl

/-- What `write_pid` leaves. -/
theorem writePid_eq (pid : Int) {disk : Disk} {path : List Int8}
    (hopens : disk.opens path = true) :
    writePid pid disk (some path) = some (0, (disk.setFile path []).setFile path
      ((decimalText pid ++ [10]).take disk.capacity)) := by
  have hread : readAt (decimalText pid ++ [10]) 0 (1 * (decimalText pid ++ [10]).length) =
      some (decimalText pid ++ [10]) := by
    rw [readAt_of_le (by rw [Nat.zero_add, Nat.one_mul]), Nat.one_mul, List.drop_zero,
      List.take_length]
  have hsize : ¬ (1 = 0 ∨ (decimalText pid ++ [10]).length = 0) := by simp
  simp only [writePid, Disk.openWrite, hopens, ↓reduceIte, Disk.fwrite, hsize, hread,
    Option.bind_eq_bind, Option.bind_some, Option.pure_def, Disk.capacity_setFile]

/-- `write_pid` returns 0 whatever fits on the disk, and `read_pid` then finds the digits that
    did: the number is read back exactly if they all fit. -/
theorem readPid_writePid (pid : Nat) (hpid : pid ≤ 2147483647) (disk : Disk) (path : List Int8)
    (hopens : disk.opens path = true) (pidVal old : Int) :
    ∃ disk' ret value, writePid pid disk (some path) = some (0, disk') ∧
      readPid pidVal disk' (some path) old = some (ret, value) ∧
      (disk.capacity = 0 → ret = -1 ∧ value = pidVal) ∧
      (0 < disk.capacity → ret = 0 ∧
        value = (pid / 10 ^ ((Nat.toDigits 10 pid).length - disk.capacity) : Nat)) ∧
      (0 < pid → (ret = 0 ∧ value = pid ↔ (Nat.toDigits 10 pid).length ≤ disk.capacity)) := by
  have hdigits : 0 < (Nat.toDigits 10 pid).length := List.length_pos_iff.mpr Nat.toDigits_ne_nil
  obtain ⟨content, hcontent⟩ :
      ∃ content, content = (decimalText pid ++ [10]).take disk.capacity := ⟨_, rfl⟩
  have hwrite := writePid_eq pid hopens
  rw [← hcontent] at hwrite
  have hopen : ((disk.setFile path []).setFile path content).openRead path =
      some (Stream.ofContent content (disk.readFails path)) := by
    simp only [Disk.openRead, Disk.opens_setFile, hopens, ↓reduceIte, Disk.files_setFile,
      Disk.readFails_setFile, Option.map_some]
  rcases Nat.eq_zero_or_pos disk.capacity with hzero | hpos
  · refine ⟨_, -1, pidVal, hwrite, ?_, fun _ => ⟨rfl, rfl⟩, fun hpos => ?_, fun _ => ?_⟩
    · rw [hzero, List.take_zero] at hcontent
      subst hcontent
      simp only [readPid, hopen]
      rfl
    · omega
    · constructor
      · intro h
        exact absurd h.1 (by decide)
      · omega
  · obtain ⟨rest, hrest, hchars⟩ := map_take_decimalText hpos pid
    rw [← hcontent] at hchars
    have hle : pid / 10 ^ ((Nat.toDigits 10 pid).length - disk.capacity) ≤ pid :=
      Nat.div_le_self ..
    have hscan := fscanfInt_decimalChars hrest (by omega) hchars
    refine ⟨_, 0, _, hwrite, ?_, fun hzero => absurd hzero (by omega), fun _ => ⟨rfl, rfl⟩,
      fun hpid0 => ?_⟩
    · simp only [readPid, hopen, Stream.rest_ofContent, hscan, Option.bind_eq_bind,
        Option.bind_some, Option.pure_def]
    · rw [Int.natCast_inj]
      constructor
      · rintro ⟨_, heq⟩
        by_contra hlt
        -- a digit that does not fit makes the number smaller
        have hpow : 1 < 10 ^ ((Nat.toDigits 10 pid).length - disk.capacity) :=
          Nat.one_lt_pow (by omega) (by decide)
        exact absurd heq (Nat.div_lt_self hpid0 hpow).ne
      · intro hfit
        rw [Nat.sub_eq_zero_of_le hfit, Nat.pow_zero, Nat.div_one]
        exact ⟨rfl, rfl⟩

/-- Of the number 1234, two digits fit. -/
theorem readPid_writePid_full : ∃ disk' ret value,
    writePid 1234 { Disk.blank with capacity := 2, capacity_lt := by decide } (some [112]) =
      some (0, disk') ∧
    readPid 7 disk' (some [112]) 9 = some (ret, value) ∧ ret = 0 ∧ value = 12 := by
  obtain ⟨disk', ret, value, hwrite, hread, _, hpos, _⟩ := readPid_writePid 1234 (by decide)
    { Disk.blank with capacity := 2, capacity_lt := by decide } [112] rfl 7 9
  exact ⟨disk', ret, value, hwrite, hread, (hpos (by decide)).1, (hpos (by decide)).2⟩

end CUtils
