import CUtils.Spec.StrBuffer

/-!
# The tokenizers agree

`str_sep`, `split_string` and `str_sep_count` find the same tokens: the maximal runs of
characters that are not separators.

- `strSep_spec`, `strtokR_spec`: one call of a scanner.
- `strSep_never_null`: `str_sep` does not tell the end of a string by NULL.
- `splitGrow_spec`: the array of `split_string` has room for the next token.
- `tokenizers_agree`: all three on any string.
-/

namespace CUtils

open List (runs)

/-! ## One call of a scanner -/

section Scan

variable {buf cs : List Int8} {p : Nat}

/-- The end of a scanner: find the end of the token at the pointer, terminate it and move
    behind it. -/
theorem StrAt.takeToken (h : StrAt buf p cs) (cond : Int8 → Bool) :
    ∃ buf' q, (do
      let m ← strSpan cond (buf.drop p)
      let stop := p + m
      let c ← buf[stop]?
      if c ≠ 0 then
        return (buf.set stop 0, some (stop + 1), some p)
      else
        return (buf, some stop, some p)) = some (buf', some q, some p) ∧
      StrAt buf' p (cs.takeWhile cond) ∧ StrAt buf' q (cs.dropWhile cond).tail := by
  have hend := h.dropWhile cond
  simp only [h.strSpan_eq, hend.getElem?_eq, Option.bind_eq_bind, Option.bind_some, ne_eq,
    hend.headD_eq_zero_iff]
  cases hrest : cs.dropWhile cond with
  | nil =>
    -- the token ends with the string
    have hall : cs.takeWhile cond = cs := by
      have hsplit := List.takeWhile_append_dropWhile (p := cond) (l := cs)
      rwa [hrest, List.append_nil] at hsplit
    rw [hrest] at hend
    exact ⟨buf, _, by simp, by rwa [hall], hend⟩
  | cons c rest =>
    -- a separator is replaced by a NUL
    obtain ⟨hword, hrest'⟩ := h.cut cond hrest
    exact ⟨_, _, by simp, hword, hrest'⟩

/-- `str_sep` returns the first token and moves behind it; where there is none, it returns
    the empty string at the end. -/
theorem strSep_spec (h : StrAt buf p cs) (hne : cs ≠ []) (sep : CString) :
    ∃ buf' q start, strSep buf (some p) sep = some (buf', some q, some start) ∧
      StrAt buf' start ((cs.dropWhile (isSep sep)).takeWhile fun c => !isSep sep c) ∧
      StrAt buf' q ((cs.dropWhile (isSep sep)).dropWhile fun c => !isSep sep c).tail := by
  have hc : cs.headD 0 ≠ 0 := fun h0 => hne (h.headD_eq_zero_iff.mp h0)
  obtain ⟨buf', q, hrun, htok, hrest⟩ :=
    (h.dropWhile (isSep sep)).takeToken fun c => !isSep sep c
  refine ⟨buf', q, _, ?_, htok, hrest⟩
  simp only [strSep, h.getElem?_eq, h.strSpan_eq, Option.bind_eq_bind, Option.bind_some, if_neg hc]
  exact hrun

/-- What `strtok_r` has found when the tokens `ts` are left: the first of them, and the rest
    behind it. -/
def TokenAt (sep : CString) (buf : List Int8) (tok rest : Option Nat) :
    List (List Int8) → Prop
  | [] => tok = none
  | t :: ts => ∃ p q cs, tok = some p ∧ rest = some q ∧ StrAt buf p t ∧ StrAt buf q cs ∧
      ts = runs (isSep sep) cs

/-- `strtok_r` finds the first token. -/
theorem strtokR_spec (h : StrAt buf p cs) (sep : CString) {str save : Option Nat}
    (hp : (str <|> save) = some p) :
    ∃ buf' tok rest, strtokR buf str sep save = some (buf', rest, tok) ∧
      TokenAt sep buf' tok rest (runs (isSep sep) cs) := by
  have hstart := h.dropWhile (isSep sep)
  have hhead := hstart.headD_eq_zero_iff
  by_cases hnil : cs.dropWhile (isSep sep) = []
  · rw [List.runs_of_dropWhile_eq_nil _ hnil]
    refine ⟨buf, none, some (p + (cs.takeWhile (isSep sep)).length), ?_, rfl⟩
    simp only [strtokR, hp, h.strSpan_eq, hstart.getElem?_eq, Option.bind_eq_bind,
      Option.bind_some, if_pos (hhead.mpr hnil)]
    rfl
  · obtain ⟨buf', q, hrun, htok, hrest⟩ := hstart.takeToken fun c => !isSep sep c
    rw [List.runs_eq_cons _ hnil]
    refine ⟨buf', _, some q, ?_, _, q, _, rfl, rfl, htok, hrest, rfl⟩
    simp only [strtokR, hp, h.strSpan_eq, hstart.getElem?_eq, Option.bind_eq_bind,
      Option.bind_some, if_neg fun h0 => hnil (hhead.mp h0)]
    exact hrun

end Scan

/-! ## str_sep and str_sep_count -/

/-- The non-empty strings that `str_sep` returns until the rest is empty are the runs. -/
theorem strSepAll_spec (sep : CString) {buf cs : List Int8} {p fuel : Nat}
    (h : StrAt buf p cs) (hfuel : cs.length < fuel) :
    ∃ ts, strSepAll sep fuel buf (some p) = some ts ∧
      ts.filter (fun t => !t.isEmpty) = runs (isSep sep) cs := by
  induction fuel generalizing buf p cs with
  | zero => omega
  | succ fuel ih =>
    by_cases hne : cs = []
    · refine ⟨[], ?_, by rw [hne, List.runs_nil, List.filter_nil]⟩
      have hc : cs.headD 0 = 0 := h.headD_eq_zero_iff.mpr hne
      simp only [strSepAll, h.getElem?_eq, Option.bind_eq_bind, Option.bind_some, if_pos hc]
      rfl
    · have hc : cs.headD 0 ≠ 0 := fun h0 => hne (h.headD_eq_zero_iff.mp h0)
      obtain ⟨buf', q, start, hrun, htok, hrest⟩ := strSep_spec h hne sep
      have hlt := List.length_rest_lt (isSep sep) hne
      obtain ⟨ts, hts, hfilter⟩ := ih hrest (by omega)
      refine ⟨((cs.dropWhile (isSep sep)).takeWhile fun c => !isSep sep c) :: ts, ?_, ?_⟩
      · simp only [strSepAll, h.getElem?_eq, Option.bind_eq_bind, Option.bind_some, if_neg hc,
          hrun, htok.cstrAt_eq, hts]
        rfl
      · by_cases hnil : cs.dropWhile (isSep sep) = []
        · -- only separators were left: the string returned is empty
          rw [hnil] at hfilter ⊢
          rw [List.runs_of_dropWhile_eq_nil _ hnil]
          simpa using hfilter
        · have heq := List.runs_eq_cons (isSep sep) hnil
          have hmem := heq ▸ List.mem_cons_self
          rw [List.filter_cons_of_pos (by simpa using List.ne_nil_of_mem_runs _ hmem), hfilter, heq]

/-- A call on a string returns a string and leaves one; at the end of the string both are
    the empty string there. -/
theorem strSep_returns (sep : CString) {buf cs : List Int8} {p : Nat} (h : StrAt buf p cs) :
    ∃ buf' q tok cs' t, strSep buf (some p) sep = some (buf', some q, some tok) ∧
      StrAt buf' q cs' ∧ StrAt buf' tok t := by
  by_cases hne : cs = []
  · have hc : cs.headD 0 = 0 := h.headD_eq_zero_iff.mpr hne
    refine ⟨buf, p, p, cs, cs, ?_, h, h⟩
    simp only [strSep, h.getElem?_eq, Option.bind_eq_bind, Option.bind_some, if_pos hc]
    rfl
  · obtain ⟨buf', q, tok, hrun, htok, hrest⟩ := strSep_spec h hne sep
    exact ⟨buf', q, tok, _, _, hrun, hrest, htok⟩

/-- So no call returns NULL, -/
theorem strSepCall_ne_null (sep : CString) (n : Nat) {buf cs : List Int8} {p : Nat}
    (h : StrAt buf p cs) :
    ∃ buf' str tok, strSepCall sep n buf (some p) = some (buf', str, some tok) := by
  induction n generalizing buf cs p with
  | zero =>
    obtain ⟨buf', q, tok, _, _, hrun, _⟩ := strSep_returns sep h
    exact ⟨buf', some q, tok, hrun⟩
  | succ n ih =>
    obtain ⟨buf₁, q, tok, cs', t, hrun, hrest, _⟩ := strSep_returns sep h
    obtain ⟨buf', str, tok', hcall⟩ := ih hrest
    refine ⟨buf', str, tok', ?_⟩
    rw [strSepCall, hrun]
    exact hcall

/-- and a loop that waits for NULL does not end. -/
theorem strSepWhile_eq_none (sep : CString) (fuel : Nat) {buf cs : List Int8} {p : Nat}
    (h : StrAt buf p cs) : strSepWhile sep fuel buf (some p) = none := by
  induction fuel generalizing buf cs p with
  | zero => rfl
  | succ fuel ih =>
    obtain ⟨buf', q, tok, cs', t, hrun, hrest, htok⟩ := strSep_returns sep h
    simp only [strSepWhile, hrun, Option.bind_eq_bind, Option.bind_some, htok.cstrAt_eq, ih hrest,
      Option.bind_none]

/-- The loop `while ((tok = str_sep(&p, sep)) != NULL)` ends on no string and for no
    separators: every call returns a pointer. -/
theorem strSep_never_null (s sep : CString) (tail : List Int8) :
    (∀ n, ∃ buf str tok, strSepCall sep n (s.chars ++ 0 :: tail) (some 0) =
      some (buf, str, some tok)) ∧
    ¬∃ fuel ts, strSepWhile sep fuel (s.chars ++ 0 :: tail) (some 0) = some ts := by
  have hat : StrAt (s.chars ++ 0 :: tail) 0 s.chars := ⟨s.nul_free, tail, rfl⟩
  refine ⟨fun n => strSepCall_ne_null sep n hat, ?_⟩
  rintro ⟨fuel, ts, hrun⟩
  rw [strSepWhile_eq_none sep fuel hat] at hrun
  cases hrun

/-- With the separator `","` every call on the string `"1"` returns a pointer. -/
theorem strSep_never_null_one :
    ¬∃ fuel ts, strSepWhile ⟨[44], by decide⟩ fuel [49, 0] (some 0) = some ts := by
  have hat : StrAt [49, 0] 0 [49] := ⟨by decide, [], rfl⟩
  rintro ⟨fuel, ts, hrun⟩
  rw [strSepWhile_eq_none _ fuel hat] at hrun
  cases hrun

/-- `str_sep_count` counts the runs. -/
theorem strSepCountLoop_eq (sep : CString) (p : List Int8) (count : Nat) :
    strSepCountLoop sep p count = count + (runs (isSep sep) p).length := by
  induction p, count using strSepCountLoop.induct sep with
  | case1 p count hnil =>
    rw [strSepCountLoop, List.runs_of_dropWhile_eq_nil _ hnil]
    split
    · rfl
    · rename_i hcons
      exact absurd (hnil.symm.trans hcons) (List.cons_ne_nil _ _).symm
  | case2 p count c cs hcons ih =>
    have hne : p.dropWhile (isSep sep) ≠ [] := by
      rw [hcons]
      exact List.cons_ne_nil c cs
    rw [List.runs_eq_cons _ hne, hcons, List.runs_tail_dropWhile_not, List.length_cons,
      strSepCountLoop]
    split
    · rename_i hnil
      exact absurd hnil hne
    · rename_i c' cs' hcons'
      obtain ⟨rfl, rfl⟩ := List.cons.inj (hcons.symm.trans hcons')
      rw [ih]
      omega

theorem strSepCount_eq (s sep : CString) :
    strSepCount (some s) (some sep) = (runs (isSep sep) s.chars).length := by
  simp only [strSepCount]
  split
  · rename_i hnil
    rw [hnil, List.runs_nil, List.length_nil]
  · rw [strSepCountLoop_eq, Nat.zero_add]

/-! ## The array of split_string -/

theorem length_reallocToks (junk : Nat → TokenCell) (toks : Option (List TokenCell)) (n : Nat) :
    (reallocToks junk toks n).length = n / 8 := by
  simp only [reallocToks, List.length_append, List.length_take, List.length_drop, List.length_map,
    List.length_range]
  omega

/-- The entries that fit survive. -/
theorem take_reallocToks (junk : Nat → TokenCell) {toks : Option (List TokenCell)} {n k : Nat}
    (hn : k ≤ n / 8) (hk : k ≤ (toks.getD []).length) :
    (reallocToks junk toks n).take k = (toks.getD []).take k := by
  have hlen : k ≤ ((toks.getD []).take (n / 8)).length := by
    rw [List.length_take]
    omega
  rw [reallocToks, List.take_append_of_le_length hlen, List.take_take, Nat.min_eq_left hn]

/-- The locals of `split_string` when it has stored the tokens `done`: the array has grown
    `k` times, the last time by `16 * 4 ^ (k - 1)` entries.  With the 14th time `chunk` no
    longer fits. -/
structure SplitInv (st : SplitState) (done : List (List Int8)) : Prop where
  grown : ∃ k, k ≤ 14 ∧ 3 * st.size + 16 = 16 * 4 ^ k ∧
    (k ≤ 13 → st.chunk = (16 * 4 ^ k : Nat))
  length_eq : st.length = done.length
  length_le : st.length ≤ st.size
  length_toks : (st.toks.getD []).length = st.size
  take_toks : (st.toks.getD []).take st.length = done.map some

section Split

variable {st : SplitState} {done : List (List Int8)}

theorem splitInv_init : SplitInv { toks := none, length := 0, size := 0, chunk := 16 } [] where
  grown := ⟨0, by omega, rfl, fun _ => rfl⟩
  length_eq := rfl
  length_le := Nat.le_refl 0
  length_toks := rfl
  take_toks := rfl

/-- There is room for the next token. -/
theorem splitGrow_spec (junk : Nat → TokenCell) (h : SplitInv st done)
    (hdone : done.length < 2 ^ 30) :
    SplitInv (splitGrow junk st) done ∧ (splitGrow junk st).length < (splitGrow junk st).size := by
  obtain ⟨k, hk, hsize, hchunk⟩ := h.grown
  have hlen := h.length_eq
  have hle := h.length_le
  unfold splitGrow
  split
  · rename_i hfull
    -- an array that has grown 14 times is not full
    have hk13 : k ≤ 13 := by
      have hne : k ≠ 14 := by
        intro h14
        rw [h14] at hsize
        omega
      omega
    have hpow : 4 ^ (k + 1) = 4 * 4 ^ k := Nat.pow_succ'
    have hpos : 1 ≤ 4 ^ k := Nat.one_le_pow _ _ (by omega)
    have hbound : 4 ^ k ≤ 4 ^ 13 := Nat.pow_le_pow_right (by omega) hk13
    -- neither the new size nor its bytes wrap
    have hsize' : castSize (st.size + st.chunk) = st.size + 16 * 4 ^ k := by
      apply castSize_eq
      · rw [hchunk hk13]
        exact (Int.natCast_add ..).symm
      · omega
    have hbytes : castSize (8 * (st.size + 16 * 4 ^ k : Nat)) = 8 * (st.size + 16 * 4 ^ k) := by
      apply castSize_eq
      · exact (Int.natCast_mul ..).symm
      · omega
    have hroom : 8 * (st.size + 16 * 4 ^ k) / 8 = st.size + 16 * 4 ^ k :=
      Nat.mul_div_cancel_left _ (by omega)
    have hgrown : 3 * (st.size + 16 * 4 ^ k) + 16 = 16 * 4 ^ (k + 1) := by omega
    have hchunk' : k + 1 ≤ 13 → castInt (st.chunk * 4) = (16 * 4 ^ (k + 1) : Nat) := by
      intro hk12
      -- the next chunk is at most `2 ^ 30`
      have hbound' : 4 ^ k ≤ 4 ^ 12 := Nat.pow_le_pow_right (by omega) (by omega)
      rw [hchunk hk13, castInt_of_lt (by omega) (by omega), hpow]
      omega
    have htoks : (reallocToks junk st.toks (8 * (st.size + 16 * 4 ^ k))).take st.length =
        done.map some := by
      rw [take_reallocToks junk (by omega) (by rw [h.length_toks]; exact hle), h.take_toks]
    simp only [hsize', hbytes]
    constructor
    · exact {
        grown := ⟨k + 1, by omega, hgrown, hchunk'⟩
        length_eq := hlen
        length_le := by
          show st.length ≤ st.size + 16 * 4 ^ k
          omega
        length_toks := by rw [Option.getD_some, length_reallocToks, hroom]
        take_toks := htoks }
    · show st.length < st.size + 16 * 4 ^ k
      omega
  · exact ⟨h, by omega⟩

/-- Storing the next token. -/
theorem splitStore_spec (h : SplitInv st done) (hlt : st.length < st.size) (t : List Int8) :
    ∃ toks, splitStore st (some t) = some toks ∧
      SplitInv { st with toks := some toks, length := st.length + 1 } (done ++ [t]) := by
  have hlen := h.length_toks
  cases htoks : st.toks with
  | none =>
    rw [htoks, Option.getD_none, List.length_nil] at hlen
    omega
  | some toks =>
    rw [htoks, Option.getD_some] at hlen
    have hin : st.length + [some t].length ≤ toks.length := by
      rw [List.length_singleton]
      omega
    have htake := h.take_toks
    rw [htoks, Option.getD_some] at htake
    have hstore : splitStore st (some t) = some (splice toks st.length [some t]) := by
      rw [splitStore, htoks, Option.bind_some, writeAt_of_le hin]
    refine ⟨_, hstore, h.grown, ?_, hlt, ?_, ?_⟩
    · rw [List.length_append, List.length_singleton, h.length_eq]
    · rw [Option.getD_some, length_splice hin, hlen]
    · have hsplice := take_splice hin
      rw [List.length_singleton] at hsplice
      rw [Option.getD_some, hsplice, htake, List.map_append, List.map_singleton]

/-- The loop stores the tokens that are left. -/
theorem splitLoop_spec (junk : Nat → TokenCell) (sep : CString) {ts : List (List Int8)}
    {fuel : Nat} {buf : List Int8} {tok rest : Option Nat} (htok : TokenAt sep buf tok rest ts)
    (h : SplitInv st done) (hfuel : ts.length < fuel) (hlen : (done ++ ts).length < 2 ^ 30) :
    ∃ buf' st', splitLoop junk sep fuel buf tok rest st = some (buf', st') ∧
      SplitInv st' (done ++ ts) := by
  induction ts generalizing fuel buf tok rest st done with
  | nil =>
    obtain ⟨fuel, rfl⟩ := Nat.exists_eq_succ_of_ne_zero (Nat.ne_of_gt hfuel)
    obtain rfl : tok = none := htok
    rw [List.append_nil]
    exact ⟨buf, st, rfl, h⟩
  | cons t ts ih =>
    obtain ⟨fuel, rfl⟩ := Nat.exists_eq_succ_of_ne_zero (Nat.ne_of_gt (Nat.zero_lt_of_lt hfuel))
    obtain ⟨p, q, cs, rfl, rfl, hword, hrest, rfl⟩ := htok
    -- make room, store the token, look for the next one
    have hdone : done.length < 2 ^ 30 := by
      rw [List.length_append] at hlen
      omega
    obtain ⟨hgrow, hlt⟩ := splitGrow_spec junk h hdone
    obtain ⟨toks, hstore, hinv⟩ := splitStore_spec hgrow hlt t
    obtain ⟨buf', tok', rest', hrun, htok'⟩ :
        ∃ buf' tok' rest', strtokR buf none sep (some q) = some (buf', rest', tok') ∧
          TokenAt sep buf' tok' rest' (runs (isSep sep) cs) := strtokR_spec hrest sep rfl
    have happ : done ++ t :: runs (isSep sep) cs = done ++ [t] ++ runs (isSep sep) cs := by
      rw [List.append_assoc, List.singleton_append]
    rw [happ] at hlen ⊢
    obtain ⟨buf'', st', hloop, hinv'⟩ :=
      ih htok' hinv (Nat.lt_of_succ_lt_succ hfuel) hlen
    refine ⟨buf'', st', ?_, hinv'⟩
    simp only [splitLoop, hword.cstrAt_eq, hstore, hrun, Option.bind_eq_bind, Option.bind_some]
    exact hloop

/-- Once a token was stored there is an array. -/
theorem SplitInv.isNone_toks (h : SplitInv st done) (hne : done ≠ []) :
    st.toks.isNone = false := by
  have hpos : 0 < done.length := List.length_pos_iff.mpr hne
  have hlen := h.length_toks
  have hle := h.length_le
  rw [h.length_eq] at hle
  cases htoks : st.toks with
  | none =>
    rw [htoks, Option.getD_none, List.length_nil] at hlen
    omega
  | some toks => rfl

/-- The array is cut to the tokens and a NULL behind them. -/
theorem splitFinish_spec (junk : Nat → TokenCell) (h : SplitInv st done)
    (hdone : done.length < 2 ^ 30) :
    splitStore { st with toks := some (reallocToks junk st.toks (castSize (8 * (st.length + 1)))) }
      none = some (done.map some ++ [none]) := by
  have hlen := h.length_eq
  have hbytes : castSize (8 * (st.length + 1)) = 8 * (st.length + 1) := by
    apply castSize_eq
    · exact (Int.natCast_mul ..).symm
    · omega
  have hroom : 8 * (st.length + 1) / 8 = st.length + 1 := Nat.mul_div_cancel_left _ (by omega)
  have hall : (reallocToks junk st.toks (8 * (st.length + 1))).length = st.length + 1 := by
    rw [length_reallocToks, hroom]
  have hkept : (reallocToks junk st.toks (8 * (st.length + 1))).take st.length =
      (st.toks.getD []).take st.length :=
    take_reallocToks junk (by omega) (by rw [h.length_toks]; exact h.length_le)
  have hin : st.length + [(none : TokenCell)].length ≤
      (reallocToks junk st.toks (8 * (st.length + 1))).length := by
    rw [hall, List.length_singleton]
  rw [hbytes, splitStore, Option.bind_some, writeAt_of_le hin, splice, hkept, h.take_toks,
    List.drop_of_length_le (by rw [hall, List.length_singleton]), List.append_nil]

end Split

/-- `split_string` returns the tokens and a NULL behind them, or -1. -/
theorem splitString_spec (junk : Nat → TokenCell) (sep : CString) {buf cs : List Int8}
    {fuel : Nat} (h : StrAt buf 0 cs) (hfuel : cs.length < fuel)
    (hlen : (runs (isSep sep) cs).length < 2 ^ 30) :
    ∃ buf', splitString junk fuel buf sep = some (buf',
      if runs (isSep sep) cs = [] then (-1, none)
      else (0, some ((runs (isSep sep) cs).map some ++ [none]))) := by
  have hruns := List.length_runs_le (isSep sep) cs
  have hfuel' : (runs (isSep sep) cs).length < fuel := Nat.lt_of_le_of_lt hruns hfuel
  obtain ⟨buf', tok, rest, hrun, htok⟩ :
      ∃ buf' tok rest, strtokR buf (some 0) sep none = some (buf', rest, tok) ∧
        TokenAt sep buf' tok rest (runs (isSep sep) cs) := strtokR_spec h sep rfl
  by_cases hnil : runs (isSep sep) cs = []
  · -- the loop does not run, so there is no array
    rw [hnil] at htok
    obtain rfl : tok = none := htok
    obtain ⟨fuel, rfl⟩ := Nat.exists_eq_succ_of_ne_zero (Nat.ne_of_gt (Nat.zero_lt_of_lt hfuel))
    rw [if_pos hnil]
    exact ⟨buf', by simp [splitString, hrun, splitLoop]⟩
  · -- the array is cut to what was stored
    obtain ⟨buf'', st, hloop, hinv⟩ := splitLoop_spec junk sep htok splitInv_init hfuel'
      (by rwa [List.nil_append])
    rw [List.nil_append] at hinv
    have hsome := hinv.isNone_toks hnil
    have hfinish := splitFinish_spec junk hinv hlen
    refine ⟨buf'', ?_⟩
    rw [if_neg hnil]
    simp only [splitString, hrun, hloop, Option.bind_eq_bind, Option.bind_some, hsome,
      Bool.false_eq_true, ↓reduceIte, hfinish]
    rfl

/-! ## Agreement -/

/-- `strchr` finds the characters of a set. -/
theorem isSep_eq (sep : CString) {c : Int8} (hc : c ≠ 0) :
    isSep sep c = decide (c ∈ sep.chars) := by
  rw [isSep, strchr, if_neg hc, Bool.eq_iff_iff, List.isSome_idxOf?, decide_eq_true_iff]

/-- On every string, and for every set of separators, the non-empty strings returned by
    `str_sep` are the maximal runs of other characters, `split_string` returns the same
    strings and a NULL behind them, without a store outside of its array, or -1 where there
    are none, and `str_sep_count` returns their number. -/
theorem tokenizers_agree (s sep : CString) (tail : List Int8) (junk : Nat → TokenCell)
    (fuel : Nat) (hfuel : s.chars.length < fuel)
    (hlen : (runs (fun c => decide (c ∈ sep.chars)) s.chars).length < 2 ^ 30) :
    (∃ ts, strSepAll sep fuel (s.chars ++ 0 :: tail) (some 0) = some ts ∧
      ts.filter (fun t => !t.isEmpty) = runs (fun c => decide (c ∈ sep.chars)) s.chars) ∧
    (∃ buf', splitString junk fuel (s.chars ++ 0 :: tail) sep = some (buf',
      if runs (fun c => decide (c ∈ sep.chars)) s.chars = [] then (-1, none)
      else (0, some ((runs (fun c => decide (c ∈ sep.chars)) s.chars).map some ++ [none])))) ∧
    strSepCount (some s) (some sep) =
      (runs (fun c => decide (c ∈ sep.chars)) s.chars).length := by
  have hruns : runs (fun c => decide (c ∈ sep.chars)) s.chars = runs (isSep sep) s.chars := by
    apply List.runs_congr
    intro c hc
    exact (isSep_eq sep fun h0 => s.nul_free (h0 ▸ hc)).symm
  have hat : StrAt (s.chars ++ 0 :: tail) 0 s.chars := ⟨s.nul_free, tail, rfl⟩
  rw [hruns] at hlen ⊢
  exact ⟨strSepAll_spec sep hat hfuel, splitString_spec junk sep hat hfuel hlen,
    strSepCount_eq s sep⟩

private def tokensText : CString := ⟨[44, 44, 49, 32, 50, 51, 44], by decide⟩

private def tokensSep : CString := ⟨[44, 32], by decide⟩

/-- The tokens of `",,1 23,"` with the separators `", "` are `"1"` and `"23"`. -/
theorem tokenizers_agree_two :
    (∃ ts, strSepAll tokensSep 8 (tokensText.chars ++ 0 :: []) (some 0) = some ts ∧
      ts.filter (fun t => !t.isEmpty) = [[49], [50, 51]]) ∧
    (∃ buf', splitString (fun _ => none) 8 (tokensText.chars ++ 0 :: []) tokensSep =
      some (buf', 0, some [some [49], some [50, 51], none])) ∧
    strSepCount (some tokensText) (some tokensSep) = 2 :=
  tokenizers_agree tokensText tokensSep [] (fun _ => none) 8 (by decide) (by decide)

end CUtils
