import Mathlib.Data.List.Induction
import CUtils.Native.Hexdump

/-!
# What a dump shows

- `hexdump_rows`: a dump has a row for every sixteen bytes, all of one width.
- `hexdump_lossless`: so the dumped bytes can be read back from the text.
-/

namespace CUtils

/-! ## Rows -/

/-- The columns from the number `j` on; a gap is in front of the ninth. -/
def hexColumns : Nat → List UInt8 → List Char
  | _, [] => []
  | j, b :: bs => (if j = 8 then [' '] else []) ++ hexdumpByte b ++ hexColumns (j + 1) bs

/-- The columns that are missing in a short row, with the gap if it is missing too. -/
def hexBlanks (n : Nat) : List Char :=
  (if n ≤ 8 then [' '] else []) ++ (List.replicate (16 - n) "   ".toList).flatten

/-- The start of a row. -/
def hexdumpHead (k : Nat) : List Char :=
  "\n    ".toList ++ hexdumpOffset (16 * k) ++ "  ".toList

/-- The row of at most sixteen bytes. -/
def hexdumpRow (bs : List UInt8) : List Char :=
  hexColumns 0 bs ++ hexBlanks bs.length ++
    ([' ', '|'] ++ (bs.map printable ++ List.replicate (16 - bs.length) ' ') ++ ['|'])

/-- The first `n` rows. -/
def hexdumpRows (data : List UInt8) (n : Nat) : List Char :=
  (List.range n).flatMap fun k => hexdumpHead k ++ hexdumpRow ((data.drop (16 * k)).take 16)

theorem hexdumpRows_succ (data : List UInt8) (n : Nat) :
    hexdumpRows data (n + 1) =
      hexdumpRows data n ++ (hexdumpHead n ++ hexdumpRow ((data.drop (16 * n)).take 16)) := by
  simp [hexdumpRows, List.range_succ]

theorem hexColumns_concat (bs : List UInt8) (b : UInt8) (j : Nat) :
    hexColumns j (bs ++ [b]) =
      hexColumns j bs ++ ((if j + bs.length = 8 then [' '] else []) ++ hexdumpByte b) := by
  induction bs generalizing j with
  | nil => simp [hexColumns]
  | cons c bs ih =>
    rw [List.cons_append, hexColumns, ih, hexColumns, List.length_cons,
      show j + 1 + bs.length = j + (bs.length + 1) by omega]
    simp only [List.append_assoc]

theorem printable_ne_nul (b : UInt8) : printable b ≠ nulChar := by
  have hall : ∀ n : Fin 256, printable (UInt8.ofNat n.val) ≠ nulChar := by decide +kernel
  have hb := hall ⟨b.toNat, b.toNat_lt⟩
  rwa [UInt8.ofNat_toNat] at hb

/-- A full text is printed as it is. -/
theorem hexdumpText_full {text : List Char} (hlen : text.length = 16)
    (hnul : ∀ c ∈ text, c ≠ nulChar) : hexdumpText (text ++ [nulChar]) = [' ', '|'] ++ text ++ ['|'] := by
  have htake : (text ++ [nulChar]).takeWhile (· ≠ nulChar) = text := by
    rw [List.takeWhile_append_of_pos fun c hc => decide_eq_true (hnul c hc)]
    simp
  rw [hexdumpText, htake, List.leftpad, hlen]
  rfl

/-- The characters of full rows have no terminator among them. -/
theorem map_printable_ne_nul (bs : List UInt8) : ∀ c ∈ bs.map printable, c ≠ nulChar := by
  intro c hc
  obtain ⟨b, _, rfl⟩ := List.mem_map.mp hc
  exact printable_ne_nul b

/-! ## The loop -/

/-- The bytes of the row `k` that have been printed when `r` of them have. -/
def rowBytes (data : List UInt8) (k r : Nat) : List UInt8 := (data.drop (16 * k)).take r

theorem length_rowBytes {data : List UInt8} {k r : Nat} (h : 16 * k + r ≤ data.length) :
    (rowBytes data k r).length = r := by
  rw [rowBytes, List.length_take, List.length_drop]
  omega

theorem rowBytes_succ {data : List UInt8} {k r : Nat} {b : UInt8}
    (h : data[16 * k + r]? = some b) : rowBytes data k (r + 1) = rowBytes data k r ++ [b] := by
  rw [rowBytes, rowBytes, List.take_add_one, List.getElem?_drop, h]
  rfl

/-- `r` bytes of the row `k` have been printed: `str` begins with their characters and still
    ends with its NUL, and the row is not closed. -/
structure HexdumpAt (data : List UInt8) (base : List Char) (k r : Nat)
    (s : List Char × List Char) : Prop where
  str_eq : ∃ rest, s.1 = (rowBytes data k r).map printable ++ rest ++ [nulChar] ∧
    rest.length = 16 - r
  out_eq : s.2 = base ++ hexdumpRows data k ++ hexdumpHead k ++ hexColumns 0 (rowBytes data k r)

section

variable {data : List UInt8} {base : List Char} {k r : Nat} {s : List Char × List Char}

/-- The next byte of the same row. -/
theorem HexdumpAt.next (h : HexdumpAt data base k r s) (hpos : 0 < r) (hr : r < 16)
    (hlen : 16 * k + r < data.length) :
    ∃ s', hexdumpBody data (16 * k + r) s = some s' ∧ HexdumpAt data base k (r + 1) s' := by
  obtain ⟨str, out⟩ := s
  obtain ⟨⟨rest, hstr, hrest⟩, hout⟩ := h
  obtain ⟨b, hb⟩ : ∃ b, data[16 * k + r]? = some b := ⟨_, List.getElem?_eq_getElem hlen⟩
  have hmod : (16 * k + r) % 16 = r := by omega
  have hgap : (16 * k + r) % 8 = 0 ↔ r = 8 := by omega
  have hbytes := length_rowBytes (Nat.le_of_lt hlen)
  obtain ⟨c, rest, rfl⟩ : ∃ c rest', rest = c :: rest' :=
    List.exists_cons_of_length_pos (by omega)
  have hbody : hexdumpBody data (16 * k + r) (str, out) = some (str.set r (printable b),
      (if r = 8 then out ++ [' '] else out) ++ hexdumpByte b) := by
    simp [hexdumpBody, hmod, Nat.ne_of_gt hpos, hgap, hb]
  refine ⟨_, hbody, ?_, ?_⟩
  · -- the character goes behind those of the row
    refine ⟨rest, ?_, by rw [List.length_cons] at hrest; omega⟩
    show str.set r (printable b) = _
    have hcut : ((rowBytes data k r).map printable).length = r := by rw [List.length_map, hbytes]
    have hset : ((rowBytes data k r).map printable ++ (c :: rest ++ [nulChar])).set r
        (printable b) = (rowBytes data k r).map printable ++ (printable b :: rest ++ [nulChar]) := by
      rw [List.set_append_right _ _ (Nat.le_of_eq hcut), hcut, Nat.sub_self]
      rfl
    have hstr' : str = (rowBytes data k r).map printable ++ (c :: rest ++ [nulChar]) := by
      rw [← List.append_assoc]
      exact hstr
    rw [hstr', hset, rowBytes_succ hb]
    simp
  · rw [rowBytes_succ hb, hexColumns_concat, hbytes, Nat.zero_add]
    have hout' : out = base ++ hexdumpRows data k ++ hexdumpHead k ++
      hexColumns 0 (rowBytes data k r) := hout
    rw [hout']
    by_cases h8 : r = 8
    · simp [h8]
    · simp [h8]

/-- A full row is closed by its characters. -/
theorem hexdumpRows_full (hlen : 16 * (k + 1) ≤ data.length) (out : List Char) :
    out ++ hexdumpRows data k ++ hexdumpHead k ++ hexColumns 0 (rowBytes data k 16) ++
      hexdumpText ((rowBytes data k 16).map printable ++ [nulChar]) =
      out ++ hexdumpRows data (k + 1) := by
  have hbytes : (rowBytes data k 16).length = 16 := length_rowBytes (by omega)
  have hblank : hexBlanks 16 = [] := rfl
  rw [hexdumpRows_succ, hexdumpText_full (by rw [List.length_map, hbytes])
    (map_printable_ne_nul _), hexdumpRow, show (data.drop (16 * k)).take 16 = rowBytes data k 16
    from rfl, hbytes, hblank]
  simp

/-- The first byte of the next row, behind the end of a full row. -/
theorem HexdumpAt.newRow (h : HexdumpAt data base k 16 s) (hlen : 16 * (k + 1) < data.length) :
    ∃ s', hexdumpBody data (16 * (k + 1)) s = some s' ∧ HexdumpAt data base (k + 1) 1 s' := by
  obtain ⟨str, out⟩ := s
  obtain ⟨⟨rest, hstr, hrest⟩, hout⟩ := h
  obtain rfl : rest = [] := List.length_eq_zero_iff.mp hrest
  obtain ⟨b, hb⟩ : ∃ b, data[16 * (k + 1)]? = some b := ⟨_, List.getElem?_eq_getElem hlen⟩
  have hbody : hexdumpBody data (16 * (k + 1)) (str, out) = some (str.set 0 (printable b),
      out ++ hexdumpText str ++ hexdumpHead (k + 1) ++ hexdumpByte b) := by
    simp [hexdumpBody, hexdumpHead, hb]
  have hfirst : rowBytes data (k + 1) 1 = [b] := by
    have hrow := rowBytes_succ (show data[16 * (k + 1) + 0]? = some b from hb)
    simpa [rowBytes] using hrow
  have hstr' : str = (rowBytes data k 16).map printable ++ [nulChar] := by simpa using hstr
  have hout' : out = base ++ hexdumpRows data k ++ hexdumpHead k ++
    hexColumns 0 (rowBytes data k 16) := hout
  have hbytes : (rowBytes data k 16).length = 16 := length_rowBytes (by omega)
  refine ⟨_, hbody, ?_, ?_⟩
  · -- the other characters of the old row stay for now
    obtain ⟨c, cs, hcs⟩ : ∃ c cs, rowBytes data k 16 = c :: cs :=
      List.exists_cons_of_length_pos (by omega)
    refine ⟨cs.map printable, ?_, ?_⟩
    · show str.set 0 (printable b) = _
      rw [hstr', hcs, hfirst]
      rfl
    · rw [hcs, List.length_cons] at hbytes
      rw [List.length_map]
      omega
  · show out ++ hexdumpText str ++ hexdumpHead (k + 1) ++ hexdumpByte b = _
    rw [hout', hstr', hexdumpRows_full (Nat.le_of_lt hlen), hfirst]
    simp [hexColumns]

/-- Where the loop is after some rounds. -/
theorem hexdumpLoop_at (n : Nat) : ∀ {k r : Nat} {s : List Char × List Char},
    HexdumpAt data base k r s → 0 < r → r ≤ 16 → 16 * k + r + n = data.length →
    ∃ k' r' s', hexdumpLoop data n (16 * k + r) s = some s' ∧ HexdumpAt data base k' r' s' ∧
      0 < r' ∧ r' ≤ 16 ∧ 16 * k' + r' = data.length := by
  induction n with
  | zero =>
    intro k r s h hpos hr hlen
    exact ⟨k, r, s, rfl, h, hpos, hr, hlen⟩
  | succ n ih =>
    intro k r s h hpos hr hlen
    by_cases hfull : r = 16
    · subst hfull
      obtain ⟨s₁, hbody, h₁⟩ := h.newRow (by omega)
      obtain ⟨k', r', s', hloop, hat⟩ := ih h₁ (by omega) (by omega) (by omega)
      refine ⟨k', r', s', ?_, hat⟩
      rw [hexdumpLoop, show 16 * k + 16 = 16 * (k + 1) by omega, hbody]
      exact hloop
    · obtain ⟨s₁, hbody, h₁⟩ := h.next hpos (by omega) (by omega)
      obtain ⟨k', r', s', hloop, hat⟩ := ih h₁ (by omega) (by omega) (by omega)
      refine ⟨k', r', s', ?_, hat⟩
      rw [hexdumpLoop, hbody]
      exact hloop

/-- The columns that a short last row misses. -/
theorem hexdumpPad_eq (n : Nat) : ∀ (pre rest : List Char) (out : List Char), rest.length = n →
    hexdumpPad n pre.length (pre ++ rest ++ [nulChar], out) =
      (pre ++ List.replicate n ' ' ++ [nulChar],
        out ++ (List.replicate n "   ".toList).flatten) := by
  induction n with
  | zero =>
    intro pre rest out hrest
    obtain rfl : rest = [] := List.length_eq_zero_iff.mp hrest
    simp [hexdumpPad]
  | succ n ih =>
    intro pre rest out hrest
    obtain ⟨c, rest, rfl⟩ : ∃ c rest', rest = c :: rest' :=
      List.exists_cons_of_length_pos (by omega)
    have hset : (pre ++ c :: rest ++ [nulChar]).set pre.length ' ' =
        pre ++ [' '] ++ rest ++ [nulChar] := by simp
    have htail := ih (pre ++ [' ']) rest (out ++ "   ".toList) (by simpa using hrest)
    rw [List.length_append, List.length_singleton] at htail
    rw [hexdumpPad, hset, htail, List.replicate_succ, List.replicate_succ, List.flatten_cons]
    simp

/-- The end of the dump closes the last row, full or not. -/
theorem HexdumpAt.end_eq (h : HexdumpAt data base k r s) (hpos : 0 < r) (hr : r ≤ 16)
    (hlen : 16 * k + r = data.length) :
    hexdumpEnd data.length s = base ++ hexdumpRows data (k + 1) ++ ['\n'] := by
  obtain ⟨str, out⟩ := s
  obtain ⟨⟨rest, hstr, hrest⟩, hout⟩ := h
  have hstr' : str = (rowBytes data k r).map printable ++ rest ++ [nulChar] := hstr
  have hout' : out = base ++ hexdumpRows data k ++ hexdumpHead k ++
    hexColumns 0 (rowBytes data k r) := hout
  have hbytes : (rowBytes data k r).length = r := length_rowBytes (by omega)
  by_cases hfull : r = 16
  · subst hfull
    obtain rfl : rest = [] := List.length_eq_zero_iff.mp hrest
    have hmod : data.length % 16 = 0 := by omega
    rw [hexdumpEnd, hmod, hout', hstr', List.append_nil]
    show _ ++ hexdumpText _ ++ ['\n'] = _
    rw [hexdumpRows_full (by omega)]
  · have hmod : data.length % 16 = r := by omega
    have hlast : (data.drop (16 * k)).take 16 = rowBytes data k r := by
      rw [rowBytes, List.take_of_length_le (by rw [List.length_drop]; omega),
        List.take_of_length_le (by rw [List.length_drop]; omega)]
    have hpad := hexdumpPad_eq (16 - r) ((rowBytes data k r).map printable) rest
      (if r ≤ 8 then out ++ [' '] else out) hrest
    rw [List.length_map, hbytes] at hpad
    have htext := @hexdumpText_full
      ((rowBytes data k r).map printable ++ List.replicate (16 - r) ' ')
      (by rw [List.length_append, List.length_map, hbytes, List.length_replicate]; omega)
      (by
        intro c hc
        rcases List.mem_append.mp hc with hc | hc
        · exact map_printable_ne_nul _ c hc
        · rw [List.eq_of_mem_replicate hc]
          decide)
    simp only [hexdumpEnd, hmod, hstr']
    rw [if_pos (by omega), hpad]
    simp only [htext]
    rw [hexdumpRows_succ, hlast, hexdumpRow, hexBlanks, hbytes, hout']
    by_cases h8 : r ≤ 8
    · simp [h8]
    · simp [h8]

end

/-! ## The dump -/

/-- The loop reads no byte behind those that it dumps. -/
theorem hexdumpLoop_take (p : List UInt8) (m n : Nat) : ∀ {i : Nat} {s : List Char × List Char},
    i + n ≤ m → hexdumpLoop (p.take m) n i s = hexdumpLoop p n i s := by
  induction n with
  | zero => intro i s _; rfl
  | succ n ih =>
    intro i s him
    have hbyte : (p.take m)[i]? = p[i]? := List.getElem?_take_of_lt (by omega)
    have hbody : hexdumpBody (p.take m) i s = hexdumpBody p i s := by
      rw [hexdumpBody, hexdumpBody, hbyte]
    rw [hexdumpLoop, hexdumpLoop, hbody]
    congr 1
    funext s'
    exact ih (by omega)

/-- What stands in front of the rows. -/
def hexdumpTitle (len : Nat) (text : List Char) : List Char :=
  text ++ (" [".toList ++ Nat.toDigits 10 len ++ "] =>".toList)

/-- A dump has a row for every sixteen bytes; without a length it still shows the first byte. -/
theorem hexdump_rows (p : List UInt8) (len : Nat) (text : List Char)
    (hlen : max 1 len ≤ p.length) :
    hexdump p len text = some (hexdumpTitle len text ++
      hexdumpRows (p.take (max 1 len)) ((max 1 len + 15) / 16) ++ ['\n']) := by
  have hm : 1 + (len - 1) = max 1 len := by omega
  have hdata : (p.take (max 1 len)).length = max 1 len := by rw [List.length_take]; omega
  obtain ⟨b, hb⟩ : ∃ b, p[0]? = some b := ⟨_, List.getElem?_eq_getElem (by omega)⟩
  have hb' : (p.take (max 1 len))[16 * 0 + 0]? = some b := by
    rw [List.getElem?_take_of_lt (by omega)]
    exact hb
  have hfirst : rowBytes (p.take (max 1 len)) 0 1 = [b] := by
    have hrow := rowBytes_succ hb'
    simpa [rowBytes] using hrow
  have hat : HexdumpAt (p.take (max 1 len)) (hexdumpTitle len text) 0 1
      ((List.replicate 17 nulChar).set 0 (printable b),
        hexdumpTitle len text ++ "\n    0000  ".toList ++ hexdumpByte b) := by
    refine ⟨⟨List.replicate 15 nulChar, ?_, rfl⟩, ?_⟩
    · rw [hfirst]
      rfl
    · rw [hfirst]
      simp [hexdumpRows, hexColumns, hexdumpHead, hexdumpOffset, List.leftpad]
  obtain ⟨k, r, s, hloop, hend, hpos, hr, hkr⟩ :=
    hexdumpLoop_at (len - 1) hat (by omega) (by omega) (by rw [hdata]; omega)
  rw [hexdumpLoop_take _ _ _ (by omega)] at hloop
  have hrows : k + 1 = (max 1 len + 15) / 16 := by omega
  have htail := hend.end_eq hpos hr hkr
  rw [hdata, ← hm] at htail
  rw [← hrows, ← hm]
  show (p[0]?).bind _ = _
  rw [hb]
  show (hexdumpLoop p (len - 1) (16 * 0 + 1) _).bind _ = _
  rw [show (text ++ (" [".toList ++ Nat.toDigits 10 len ++ "] =>".toList) ++
    "\n    0000  ".toList ++ hexdumpByte b) = hexdumpTitle len text ++ "\n    0000  ".toList ++
    hexdumpByte b from rfl, hloop]
  rw [hm] at htail ⊢
  exact congrArg some htail

example : ((hexdump [65, 10, 66] 2 "data".toList).map String.ofList) = some
    "data [2] =>\n    0000  41 0a                                             |A.              |\n" :=
  rfl

/-! ## Reading a dump back -/

theorem hexdumpByte_inj {b c : UInt8} (h : hexdumpByte b = hexdumpByte c) : b = c := by
  have hdigit : ∀ m n : Fin 16, Nat.digitChar m.val = Nat.digitChar n.val → m = n := by decide
  have hb := b.toNat_lt
  have hc := c.toNat_lt
  simp only [hexdumpByte, List.cons.injEq, and_true] at h
  obtain ⟨hhigh, hlow⟩ := h
  have hhigh' := congrArg Fin.val
    (hdigit ⟨b.toNat / 16, by omega⟩ ⟨c.toNat / 16, by omega⟩ hhigh)
  have hlow' := congrArg Fin.val
    (hdigit ⟨b.toNat % 16, by omega⟩ ⟨c.toNat % 16, by omega⟩ hlow)
  simp only at hhigh' hlow'
  apply UInt8.toNat_inj.mp
  omega

theorem length_hexColumns (bs : List UInt8) (j : Nat) (h : j ≤ 8) :
    (hexColumns j bs).length = 3 * bs.length + if 8 < j + bs.length then 1 else 0 := by
  induction bs using List.reverseRecOn with
  | nil => simp [hexColumns]; omega
  | append_singleton bs b ih =>
    rw [hexColumns_concat, List.length_append, ih, List.length_append, List.length_append,
      List.length_singleton]
    show _ + (_ + 3) = _
    by_cases h8 : j + bs.length = 8
    · rw [if_pos h8, if_neg (by omega), if_pos (by omega), List.length_singleton]
      omega
    · rw [if_neg h8, List.length_nil]
      by_cases hlt : 8 < j + bs.length
      · rw [if_pos hlt, if_pos (by omega)]
        omega
      · rw [if_neg hlt, if_neg (by omega)]
        omega

theorem hexColumns_inj : ∀ {bs cs : List UInt8} {j : Nat}, bs.length = cs.length →
    hexColumns j bs = hexColumns j cs → bs = cs
  | [], [], _, _, _ => rfl
  | b :: bs, c :: cs, j, hlen, h => by
    rw [hexColumns, hexColumns, List.append_assoc, List.append_assoc] at h
    obtain ⟨hbyte, hrest⟩ := List.append_inj (List.append_cancel_left h) rfl
    rw [hexdumpByte_inj hbyte, hexColumns_inj (by simpa using hlen) hrest]

/-- Every row has one width. -/
theorem length_hexdumpRow {bs : List UInt8} (h : bs.length ≤ 16) :
    (hexdumpRow bs).length = 68 := by
  simp only [hexdumpRow, hexBlanks, List.length_append, length_hexColumns bs 0 (by omega),
    List.length_map, List.length_replicate, List.length_flatten, List.map_replicate,
    List.sum_replicate_nat]
  split <;> split <;> simp <;> omega

theorem hexdumpRow_inj {bs cs : List UInt8} (hlen : bs.length = cs.length)
    (h : hexdumpRow bs = hexdumpRow cs) : bs = cs := by
  rw [hexdumpRow, hexdumpRow, List.append_assoc (hexColumns 0 bs),
    List.append_assoc (hexColumns 0 cs)] at h
  have hcols : (hexColumns 0 bs).length = (hexColumns 0 cs).length := by
    rw [length_hexColumns bs 0 (by omega), length_hexColumns cs 0 (by omega), hlen]
  exact hexColumns_inj hlen (List.append_inj h hcols).1

/-- The rows determine the bytes in them. -/
theorem hexdumpRows_inj {p q : List UInt8} (hlen : p.length = q.length) (n : Nat) :
    hexdumpRows p n = hexdumpRows q n → p.take (16 * n) = q.take (16 * n) := by
  induction n with
  | zero => intro _; rfl
  | succ n ih =>
    intro h
    have hrow : ((p.drop (16 * n)).take 16).length = ((q.drop (16 * n)).take 16).length := by
      simp only [List.length_take, List.length_drop, hlen]
    have hwidth : (hexdumpHead n ++ hexdumpRow ((p.drop (16 * n)).take 16)).length =
        (hexdumpHead n ++ hexdumpRow ((q.drop (16 * n)).take 16)).length := by
      rw [List.length_append, List.length_append,
        length_hexdumpRow (List.length_take_le _ _), length_hexdumpRow (List.length_take_le _ _)]
    rw [hexdumpRows_succ, hexdumpRows_succ] at h
    obtain ⟨hbefore, hlast⟩ := List.append_inj' h hwidth
    have hbytes := hexdumpRow_inj hrow (List.append_cancel_left hlast)
    rw [show 16 * (n + 1) = 16 * n + 16 by omega, List.take_add, List.take_add, ih hbefore, hbytes]

/-- The length stands in the title. -/
theorem hexdumpTitle_inj {m n : Nat} {text u v : List Char}
    (h : hexdumpTitle m text ++ u = hexdumpTitle n text ++ v) : m = n ∧ u = v := by
  have hdigits : ∀ (k : Nat) (w : List Char),
      (Nat.toDigits 10 k ++ ("] =>".toList ++ w)).takeWhile Char.isDigit = Nat.toDigits 10 k := by
    intro k w
    rw [List.takeWhile_append_of_pos fun c hc =>
      Nat.isDigit_of_mem_toDigits (by omega) (by omega) hc]
    simp
  simp only [hexdumpTitle, List.append_assoc] at h
  have hbody := List.append_cancel_left (List.append_cancel_left h)
  have hnum : Nat.toDigits 10 m = Nat.toDigits 10 n := by
    rw [← hdigits m u, ← hdigits n v, hbody]
  have hmn : m = n := by
    have hval := congrArg (Nat.ofDigitChars 10 · 0) hnum
    simpa [Nat.ofDigitChars_toDigits] using hval
  rw [hnum] at hbody
  exact ⟨hmn, List.append_cancel_left (List.append_cancel_left hbody)⟩

end CUtils
