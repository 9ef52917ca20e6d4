import Mathlib.Data.List.Basic
import Mathlib.Algebra.Group.Nat.Defs

/-!
# Objects of bytes

An object in memory is the list of its bytes, so it carries its size.  `readAt` and
`writeAt` fault (`none`) when the accessed range leaves the object: a function built
from them that returns `some` has stayed inside of its objects.

- `readAt_splice_within`, `readAt_splice_of_disjoint`: what a read sees after a write.
- `leValue_leBytes`: little-endian encoding and decoding.
-/

/-! ## Reading and writing a range -/

section Access

variable {α : Type*}

/-- The `n` elements of an object from the offset `off` on. -/
def readAt (obj : List α) (off n : Nat) : Option (List α) :=
  if off + n ≤ obj.length then some ((obj.drop off).take n) else none

/-- Replace the elements of an object from the offset `off` on by `xs`. -/
def splice (obj : List α) (off : Nat) (xs : List α) : List α :=
  obj.take off ++ (xs ++ obj.drop (off + xs.length))

/-- Store `xs` from the offset `off` on. -/
def writeAt (obj : List α) (off : Nat) (xs : List α) : Option (List α) :=
  if off + xs.length ≤ obj.length then some (splice obj off xs) else none

variable {obj obj' xs : List α} {off n : Nat}

theorem readAt_of_le (h : off + n ≤ obj.length) :
    readAt obj off n = some ((obj.drop off).take n) := if_pos h

theorem readAt_eq_some (h : readAt obj off n = some xs) : off + n ≤ obj.length ∧ xs.length = n := by
  unfold readAt at h
  split at h
  · rename_i hin
    obtain rfl := Option.some.inj h
    refine ⟨hin, ?_⟩
    rw [List.length_take, List.length_drop]
    omega
  · cases h

theorem writeAt_of_le (h : off + xs.length ≤ obj.length) :
    writeAt obj off xs = some (splice obj off xs) := if_pos h

theorem writeAt_eq_some (h : writeAt obj off xs = some obj') :
    off + xs.length ≤ obj.length ∧ obj' = splice obj off xs := by
  unfold writeAt at h
  split at h
  · exact ⟨‹_›, (Option.some.inj h).symm⟩
  · cases h

/-- Writing keeps the size of the object. -/
theorem length_splice (h : off + xs.length ≤ obj.length) :
    (splice obj off xs).length = obj.length := by
  simp only [splice, List.length_append, List.length_take, List.length_drop]
  omega

theorem getElem?_splice_of_lt (h : off + xs.length ≤ obj.length) {i : Nat} (hi : i < off) :
    (splice obj off xs)[i]? = obj[i]? := by
  have hlen : (obj.take off).length = off := List.length_take_of_le (by omega)
  rw [splice, List.getElem?_append_left (by omega), List.getElem?_take_of_lt hi]

theorem getElem?_splice_of_le (h : off + xs.length ≤ obj.length) {i : Nat}
    (hi : off + xs.length ≤ i) : (splice obj off xs)[i]? = obj[i]? := by
  have hlen : (obj.take off).length = off := List.length_take_of_le (by omega)
  rw [splice, List.getElem?_append_right (by omega), List.getElem?_append_right (by omega),
    List.getElem?_drop]
  congr 1
  omega

theorem getElem?_splice_add (h : off + xs.length ≤ obj.length) {i : Nat} (hi : i < xs.length) :
    (splice obj off xs)[off + i]? = xs[i]? := by
  have hlen : (obj.take off).length = off := List.length_take_of_le (by omega)
  have hsub : off + i - off = i := by omega
  rw [splice, List.getElem?_append_right (by omega), hlen, hsub, List.getElem?_append_left hi]

theorem splice_nil : splice obj off [] = obj := by
  rw [splice, List.nil_append, List.length_nil, Nat.add_zero, List.take_append_drop]

/-- A write keeps a prefix exactly when it stores there what was there. -/
theorem take_splice_eq_iff (h : off + xs.length ≤ obj.length) {k : Nat} :
    (splice obj off xs).take k = obj.take k ↔
      ∀ i < k, off ≤ i → ∀ v, xs[i - off]? = some v → obj[i]? = some v := by
  constructor
  · intro heq i hi hoff v hv
    have hlt : i - off < xs.length := (List.getElem?_eq_some_iff.mp hv).1
    have hadd : off + (i - off) = i := by omega
    have hget := congrArg (fun l => l[i]?) heq
    simp only [List.getElem?_take_of_lt hi] at hget
    rw [← hget, ← hv, ← getElem?_splice_add h hlt, hadd]
  · intro hagree
    apply List.ext_getElem?
    intro i
    by_cases hi : i < k
    · rw [List.getElem?_take_of_lt hi, List.getElem?_take_of_lt hi]
      by_cases hin : off ≤ i ∧ i < off + xs.length
      · -- inside of the written range
        have hadd : off + (i - off) = i := by omega
        have hv : xs[i - off]? = some xs[i - off] := List.getElem?_eq_getElem (by omega)
        have hget := getElem?_splice_add h (show i - off < xs.length by omega)
        rw [hadd, hv] at hget
        rw [hget, hagree i hi hin.1 _ hv]
      · rcases Nat.lt_or_ge i off with hlt | hge
        · exact getElem?_splice_of_lt h hlt
        · exact getElem?_splice_of_le h (by omega)
    · rw [List.getElem?_take_eq_none (by omega), List.getElem?_take_eq_none (by omega)]

/-- The written object up to a place in the written range. -/
theorem take_splice_append {ys : List α} (h : off + (xs ++ ys).length ≤ obj.length) :
    (splice obj off (xs ++ ys)).take (off + xs.length) = obj.take off ++ xs := by
  have hlen : (obj.take off ++ xs).length = off + xs.length := by
    rw [List.length_append] at h
    simp only [List.length_append, List.length_take]
    omega
  rw [splice, List.append_assoc, ← List.append_assoc, ← hlen, List.take_left]

theorem take_splice (h : off + xs.length ≤ obj.length) :
    (splice obj off xs).take (off + xs.length) = obj.take off ++ xs := by
  have htake : (splice obj off (xs ++ [])).take (off + xs.length) = obj.take off ++ xs :=
    take_splice_append (by rwa [List.append_nil])
  rwa [List.append_nil] at htake

/-- Elements before the written range are kept. -/
theorem take_splice_of_le (h : off + xs.length ≤ obj.length) {k : Nat} (hk : k ≤ off) :
    (splice obj off xs).take k = obj.take k := by
  apply List.ext_getElem?
  intro i
  by_cases hi : i < k
  · rw [List.getElem?_take_of_lt hi, List.getElem?_take_of_lt hi,
      getElem?_splice_of_lt h (by omega)]
  · rw [List.getElem?_take_eq_none (by omega), List.getElem?_take_eq_none (by omega)]

theorem drop_splice_of_le (h : off + xs.length ≤ obj.length) {k : Nat}
    (hk : off + xs.length ≤ k) : (splice obj off xs).drop k = obj.drop k := by
  apply List.ext_getElem?
  intro i
  rw [List.getElem?_drop, List.getElem?_drop, getElem?_splice_of_le h (by omega)]

/-- Two adjacent writes are one. -/
theorem splice_splice {ys : List α} (h : off + (xs ++ ys).length ≤ obj.length) :
    splice (splice obj off xs) (off + xs.length) ys = splice obj off (xs ++ ys) := by
  have hin : off + xs.length ≤ obj.length := by
    rw [List.length_append] at h
    omega
  rw [splice, take_splice hin, drop_splice_of_le hin (Nat.le_add_right ..), splice,
    List.length_append, List.append_assoc, List.append_assoc, Nat.add_assoc]

/-- Objects that agree on a prefix agree on a shorter one. -/
theorem take_eq_of_le {k m : Nat} (hk : k ≤ m) (h : obj.take m = obj'.take m) :
    obj.take k = obj'.take k := by
  have hcut := congrArg (List.take k) h
  simpa only [List.take_take, Nat.min_eq_left hk] using hcut

/-- A read inside of the written range. -/
theorem readAt_splice_within (h : off + xs.length ≤ obj.length) {k m : Nat}
    (hk : k + m ≤ xs.length) :
    readAt (splice obj off xs) (off + k) m = some ((xs.drop k).take m) := by
  rw [readAt_of_le (by rw [length_splice h]; omega)]
  congr 1
  apply List.ext_getElem?
  intro i
  by_cases hi : i < m
  · rw [List.getElem?_take_of_lt hi, List.getElem?_take_of_lt hi, List.getElem?_drop,
      List.getElem?_drop, Nat.add_assoc, getElem?_splice_add h (by omega)]
  · rw [List.getElem?_take_eq_none (by omega), List.getElem?_take_eq_none (by omega)]

/-- The written range is read back. -/
theorem readAt_splice (h : off + xs.length ≤ obj.length) :
    readAt (splice obj off xs) off xs.length = some xs := by
  have hread := readAt_splice_within h (k := 0) (m := xs.length) (by omega)
  rwa [Nat.add_zero, List.drop_zero, List.take_length] at hread

/-- A write outside of the read range is not seen. -/
theorem readAt_splice_of_disjoint (h : off + xs.length ≤ obj.length) {k m : Nat}
    (hd : k + m ≤ off ∨ off + xs.length ≤ k) : readAt (splice obj off xs) k m = readAt obj k m := by
  have hsame : ((splice obj off xs).drop k).take m = (obj.drop k).take m := by
    apply List.ext_getElem?
    intro i
    by_cases hi : i < m
    · rw [List.getElem?_take_of_lt hi, List.getElem?_take_of_lt hi, List.getElem?_drop,
        List.getElem?_drop]
      rcases hd with hd | hd
      · exact getElem?_splice_of_lt h (by omega)
      · exact getElem?_splice_of_le h (by omega)
    · rw [List.getElem?_take_eq_none (by omega), List.getElem?_take_eq_none (by omega)]
  simp only [readAt, length_splice h, hsame]

end Access

/-! ## Strings -/

/-- The bytes in front of the first NUL. -/
def cstring (obj : List UInt8) : List UInt8 := obj.takeWhile (· ≠ 0)

/-- The string ends at the first NUL. -/
theorem cstring_append {a obj : List UInt8} (hnul : 0 ∉ a) : cstring (a ++ 0 :: obj) = a := by
  have hall : ∀ c ∈ a, decide (c ≠ 0) = true := by
    intro c hc
    apply decide_eq_true
    rintro rfl
    exact hnul hc
  rw [cstring, List.takeWhile_append_of_pos hall]
  simp

/-! ## Little-endian numbers -/

/-- The `w` little-endian bytes of `v`, as the machine stores an unsigned integer of
    that width: higher bits are dropped. -/
def leBytes : Nat → Nat → List UInt8
  | 0, _ => []
  | w + 1, v => UInt8.ofNat v :: leBytes w (v / 256)

/-- The number with the given little-endian bytes. -/
def leValue : List UInt8 → Nat
  | [] => 0
  | b :: bs => b.toNat + 256 * leValue bs

@[simp] theorem length_leBytes (w v : Nat) : (leBytes w v).length = w := by
  induction w generalizing v with
  | zero => rfl
  | succ w ih => rw [leBytes, List.length_cons, ih]

/-- Decoding gives back what fits. -/
theorem leValue_leBytes (w v : Nat) : leValue (leBytes w v) = v % 256 ^ w := by
  induction w generalizing v with
  | zero => rw [leBytes, leValue, Nat.pow_zero, Nat.mod_one]
  | succ w ih =>
    have hpow : 256 ^ (w + 1) = 256 * 256 ^ w := Nat.pow_succ'
    rw [leBytes, leValue, ih, UInt8.toNat_ofNat', hpow, Nat.mod_mul]

theorem leValue_leBytes_of_lt {w v : Nat} (h : v < 256 ^ w) : leValue (leBytes w v) = v := by
  rw [leValue_leBytes, Nat.mod_eq_of_lt h]

/-! ## 32-bit words -/

/-- A `uint32_t` at an offset of an object. -/
def load32 (obj : List UInt8) (off : Nat) : Option Nat := (readAt obj off 4).map leValue

/-- Store a `uint32_t`. -/
def store32 (obj : List UInt8) (off v : Nat) : Option (List UInt8) := writeAt obj off (leBytes 4 v)

/-- The object after a `uint32_t` was stored inside of it. -/
def set32 (obj : List UInt8) (off v : Nat) : List UInt8 := splice obj off (leBytes 4 v)

section Words

variable {obj : List UInt8} {off v : Nat}

theorem store32_of_le (h : off + 4 ≤ obj.length) : store32 obj off v = some (set32 obj off v) :=
  writeAt_of_le (by rwa [length_leBytes])

theorem length_set32 (h : off + 4 ≤ obj.length) : (set32 obj off v).length = obj.length :=
  length_splice (by rwa [length_leBytes])

theorem load32_set32 (h : off + 4 ≤ obj.length) (hv : v < 2 ^ 32) :
    load32 (set32 obj off v) off = some v := by
  have hin : off + (leBytes 4 v).length ≤ obj.length := by rwa [length_leBytes]
  have hread := readAt_splice hin
  rw [length_leBytes] at hread
  rw [load32, set32, hread, Option.map_some, leValue_leBytes_of_lt hv]

theorem load32_splice_of_disjoint {xs : List UInt8} (h : off + xs.length ≤ obj.length) {k : Nat}
    (hd : k + 4 ≤ off ∨ off + xs.length ≤ k) : load32 (splice obj off xs) k = load32 obj k := by
  rw [load32, readAt_splice_of_disjoint h hd, load32]

theorem load32_set32_of_disjoint (h : off + 4 ≤ obj.length) {k : Nat}
    (hd : k + 4 ≤ off ∨ off + 4 ≤ k) : load32 (set32 obj off v) k = load32 obj k :=
  load32_splice_of_disjoint (by rwa [length_leBytes]) (by rwa [length_leBytes])

end Words
