import CUtils.Native.Tokens

/-!
# Strings in a buffer

What a scanner sees of a string that lies in a buffer: where it stops, what is behind, and
what a store of a terminator makes of it.
-/

namespace CUtils

/-- The string `cs` is in a buffer at a pointer, with its terminator. -/
structure StrAt (buf : List Int8) (p : Nat) (cs : List Int8) : Prop where
  nul_free : 0 ∉ cs
  drop_eq : ∃ rest, buf.drop p = cs ++ 0 :: rest

section StrAt

variable {buf cs : List Int8} {p : Nat}

theorem strSpan_append (cond : Int8 → Bool) (rest : List Int8) (h : 0 ∉ cs) :
    strSpan cond (cs ++ 0 :: rest) = some (cs.takeWhile cond).length := by
  induction cs with
  | nil => rfl
  | cons c cs ih =>
    have hc : c ≠ 0 := fun h0 => h (h0 ▸ List.mem_cons_self)
    rw [List.cons_append, strSpan, ih fun h0 => h (List.mem_cons_of_mem c h0)]
    by_cases hcond : cond c
    · simp [hc, hcond]
    · simp [hcond]

namespace StrAt

/-- A scan stops inside of the string or at its terminator. -/
theorem strSpan_eq (h : StrAt buf p cs) (cond : Int8 → Bool) :
    strSpan cond (buf.drop p) = some (cs.takeWhile cond).length := by
  obtain ⟨rest, hrest⟩ := h.drop_eq
  rw [hrest, strSpan_append cond rest h.nul_free]

/-- A scan for the terminator. -/
theorem strSpan_true (h : StrAt buf p cs) :
    strSpan (fun _ => true) (buf.drop p) = some cs.length := by
  have hall : cs.takeWhile (fun _ => true) = cs := List.takeWhile_eq_self_iff.mpr fun _ _ => rfl
  rw [h.strSpan_eq, hall]

theorem cstrAt_eq (h : StrAt buf p cs) : cstrAt buf p = some cs := by
  obtain ⟨rest, hrest⟩ := h.drop_eq
  rw [cstrAt, h.strSpan_true, Option.map_some, hrest, List.take_left]

theorem strlen_eq (h : StrAt buf 0 cs) : strlen buf = some cs.length := h.strSpan_true

/-- The character at the pointer. -/
theorem getElem?_eq (h : StrAt buf p cs) : buf[p]? = some (cs.headD 0) := by
  obtain ⟨rest, hrest⟩ := h.drop_eq
  have hget : (buf.drop p)[0]? = buf[p]? := by rw [List.getElem?_drop, Nat.add_zero]
  rw [← hget, hrest]
  cases cs <;> rfl

/-- The string behind its first character. -/
theorem tail {c : Int8} (h : StrAt buf p (c :: cs)) : StrAt buf (p + 1) cs := by
  obtain ⟨rest, hrest⟩ := h.drop_eq
  refine ⟨fun h0 => h.nul_free (List.mem_cons_of_mem c h0), rest, ?_⟩
  rw [← List.drop_drop, hrest, List.cons_append, List.drop_one, List.tail_cons]

theorem headD_eq_zero_iff (h : StrAt buf p cs) : cs.headD 0 = 0 ↔ cs = [] := by
  cases cs with
  | nil => simp
  | cons c cs =>
    have hc : c ≠ 0 := fun h0 => h.nul_free (h0 ▸ List.mem_cons_self)
    simp [hc]

/-- Moving over the characters that satisfy a condition. -/
theorem dropWhile (h : StrAt buf p cs) (cond : Int8 → Bool) :
    StrAt buf (p + (cs.takeWhile cond).length) (cs.dropWhile cond) := by
  obtain ⟨rest, hrest⟩ := h.drop_eq
  have hsplit : cs.takeWhile cond ++ cs.dropWhile cond = cs := List.takeWhile_append_dropWhile
  constructor
  · exact fun h0 => h.nul_free ((List.dropWhile_sublist cond).subset h0)
  · have hdrop : buf.drop p = cs.takeWhile cond ++ (cs.dropWhile cond ++ 0 :: rest) := by
      rw [hrest, ← List.append_assoc, hsplit]
    exact ⟨rest, by rw [← List.drop_drop, hdrop, List.drop_left]⟩

/-- Ending a token where its characters end: at the terminator, or at the character
    behind it, which a NUL replaces. -/
theorem cut (h : StrAt buf p cs) (cond : Int8 → Bool) {c : Int8} {rest : List Int8}
    (hrest : cs.dropWhile cond = c :: rest) :
    StrAt (buf.set (p + (cs.takeWhile cond).length) 0) p (cs.takeWhile cond) ∧
      StrAt (buf.set (p + (cs.takeWhile cond).length) 0)
        (p + (cs.takeWhile cond).length + 1) rest := by
  obtain ⟨tail, htail⟩ := h.drop_eq
  have hsplit : cs.takeWhile cond ++ c :: rest = cs := by
    rw [← hrest, List.takeWhile_append_dropWhile]
  have hfree := h.nul_free
  rw [← hsplit] at htail hfree
  generalize cs.takeWhile cond = word at *
  rw [List.append_assoc, List.cons_append] at htail
  constructor
  · -- the NUL that was stored ends the token
    refine ⟨fun h0 => hfree (List.mem_append_left _ h0), rest ++ 0 :: tail, ?_⟩
    rw [List.drop_set, if_neg (by omega), Nat.add_sub_cancel_left, htail,
      List.set_append_right _ _ (Nat.le_refl _), Nat.sub_self, List.set_cons_zero]
  · -- the old terminator still ends the rest
    refine ⟨fun h0 => hfree (List.mem_append_right _ (List.mem_cons_of_mem c h0)), tail, ?_⟩
    rw [List.drop_set_of_lt (by omega), Nat.add_assoc, ← List.drop_drop, htail,
      ← List.drop_drop, List.drop_left, List.drop_one, List.tail_cons]

/-- A pointer points to one string. -/
theorem unique {ds : List Int8} (h : StrAt buf p cs) (h' : StrAt buf p ds) : cs = ds :=
  Option.some.inj (h.cstrAt_eq.symm.trans h'.cstrAt_eq)

/-- Storing a terminator behind the characters `cs`. -/
theorem of_take (hnul : 0 ∉ cs)
    (htake : (buf.drop p).take cs.length = cs) (hlt : p + cs.length < buf.length) :
    ∃ buf', writeAt buf (p + cs.length) [0] = some buf' ∧ StrAt buf' p cs := by
  refine ⟨_, writeAt_of_le hlt, hnul, buf.drop (p + cs.length + 1), ?_⟩
  have hsplit : buf.take (p + cs.length) = buf.take p ++ cs := by
    rw [List.take_add, htake]
  have hlen : (buf.take p).length = p := List.length_take_of_le (by omega)
  rw [splice, hsplit, List.append_assoc, List.drop_append_of_le_length (Nat.le_of_eq hlen.symm),
    List.drop_of_length_le (Nat.le_of_eq hlen), List.nil_append]
  rfl

/-- The string and its terminator are inside of the buffer. -/
theorem add_length_lt (h : StrAt buf p cs) : p + cs.length < buf.length := by
  obtain ⟨rest, hrest⟩ := h.drop_eq
  have hlen := congrArg List.length hrest
  simp only [List.length_drop, List.length_append, List.length_cons] at hlen
  omega

theorem take_eq (h : StrAt buf p cs) {k : Nat} (hk : k ≤ cs.length) :
    (buf.drop p).take k = cs.take k := by
  obtain ⟨rest, hrest⟩ := h.drop_eq
  rw [hrest, List.take_append_of_le_length hk]

/-- The characters of the string. -/
theorem getElem?_add (h : StrAt buf p cs) {i : Nat} (hi : i < cs.length) :
    buf[p + i]? = cs[i]? := by
  obtain ⟨rest, hrest⟩ := h.drop_eq
  rw [← List.getElem?_drop, hrest, List.getElem?_append_left hi]

/-- Cutting the string off. -/
theorem terminate (h : StrAt buf p cs) {k : Nat} (hk : k ≤ cs.length) :
    ∃ buf', writeAt buf (p + k) [0] = some buf' ∧ StrAt buf' p (cs.take k) := by
  have hlen : (cs.take k).length = k := List.length_take_of_le hk
  have hnul : 0 ∉ cs.take k := fun h0 => h.nul_free (List.mem_of_mem_take h0)
  have hlt := h.add_length_lt
  have hcut := StrAt.of_take hnul (by rw [hlen, h.take_eq hk]) (show p + (cs.take k).length <
    buf.length by omega)
  rwa [hlen] at hcut

end StrAt

end StrAt

end CUtils
