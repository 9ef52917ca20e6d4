import Mathlib.Data.List.Basic

/-!
# Sequences of self-delimiting frames

An encoding of single values whose decoder finds the end of a value by itself gives an encoding
of sequences: the values are written one behind the other.

- `decodeAll_flatten`: decoding the concatenation of encoded values gives them back.
-/

section

variable {α β : Type*}

/-- `dec` takes an encoded value, of the kind `ok`, off the front of a text. -/
structure Decodes (enc : α → List β) (dec : List β → Option (α × List β)) (ok : α → Prop) :
    Prop where
  enc_ne_nil : ∀ a, enc a ≠ []
  dec_enc : ∀ a, ok a → ∀ rest, dec (enc a ++ rest) = some (a, rest)

/-- Take off values until nothing is left, at most `fuel`. -/
def decodeAll (dec : List β → Option (α × List β)) : Nat → List β → Option (List α)
  | _, [] => some []
  | 0, _ :: _ => none
  | fuel + 1, b :: bs =>
    (dec (b :: bs)).bind fun r => (decodeAll dec fuel r.2).map (r.1 :: ·)

variable {enc : α → List β} {dec : List β → Option (α × List β)} {ok : α → Prop}

/-- Each value takes some room. -/
theorem Decodes.length_le (h : Decodes enc dec ok) (as : List α) :
    as.length ≤ (as.map enc).flatten.length := by
  induction as with
  | nil => exact Nat.zero_le _
  | cons a as ih =>
    have hpos : 0 < (enc a).length := List.length_pos_iff.mpr (h.enc_ne_nil a)
    rw [List.map_cons, List.flatten_cons, List.length_append, List.length_cons]
    omega

theorem decodeAll_flatten (h : Decodes enc dec ok) {as : List α} (has : ∀ a ∈ as, ok a)
    {fuel : Nat} (hfuel : as.length ≤ fuel) :
    decodeAll dec fuel (as.map enc).flatten = some as := by
  induction as generalizing fuel with
  | nil => cases fuel <;> rfl
  | cons a as ih =>
    obtain ⟨ha, hrest⟩ := List.forall_mem_cons.mp has
    obtain ⟨fuel, rfl⟩ : ∃ n, fuel = n + 1 := ⟨fuel - 1, by rw [List.length_cons] at hfuel; omega⟩
    obtain ⟨b, bs, hb⟩ := List.exists_cons_of_ne_nil (h.enc_ne_nil a)
    have hdec := h.dec_enc a ha (as.map enc).flatten
    rw [hb, List.cons_append] at hdec
    rw [List.map_cons, List.flatten_cons, hb, List.cons_append, decodeAll, hdec, Option.bind_some,
      ih hrest (Nat.le_of_succ_le_succ hfuel)]
    rfl

end
