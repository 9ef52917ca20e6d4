import CUtils.ForStd.Join
import CUtils.Native.File
import CUtils.Spec.StrBuffer

/-!
# Joined and split paths

`path_join` is `List.joinSep` on the strings, so it is associative.  `path_extract` hands
`basename` the path that `dirname` has cut.

- `pathJoin_spec`: what one call does.
- `pathJoin_assoc`: both groupings of three strings.
- `pathExtract_correct_iff`: when the two outputs fit together.
-/

namespace CUtils

/-! ## path_join -/

/-- A pointer to a string, or NULL, which is taken for the empty string. -/
def OptStrAt (p : Option (List Int8)) (cs : List Int8) : Prop :=
  match p with
  | none => cs = []
  | some buf => StrAt buf 0 cs

/-- An object of `n` characters, of which the first ones are `cs`. -/
structure HoldsPrefix (obj : List Int8) (n : Nat) (cs : List Int8) : Prop where
  length_eq : obj.length = n
  take_eq : obj.take cs.length = cs

namespace HoldsPrefix

variable {obj cs ds src : List Int8} {n : Nat}

theorem malloc (junk : Nat → Int8) (n : Nat) : HoldsPrefix (safeMallocChars junk n) n [] := by
  constructor
  · rw [safeMallocChars, List.length_map, List.length_range]
  · rfl

theorem write (h : HoldsPrefix obj n cs) (hle : cs.length + ds.length ≤ n) :
    ∃ obj', writeAt obj cs.length ds = some obj' ∧ HoldsPrefix obj' n (cs ++ ds) := by
  have hin : cs.length + ds.length ≤ obj.length := by
    rw [h.length_eq]
    exact hle
  refine ⟨_, writeAt_of_le hin, by rw [length_splice hin, h.length_eq], ?_⟩
  rw [List.length_append, take_splice hin, h.take_eq]

theorem copy (h : HoldsPrefix obj n cs) (hsrc : StrAt src 0 ds)
    (hle : cs.length + ds.length ≤ n) :
    ∃ obj', memcpyChars obj cs.length src ds.length = some obj' ∧
      HoldsPrefix obj' n (cs ++ ds) := by
  obtain ⟨obj', hwrite, hobj'⟩ := h.write hle
  refine ⟨obj', ?_, hobj'⟩
  rw [memcpyChars, readAt_of_le (Nat.le_of_lt hsrc.add_length_lt), hsrc.take_eq (Nat.le_refl _),
    List.take_length, Option.bind_some, hwrite]

theorem terminate (h : HoldsPrefix obj n cs) (hnul : 0 ∉ cs) (hlt : cs.length < n) :
    ∃ obj', writeAt obj cs.length [0] = some obj' ∧ StrAt obj' 0 cs := by
  have hcut := StrAt.of_take (p := 0) hnul h.take_eq (by rw [h.length_eq]; omega)
  rwa [Nat.zero_add] at hcut

/-- A string with its terminator behind the characters. -/
theorem append_string (h : HoldsPrefix obj n cs) (hsrc : StrAt src 0 ds) (hnul : 0 ∉ cs)
    (hlt : cs.length + ds.length < n) :
    ∃ obj₁ obj', memcpyChars obj cs.length src ds.length = some obj₁ ∧
      writeAt obj₁ (cs.length + ds.length) [0] = some obj' ∧ StrAt obj' 0 (cs ++ ds) := by
  obtain ⟨obj₁, hcopy, hobj₁⟩ := h.copy hsrc (Nat.le_of_lt hlt)
  have hnul' : 0 ∉ cs ++ ds := by
    rw [List.mem_append, not_or]
    exact ⟨hnul, hsrc.nul_free⟩
  obtain ⟨obj', hwrite, hat⟩ := hobj₁.terminate hnul' (by rwa [List.length_append])
  rw [List.length_append] at hwrite
  exact ⟨obj₁, obj', hcopy, hwrite, hat⟩

/-- The last character. -/
theorem getElem?_last (h : HoldsPrefix obj n cs) (hne : cs ≠ []) :
    obj[cs.length - 1]? = cs.getLast? := by
  have hpos := List.length_pos_iff.mpr hne
  rw [List.getLast?_eq_getElem?, ← List.getElem?_take_of_lt (show cs.length - 1 < cs.length by
    omega), h.take_eq]

end HoldsPrefix

theorem safeStrdup_spec {s cs : List Int8} (h : StrAt s 0 cs) :
    ∃ obj, safeStrdup s = some obj ∧ StrAt obj 0 cs := by
  have hread : readAt s 0 (cs.length + 1) = some (cs ++ [0]) := by
    obtain ⟨rest, hrest⟩ := h.drop_eq
    rw [readAt_of_le (by have hlt := h.add_length_lt; omega), hrest, List.append_cons,
      List.take_left' (by rw [List.length_append]; rfl)]
  refine ⟨cs ++ [0], ?_, h.nul_free, [], rfl⟩
  rw [safeStrdup, h.strlen_eq, Option.bind_eq_bind, Option.bind_some, hread]

section Join

variable {p1 : Option (List Int8)} {p2 xs ys : List Int8}

theorem OptStrAt.nul_free (h : OptStrAt p1 xs) : 0 ∉ xs := by
  cases p1 with
  | none =>
    obtain rfl : xs = [] := h
    exact List.not_mem_nil
  | some p1 => exact StrAt.nul_free h

theorem OptStrAt.strlen_eq (h : OptStrAt p1 xs) : strlenOrZero p1 = some xs.length := by
  cases p1 with
  | none =>
    obtain rfl : xs = [] := h
    rfl
  | some p1 => exact StrAt.strlen_eq h

/-- The first part of the result. -/
theorem OptStrAt.copy (h : OptStrAt p1 xs) (junk : Nat → Int8) {n : Nat} (hle : xs.length ≤ n) :
    ∃ path, memcpyIf (safeMallocChars junk n) p1 xs.length = some path ∧
      HoldsPrefix path n xs := by
  cases p1 with
  | none =>
    obtain rfl : xs = [] := h
    exact ⟨_, rfl, .malloc junk n⟩
  | some p1 =>
    have hstr : StrAt p1 0 xs := h
    exact (HoldsPrefix.malloc junk n).copy hstr (by rw [List.length_nil]; omega)

/-- A separator is missing. -/
theorem HoldsPrefix.needsSep_eq {path : List Int8} {n : Nat} (h : HoldsPrefix path n xs) :
    needsSep path xs.length = some (decide (List.sepAfter pathSep xs = [pathSep])) := by
  by_cases hnil : xs = []
  · subst hnil
    rfl
  · rw [needsSep, if_neg (List.length_eq_zero_iff.not.mpr hnil), h.getElem?_last hnil,
      List.getLast?_eq_some_getLast hnil, Option.map_some, List.sepAfter,
      List.getLast?_eq_some_getLast hnil]
    by_cases hsep : xs.getLast hnil = pathSep
    · simp [hnil, hsep]
    · simp [hnil, hsep]

/-- `path_join` stays inside of the object that it allocates, and returns the joined
    string. -/
theorem pathJoin_spec (junk : Nat → Int8) (h1 : OptStrAt p1 xs) (h2 : StrAt p2 0 ys)
    (hlen : xs.length + ys.length + 2 < 2 ^ 64) :
    ∃ path, pathJoin junk p1 (some p2) = some (some path) ∧
      StrAt path 0 (List.joinSep pathSep xs ys) := by
  have hget := h2.getElem?_eq
  have hhead : ys.headD 0 = pathSep ↔ ys.head? = some pathSep := by
    cases ys with
    | nil => simp [pathSep]
    | cons y ys => simp
  by_cases habs : ys.headD 0 = pathSep
  · -- an absolute path is copied
    obtain ⟨path, hdup, hat⟩ := safeStrdup_spec h2
    refine ⟨path, ?_, by rwa [List.joinSep_of_head _ (hhead.mp habs)]⟩
    simp only [pathJoin, hget, habs, hdup, ↓reduceIte, Option.bind_eq_bind, Option.bind_some,
      Option.pure_def]
  · have hsize : castSize ((xs.length : Int) + ys.length + 2) = xs.length + ys.length + 2 :=
      castSize_eq (by omega) hlen
    obtain ⟨path₁, hcopy, hpath₁⟩ := h1.copy junk
      (show xs.length ≤ xs.length + ys.length + 2 by omega)
    have hsep := hpath₁.needsSep_eq
    simp only [pathJoin, hget, habs, ↓reduceIte, Option.bind_eq_bind, Option.bind_some,
      h1.strlen_eq, h2.strlen_eq, hsize, hcopy]
    rw [List.joinSep_of_not_head _ (hhead.not.mp habs)]
    by_cases hmiss : List.sepAfter pathSep xs = [pathSep]
    · rw [hmiss] at hsep ⊢
      obtain ⟨path₂, hwrite, hpath₂⟩ := hpath₁.write
        (show xs.length + [pathSep].length ≤ xs.length + ys.length + 2 by
          rw [List.length_singleton]; omega)
      have hnul₂ : 0 ∉ xs ++ [pathSep] := by
        rw [List.mem_append, List.mem_singleton, not_or]
        exact ⟨h1.nul_free, by decide⟩
      obtain ⟨path₃, path, hcopy₂, hend, hat⟩ := hpath₂.append_string h2 hnul₂
        (by rw [List.length_append, List.length_singleton]; omega)
      rw [List.length_append, List.length_singleton] at hcopy₂ hend
      rw [List.append_assoc] at hat
      refine ⟨path, ?_, hat⟩
      simp only [hsep, Option.bind_some, decide_true, ↓reduceIte, hwrite, hcopy₂, hend,
        Option.pure_def]
    · have hnone : List.sepAfter pathSep xs = [] := by
        unfold List.sepAfter at hmiss ⊢
        split
        · rfl
        · rw [if_neg ‹_›] at hmiss
          exact absurd rfl hmiss
      rw [hnone] at hsep ⊢
      obtain ⟨path₃, path, hcopy₂, hend, hat⟩ := hpath₁.append_string h2 h1.nul_free (by omega)
      refine ⟨path, ?_, hat⟩
      simp only [hsep, Option.bind_some, List.ne_cons_self, decide_false,
        Bool.false_eq_true, ↓reduceIte, hcopy₂, hend, Option.pure_def]

end Join

/-- `path_join(p1, p2)` returns a new string `xs`. -/
def JoinsTo (junk : Nat → Int8) (p1 : Option (List Int8)) (p2 path xs : List Int8) : Prop :=
  pathJoin junk p1 (some p2) = some (some path) ∧ StrAt path 0 xs

/-- Both groupings of three strings return the string that `List.joinSep` makes of the
    three, and no call leaves an object.
    NULL and the empty string are left identities, and an absolute second string replaces
    the first.  The strings and the separators between them fit the address space; `junk i`
    is what the `i`-th allocation holds. -/
theorem pathJoin_assoc {a : Option (List Int8)} {b c as bs cs : List Int8} (ha : OptStrAt a as)
    (hb : StrAt b 0 bs) (hc : StrAt c 0 cs)
    (hlen : as.length + bs.length + cs.length + 3 < 2 ^ 64) (junk : Nat → Nat → Int8) :
    (∃ ab bc abc abc', JoinsTo (junk 0) a b ab (List.joinSep pathSep as bs) ∧
      JoinsTo (junk 1) (some ab) c abc
        (List.joinSep pathSep as (List.joinSep pathSep bs cs)) ∧
      JoinsTo (junk 2) (some b) c bc (List.joinSep pathSep bs cs) ∧
      JoinsTo (junk 3) a bc abc' (List.joinSep pathSep as (List.joinSep pathSep bs cs))) ∧
    (∃ path, JoinsTo (junk 4) none b path bs) ∧
    (∀ e, StrAt e 0 [] → ∃ path, JoinsTo (junk 4) (some e) b path bs) ∧
    (bs.head? = some pathSep → ∃ path, JoinsTo (junk 4) a b path bs) := by
  have hb' : OptStrAt (some b) bs := hb
  have hlen₁ := List.length_joinSep_le pathSep as bs
  have hlen₂ := List.length_joinSep_le pathSep bs cs
  refine ⟨?_, ?_, ?_, ?_⟩
  · obtain ⟨ab, hab, hat⟩ := pathJoin_spec (junk 0) ha hb (by omega)
    have hat₁ : OptStrAt (some ab) (List.joinSep pathSep as bs) := hat
    obtain ⟨abc, habc, hleft⟩ := pathJoin_spec (junk 1) hat₁ hc (by omega)
    obtain ⟨bc, hbc, hat₂⟩ := pathJoin_spec (junk 2) hb' hc (by omega)
    obtain ⟨abc', habc', hright⟩ := pathJoin_spec (junk 3) ha hat₂ (by omega)
    -- both results hold the same string
    rw [List.joinSep_assoc] at hleft
    exact ⟨ab, bc, abc, abc', ⟨hab, hat⟩, ⟨habc, hleft⟩, ⟨hbc, hat₂⟩, habc', hright⟩
  · have hnull : OptStrAt none [] := rfl
    have hjoin := pathJoin_spec (junk 4) hnull hb (by rw [List.length_nil]; omega)
    rwa [List.joinSep_nil_left] at hjoin
  · intro e he
    have hempty : OptStrAt (some e) [] := he
    have hjoin := pathJoin_spec (junk 4) hempty hb (by rw [List.length_nil]; omega)
    rwa [List.joinSep_nil_left] at hjoin
  · intro habs
    have hjoin := pathJoin_spec (junk 4) ha hb (by omega)
    rwa [List.joinSep_of_head _ habs] at hjoin

/-- The strings `"a"`, `"b/"` and `"c"`. -/
theorem pathJoin_assoc_names :
    (∃ ab bc abc abc', JoinsTo (fun _ => 7) (some [97, 0]) [98, 47, 0] ab [97, 47, 98, 47] ∧
      JoinsTo (fun _ => 7) (some ab) [99, 0] abc [97, 47, 98, 47, 99] ∧
      JoinsTo (fun _ => 7) (some [98, 47, 0]) [99, 0] bc [98, 47, 99] ∧
      JoinsTo (fun _ => 7) (some [97, 0]) bc abc' [97, 47, 98, 47, 99]) ∧
    (∃ path, JoinsTo (fun _ => 7) none [98, 47, 0] path [98, 47]) ∧
    (∀ e, StrAt e 0 [] → ∃ path, JoinsTo (fun _ => 7) (some e) [98, 47, 0] path [98, 47]) ∧
    (([98, 47] : List Int8).head? = some pathSep →
      ∃ path, JoinsTo (fun _ => 7) (some [97, 0]) [98, 47, 0] path [98, 47]) :=
  have ha : OptStrAt (some [97, 0]) [97] := ⟨by decide, [], rfl⟩
  have hb : StrAt [98, 47, 0] 0 [98, 47] := ⟨by decide, [], rfl⟩
  have hc : StrAt [99, 0] 0 [99] := ⟨by decide, [], rfl⟩
  pathJoin_assoc ha hb hc (by decide) fun _ _ => 7

/-! ## path_extract -/

/-- A component of a canonical path. -/
structure IsComponent (cs : List Int8) : Prop where
  ne_nil : cs ≠ []
  sep_free : pathSep ∉ cs
  nul_free : 0 ∉ cs

/-- The components, each behind a separator. -/
def slashed (dirs : List (List Int8)) : List Int8 := dirs.flatMap (pathSep :: ·)

/-- What `dirname` makes of a file in the directory `dirs`. -/
def dirPart (dirs : List (List Int8)) : List Int8 :=
  if dirs = [] then [pathSep] else slashed dirs

/-- What `basename` makes of the directory `dirs`. -/
def lastPart (dirs : List (List Int8)) : List Int8 := dirs.getLast?.getD [pathSep]

section Extract

variable {dirs : List (List Int8)} {name : List Int8}

theorem components_concat (h : ∀ d ∈ dirs ++ [name], IsComponent d) :
    (∀ d ∈ dirs, IsComponent d) ∧ IsComponent name := by
  rw [List.forall_mem_append, List.forall_mem_singleton] at h
  exact h

theorem slashed_concat (dirs : List (List Int8)) (name : List Int8) :
    slashed (dirs ++ [name]) = slashed dirs ++ pathSep :: name := by
  rw [slashed, List.flatMap_append, List.flatMap_singleton, slashed]

theorem slashed_eq_nil_iff : slashed dirs = [] ↔ dirs = [] := by
  cases dirs <;> simp [slashed]

theorem IsComponent.not_isPathSep (h : IsComponent name) :
    ∀ c ∈ name, (fun c => !isPathSep c) c := by
  intro c hc
  have hne : c ≠ pathSep := fun heq => h.sep_free (heq ▸ hc)
  simp [isPathSep, hne]

/-- A canonical path does not end with a separator. -/
theorem rdropWhile_slashed (h : ∀ d ∈ dirs, IsComponent d) :
    (slashed dirs).rdropWhile isPathSep = slashed dirs := by
  rw [List.rdropWhile_eq_self_iff]
  intro hne
  induction dirs using List.reverseRecOn with
  | nil => exact absurd rfl hne
  | append_singleton ds d _ =>
    have hd := (components_concat h).2
    have hlast := hd.not_isPathSep _ (List.getLast_mem hd.ne_nil)
    simp only [slashed_concat, List.getLast_append_of_ne_nil _ (List.cons_ne_nil pathSep d),
      List.getLast_cons hd.ne_nil]
    simpa using hlast

theorem dirname_slashed (h : ∀ d ∈ dirs ++ [name], IsComponent d) :
    dirname (slashed (dirs ++ [name])) = (dirPart dirs, dirPart dirs) := by
  obtain ⟨hdirs, hname⟩ := components_concat h
  have hne : slashed (dirs ++ [name]) ≠ [] := by simp [slashed_eq_nil_iff]
  have hmem : pathSep ∈ slashed (dirs ++ [name]) := by simp [slashed_concat]
  have hcut : ((slashed (dirs ++ [name])).rdropWhile fun c => !isPathSep c).rdropWhile isPathSep =
      slashed dirs := by
    rw [slashed_concat, List.rdropWhile_append_cons hname.not_isPathSep (by decide),
      List.rdropWhile_concat_pos _ _ _ (by decide), rdropWhile_slashed hdirs]
  simp only [dirname, rdropWhile_slashed h, hne, ↓reduceIte, hmem, not_true_eq_false, hcut,
    slashed_eq_nil_iff, dirPart]
  split <;> rfl

theorem basename_slashed (h : ∀ d ∈ dirs ++ [name], IsComponent d) :
    basename (slashed (dirs ++ [name])) = name := by
  have hname := (components_concat h).2
  have hne : slashed (dirs ++ [name]) ≠ [] := by simp [slashed_eq_nil_iff]
  simp only [basename, rdropWhile_slashed h, hne, ↓reduceIte]
  rw [slashed_concat, List.rtakeWhile_append_cons hname.not_isPathSep (by decide)]

/-- The name of the directory itself. -/
theorem basename_dirPart (h : ∀ d ∈ dirs, IsComponent d) :
    basename (dirPart dirs) = lastPart dirs := by
  cases dirs using List.reverseRecOn with
  | nil => decide
  | append_singleton ds d =>
    have hne : ds ++ [d] ≠ [] := List.append_ne_nil_of_right_ne_nil ds (List.cons_ne_nil d [])
    rw [dirPart, if_neg hne, basename_slashed h, lastPart, List.getLast?_concat, Option.getD_some]

theorem lastPart_eq_iff (h : IsComponent name) :
    lastPart dirs = name ↔ dirs.getLast? = some name := by
  unfold lastPart
  cases dirs.getLast? with
  | none =>
    have hroot : [pathSep] ≠ name := fun heq => h.sep_free (heq ▸ List.mem_singleton_self pathSep)
    simp [hroot]
  | some d => simp

/-- Joining the two parts gives the path. -/
theorem joinSep_dirPart (h : ∀ d ∈ dirs ++ [name], IsComponent d) :
    List.joinSep pathSep (dirPart dirs) name = slashed (dirs ++ [name]) := by
  obtain ⟨hdirs, hname⟩ := components_concat h
  have hhead : name.head? ≠ some pathSep := fun hhead => hname.sep_free (List.mem_of_head? hhead)
  rw [List.joinSep_of_not_head _ hhead, slashed_concat]
  by_cases hnil : dirs = []
  · -- the root ends with the separator
    subst hnil
    rfl
  · have hne : slashed dirs ≠ [] := slashed_eq_nil_iff.not.mpr hnil
    have hlast := List.rdropWhile_eq_self_iff.mp (rdropWhile_slashed hdirs) hne
    have hmiss : List.sepAfter pathSep (slashed dirs) = [pathSep] := by
      rw [List.sepAfter, if_neg]
      rintro (hempty | hsep)
      · exact hne hempty
      · rw [List.getLast?_eq_some_getLast hne, Option.some_inj] at hsep
        exact hlast (by simp [isPathSep, hsep])
    rw [dirPart, if_neg hnil, hmiss, List.singleton_append]

theorem nul_free_slashed (h : ∀ d ∈ dirs, IsComponent d) : 0 ∉ slashed dirs := by
  intro h0
  obtain ⟨d, hd, hmem⟩ := List.mem_flatMap.mp h0
  rcases List.mem_cons.mp hmem with hsep | hmem
  · exact absurd hsep (by decide)
  · exact (h d hd).nul_free hmem

theorem nul_free_dirPart (h : ∀ d ∈ dirs, IsComponent d) : 0 ∉ dirPart dirs := by
  unfold dirPart
  split
  · decide
  · exact nul_free_slashed h

theorem length_dirPart_le (dirs : List (List Int8)) (name : List Int8) :
    (dirPart dirs).length + name.length ≤ (slashed (dirs ++ [name])).length := by
  rw [slashed_concat, List.length_append, List.length_cons]
  unfold dirPart
  split
  · rw [List.length_singleton]
    omega
  · omega

/-- `path_join` makes the path of the two parts. -/
theorem pathJoin_dirPart (h : ∀ d ∈ dirs ++ [name], IsComponent d)
    (hlen : (slashed (dirs ++ [name])).length < pathMax) (junk : Nat → Int8) :
    ∃ out, JoinsTo junk (some (dirPart dirs ++ [0])) (name ++ [0]) out
      (slashed (dirs ++ [name])) := by
  obtain ⟨hdirs, hname⟩ := components_concat h
  have hle := length_dirPart_le dirs name
  have hdir : OptStrAt (some (dirPart dirs ++ [0])) (dirPart dirs) :=
    ⟨nul_free_dirPart hdirs, [], rfl⟩
  have hbase : StrAt (name ++ [0]) 0 name := ⟨hname.nul_free, [], rfl⟩
  unfold pathMax at hlen
  have hjoin := pathJoin_spec junk hdir hbase (by omega)
  rwa [joinSep_dirPart h] at hjoin

/-- For a regular file, `path_extract` gives the directory or the name if only one of them
    is asked for.  Asked for both, it gives the same two, of which `path_join` makes the
    path, exactly when the file has the name of its directory. -/
theorem pathExtract_correct_iff {fs : FileSystem} {path : CString}
    (hreg : fs.isRegularFile path = true)
    (hreal : fs.realpath path = some (slashed (dirs ++ [name])))
    (hcanon : ∀ d ∈ dirs ++ [name], IsComponent d)
    (hlen : (slashed (dirs ++ [name])).length < pathMax) (junk : Nat → Int8) :
    ∃ dir base,
      pathExtract fs (some path) true false = (0, .str (dirPart dirs), .unset) ∧
      pathExtract fs (some path) false true = (0, .unset, .str name) ∧
      pathExtract fs (some path) true true = (0, .str dir, .str base) ∧
      ((dir = dirPart dirs ∧ base = name ∧ ∃ out, JoinsTo junk (some (dir ++ [0])) (base ++ [0])
        out (slashed (dirs ++ [name]))) ↔ dirs.getLast? = some name) := by
  obtain ⟨hdirs, hname⟩ := components_concat hcanon
  refine ⟨dirPart dirs, lastPart dirs, ?_, ?_, ?_, ?_⟩
  · simp [pathExtract, hreg, hreal, dirname_slashed hcanon]
  · simp [pathExtract, hreg, hreal, basename_slashed hcanon]
  · -- `basename` gets the path that `dirname` has cut
    simp [pathExtract, hreg, hreal, dirname_slashed hcanon, basename_dirPart hdirs]
  · rw [← lastPart_eq_iff hname]
    constructor
    · rintro ⟨_, hbase, _⟩
      exact hbase
    · intro hbase
      rw [hbase]
      exact ⟨rfl, rfl, pathJoin_dirPart hcanon hlen junk⟩

/-- A file system where every path leads to the file `rpath`. -/
def oneFile (rpath : List Int8) : FileSystem := ⟨fun _ => true, fun _ => some rpath⟩

/-- The file `/a/a`. -/
theorem pathExtract_correct_iff_same : ∃ dir base,
    pathExtract (oneFile [47, 97, 47, 97]) (some ⟨[97], by decide⟩) true false =
      (0, .str [47, 97], .unset) ∧
    pathExtract (oneFile [47, 97, 47, 97]) (some ⟨[97], by decide⟩) false true =
      (0, .unset, .str [97]) ∧
    pathExtract (oneFile [47, 97, 47, 97]) (some ⟨[97], by decide⟩) true true =
      (0, .str dir, .str base) ∧
    ((dir = [47, 97] ∧ base = [97] ∧
      ∃ out, JoinsTo (fun _ => 7) (some (dir ++ [0])) (base ++ [0]) out [47, 97, 47, 97]) ↔
        ([[97]] : List (List Int8)).getLast? = some [97]) :=
  have hcomp : IsComponent [97] := ⟨by decide, by decide, by decide⟩
  @pathExtract_correct_iff [[97]] [97] _ _ rfl rfl (by simpa using hcomp) (by decide) _

/-- The name of the file `/a/b` is `b`, but `a` if the directory is asked for too, and the
    two outputs are then joined to `/a/a`. -/
theorem pathExtract_wrong_name :
    pathExtract (oneFile [47, 97, 47, 98]) (some ⟨[98], by decide⟩) false true =
      (0, .unset, .str [98]) ∧
    pathExtract (oneFile [47, 97, 47, 98]) (some ⟨[98], by decide⟩) true true =
      (0, .str [47, 97], .str [97]) ∧
    pathJoin (fun _ => 7) (some [47, 97, 0]) (some [97, 0]) = some (some [47, 97, 47, 97, 0]) := by
  exact ⟨by decide, by decide, by decide⟩

end Extract

end CUtils
