import CUtils.Native.FileIo

/-!
# Files are read as a whole

The buffer of `file_read_all` always has room for the next chunk and a terminator, and each
chunk is as large as all the earlier ones and the first together.  The readers and writers
of binary files transfer a single item, so the size of the item must not be zero.

- `fileReadAll_correct`: every stream is read to its end, or to the error.
- `binaryFile_roundTrip_iff`: which buffers are read back from a file.
-/

namespace CUtils

/-! ## file_read_all -/

/-- One round: the buffer grows, and what is read follows what was read before. -/
theorem fileReadAllLoop_succ (junk : Nat → UInt8) {fuel used chunk : Nat} {data : List UInt8}
    {inp : Stream} (hchunk : 0 < chunk) (hbound : used + chunk + 1 < 2 ^ 64)
    (hsize : data.length ≤ used + chunk) :
    fileReadAllLoop junk (fuel + 1) data data.length used chunk inp =
      if (inp.read chunk).1.length < chunk then
        some (.stop (splice (safeRealloc junk data (used + chunk + 1)) used (inp.read chunk).1)
          (used + (inp.read chunk).1.length) (inp.read chunk).2)
      else
        fileReadAllLoop junk fuel
          (splice (safeRealloc junk data (used + chunk + 1)) used (inp.read chunk).1)
          (used + chunk + 1) (used + (inp.read chunk).1.length) (castSize (chunk * 2))
          (inp.read chunk).2 := by
  have hneeded : castSize (used + chunk + 1 : Int) = used + chunk + 1 :=
    castSize_eq (by omega) hbound
  have hread : (inp.read chunk).1.length ≤ chunk := inp.length_read_le chunk
  have hused : castSize (used + (inp.read chunk).1.length : Int) =
      used + (inp.read chunk).1.length := castSize_eq (by omega) (by omega)
  have hfread : inp.fread (safeRealloc junk data (used + chunk + 1)) used 1 chunk = _ :=
    Stream.fread_bytes hchunk (by rw [length_safeRealloc]; omega)
  rw [fileReadAllLoop, hneeded]
  simp only [gt_iff_lt, show data.length < used + chunk + 1 by omega,
    show ¬ used + chunk + 1 ≤ used by omega, and_false, if_false, if_true, hfread,
    Option.bind_eq_bind, Option.bind_some, Option.pure_def, hused]

/-- The chunks double, so there are at most 53 rounds. -/
theorem fileReadAllLoop_spec (junk : Nat → UInt8) {c data : List UInt8} {fuel k used : Nat}
    {inp : Stream} (hlen : c.length < 2 ^ 64 - 2048) (hfuel : 53 ≤ fuel + k)
    (hchunk : used + 2048 = 2048 * 2 ^ k) (hle : used ≤ c.length)
    (hdata : data.take used = c.take used) (hroom : used ≤ data.length)
    (hsize : data.length ≤ used + 1) (hrest : inp.rest = c.drop used) :
    ∃ data' inp', fileReadAllLoop junk fuel data data.length used (2048 * 2 ^ k) inp =
        some (.stop data' c.length inp') ∧
      data'.take c.length = c ∧ c.length < data'.length ∧
      inp'.eof = !inp.fails ∧ inp'.err = (inp.err || inp.fails) := by
  -- by induction on the rounds that are left
  induction fuel generalizing k used data inp with
  | zero =>
    have hpow : 2 ^ 53 ≤ 2 ^ k := Nat.pow_le_pow_right (by omega) (by omega)
    omega
  | succ fuel ih =>
    have hk : k < 53 := by
      by_contra hge
      have hpow : 2 ^ 53 ≤ 2 ^ k := Nat.pow_le_pow_right (by omega) (by omega)
      omega
    have hpow : 2 ^ k ≤ 2 ^ 52 := Nat.pow_le_pow_right (by omega) (by omega)
    have hlenRest : inp.rest.length = c.length - used := by rw [hrest, List.length_drop]
    rw [fileReadAllLoop_succ junk (by omega) (by omega) (by omega)]
    have hgrown : (safeRealloc junk data (used + 2048 * 2 ^ k + 1)).take used = data.take used :=
      take_safeRealloc junk (by omega) hroom
    have hlenGrown := length_safeRealloc junk data (used + 2048 * 2 ^ k + 1)
    by_cases hfull : 2048 * 2 ^ k ≤ inp.rest.length
    · -- a full chunk: the next one is twice as large
      rw [Stream.read_of_le hfull]
      have htake : (inp.rest.take (2048 * 2 ^ k)).length = 2048 * 2 ^ k :=
        List.length_take_of_le hfull
      have hin : used + (inp.rest.take (2048 * 2 ^ k)).length ≤
          (safeRealloc junk data (used + 2048 * 2 ^ k + 1)).length := by omega
      have hlenNew := (length_splice hin).trans hlenGrown
      have hdouble : castSize ((2048 * 2 ^ k : Nat) * 2 : Int) = 2048 * 2 ^ (k + 1) :=
        castSize_eq (by omega) (by omega)
      have hdata' := take_splice hin
      rw [htake, hgrown, hdata] at hdata'
      have hrest' : (inp.advance (2048 * 2 ^ k)).rest = c.drop (used + 2048 * 2 ^ k) := by
        rw [Stream.rest_advance, hrest, List.drop_drop]
      have hrec := ih (k := k + 1) (by omega) (by omega) (by omega)
        (by rw [hdata', hrest, ← List.take_add]) (by omega) (by omega) hrest'
      rw [hlenNew] at hrec
      simp only [htake, Nat.lt_irrefl, if_false, hdouble]
      exact hrec
    · -- a short count: everything is read
      rw [Stream.read_of_gt (Nat.lt_of_not_le hfull), if_pos (Nat.lt_of_not_le hfull)]
      have hin : used + inp.rest.length ≤
          (safeRealloc junk data (used + 2048 * 2 ^ k + 1)).length := by omega
      have hall : used + inp.rest.length = c.length := by omega
      have hdata' := take_splice hin
      rw [hall, hgrown, hdata, hrest, List.take_append_drop] at hdata'
      rw [hall, hrest]
      exact ⟨_, _, rfl, hdata', by rw [← hrest, length_splice hin]; omega, rfl, rfl⟩

/-- The terminator follows what was read. -/
theorem writeAt_terminator (junk : Nat → UInt8) {c data : List UInt8}
    (hdata : data.take c.length = c) (hroom : c.length < data.length) :
    writeAt (safeRealloc junk data (c.length + 1)) c.length [0] = some (c ++ [0]) := by
  have hlen := length_safeRealloc junk data (c.length + 1)
  have hin : c.length + [(0 : UInt8)].length ≤ (safeRealloc junk data (c.length + 1)).length := by
    rw [hlen]
    exact Nat.le_refl _
  have hkeep := take_safeRealloc junk (Nat.le_succ c.length) (Nat.le_of_lt hroom)
  rw [hdata] at hkeep
  have hdrop : (safeRealloc junk data (c.length + 1)).drop (c.length + 1) = [] :=
    List.drop_eq_nil_of_le (Nat.le_of_eq hlen)
  rw [writeAt_of_le hin, splice, hkeep, List.length_singleton, hdrop, List.append_nil]

/-- `file_read_all` reads everything up to the end of the file or the error. -/
theorem fileReadAll_correct (junk : Nat → UInt8) (inp : Stream) (data₀ : List UInt8)
    (size₀ : Nat) {fuel : Nat} (hfuel : 53 ≤ fuel) (hlen : inp.rest.length < 2 ^ 64 - 2048) :
    ∃ inp', fileReadAll junk fuel (some inp) (some data₀) (some size₀) = some
      (if inp.err ∨ inp.fails then (-1, some data₀, some size₀, some inp')
        else (0, some (inp.rest ++ [0]), some inp.rest.length, some inp')) := by
  by_cases herr : inp.err
  · -- the stream had failed before
    refine ⟨inp, ?_⟩
    simp [fileReadAll, herr]
  · obtain ⟨data, inp', hloop, hdata, hroom, heof, herr'⟩ :
        ∃ data inp', fileReadAllLoop junk fuel [] 0 0 firstChunk inp =
          some (.stop data inp.rest.length inp') ∧ _ ∧ _ ∧ _ ∧ _ :=
      fileReadAllLoop_spec junk (k := 0) hlen hfuel rfl (Nat.zero_le _) rfl (Nat.zero_le _)
        (Nat.zero_le _) rfl
    refine ⟨inp', ?_⟩
    have hused : castSize (inp.rest.length + 1 : Int) = inp.rest.length + 1 :=
      castSize_eq (by omega) (by omega)
    have hterm := writeAt_terminator junk hdata hroom
    -- the loop ends at the end of the file or at the error
    cases hfails : inp.fails with
    | true =>
      rw [hfails, Bool.not_true] at heof
      simp [fileReadAll, herr, hloop, heof]
    | false =>
      have herrEnd : inp'.err = false := by
        rw [herr', hfails]
        simpa using herr
      rw [hfails, Bool.not_false] at heof
      simp only [fileReadAll, herr, hloop, heof, herrEnd, hused, hterm,
        Option.bind_eq_bind, Option.bind_some, Option.pure_def, Bool.false_eq_true, if_false,
        not_true_eq_false, or_self]

theorem fileReadAll_correct_three :
    ∃ inp', fileReadAll (fun _ => 7) 53 (some (Stream.ofContent [1, 2, 3] false)) (some [9])
      (some 0) = some (0, some [1, 2, 3, 0], some 3, some inp') := by
  exact fileReadAll_correct (fun _ => 7) (Stream.ofContent [1, 2, 3] false) [9] 0
    (Nat.le_refl 53) (by decide)

/-! ## Binary files -/

/-- What is expected of `write_binary_file(path, b, n)` followed by
    `read_binary_file(path, buf, size)`. -/
def RoundTrip (junk : Nat → UInt8) (disk : Disk) (path : List Int8) (b : List UInt8) : Prop :=
  ∃ disk', writeBinaryFile disk path b b.length = some (disk', 0) ∧
    readBinaryFile junk disk' path = some (0, some (b, b.length))

/-- The size of a file is found by seeking. -/
theorem fileSize_eq {fp : Stream} (h : fp.content.length < 2 ^ 63) :
    fileSize fp = (fp.content.length, fp.seek 0) := by
  have htell : (fp.seek fp.content.length).tell = fp.content.length := if_pos h
  have hcast : castSize (fp.content.length : Int) = fp.content.length :=
    castSize_eq rfl (by omega)
  rw [fileSize, htell, hcast]
  rfl

theorem writeBinaryFile_of_ne {disk : Disk} {path : List Int8} {b : List UInt8}
    (hopen : disk.opens path = true) (hcap : b.length ≤ disk.capacity) (hb : b ≠ []) :
    ∃ disk', writeBinaryFile disk path b b.length = some (disk', 0) ∧
      disk'.files path = some b ∧ disk'.opens = disk.opens ∧ disk'.readFails = disk.readFails := by
  have hpos : 0 < b.length := List.length_pos_iff.mpr hb
  have hread : readAt b 0 b.length = some b := by
    rw [readAt_of_le (by omega), List.drop_zero, List.take_length]
  refine ⟨(disk.setFile path []).setFile path b, ?_, Disk.files_setFile .., rfl, rfl⟩
  simp [writeBinaryFile, Disk.openWrite, hopen, Disk.fwrite, hb, hread, List.take_of_length_le hcap,
    Nat.min_eq_right hcap, Nat.div_self hpos]

/-- No item is written if its size is zero. -/
theorem writeBinaryFile_nil {disk : Disk} {path : List Int8} (hopen : disk.opens path = true) :
    writeBinaryFile disk path [] 0 = some (disk.setFile path [], -1) := by
  simp [writeBinaryFile, Disk.openWrite, hopen, Disk.fwrite]

theorem readBinaryFile_of_ne (junk : Nat → UInt8) {disk : Disk} {path : List Int8} {b : List UInt8}
    (hopen : disk.opens path = true) (hfails : disk.readFails path = false)
    (hfile : disk.files path = some b) (hlen : b.length < 2 ^ 63) (hb : b ≠ []) :
    readBinaryFile junk disk path = some (0, some (b, b.length)) := by
  have hpos : 0 < b.length := List.length_pos_iff.mpr hb
  have hsize : fileSize (Stream.ofContent b false) =
      (b.length, (Stream.ofContent b false).seek 0) := fileSize_eq hlen
  have hrest : ((Stream.ofContent b false).seek 0).rest = b := rfl
  have hread : ((Stream.ofContent b false).seek 0).read b.length =
      (b, ((Stream.ofContent b false).seek 0).advance b.length) := by
    rw [Stream.read_of_le (Nat.le_of_eq (by rw [hrest])), hrest, List.take_length]
  have hfread : ((Stream.ofContent b false).seek 0).fread (safeMalloc junk b.length) 0
      b.length 1 = _ := Stream.fread_item hpos (by rw [length_safeMalloc]; omega)
  -- the item fills the object
  have hsplice : splice (safeMalloc junk b.length) 0 b = b := by
    rw [splice, List.take_zero, List.nil_append, Nat.zero_add]
    rw [List.drop_eq_nil_of_le (Nat.le_of_eq (length_safeMalloc ..)), List.append_nil]
  rw [hread] at hfread
  simp only [hsplice, Nat.div_self hpos] at hfread
  simp [readBinaryFile, Disk.openRead, hopen, hfails, hfile, hsize, hfread]
  rfl

/-- A buffer is read back from a file exactly if it is not empty, on a disk where nothing
    fails. -/
theorem binaryFile_roundTrip_iff (junk : Nat → UInt8) {disk : Disk} {path : List Int8}
    {b : List UInt8} (hopen : disk.opens path = true) (hfails : disk.readFails path = false)
    (hcap : b.length ≤ disk.capacity) : RoundTrip junk disk path b ↔ b ≠ [] := by
  constructor
  · rintro ⟨disk', hwrite, _⟩ rfl
    rw [List.length_nil, writeBinaryFile_nil hopen] at hwrite
    simp at hwrite
  · intro hb
    obtain ⟨disk', hwrite, hfile, hopens, hreadFails⟩ := writeBinaryFile_of_ne hopen hcap hb
    have hlt := disk.capacity_lt
    refine ⟨disk', hwrite, readBinaryFile_of_ne junk ?_ ?_ hfile (by omega) hb⟩
    · rw [hopens, hopen]
    · rw [hreadFails, hfails]

theorem binaryFile_roundTrip_iff_three :
    RoundTrip (fun _ => 7) Disk.blank [97] [1, 0, 255] ∧
      ¬ RoundTrip (fun _ => 7) Disk.blank [97] [] := by
  constructor
  · rw [binaryFile_roundTrip_iff (fun _ => 7) rfl rfl (by decide)]
    decide
  · rw [binaryFile_roundTrip_iff (fun _ => 7) rfl rfl (by decide)]
    decide

/-- The empty file is written and read, but both calls report an error. -/
theorem binaryFile_empty :
    ∃ disk', writeBinaryFile Disk.blank [97] [] 0 = some (disk', -1) ∧
      disk'.files [97] = some [] ∧
      readBinaryFile (fun _ => 7) disk' [97] = some (-1, some ([], 0)) ∧
      ¬ RoundTrip (fun _ => 7) Disk.blank [97] [] := by
  refine ⟨Disk.blank.setFile [97] [], rfl, rfl, rfl, ?_⟩
  rintro ⟨disk', hwrite, _⟩
  have hret : some (-1 : Int) = some 0 := congrArg (Option.map Prod.snd) hwrite
  cases hret

end CUtils
