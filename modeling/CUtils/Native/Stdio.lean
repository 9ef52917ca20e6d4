import CUtils.Native.Utils
import Mathlib.Logic.Function.Basic

/-!
# Streams and the files of a disk

What the functions of stdio do to a file that is open for reading or for writing.  A
stream that is read knows the whole file and the place it has reached.
-/

namespace CUtils

/-- A stream open for reading.  The bytes of `content` are followed by the end of the file
    or, if the stream `fails`, by a read error. -/
structure Stream where
  content : List UInt8
  pos : Nat
  fails : Bool
  eof : Bool
  err : Bool
  /-- the indicator is set at the end of the file only -/
  eof_end : eof = true → content.length ≤ pos ∧ fails = false

namespace Stream

/-- A file just opened. -/
def ofContent (content : List UInt8) (fails : Bool) : Stream where
  content := content
  pos := 0
  fails := fails
  eof := false
  err := false
  eof_end := nofun

/-- What is still to be read. -/
def rest (s : Stream) : List UInt8 := s.content.drop s.pos

/-- The stream after `n` of the bytes that are left. -/
def advance (s : Stream) (n : Nat) : Stream where
  content := s.content
  pos := s.pos + n
  fails := s.fails
  eof := s.eof
  err := s.err
  eof_end := by
    intro h
    obtain ⟨hle, hfails⟩ := s.eof_end h
    exact ⟨by omega, hfails⟩

/-- The stream after a read past the last byte: one of the indicators is set. -/
def exhaust (s : Stream) : Stream where
  content := s.content
  pos := s.content.length
  fails := s.fails
  eof := !s.fails
  err := s.err || s.fails
  eof_end := by
    intro h
    exact ⟨Nat.le_refl _, by simpa using h⟩

/-- Read `n` bytes; less are read at the end of the file or on an error only. -/
def read (s : Stream) (n : Nat) : List UInt8 × Stream :=
  if n ≤ s.rest.length then (s.rest.take n, s.advance n) else (s.rest, s.exhaust)

/-- `fseek(fp, pos, SEEK_SET)`; the end-of-file indicator is cleared. -/
def seek (s : Stream) (pos : Nat) : Stream where
  content := s.content
  pos := pos
  fails := s.fails
  eof := false
  err := s.err
  eof_end := nofun

/-- `ftell(fp)`, a `long`. -/
def tell (s : Stream) : Int := if s.pos < 2 ^ 63 then s.pos else -1

/-- `fgetc(fp)`; EOF is `none`. -/
def fgetc (s : Stream) : Option UInt8 × Stream :=
  let (bs, s) := s.read 1
  (bs.head?, s)

/-- `fread(obj + off, size, nmemb, fp)`: the object, the number of items and the stream.
    Nothing happens if there are no bytes to read. -/
def fread (s : Stream) (obj : List UInt8) (off size nmemb : Nat) :
    Option (List UInt8 × Nat × Stream) :=
  if size = 0 ∨ nmemb = 0 then
    some (obj, 0, s)
  else if obj.length < off + size * nmemb then
    none
  else
    let (bs, s) := s.read (size * nmemb)
    some (splice obj off bs, bs.length / size, s)

@[simp] theorem rest_ofContent (content : List UInt8) (fails : Bool) :
    (ofContent content fails).rest = content := rfl

@[simp] theorem fails_advance (s : Stream) (n : Nat) : (s.advance n).fails = s.fails := rfl

@[simp] theorem eof_advance (s : Stream) (n : Nat) : (s.advance n).eof = s.eof := rfl

@[simp] theorem err_advance (s : Stream) (n : Nat) : (s.advance n).err = s.err := rfl

@[simp] theorem eof_exhaust (s : Stream) : s.exhaust.eof = !s.fails := rfl

@[simp] theorem err_exhaust (s : Stream) : s.exhaust.err = (s.err || s.fails) := rfl

@[simp] theorem fails_exhaust (s : Stream) : s.exhaust.fails = s.fails := rfl

@[simp] theorem rest_advance (s : Stream) (n : Nat) : (s.advance n).rest = s.rest.drop n := by
  rw [rest, rest, advance, List.drop_drop]

@[simp] theorem rest_exhaust (s : Stream) : s.exhaust.rest = [] := List.drop_length

theorem read_of_le {s : Stream} {n : Nat} (h : n ≤ s.rest.length) :
    s.read n = (s.rest.take n, s.advance n) := if_pos h

theorem read_of_gt {s : Stream} {n : Nat} (h : s.rest.length < n) :
    s.read n = (s.rest, s.exhaust) := if_neg (by omega)

theorem length_read_le (s : Stream) (n : Nat) : (s.read n).1.length ≤ n := by
  unfold read
  split
  · rw [List.length_take]
    exact Nat.min_le_left ..
  · exact Nat.le_of_lt (Nat.lt_of_not_le ‹_›)

theorem fgetc_of_cons {s : Stream} {c : UInt8} {cs : List UInt8} (h : s.rest = c :: cs) :
    s.fgetc = (some c, s.advance 1) := by
  rw [fgetc, read_of_le (by rw [h, List.length_cons]; omega), h]
  rfl

theorem fgetc_of_nil {s : Stream} (h : s.rest = []) : s.fgetc = (none, s.exhaust) := by
  rw [fgetc, read_of_gt (by rw [h, List.length_nil]; omega), h]
  rfl

/-- The items of one byte are the bytes. -/
theorem fread_bytes {s : Stream} {obj : List UInt8} {off n : Nat} (hn : 0 < n)
    (hobj : off + n ≤ obj.length) :
    s.fread obj off 1 n =
      some (splice obj off (s.read n).1, (s.read n).1.length, (s.read n).2) := by
  rw [fread, if_neg (by omega), if_neg (by omega), Nat.one_mul]
  show some (splice obj off (s.read n).1, (s.read n).1.length / 1,
    (s.read n).2) = _
  rw [Nat.div_one]

/-- A single item. -/
theorem fread_item {s : Stream} {obj : List UInt8} {off n : Nat} (hn : 0 < n)
    (hobj : off + n ≤ obj.length) :
    s.fread obj off n 1 =
      some (splice obj off (s.read n).1, (s.read n).1.length / n, (s.read n).2) := by
  rw [fread, if_neg (by omega), if_neg (by omega), Nat.mul_one]

end Stream

/-! ## Files -/

/-- The files of a disk.  Opening or reading a path may fail, and a file holds no more than
    `capacity` bytes, a number that is an `off_t`. -/
structure Disk where
  files : List Int8 → Option (List UInt8)
  opens : List Int8 → Bool
  readFails : List Int8 → Bool
  capacity : Nat
  capacity_lt : capacity < 2 ^ 63

namespace Disk

/-- A disk without files, on which everything succeeds up to eight bytes. -/
def blank : Disk where
  files := fun _ => none
  opens := fun _ => true
  readFails := fun _ => false
  capacity := 8
  capacity_lt := by decide

/-- Replace the content of a file. -/
def setFile (disk : Disk) (path : List Int8) (content : List UInt8) : Disk :=
  { disk with files := Function.update disk.files path (some content) }

/-- `fopen(path, "rb")`; a file that is not there does not open. -/
def openRead (disk : Disk) (path : List Int8) : Option Stream :=
  if disk.opens path then
    (disk.files path).map fun content => Stream.ofContent content (disk.readFails path)
  else none

/-- `fopen(path, "wb")`: the file is empty then. -/
def openWrite (disk : Disk) (path : List Int8) : Option Disk :=
  if disk.opens path then some (disk.setFile path []) else none

/-- `fwrite(buf, size, nmemb, fp)` to the empty file `path`: the disk and the number of
    items. -/
def fwrite (disk : Disk) (path : List Int8) (buf : List UInt8) (size nmemb : Nat) :
    Option (Disk × Nat) :=
  if size = 0 ∨ nmemb = 0 then
    some (disk, 0)
  else do
    let bs ← readAt buf 0 (size * nmemb)
    let written := bs.take disk.capacity
    return (disk.setFile path written, written.length / size)

@[simp] theorem opens_setFile (disk : Disk) (path : List Int8) (content : List UInt8) :
    (disk.setFile path content).opens = disk.opens := rfl

@[simp] theorem readFails_setFile (disk : Disk) (path : List Int8) (content : List UInt8) :
    (disk.setFile path content).readFails = disk.readFails := rfl

@[simp] theorem capacity_setFile (disk : Disk) (path : List Int8) (content : List UInt8) :
    (disk.setFile path content).capacity = disk.capacity := rfl

@[simp] theorem files_setFile (disk : Disk) (path : List Int8) (content : List UInt8) :
    (disk.setFile path content).files path = some content := Function.update_self ..

end Disk

end CUtils
