import CUtils.Native.Stdio

/-!
# Whole files

`read_binary_file`, `write_binary_file` and `file_read_all` of `file.c`.
-/

namespace CUtils

/-- `file_size(fp)`: the size and the stream, which is at its start again. -/
def fileSize (fp : Stream) : Nat × Stream :=
  let fp := fp.seek fp.content.length
  let size := castSize fp.tell
  (size, fp.seek 0)

/-- `read_binary_file(path, buf, size)`: the result, and `*buf` and `*size` if they are
    set. -/
def readBinaryFile (junk : Nat → UInt8) (disk : Disk) (path : List Int8) :
    Option (Int × Option (List UInt8 × Nat)) :=
  match disk.openRead path with
  | none => some (-1, none)
  | some fp => do
    let (size, fp) := fileSize fp
    let buf := safeMalloc junk size
    let (buf, n, fp) ← fp.fread buf 0 size 1
    let rc := if n ≠ 1 ∨ fp.err then -1 else 0
    return (rc, some (buf, size))

/-- `write_binary_file(path, buf, size)`. -/
def writeBinaryFile (disk : Disk) (path : List Int8) (buf : List UInt8) (size : Nat) :
    Option (Disk × Int) :=
  match disk.openWrite path with
  | none => some (disk, -1)
  | some disk => do
    let (disk, n) ← disk.fwrite path buf size 1
    let rc := if n ≠ 1 then -1 else 0
    return (disk, rc)

/-! ## file_read_all -/

/-- `2 * 1024L`, the first `chunk_size`. -/
def firstChunk : Nat := 2 * 1024

/-- Where the loop of `file_read_all` stops: the size has wrapped, or the last `fread` was
    short.  Then `data` is the buffer and `used` the number of bytes in it. -/
inductive ReadAll
  | overflow (inp : Stream)
  | stop (data : List UInt8) (used : Nat) (inp : Stream)

/-- The loop of `file_read_all`; a NULL `data` is the empty object. -/
def fileReadAllLoop (junk : Nat → UInt8) :
    Nat → List UInt8 → Nat → Nat → Nat → Stream → Option ReadAll
  | 0, _, _, _, _, _ => none
  | fuel + 1, data, size, used, chunkSize, inp =>
    let needed := castSize (used + chunkSize + 1)
    if needed > size ∧ needed ≤ used then
      some (.overflow inp)
    else do
      let (data, size) :=
        if needed > size then (safeRealloc junk data needed, needed) else (data, size)
      let (data, n, inp) ← inp.fread data used 1 chunkSize
      let used := castSize (used + n)
      if n < chunkSize then
        return .stop data used inp
      else
        fileReadAllLoop junk fuel data size used (castSize (chunkSize * 2)) inp

/-- `file_read_all(in, dataptr, sizeptr)`, where a pointer is NULL or leads to a value: the
    result, `*dataptr`, `*sizeptr` and the stream. -/
def fileReadAll (junk : Nat → UInt8) (fuel : Nat) (inp : Option Stream)
    (dataptr : Option (List UInt8)) (sizeptr : Option Nat) :
    Option (Int × Option (List UInt8) × Option Nat × Option Stream) :=
  match inp, dataptr, sizeptr with
  | some inp, some _, some _ =>
    if inp.err then
      some (-1, dataptr, sizeptr, some inp)
    else do
      match ← fileReadAllLoop junk fuel [] 0 0 firstChunk inp with
      | .overflow inp => return (-1, dataptr, sizeptr, some inp)
      | .stop data used inp =>
        if inp.err ∨ ¬inp.eof then
          return (-1, dataptr, sizeptr, some inp)
        else
          let data := safeRealloc junk data (castSize (used + 1))
          let data ← writeAt data used [0]
          return (0, some data, some used, some inp)
  | _, _, _ => some (-1, dataptr, sizeptr, inp)

end CUtils
