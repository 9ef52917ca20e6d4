import CUtils.Native.Tokens
import Mathlib.Data.List.DropRight

/-!
# Paths

`path_join` and `path_extract` of `file.c`.  A pointer to a string is the object that
starts there; a read or a store outside of an object faults (`none`).
-/

namespace CUtils

/-- `PATH_SEP`. -/
def pathSep : Int8 := 47

/-- `PATH_MAX`, the size of the buffer for a canonical path. -/
def pathMax : Nat := 4096

/-- `memcpy(obj + off, src, n)` of characters. -/
def memcpyChars (obj : List Int8) (off : Nat) (src : List Int8) (n : Nat) : Option (List Int8) :=
  (readAt src 0 n).bind (writeAt obj off)

/-- A successful `safe_malloc(n)` of characters, which are arbitrary. -/
def safeMallocChars (junk : Nat → Int8) (n : Nat) : List Int8 := (List.range n).map junk

/-- A successful `safe_strdup(s)`. -/
def safeStrdup (s : List Int8) : Option (List Int8) := do
  let len ← strlen s
  readAt s 0 (len + 1)

/-- `p1 == NULL ? 0 : strlen(p1)`. -/
def strlenOrZero (p1 : Option (List Int8)) : Option Nat :=
  match p1 with
  | none => some 0
  | some p1 => strlen p1

/-- `if (p1) memcpy(path, p1, n)`. -/
def memcpyIf (path : List Int8) (p1 : Option (List Int8)) (n : Nat) : Option (List Int8) :=
  match p1 with
  | none => some path
  | some p1 => memcpyChars path 0 p1 n

/-- `p1_len && path[p1_len - 1] != PATH_SEP`. -/
def needsSep (path : List Int8) (p1Len : Nat) : Option Bool :=
  if p1Len = 0 then some false else path[p1Len - 1]?.map fun c => decide (c ≠ pathSep)

/-- `path_join(p1, p2)`. -/
def pathJoin (junk : Nat → Int8) (p1 p2 : Option (List Int8)) : Option (Option (List Int8)) :=
  match p2 with
  | none => some none
  | some p2 => do
    let c ← p2[0]?
    if c = pathSep then
      let path ← safeStrdup p2
      return some path
    else
      let p1Len ← strlenOrZero p1
      let p2Len ← strlen p2
      let path := safeMallocChars junk (castSize (p1Len + p2Len + 2))
      let path ← memcpyIf path p1 p1Len
      let sep ← needsSep path p1Len
      if sep then
        let path ← writeAt path p1Len [pathSep]
        let path ← memcpyChars path (p1Len + 1) p2 p2Len
        let path ← writeAt path (p1Len + 1 + p2Len) [0]
        return some path
      else
        let path ← memcpyChars path p1Len p2 p2Len
        let path ← writeAt path (p1Len + p2Len) [0]
        return some path

/-! ## path_extract -/

/-- A separator. -/
def isPathSep (c : Int8) : Bool := c = pathSep

/-- `dirname(path)` from the C library: the string in the argument after the call, and the
    result.  The result is the argument, which is cut, or the constant `"."`. -/
def dirname (path : List Int8) : List Int8 × List Int8 :=
  -- a trailing separator is not part of the name
  let name := path.rdropWhile isPathSep
  if name = [] then
    if path = [] then (path, [46]) else ([pathSep], [pathSep])
  else if pathSep ∉ name then
    (path, [46])
  else
    let dir := (name.rdropWhile fun c => !isPathSep c).rdropWhile isPathSep
    if dir = [] then ([pathSep], [pathSep]) else (dir, dir)

/-- `basename(path)` from the C library: the result. -/
def basename (path : List Int8) : List Int8 :=
  let name := path.rdropWhile isPathSep
  if name = [] then
    if path = [] then [46] else [pathSep]
  else
    name.rtakeWhile fun c => !isPathSep c

/-- What the library says of a path: `is_regular_file(path)`, and the string that
    `realpath(path, ..)` stores, if it succeeds. -/
structure FileSystem where
  isRegularFile : CString → Bool
  realpath : CString → Option (List Int8)

/-- What an output of `path_extract` points to after the call; `unset` is one that is not
    written. -/
inductive PathOut
  | unset
  | null
  | str (s : List Int8)
deriving DecidableEq

/-- `path_extract(path, dir_name, base_name)`, where an output may be NULL: the result and
    the two outputs.  Neither `dirname` nor `basename` returns NULL. -/
def pathExtract (fs : FileSystem) (path : Option CString) (dirName baseName : Bool) :
    Int × PathOut × PathOut :=
  match path with
  | none => (-1, .unset, .unset)
  | some path =>
    if ¬fs.isRegularFile path then
      (-1, .unset, .unset)
    else
      match fs.realpath path with
      | none => (-1, if dirName then .null else .unset, if baseName then .null else .unset)
      | some rpath =>
        -- `dirname` is called on `rpath`, not on its copy
        let (rpath, dir) :=
          if dirName then
            let (rpath, dname) := dirname rpath
            (rpath, PathOut.str dname)
          else (rpath, .unset)
        let base := if baseName then PathOut.str (basename rpath) else .unset
        (0, dir, base)

end CUtils
