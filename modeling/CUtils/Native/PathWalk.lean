import CUtils.ForStd.GrowArray
import CUtils.Native.File

/-!
# Walking a directory tree

`fs_path_walk` of `file.c`.  A pointer to a string is the object that starts there, so the
arrays `files` and `dirs` hold objects or NULL.  The loop over the pending directories takes
fuel.
-/

namespace CUtils

/-- `struct dirent`: `d_name`, and if `d_type` is DT_DIR. -/
structure DirEntry where
  name : CString
  isDir : Bool
deriving DecidableEq

/-- `"."`. -/
def dotName : CString := ⟨[46], by decide⟩

/-- `".."`. -/
def dotDotName : CString := ⟨[46, 46], by decide⟩

/-- The array of pointers. -/
abbrev PathArray := GrowArray (Option (List Int8))

/-- What the C library does: the entries of a directory, in the order of `readdir`, and what
    fresh memory holds.  A joined path is allocated once for each directory and name. -/
structure WalkEnv where
  opendir : List Int8 → Option (List DirEntry)
  junk : List Int8 → CString → Nat → Int8
  cellJunk : Nat → Option (List Int8)

/-- A successful `malloc(n)` of pointers, as many as fit. -/
def mallocCells (junk : Nat → Option (List Int8)) (n : Nat) : List (Option (List Int8)) :=
  (List.range (n / 8)).map junk

/-- `capacity <<= 1`, and a successful `realloc(cells, sizeof(char *) * capacity)`. -/
def growCells (junk : Nat → Option (List Int8)) (cells : List (Option (List Int8)))
    (capacity : Nat) : List (Option (List Int8)) × Nat :=
  let capacity := castSize (capacity * 2)
  let block := mallocCells junk (castSize (8 * capacity))
  (cells.take block.length ++ block.drop cells.length, capacity)

/-- The loop over the entries of the directory `root`: the arrays `files` and `dirs`. -/
def walkEntries (env : WalkEnv) (root : List Int8) :
    List DirEntry → PathArray → PathArray → Option (PathArray × PathArray)
  | [], files, dirs => some (files, dirs)
  | entry :: entries, files, dirs =>
    -- whatever is no directory is taken for a file
    if ¬entry.isDir then do
      let path ← pathJoin (env.junk root entry.name) (some root) (some (entry.name.chars ++ [0]))
      let files ← files.push (growCells env.cellJunk) path
      walkEntries env root entries files dirs
    else if strcmp entry.name (some dotName) = some 0 ∨
        strcmp entry.name (some dotDotName) = some 0 then
      walkEntries env root entries files dirs
    else do
      let path ← pathJoin (env.junk root entry.name) (some root) (some (entry.name.chars ++ [0]))
      let dirs ← dirs.push (growCells env.cellJunk) path
      walkEntries env root entries files dirs

/-- The loop over the pending directories: the array `files`, or `none` after
    `exit(EXIT_FAILURE)`. -/
def walkDirs (env : WalkEnv) : Nat → PathArray → PathArray → Option (Option PathArray)
  | 0, _, _ => none
  | fuel + 1, files, dirs =>
    if dirs.count > 0 then do
      let dirs := dirs.pop
      let root ← (← dirs.cells[dirs.count]?)
      match env.opendir (← cstrAt root 0) with
      -- the directory cannot be opened
      | none => return none
      | some entries =>
        let (files, dirs) ← walkEntries env root entries files dirs
        walkDirs env fuel files dirs
    else
      some (some files)

/-- `fs_path_walk(root_dir)`: the cells of the array, or `none` after `exit(EXIT_FAILURE)`.  Its
    `strdup` is one that succeeds. -/
def fsPathWalk (env : WalkEnv) (fuel : Nat) (rootDir : List Int8) :
    Option (Option (List (Option (List Int8)))) := do
  let files : PathArray := ⟨mallocCells env.cellJunk (8 * 32), 0, 32⟩
  let root ← safeStrdup rootDir
  let dirs ← writeAt (mallocCells env.cellJunk (8 * 32)) 0 [some root]
  match ← walkDirs env fuel files ⟨dirs, 1, 32⟩ with
  | none => return none
  | some files => return ← writeAt files.cells files.count [none]

end CUtils
