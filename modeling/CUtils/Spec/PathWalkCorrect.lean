import CUtils.Native.PathWalk
import CUtils.Spec.PathCorrect
import Mathlib.Data.List.Perm.Basic

/-!
# Every file of a directory tree is found

The pending directories are the part of the tree that is still to be walked: the paths of
their files, with the paths that were found, are the paths of the tree.  A directory is
replaced by its subdirectories, so the number of directories that are still to come gets
smaller with every round.

- `walkEntries_spec`: the entries of one directory.
- `walkDirs_spec`: all pending directories.
- `fsPathWalk_correct`: the array for a whole tree.
-/

namespace CUtils

/-! ## Directory trees -/

/-- What a directory contains: its entries one after the other. -/
inductive DirTree
  | nil
  | file (name : CString) (rest : DirTree)
  | dir (name : CString) (sub rest : DirTree)

/-- One entry of a directory, with what it contains. -/
inductive DirItem
  | dots (name : CString)
  | file (name : CString)
  | dir (name : CString) (sub : DirTree)

/-- What `readdir` returns for it. -/
def DirItem.entry : DirItem → DirEntry
  | .dots name => ⟨name, true⟩
  | .file name => ⟨name, false⟩
  | .dir name _ => ⟨name, true⟩

/-- The path of an entry of the directory `path`. -/
def entryPath (path : List Int8) (name : CString) : List Int8 :=
  List.joinSep pathSep path name.chars

namespace DirTree

def items : DirTree → List DirItem
  | nil => []
  | file name rest => .file name :: rest.items
  | dir name sub rest => .dir name sub :: rest.items

/-- For every regular file, the names that lead to it. -/
def files : DirTree → List (List CString)
  | nil => []
  | file name rest => [name] :: rest.files
  | dir name sub rest => sub.files.map (name :: ·) ++ rest.files

/-- The paths of the files: the names joined one after the other. -/
def paths (root : List Int8) (t : DirTree) : List (List Int8) :=
  t.files.map fun names => names.foldl entryPath root

/-- The number of directories in the tree. -/
def dirCount : DirTree → Nat
  | nil => 0
  | file _ rest => rest.dirCount
  | dir _ sub rest => sub.dirCount + 1 + rest.dirCount

/-- The number of subdirectories. -/
def subdirs : DirTree → Nat
  | nil => 0
  | file _ rest => rest.subdirs
  | dir _ _ rest => rest.subdirs + 1

/-- How many directories may be pending while one of the subdirectories is walked, besides
    the other ones. -/
def deeper : DirTree → Nat
  | nil => 0
  | file _ rest => rest.deeper
  | dir _ sub rest => max (sub.subdirs + sub.deeper) rest.deeper

/-- The characters that the longest path adds. -/
def reach : DirTree → Nat
  | nil => 0
  | file name rest => max (name.chars.length + 1) rest.reach
  | dir name sub rest => max (name.chars.length + 1 + sub.reach) rest.reach

/-- No directory is listed under one of the two names that every directory has. -/
def Proper : DirTree → Prop
  | nil => True
  | file _ rest => rest.Proper
  | dir name sub rest => name ≠ dotName ∧ name ≠ dotDotName ∧ sub.Proper ∧ rest.Proper

end DirTree

/-- The directory `path` lists the entries of `t` once each, in any order, and the two that
    every directory has. -/
def Listed (opendir : List Int8 → Option (List DirEntry)) (path : List Int8) (t : DirTree) :
    Prop :=
  ∃ entries, opendir path = some entries ∧
    entries.Perm ((.dots dotName :: .dots dotDotName :: t.items).map DirItem.entry)

/-- All subdirectories are listed as the tree has them. -/
def Stored (opendir : List Int8 → Option (List DirEntry)) : DirTree → List Int8 → Prop
  | .nil, _ => True
  | .file _ rest, path => Stored opendir rest path
  | .dir name sub rest, path => Listed opendir (entryPath path name) sub ∧
      Stored opendir sub (entryPath path name) ∧ Stored opendir rest path

/-- The sizes of all allocations are numbers of type `size_t`.  For a larger tree they cannot all
    succeed: 2^60 paths, and pointers to them, are more than the memory has addresses. -/
structure Fits (root : List Int8) (t : DirTree) : Prop where
  files : t.files.length < 2 ^ 60
  pending : t.subdirs + t.deeper < 2 ^ 60
  path : root.length + t.reach + 1 < 2 ^ 64

/-! ## The arrays -/

theorem length_mallocCells (junk : Nat → Option (List Int8)) (n : Nat) :
    (mallocCells junk (8 * n)).length = n := by
  rw [mallocCells, List.length_map, List.length_range, Nat.mul_div_cancel_left n (by omega)]

/-- A full block of pointers is replaced by one of twice the size. -/
theorem growCells_spec (junk : Nat → Option (List Int8)) {cells : List (Option (List Int8))}
    {capacity : Nat} (hpos : 0 < capacity) (hlt : capacity < 2 ^ 60)
    (hlen : cells.length = capacity) :
    (growCells junk cells capacity).1.take capacity = cells ∧
      (growCells junk cells capacity).1.length = (growCells junk cells capacity).2 ∧
      capacity < (growCells junk cells capacity).2 := by
  have hdouble : castSize (capacity * 2 : Int) = capacity * 2 := castSize_eq (by omega) (by omega)
  have hbytes : castSize (8 * (capacity * 2 : Nat) : Int) = 8 * (capacity * 2) :=
    castSize_eq (by omega) (by omega)
  have hblock := length_mallocCells junk (capacity * 2)
  have hall : cells.take (capacity * 2) = cells := List.take_of_length_le (by omega)
  simp only [growCells, hdouble, hbytes, hblock, hall]
  -- `realloc` keeps the cells and appends cells of any content
  refine ⟨?_, ?_, by omega⟩
  · rw [← hlen, List.take_left]
  · rw [List.length_append, List.length_drop, hblock, hlen]
    omega

/-- An array of pointers to the strings `xs`. -/
def HoldsStrings (a : PathArray) (xs : List (List Int8)) : Prop :=
  ∃ objs, a.Holds (objs.map some) ∧ List.Forall₂ (fun obj x => StrAt obj 0 x) objs xs

namespace HoldsStrings

variable {a : PathArray} {xs : List (List Int8)} {obj x : List Int8}

theorem push (junk : Nat → Option (List Int8)) (h : HoldsStrings a xs) (hx : StrAt obj 0 x)
    (hlt : xs.length + 1 < 2 ^ 60) :
    ∃ a', a.push (growCells junk) (some obj) = some a' ∧ HoldsStrings a' (xs ++ [x]) := by
  obtain ⟨objs, hholds, hstr⟩ := h
  have hlen : (objs.map some).length = xs.length := by
    rw [List.length_map, hstr.length_eq]
  obtain ⟨a', hpush, hholds'⟩ : ∃ a', a.push (growCells junk) (some obj) = some a' ∧
      a'.Holds (objs.map some ++ [some obj]) :=
    hholds.push fun hfull cells hcells => growCells_spec junk (by omega) (by omega) hcells
  refine ⟨a', hpush, objs ++ [obj], ?_, List.rel_append hstr (.cons hx .nil)⟩
  rwa [List.map_append]

theorem pop (h : HoldsStrings a (xs ++ [x])) :
    ∃ obj, a.pop.cells[a.pop.count]? = some (some obj) ∧ StrAt obj 0 x ∧
      HoldsStrings a.pop xs := by
  obtain ⟨objs, hholds, hstr⟩ := h
  -- the last object belongs to the last string
  have hrest := List.forall₂_take_append objs xs [x] hstr
  have hlast := List.forall₂_drop_append objs xs [x] hstr
  obtain ⟨obj, hobj⟩ : ∃ obj, objs.drop xs.length = [obj] := by
    rw [← List.length_eq_one_iff, hlast.length_eq, List.length_singleton]
  rw [hobj, List.forall₂_cons] at hlast
  rw [← List.take_append_drop xs.length objs, hobj, List.map_append] at hholds
  exact ⟨obj, hholds.pop.1, hlast.1, objs.take xs.length, hholds.pop.2, hrest⟩

end HoldsStrings

/-! ## One directory -/

namespace DirItem

/-- The path that the entry adds to `files`. -/
def file? (path : List Int8) : DirItem → Option (List Int8)
  | .file name => some (entryPath path name)
  | _ => none

/-- The directory that the entry adds to `dirs`. -/
def dir? (path : List Int8) : DirItem → Option (List Int8 × DirTree)
  | .dir name sub => some (entryPath path name, sub)
  | _ => none

/-- The name is one of the two exactly if the entry is one of the two, and joining it fits. -/
def Fits (path : List Int8) : DirItem → Prop
  | .dots name => name = dotName ∨ name = dotDotName
  | .file name => path.length + name.chars.length + 2 < 2 ^ 64
  | .dir name _ => name ≠ dotName ∧ name ≠ dotDotName ∧
      path.length + name.chars.length + 2 < 2 ^ 64

end DirItem

section Entries

variable (env : WalkEnv) {root path : List Int8} {name : CString} {found pending : List (List Int8)}
  {files dirs : PathArray}

/-- The path of an entry is stored behind the strings of an array. -/
theorem HoldsStrings.pushEntry {a : PathArray} {xs : List (List Int8)} (h : HoldsStrings a xs)
    (hroot : StrAt root 0 path) (hlen : path.length + name.chars.length + 2 < 2 ^ 64)
    (hlt : xs.length + 1 < 2 ^ 60) :
    ∃ obj a', pathJoin (env.junk root name) (some root) (some (name.chars ++ [0])) =
        some (some obj) ∧
      a.push (growCells env.cellJunk) (some obj) = some a' ∧
      HoldsStrings a' (xs ++ [entryPath path name]) := by
  have hname : StrAt (name.chars ++ [0]) 0 name.chars := ⟨name.nul_free, [], rfl⟩
  have hopt : OptStrAt (some root) path := hroot
  obtain ⟨obj, hjoin, hobj⟩ := pathJoin_spec (env.junk root name) hopt hname hlen
  obtain ⟨a', hpush, ha'⟩ := h.push env.cellJunk hobj hlt
  exact ⟨obj, a', hjoin, hpush, ha'⟩

/-- `"."` and `".."` are skipped. -/
theorem walkEntries_dots (h : name = dotName ∨ name = dotDotName) (entries : List DirEntry) :
    walkEntries env root ((DirItem.dots name).entry :: entries) files dirs =
      walkEntries env root entries files dirs := by
  have hdots : strcmp name (some dotName) = some 0 ∨ strcmp name (some dotDotName) = some 0 := by
    rw [strcmp_some_eq_zero_iff, strcmp_some_eq_zero_iff]
    exact h
  rw [walkEntries, if_neg (by simp [DirItem.entry]), DirItem.entry, if_pos hdots]

theorem walkEntries_file (dirs : PathArray) (hroot : StrAt root 0 path) (hfiles : HoldsStrings files found)
    (hlen : path.length + name.chars.length + 2 < 2 ^ 64) (hlt : found.length + 1 < 2 ^ 60)
    (entries : List DirEntry) :
    ∃ files', walkEntries env root ((DirItem.file name).entry :: entries) files dirs =
        walkEntries env root entries files' dirs ∧
      HoldsStrings files' (found ++ [entryPath path name]) := by
  obtain ⟨obj, files', hjoin, hpush, hfiles'⟩ := hfiles.pushEntry env hroot hlen hlt
  refine ⟨files', ?_, hfiles'⟩
  rw [walkEntries, if_pos (by simp [DirItem.entry]), DirItem.entry, hjoin, Option.bind_eq_bind,
    Option.bind_some, hpush, Option.bind_eq_bind, Option.bind_some]

theorem walkEntries_dir (files : PathArray) (sub : DirTree) (hroot : StrAt root 0 path)
    (hdirs : HoldsStrings dirs pending) (hdot : name ≠ dotName) (hdotdot : name ≠ dotDotName)
    (hlen : path.length + name.chars.length + 2 < 2 ^ 64) (hlt : pending.length + 1 < 2 ^ 60)
    (entries : List DirEntry) :
    ∃ dirs', walkEntries env root ((DirItem.dir name sub).entry :: entries) files dirs =
        walkEntries env root entries files dirs' ∧
      HoldsStrings dirs' (pending ++ [entryPath path name]) := by
  obtain ⟨obj, dirs', hjoin, hpush, hdirs'⟩ := hdirs.pushEntry env hroot hlen hlt
  have hdots : ¬ (strcmp name (some dotName) = some 0 ∨
      strcmp name (some dotDotName) = some 0) := by
    rw [strcmp_some_eq_zero_iff, strcmp_some_eq_zero_iff, not_or]
    exact ⟨hdot, hdotdot⟩
  refine ⟨dirs', ?_, hdirs'⟩
  rw [walkEntries, if_neg (by simp [DirItem.entry]), DirItem.entry, if_neg hdots, hjoin,
    Option.bind_eq_bind, Option.bind_some, hpush, Option.bind_eq_bind, Option.bind_some]

/-- The loop over the entries adds the files to `files` and the directories to `dirs`. -/
theorem walkEntries_spec (hroot : StrAt root 0 path) {cs : List DirItem}
    (hfits : ∀ c ∈ cs, c.Fits path) (hfiles : HoldsStrings files found)
    (hdirs : HoldsStrings dirs pending)
    (hnfiles : found.length + (cs.filterMap (DirItem.file? path)).length < 2 ^ 60)
    (hndirs : pending.length + (cs.filterMap (DirItem.dir? path)).length < 2 ^ 60) :
    ∃ files' dirs', walkEntries env root (cs.map DirItem.entry) files dirs =
        some (files', dirs') ∧
      HoldsStrings files' (found ++ cs.filterMap (DirItem.file? path)) ∧
      HoldsStrings dirs' (pending ++ (cs.filterMap (DirItem.dir? path)).map Prod.fst) := by
  -- both arrays grow behind what they hold, so they are arbitrary in the induction
  induction cs generalizing files dirs found pending with
  | nil => exact ⟨files, dirs, rfl, by simpa using hfiles, by simpa using hdirs⟩
  | cons c cs ih =>
    obtain ⟨hc, hcs⟩ := List.forall_mem_cons.mp hfits
    rw [List.map_cons]
    cases c with
    | dots name =>
      rw [walkEntries_dots env hc]
      exact ih hcs hfiles hdirs hnfiles hndirs
    | file name =>
      have hfile : (DirItem.file name :: cs).filterMap (DirItem.file? path) =
          entryPath path name :: cs.filterMap (DirItem.file? path) := rfl
      rw [hfile, List.length_cons] at hnfiles
      obtain ⟨files₁, hrun, hfiles₁⟩ := walkEntries_file env dirs hroot hfiles hc (by omega)
        (cs.map DirItem.entry)
      rw [hrun, hfile, List.append_cons]
      apply ih hcs hfiles₁ hdirs _ hndirs
      rw [List.length_append, List.length_singleton]
      omega
    | dir name sub =>
      obtain ⟨hdot, hdotdot, hlen⟩ := hc
      have hdir : (DirItem.dir name sub :: cs).filterMap (DirItem.dir? path) =
          (entryPath path name, sub) :: cs.filterMap (DirItem.dir? path) := rfl
      rw [hdir, List.length_cons] at hndirs
      obtain ⟨dirs₁, hrun, hdirs₁⟩ := walkEntries_dir env files sub hroot hdirs hdot hdotdot
        hlen (by omega) (cs.map DirItem.entry)
      rw [hrun, hdir, List.map_cons, List.append_cons]
      apply ih hcs hfiles hdirs₁ hnfiles
      rw [List.length_append, List.length_singleton]
      omega

end Entries

/-! ## A directory and its subdirectories -/

namespace DirTree

/-- The files of a directory itself. -/
def ownFiles (path : List Int8) (t : DirTree) : List (List Int8) :=
  t.items.filterMap (DirItem.file? path)

/-- The subdirectories of a directory. -/
def ownDirs (path : List Int8) (t : DirTree) : List (List Int8 × DirTree) :=
  t.items.filterMap (DirItem.dir? path)

section Own

variable (path : List Int8) (name : CString) (sub rest : DirTree)

@[simp] theorem ownFiles_file :
    (file name rest).ownFiles path = entryPath path name :: rest.ownFiles path := rfl

@[simp] theorem ownFiles_dir : (dir name sub rest).ownFiles path = rest.ownFiles path := rfl

@[simp] theorem ownDirs_file : (file name rest).ownDirs path = rest.ownDirs path := rfl

@[simp] theorem ownDirs_dir :
    (dir name sub rest).ownDirs path = (entryPath path name, sub) :: rest.ownDirs path := rfl

theorem paths_file : (file name rest).paths path = entryPath path name :: rest.paths path := rfl

theorem paths_dir : (dir name sub rest).paths path =
    sub.paths (entryPath path name) ++ rest.paths path := by
  rw [paths, paths, paths, files, List.map_append, List.map_map]
  rfl

end Own

/-- The files of a tree are those of the directory itself and of its subdirectories. -/
theorem paths_perm (path : List Int8) (t : DirTree) :
    (t.ownFiles path ++ (t.ownDirs path).flatMap fun q => q.2.paths q.1).Perm (t.paths path) := by
  induction t with
  | nil => exact .refl _
  | file name rest ih =>
    rw [ownFiles_file, ownDirs_file, paths_file]
    exact ih.cons _
  | dir name sub rest _ ih =>
    -- the files of the subdirectory go in front of those of the directory
    rw [ownFiles_dir, ownDirs_dir, paths_dir, List.flatMap_cons]
    exact List.perm_append_comm_assoc .. |>.trans (ih.append_left _)

theorem subdirs_eq (path : List Int8) (t : DirTree) : t.subdirs = (t.ownDirs path).length := by
  induction t with
  | nil => rfl
  | file name rest ih => exact ih
  | dir name sub rest _ ih => rw [subdirs, ih, ownDirs_dir, List.length_cons]

theorem le_deeper {path : List Int8} {t : DirTree} {q : List Int8 × DirTree}
    (h : q ∈ t.ownDirs path) : q.2.subdirs + q.2.deeper ≤ t.deeper := by
  induction t with
  | nil => cases h
  | file name rest ih => exact ih h
  | dir name sub rest _ ih =>
    rw [ownDirs_dir] at h
    -- the first subdirectory, or one of the others
    rcases List.mem_cons.mp h with rfl | h
    · exact Nat.le_max_left ..
    · exact le_trans (ih h) (Nat.le_max_right ..)

/-- An entry is reached by its directory. -/
theorem items_fit {path : List Int8} {t : DirTree} (hproper : t.Proper)
    (hpath : path.length + t.reach + 1 < 2 ^ 64) : ∀ c ∈ t.items, c.Fits path := by
  induction t with
  | nil => exact fun c hc => nomatch hc
  | file name rest ih =>
    rw [reach] at hpath
    rw [items, List.forall_mem_cons]
    refine ⟨?_, ih hproper (by omega)⟩
    show path.length + name.chars.length + 2 < 2 ^ 64
    omega
  | dir name sub rest _ ih =>
    obtain ⟨hdot, hdotdot, _, hrest⟩ := hproper
    rw [reach] at hpath
    rw [items, List.forall_mem_cons]
    exact ⟨⟨hdot, hdotdot, by omega⟩, ih hrest (by omega)⟩

end DirTree

/-- A pending directory: it is listed as the tree `q.2` has it. -/
structure WalkDir (opendir : List Int8 → Option (List DirEntry)) (q : List Int8 × DirTree) :
    Prop where
  listed : Listed opendir q.1 q.2
  stored : Stored opendir q.2 q.1
  proper : q.2.Proper
  path : q.1.length + q.2.reach + 1 < 2 ^ 64

/-- The subdirectories of a pending directory may be pending. -/
theorem walkDir_ownDirs {opendir : List Int8 → Option (List DirEntry)} {path : List Int8}
    {t : DirTree} (hstored : Stored opendir t path) (hproper : t.Proper)
    (hpath : path.length + t.reach + 1 < 2 ^ 64) : ∀ q ∈ t.ownDirs path, WalkDir opendir q := by
  induction t with
  | nil => exact fun q hq => nomatch hq
  | file name rest ih =>
    rw [DirTree.reach] at hpath
    exact ih hstored hproper (by omega)
  | dir name sub rest _ ih =>
    obtain ⟨hlisted, hsub, hrest⟩ := hstored
    obtain ⟨_, _, hproperSub, hproperRest⟩ := hproper
    rw [DirTree.reach] at hpath
    have hlen : (entryPath path name).length ≤ path.length + name.chars.length + 1 :=
      List.length_joinSep_le ..
    rw [DirTree.ownDirs_dir, List.forall_mem_cons]
    refine ⟨⟨hlisted, hsub, hproperSub, ?_⟩, ih hrest hproperRest (by omega)⟩
    show (entryPath path name).length + sub.reach + 1 < 2 ^ 64
    omega

/-- The listing of a directory as items. -/
theorem Listed.items {opendir : List Int8 → Option (List DirEntry)} {path : List Int8}
    {t : DirTree} (h : Listed opendir path t) :
    ∃ cs : List DirItem, opendir path = some (cs.map DirItem.entry) ∧
      cs.Perm (.dots dotName :: .dots dotDotName :: t.items) := by
  obtain ⟨entries, hopen, hperm⟩ := h
  obtain ⟨cs, rfl, hcs⟩ : Relation.Comp (· = List.map DirItem.entry ·) List.Perm entries
      (.dots dotName :: .dots dotDotName :: t.items) := by
    rw [List.eq_map_comp_perm]
    exact hperm
  exact ⟨cs, hopen, hcs⟩

/-! ## All pending directories -/

/-- The paths of the files in pending directories. -/
def pendingPaths (pending : List (List Int8 × DirTree)) : List (List Int8) :=
  pending.flatMap fun q => q.2.paths q.1

/-- The number of directories that are still to be walked. -/
def pendingCount : List (List Int8 × DirTree) → Nat
  | [] => 0
  | q :: pending => q.2.dirCount + 1 + pendingCount pending

theorem pendingPaths_append (ps qs : List (List Int8 × DirTree)) :
    pendingPaths (ps ++ qs) = pendingPaths ps ++ pendingPaths qs := List.flatMap_append

@[simp] theorem pendingPaths_singleton (path : List Int8) (t : DirTree) :
    pendingPaths [(path, t)] = t.paths path := by simp [pendingPaths]

theorem pendingCount_append (ps qs : List (List Int8 × DirTree)) :
    pendingCount (ps ++ qs) = pendingCount ps + pendingCount qs := by
  induction ps with
  | nil => rw [List.nil_append, pendingCount, Nat.zero_add]
  | cons q ps ih =>
    rw [List.cons_append, pendingCount, pendingCount, ih]
    omega

theorem pendingCount_perm {ps qs : List (List Int8 × DirTree)} (h : ps.Perm qs) :
    pendingCount ps = pendingCount qs := by
  induction h with
  | nil => rfl
  | cons q _ ih => rw [pendingCount, pendingCount, ih]
  | swap q r ps =>
    simp only [pendingCount]
    omega
  | trans _ _ ih₁ ih₂ => exact ih₁.trans ih₂

/-- The directories below a directory are its subdirectories and what is below them. -/
theorem pendingCount_ownDirs (path : List Int8) (t : DirTree) :
    pendingCount (t.ownDirs path) = t.dirCount := by
  induction t with
  | nil => rfl
  | file name rest ih => exact ih
  | dir name sub rest _ ih =>
    rw [DirTree.ownDirs_dir, pendingCount, ih]
    rfl

/-- Between two rounds: the strings in both arrays, and that the sizes of all later
    allocations fit. -/
structure WalkInv (opendir : List Int8 → Option (List DirEntry)) (files dirs : PathArray)
    (found : List (List Int8)) (pending : List (List Int8 × DirTree)) : Prop where
  files : HoldsStrings files found
  dirs : HoldsStrings dirs (pending.map Prod.fst)
  walk : ∀ q ∈ pending, WalkDir opendir q
  files_lt : found.length + (pendingPaths pending).length < 2 ^ 60
  pending_lt : ∀ i q, pending[i]? = some q → i + (q.2.subdirs + q.2.deeper) < 2 ^ 60

/-- One round: a directory is replaced by its subdirectories. -/
theorem WalkInv.step (env : WalkEnv) {files dirs : PathArray} {found : List (List Int8)}
    {pending : List (List Int8 × DirTree)} {path : List Int8} {t : DirTree}
    (h : WalkInv env.opendir files dirs found (pending ++ [(path, t)])) :
    ∃ root entries files' dirs' found' more,
      dirs.pop.cells[dirs.pop.count]? = some (some root) ∧ cstrAt root 0 = some path ∧
      env.opendir path = some entries ∧
      walkEntries env root entries files dirs.pop = some (files', dirs') ∧
      WalkInv env.opendir files' dirs' found' (pending ++ more) ∧
      (found' ++ pendingPaths more).Perm (found ++ t.paths path) ∧
      pendingCount more = t.dirCount := by
  obtain ⟨root, hread, hroot, hdirs⟩ : ∃ root, dirs.pop.cells[dirs.pop.count]? = some (some root) ∧
      StrAt root 0 path ∧ HoldsStrings dirs.pop (pending.map Prod.fst) := by
    apply HoldsStrings.pop
    have hall := h.dirs
    rwa [List.map_append] at hall
  have hwalk := h.walk (path, t) (List.mem_append_right _ (List.mem_singleton_self _))
  obtain ⟨cs, hopen, hcs⟩ := hwalk.listed.items
  -- the items in the order of the listing
  have hown : (cs.filterMap (DirItem.file? path)).Perm (t.ownFiles path) :=
    hcs.filterMap (DirItem.file? path)
  have hmore : (cs.filterMap (DirItem.dir? path)).Perm (t.ownDirs path) :=
    hcs.filterMap (DirItem.dir? path)
  have hfits : ∀ c ∈ cs, c.Fits path := by
    intro c hc
    rcases List.mem_cons.mp (hcs.mem_iff.mp hc) with rfl | hc
    · exact .inl rfl
    · rcases List.mem_cons.mp hc with rfl | hc
      · exact .inr rfl
      · exact DirTree.items_fit hwalk.proper hwalk.path c hc
  -- what the directory adds to both arrays, up to the order
  have hpaths : (cs.filterMap (DirItem.file? path) ++
      pendingPaths (cs.filterMap (DirItem.dir? path))).Perm (t.paths path) :=
    (hown.append (hmore.flatMap_right _)).trans (t.paths_perm path)
  have hlen := hpaths.length_eq
  rw [List.length_append] at hlen
  have hsubdirs : (cs.filterMap (DirItem.dir? path)).length = t.subdirs := by
    rw [hmore.length_eq, t.subdirs_eq path]
  have hfiles_lt := h.files_lt
  rw [pendingPaths_append, pendingPaths_singleton, List.length_append] at hfiles_lt
  -- the subdirectories fit behind the directories below
  have hpeak := h.pending_lt pending.length (path, t) List.getElem?_concat_length
  simp only at hpeak
  obtain ⟨files', dirs', hrun, hfiles', hdirs'⟩ := walkEntries_spec env hroot hfits h.files hdirs
    (by omega) (by rw [List.length_map]; omega)
  refine ⟨root, _, files', dirs', _, cs.filterMap (DirItem.dir? path), hread, hroot.cstrAt_eq,
    hopen, hrun, ⟨hfiles', ?_, ?_, ?_, ?_⟩, ?_, ?_⟩
  · rwa [List.map_append]
  · intro q hq
    rcases List.mem_append.mp hq with hq | hq
    · exact h.walk q (List.mem_append_left _ hq)
    · exact walkDir_ownDirs hwalk.stored hwalk.proper hwalk.path q (hmore.mem_iff.mp hq)
  · rw [pendingPaths_append, List.length_append, List.length_append]
    omega
  · intro i q hq
    by_cases hi : i < pending.length
    · rw [List.getElem?_append_left hi] at hq
      exact h.pending_lt i q (by rwa [List.getElem?_append_left hi])
    · -- a subdirectory takes the place of its directory, or a place behind it
      rw [List.getElem?_append_right (Nat.le_of_not_lt hi)] at hq
      have hlt := (List.getElem?_eq_some_iff.mp hq).1
      have hle := DirTree.le_deeper (hmore.mem_iff.mp (List.mem_of_getElem? hq))
      omega
  · rw [List.append_assoc]
    exact hpaths.append_left found
  · rw [pendingCount_perm hmore, pendingCount_ownDirs]

/-- Walking all pending directories finds all their files. -/
theorem walkDirs_spec (env : WalkEnv) {fuel : Nat} {files dirs : PathArray}
    {found : List (List Int8)} {pending : List (List Int8 × DirTree)}
    (h : WalkInv env.opendir files dirs found pending) (hfuel : pendingCount pending < fuel) :
    ∃ files' found', walkDirs env fuel files dirs = some (some files') ∧
      HoldsStrings files' found' ∧ found'.Perm (found ++ pendingPaths pending) := by
  -- the fuel stays above the number of directories that are still to come
  induction fuel generalizing files dirs found pending with
  | zero => exact absurd hfuel (Nat.not_lt_zero _)
  | succ fuel ih =>
    have hcount : dirs.count = pending.length := by
      obtain ⟨objs, hholds, hstr⟩ := h.dirs
      rw [hholds.count_eq, List.length_map, hstr.length_eq, List.length_map]
    rcases List.eq_nil_or_concat' pending with rfl | ⟨rest, ⟨path, t⟩, rfl⟩
    · -- nothing is pending
      rw [walkDirs, hcount, if_neg (by simp)]
      exact ⟨files, found, rfl, h.files, by simp [pendingPaths]⟩
    · obtain ⟨root, entries, files₁, dirs₁, found₁, more, hread, hroot, hopen, hrun, hinv, hperm,
        hmore⟩ := h.step
      have hone : pendingCount [(path, t)] = t.dirCount + 1 := by simp [pendingCount]
      rw [pendingCount_append, hone] at hfuel
      obtain ⟨files', found', hloop, hfiles', hfound'⟩ := ih hinv
        (by rw [pendingCount_append]; omega)
      refine ⟨files', found', ?_, hfiles', hfound'.trans ?_⟩
      · rw [walkDirs, if_pos (by rw [hcount, List.length_append, List.length_singleton]; omega)]
        simp only [hread, hroot, hopen, hrun, hloop, Option.bind_eq_bind, Option.bind_some]
      · rw [pendingPaths_append, pendingPaths_append, pendingPaths_singleton]
        -- the paths below the walked directory, behind the ones that are still pending
        apply (List.perm_append_comm_assoc ..).trans
        apply (hperm.append_left (pendingPaths rest)).trans
        exact List.perm_append_comm_assoc ..

/-! ## The whole tree -/

/-- A fresh block holds no string. -/
theorem holdsStrings_nil (junk : Nat → Option (List Int8)) {n : Nat} (hpos : 0 < n) :
    HoldsStrings ⟨mallocCells junk (8 * n), 0, n⟩ [] :=
  ⟨[], ⟨rfl, rfl, length_mallocCells junk n, hpos⟩, .nil⟩

/-- A string in the first cell of a fresh block. -/
theorem holdsStrings_first (junk : Nat → Option (List Int8)) {n : Nat} (hlt : 1 < n)
    {obj x : List Int8} (hx : StrAt obj 0 x) :
    ∃ cells, writeAt (mallocCells junk (8 * n)) 0 [some obj] = some cells ∧
      HoldsStrings ⟨cells, 1, n⟩ [x] := by
  have hin : 0 + [some obj].length ≤ (mallocCells junk (8 * n)).length := by
    rw [length_mallocCells, List.length_singleton]
    omega
  refine ⟨_, writeAt_of_le hin, [obj], ⟨rfl, ?_, ?_, hlt⟩, .cons hx .nil⟩
  · exact take_splice hin
  · rw [length_splice hin, length_mallocCells]

/-- The terminating NULL is stored in the free cell. -/
theorem HoldsStrings.terminate {a : PathArray} {xs : List (List Int8)} (h : HoldsStrings a xs) :
    ∃ objs tail, writeAt a.cells a.count [none] = some (objs.map some ++ none :: tail) ∧
      List.Forall₂ (fun obj x => StrAt obj 0 x) objs xs := by
  obtain ⟨objs, hholds, hstr⟩ := h
  have hin : a.count + [none (α := List Int8)].length ≤ a.cells.length := by
    rw [hholds.count_eq, hholds.length_eq, List.length_singleton]
    exact hholds.lt
  refine ⟨objs, a.cells.drop (a.count + 1), ?_, hstr⟩
  rw [writeAt_of_le hin, splice, hholds.count_eq, hholds.take_eq]
  rfl

/-- The first round starts with the root. -/
theorem walkInv_start {opendir : List Int8 → Option (List DirEntry)} {files dirs : PathArray}
    {root : List Int8} {t : DirTree} (hfiles : HoldsStrings files [])
    (hdirs : HoldsStrings dirs [root]) (hlisted : Listed opendir root t)
    (hstored : Stored opendir t root) (hproper : t.Proper) (hfits : Fits root t) :
    WalkInv opendir files dirs [] [(root, t)] where
  files := hfiles
  dirs := hdirs
  walk := by
    intro q hq
    obtain rfl := List.mem_singleton.mp hq
    exact ⟨hlisted, hstored, hproper, hfits.path⟩
  files_lt := by
    rw [pendingPaths_singleton, DirTree.paths, List.length_map, List.length_nil, Nat.zero_add]
    exact hfits.files
  pending_lt := by
    intro i q hq
    obtain ⟨hi, hget⟩ := List.getElem?_eq_some_iff.mp hq
    obtain rfl : i = 0 := Nat.lt_one_iff.mp hi
    obtain rfl : (root, t) = q := hget
    rw [Nat.zero_add]
    exact hfits.pending

/-- The array that `fs_path_walk` returns for a tree holds the path of each of its files once,
    and NULL behind them.  All stores are inside of the blocks. -/
theorem fsPathWalk_correct (env : WalkEnv) {rootDir root : List Int8} {t : DirTree}
    (hroot : StrAt rootDir 0 root) (hlisted : Listed env.opendir root t)
    (hstored : Stored env.opendir t root) (hproper : t.Proper) (hfits : Fits root t) {fuel : Nat}
    (hfuel : t.dirCount + 1 < fuel) :
    ∃ objs tail found,
      fsPathWalk env fuel rootDir = some (some (objs.map some ++ none :: tail)) ∧
      List.Forall₂ (fun obj x => StrAt obj 0 x) objs found ∧ found.Perm (t.paths root) := by
  obtain ⟨obj, hdup, hobj⟩ := safeStrdup_spec hroot
  obtain ⟨dirs, hfirst, hdirs⟩ := holdsStrings_first env.cellJunk (n := 32) (by omega) hobj
  have hfiles := holdsStrings_nil env.cellJunk (n := 32) (by omega)
  have hinv := walkInv_start hfiles hdirs hlisted hstored hproper hfits
  have hcount : pendingCount [(root, t)] = t.dirCount + 1 := by simp [pendingCount]
  obtain ⟨files, found, hwalk, hfound, hperm⟩ := walkDirs_spec env hinv (by rwa [hcount])
  -- there is a free cell for the NULL
  obtain ⟨objs, tail, hend, hstr⟩ := hfound.terminate
  refine ⟨objs, tail, found, ?_, hstr, ?_⟩
  · simp only [fsPathWalk, hdup, hfirst, hwalk, hend, Option.bind_eq_bind, Option.bind_some,
      Option.pure_def]
  · rwa [List.nil_append, pendingPaths_singleton] at hperm

/-- The directory `r` with the file `a` and the directory `d`, in which the file `b` is. -/
def twoFiles : DirTree :=
  .file ⟨[97], by decide⟩ (.dir ⟨[100], by decide⟩ (.file ⟨[98], by decide⟩ .nil) .nil)

def twoFilesEnv : WalkEnv where
  opendir path :=
    if path = [114] then
      some [⟨dotName, true⟩, ⟨⟨[100], by decide⟩, true⟩, ⟨dotDotName, true⟩,
        ⟨⟨[97], by decide⟩, false⟩]
    else if path = [114, 47, 100] then
      some [⟨dotName, true⟩, ⟨dotDotName, true⟩, ⟨⟨[98], by decide⟩, false⟩]
    else
      none
  junk _ _ _ := 7
  cellJunk _ := none

theorem fsPathWalk_correct_two : ∃ objs tail found,
    fsPathWalk twoFilesEnv 3 [114, 0] = some (some (objs.map some ++ none :: tail)) ∧
    List.Forall₂ (fun obj x => StrAt obj 0 x) objs found ∧
    found.Perm [[114, 47, 97], [114, 47, 100, 47, 98]] := by
  have hroot : StrAt [114, 0] 0 [114] := ⟨by decide, [], rfl⟩
  have hlisted : Listed twoFilesEnv.opendir [114] twoFiles := by
    refine ⟨_, rfl, ?_⟩
    show List.Perm [⟨dotName, true⟩, ⟨⟨[100], by decide⟩, true⟩, ⟨dotDotName, true⟩,
      ⟨⟨[97], by decide⟩, false⟩] (_ : List DirEntry)
    decide
  have hsub : Listed twoFilesEnv.opendir [114, 47, 100] (.file ⟨[98], by decide⟩ .nil) :=
    ⟨_, rfl, .refl _⟩
  exact fsPathWalk_correct twoFilesEnv hroot hlisted ⟨hsub, trivial, trivial⟩
    ⟨by decide, by decide, trivial, trivial⟩ ⟨by decide, by decide, by decide⟩ (by decide)

end CUtils
