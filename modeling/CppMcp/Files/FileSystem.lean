/-
# A file system with symbolic links

A finite set of entries, each with its path from the root: regular files,
directories, symbolic links with any target, and entries of other kinds.  Every
entry but the root stands in a directory, so a `FileSystem` is a tree.

`stat` is the kernel's walk along a path: it follows symbolic links, at most
`MAXSYMLINKS` of them, and fails where a component is missing or is not a directory.
On it rest `exists`, `isFile`, `iterdir` and `rglob`, the operations of `os.path` and
`pathlib` the server uses.
-/

import CppMcp.Py.Path

namespace CppMcp
namespace Files

open Py (Path isabs split Plain)

/-- What an entry is.  `other` is a device, a socket or a pipe. -/
inductive Kind where
  | file | dir | other | link (target : String)
  deriving DecidableEq, Repr

/-- The entries below the root. -/
structure FileSystem where
  entries : List (Path × Kind)
  nodup : (entries.map Prod.fst).Nodup
  plain : ∀ e ∈ entries, ∀ c ∈ e.1, Plain c
  below : ∀ e ∈ entries, e.1 ≠ [] ∧ (e.1.dropLast = [] ∨ (e.1.dropLast, .dir) ∈ entries)

namespace FileSystem

variable (fs : FileSystem)

/-- `os.lstat`: the entry at a path without symbolic links above its last component. -/
def lstat (p : Path) : Option Kind := if p = [] then some .dir else fs.entries.lookup p

/-- `os.readlink`, for an entry that is a symbolic link. -/
def readlink (p : Path) : Option String :=
  match fs.lstat p with
  | some (.link target) => some target
  | _ => none

/-- As many symbolic links the kernel follows along one path. -/
def MAXSYMLINKS : ℕ := 40

/-- The kernel's loop over the components; `follow` walks on behind a link. -/
def walkLoop (follow : Path → List String → Option Path) : Path → List String → Option Path
  | p, [] => some p
  | p, name :: rest =>
    if fs.lstat p ≠ some .dir then none
    else if name = "" ∨ name = "." then walkLoop follow p rest
    else if name = ".." then walkLoop follow p.dropLast rest
    else
      match fs.lstat (p ++ [name]) with
      | none => none
      | some (.link target) => follow (if isabs target then [] else p) (split target '/' ++ rest)
      | some _ => walkLoop follow (p ++ [name]) rest

/-- The kernel's walk, `links` of which may be followed. -/
def walk : ℕ → Path → List String → Option Path
  | 0 => fs.walkLoop fun _ _ => none
  | links + 1 => fs.walkLoop (walk links)

/-- The entry that a path leads to, as a path without symbolic links. -/
def target (p : Path) : Option Path := fs.walk MAXSYMLINKS [] p

/-- `os.stat`. -/
def stat (p : Path) : Option Kind := (fs.target p).bind fs.lstat

/-- `os.path.exists`. -/
def exists_ (p : Path) : Bool := (fs.stat p).isSome

/-- `Path.is_file`. -/
def isFile (p : Path) : Bool := fs.stat p == some .file

/-- `Path.iterdir`; `none` is the `OSError` where there is no directory. -/
def iterdir (p : Path) : Option (List Path) :=
  match fs.target p with
  | some q =>
    if fs.lstat q = some .dir then
      some (((fs.entries.map Prod.fst).filter fun e => e.dropLast = q).map fun e =>
        p ++ e.drop q.length)
    else none
  | none => none

/-- `Path.rglob("*")`: everything below a directory, without following the symbolic
links below it; nothing where there is no directory. -/
def rglob (p : Path) : List Path :=
  match fs.target p with
  | some q =>
    if fs.lstat q = some .dir then
      ((fs.entries.map Prod.fst).filter fun e => q.isPrefixOf e && e != q).map fun e =>
        p ++ e.drop q.length
    else []
  | none => []

/-! ### Paths without symbolic links -/

/-- No component of the path is a symbolic link. -/
def LinkFree (p : Path) : Prop := ∀ q, q <+: p → ∀ target, fs.lstat q ≠ some (.link target)

/-- The root is a directory, though no entry says so. -/
@[simp] theorem lstat_nil : fs.lstat [] = some .dir := rfl

/-- What is at a path other than the root is one of the entries. -/
theorem mem_of_lstat {p : Path} (hp : p ≠ []) {k : Kind} (h : fs.lstat p = some k) :
    (p, k) ∈ fs.entries := by
  rw [lstat, if_neg hp] at h
  obtain ⟨l₁, l₂, heq, -⟩ := List.lookup_eq_some_iff.mp h
  rw [heq]
  exact List.mem_append_right _ List.mem_cons_self

end FileSystem

/-- What the server runs on: a file system and its working directory in it. -/
structure Host where
  fs : FileSystem
  cwd : Path
  cwd_dir : fs.lstat cwd = some .dir

/-- The working directory is a path of plain names. -/
theorem Host.plain_cwd (h : Host) : ∀ c ∈ h.cwd, Plain c := by
  by_cases hp : h.cwd = []
  · rw [hp]
    exact fun _ hc => absurd hc List.not_mem_nil
  · exact h.fs.plain _ (h.fs.mem_of_lstat hp h.cwd_dir)

/-- `os.path.abspath` of a path given to the server. -/
def Host.abspath (h : Host) (path : String) : Path := Py.abspath h.cwd path

/-- An absolute path, as `os.path.abspath` makes it, consists of plain names: it is normalised. -/
theorem Host.plain_abspath (h : Host) (path : String) : ∀ c ∈ h.abspath path, Plain c := by
  refine Py.plain_normpath fun c hc => ?_
  split_ifs at hc
  · exact Py.slash_not_mem_split hc
  · rcases List.mem_append.mp hc with hc | hc
    · exact (h.plain_cwd c hc).2.2.2
    · exact Py.slash_not_mem_split hc

end Files
end CppMcp
