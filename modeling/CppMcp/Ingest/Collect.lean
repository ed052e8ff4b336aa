/-
# The files of an ingest run

`collect_cpp_files` of `src/cpp_mcp/graphdb/exporter.py`.

`Listed` says which paths a directory's listing should have; it does without the
order and the two ways of listing.  `mem_collectCppFiles_iff` connects the two.
-/

import CppMcp.Files.Realpath
import Mathlib.Data.List.Sort

namespace CppMcp
namespace Ingest

open Py (Path Plain)
open Files (FileSystem Kind)

/-- `CPP_EXTENSIONS`. -/
def CPP_EXTENSIONS : List String := [".cpp", ".h", ".hpp", ".cc", ".cxx"]

/-- `path.suffix in CPP_EXTENSIONS`. -/
def hasCppSuffix (path : Path) : Bool := CPP_EXTENSIONS.contains (Py.suffix (path.getLastD ""))

/-- `sorted` of paths, which compare by their components. -/
def sortedPaths (paths : List Path) : List Path := paths.insertionSort fun p q => ¬q < p

/-- `collect_cpp_files`; `none` is the `OSError` of a path that cannot be listed. -/
def collectCppFiles (fs : FileSystem) (path : Path) (recursive : Bool) : Option (List Path) :=
  if fs.isFile path then some (if hasCppSuffix path then [path] else [])
  else if recursive then
    some (sortedPaths ((fs.rglob path).filter fun p => fs.isFile p && hasCppSuffix p))
  else
    (fs.iterdir path).map fun paths =>
      sortedPaths (paths.filter fun p => fs.isFile p && hasCppSuffix p)

/-- **A C++ file in a directory:** an entry below the directory that `path` leads to,
directly below it unless the listing is recursive.  It may be a symbolic link, but what
it leads to is a regular file. -/
structure Listed (fs : FileSystem) (path : Path) (recursive : Bool) (f : Path) : Prop where
  below : ∃ dir rel, fs.target path = some dir ∧ dir ++ rel ∈ fs.entries.map Prod.fst ∧
    f = path ++ rel ∧ rel ≠ [] ∧ (recursive = false → rel.length = 1)
  isFile : fs.isFile f = true
  suffix : hasCppSuffix f = true

variable {fs : FileSystem} {path dir : Path}

/-- `iterdir` lists what is directly below the directory that the path leads to, under the path that
was asked for. -/
theorem mem_iterdir_iff {paths : List Path} (ht : fs.target path = some dir)
    (h : fs.iterdir path = some paths) {f : Path} :
    f ∈ paths ↔ ∃ rel, dir ++ rel ∈ fs.entries.map Prod.fst ∧ f = path ++ rel ∧ rel.length = 1 := by
  unfold FileSystem.iterdir at h
  rw [ht] at h
  dsimp only at h
  split_ifs at h
  obtain rfl := Option.some.inj h
  rw [List.mem_map]
  constructor
  · rintro ⟨e, he, rfl⟩
    obtain ⟨hmem, heq⟩ := List.mem_filter.mp he
    have heq : e.dropLast = dir := of_decide_eq_true heq
    obtain ⟨⟨e', k⟩, hentry, rfl⟩ := List.mem_map.mp hmem
    have hne : e' ≠ [] := (fs.below _ hentry).1
    have hsplit : e' = dir ++ [e'.getLast hne] := by
      rw [← heq, List.dropLast_append_getLast]
    refine ⟨[e'.getLast hne], ?_, ?_, rfl⟩
    · rw [← hsplit]
      exact hmem
    · conv_lhs => rw [hsplit, List.drop_left]
  · rintro ⟨rel, hmem, rfl, hlen⟩
    obtain ⟨name, rfl⟩ := List.length_eq_one_iff.mp hlen
    exact ⟨dir ++ [name], List.mem_filter.mpr ⟨hmem, by simp⟩, by rw [List.drop_left]⟩

/-- `rglob` lists all that is below the directory that the path leads to, under the path that was
asked for. -/
theorem mem_rglob_iff (ht : fs.target path = some dir) (hdir : fs.lstat dir = some .dir) {f : Path} :
    f ∈ fs.rglob path ↔ ∃ rel, dir ++ rel ∈ fs.entries.map Prod.fst ∧ f = path ++ rel ∧ rel ≠ [] := by
  unfold FileSystem.rglob
  rw [ht]
  dsimp only
  rw [if_pos hdir, List.mem_map]
  constructor
  · rintro ⟨e, he, rfl⟩
    obtain ⟨hmem, hpre⟩ := List.mem_filter.mp he
    obtain ⟨hpre, hne⟩ := (Bool.and_eq_true _ _).mp hpre
    obtain ⟨rel, rfl⟩ := List.isPrefixOf_iff_prefix.mp hpre
    refine ⟨rel, hmem, by rw [List.drop_left], ?_⟩
    rintro rfl
    exact absurd hne (by simp)
  · rintro ⟨rel, hmem, rfl, hne⟩
    refine ⟨dir ++ rel, List.mem_filter.mpr ⟨hmem, ?_⟩, by rw [List.drop_left]⟩
    simpa using hne

/-- **What is collected from a directory** are the files listed there. -/
theorem mem_collectCppFiles_iff (hdir : fs.stat path = some .dir) (recursive : Bool) :
    ∃ files, collectCppFiles fs path recursive = some files ∧
      ∀ f, f ∈ files ↔ Listed fs path recursive f := by
  obtain ⟨dir, ht, hl⟩ := Option.bind_eq_some_iff.mp hdir
  have hfile : ¬fs.isFile path = true := by rw [FileSystem.isFile, hdir]; decide
  unfold collectCppFiles
  rw [if_neg hfile]
  cases recursive with
  | true =>
    refine ⟨_, rfl, fun f => ?_⟩
    rw [sortedPaths, List.mem_insertionSort, List.mem_filter, mem_rglob_iff ht hl,
      Bool.and_eq_true]
    constructor
    · rintro ⟨⟨rel, hmem, rfl, hne⟩, hf, hs⟩
      exact ⟨⟨dir, rel, ht, hmem, rfl, hne, fun h => absurd h (by simp)⟩, hf, hs⟩
    · rintro ⟨⟨dir', rel, ht', hmem, rfl, hne, -⟩, hf, hs⟩
      obtain rfl := Option.some.inj (ht.symm.trans ht')
      exact ⟨⟨rel, hmem, rfl, hne⟩, hf, hs⟩
  | false =>
    obtain ⟨paths, hpaths⟩ : ∃ paths, fs.iterdir path = some paths := by
      unfold FileSystem.iterdir
      rw [ht]
      dsimp only
      rw [if_pos hl]
      exact ⟨_, rfl⟩
    rw [if_neg (by simp), hpaths, Option.map_some]
    refine ⟨_, rfl, fun f => ?_⟩
    rw [sortedPaths, List.mem_insertionSort, List.mem_filter, mem_iterdir_iff ht hpaths,
      Bool.and_eq_true]
    constructor
    · rintro ⟨⟨rel, hmem, rfl, hlen⟩, hf, hs⟩
      exact ⟨⟨dir, rel, ht, hmem, rfl, List.ne_nil_of_length_eq_add_one hlen, fun _ => hlen⟩, hf, hs⟩
    · rintro ⟨⟨dir', rel, ht', hmem, rfl, -, hlen⟩, hf, hs⟩
      obtain rfl := Option.some.inj (ht.symm.trans ht')
      exact ⟨⟨rel, hmem, rfl, hlen rfl⟩, hf, hs⟩

end Ingest
end CppMcp
