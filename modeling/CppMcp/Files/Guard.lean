/-
# The path guard

`validate_path` of `src/cpp_mcp/core/path_guard.py`, the barrier between a caller
and the file system: no `..` in what the caller gives, and after all symbolic links
have been resolved an existing path at or below one of the allowed roots.

`guardHolds_iff` says when it is one: whenever no symbolic link on the way stands in a
circle.  Where resolving runs into one, `os.path.realpath` does not fail but leaves a
path that may have symbolic links in it, and the checks that follow are made on that.
-/

import CppMcp.Files.Realpath

namespace CppMcp
namespace Files

open Py (Path components commonpath Plain)

/-- The exceptions that `validate_path` raises. -/
inductive GuardError where
  | pathViolation (message : String)
  | fileNotFound (message : String)
  | invalidArgument (message : String)
  deriving DecidableEq, Repr

/-- `_has_dotdot`. -/
def hasDotdot (raw : String) : Bool := (components raw).contains ".."

/-- `_under_any_root`. -/
def underAnyRoot (resolved : Path) (allowed_roots : List String) : Bool :=
  allowed_roots.any fun root => commonpath resolved.str root == some root

variable (h : Host)

/-- `os.path.realpath(os.path.abspath(raw))`. -/
def resolvedPath (raw : String) : Path := h.fs.realpath (h.abspath raw)

/-- `validate_path`. -/
def validatePath (raw : String) (allowed_roots : List String) (kind : String) :
    Except GuardError Path :=
  if raw = "" then .error (.pathViolation "Empty path is not allowed.")
  else if hasDotdot raw then
    .error (.pathViolation ("Path contains '..' traversal segment: " ++ Py.repr raw))
  else if !underAnyRoot (resolvedPath h raw) allowed_roots then
    .error (.pathViolation
      ("Path " ++ Py.repr raw ++ " resolves outside the configured allowed roots."))
  else if !h.fs.exists_ (resolvedPath h raw) then
    .error (.fileNotFound ("Path does not exist: " ++ Py.repr raw))
  else if kind = "dir" ∧ h.fs.isFile (resolvedPath h raw) then
    .error (.invalidArgument
      ("Expected a directory but got a regular file: " ++ Py.repr raw))
  else .ok (resolvedPath h raw)

/-- The path is one of the roots or stands below one, component by component. -/
def Under (allowed_roots : List String) (p : Path) : Prop :=
  ∃ root ∈ allowed_roots, root = Path.str (components root) ∧ components root <+: p

/-- **What a path that has been let through should be.** -/
structure Guarded (raw : String) (allowed_roots : List String) (p : Path) : Prop where
  no_dotdot : ".." ∉ components raw
  resolves : h.fs.Resolves (h.abspath raw) p
  linkFree : h.fs.LinkFree p
  isSome : (h.fs.lstat p).isSome
  under : Under allowed_roots p

/-- **What the guard is for:** everything it lets through is guarded, and `..` is
refused whatever the file system contains. -/
def GuardHolds (raw : String) (allowed_roots : List String) (kind : String) : Prop :=
  (∀ p, validatePath h raw allowed_roots kind = .ok p → Guarded h raw allowed_roots p) ∧
    (".." ∈ components raw →
      ∃ message, validatePath h raw allowed_roots kind = .error (.pathViolation message))

/-- The checks made on the path after `realpath`. -/
def Passes (fs : FileSystem) (allowed_roots : List String) (kind : String) (p : Path) : Prop :=
  underAnyRoot p allowed_roots = true ∧ fs.exists_ p = true ∧ ¬(kind = "dir" ∧ fs.isFile p = true)

variable {h}

/-- `_has_dotdot` asks whether `..` is one of the components. -/
theorem hasDotdot_iff {raw : String} : hasDotdot raw = true ↔ ".." ∈ components raw :=
  List.contains_iff_mem

/-- For a path of plain names, `os.path.commonpath` decides whether it is under one of the roots. -/
theorem underAnyRoot_iff {p : Path} (hp : ∀ c ∈ p, Plain c) {allowed_roots : List String} :
    underAnyRoot p allowed_roots = true ↔ Under allowed_roots p := by
  simp only [underAnyRoot, List.any_eq_true, beq_iff_eq, Py.commonpath_eq_root_iff hp, Under]

/-- **What `validate_path` lets through:** the path after `realpath`, if all checks
pass. -/
theorem validatePath_eq_ok_iff {raw : String} {allowed_roots : List String} {kind : String}
    {p : Path} :
    validatePath h raw allowed_roots kind = .ok p ↔
      raw ≠ "" ∧ ".." ∉ components raw ∧ Passes h.fs allowed_roots kind p ∧
        resolvedPath h raw = p := by
  unfold validatePath Passes
  rw [← hasDotdot_iff]
  split_ifs with h₁ h₂ h₃ h₄ h₅
  · exact ⟨fun h => absurd h (by simp), fun h => absurd h₁ h.1⟩
  · exact ⟨fun h => absurd h (by simp), fun h => absurd h₂ h.2.1⟩
  · refine ⟨fun h => absurd h (by simp), ?_⟩
    rintro ⟨-, -, ⟨hu, -, -⟩, rfl⟩
    rw [hu] at h₃
    exact absurd h₃ (by simp)
  · refine ⟨fun h => absurd h (by simp), ?_⟩
    rintro ⟨-, -, ⟨-, hx, -⟩, rfl⟩
    rw [hx] at h₄
    exact absurd h₄ (by simp)
  · refine ⟨fun h => absurd h (by simp), ?_⟩
    rintro ⟨-, -, ⟨-, -, hk⟩, rfl⟩
    exact absurd h₅ hk
  · rw [Except.ok.injEq]
    constructor
    · rintro rfl
      exact ⟨h₁, h₂, ⟨by simpa using h₃, by simpa using h₄, h₅⟩, rfl⟩
    · exact fun h => h.2.2.2

/-- A path with a component `..` is refused, whatever there is in the file system. -/
theorem validatePath_of_dotdot {raw : String} (hdot : ".." ∈ components raw)
    (allowed_roots : List String) (kind : String) :
    ∃ message, validatePath h raw allowed_roots kind = .error (.pathViolation message) := by
  unfold validatePath
  split_ifs with h₁ h₂
  · exact ⟨_, rfl⟩
  · exact ⟨_, rfl⟩
  all_goals exact absurd (hasDotdot_iff.mpr hdot) h₂

/-- A path that resolves is guarded when it passes: the checks after `realpath` are then made on a
path without symbolic links. -/
theorem guarded_of_resolves {raw : String} {allowed_roots : List String} {kind : String}
    {p : Path} (hr : h.fs.Resolves (h.abspath raw) p)
    (hdot : ".." ∉ components raw) (hpass : Passes h.fs allowed_roots kind p) :
    Guarded h raw allowed_roots p := by
  obtain ⟨hfree, hplain⟩ := hr.linkFree fun c hc => (h.plain_abspath raw c hc).2.2.2
  obtain ⟨k, hk⟩ := Option.isSome_iff_exists.mp hpass.2.1
  exact
    { no_dotdot := hdot
      resolves := hr
      linkFree := hfree
      isSome := by rw [hfree.stat_eq hplain hk]; rfl
      under := (underAnyRoot_iff hplain).mp hpass.1 }

/-- **When the guard holds:** when no symbolic link on the way stands in a circle, or the path
is refused before or after resolving.  Otherwise a link has been met whose target leads back to
it, and what `realpath` left there passes the checks. -/
theorem guardHolds_iff (h : Host) (raw : String) (allowed_roots : List String) (kind : String) :
    GuardHolds h raw allowed_roots kind ↔
      h.fs.CircleFree (h.abspath raw) ∨ raw = "" ∨ ".." ∈ components raw ∨
        ¬Passes h.fs allowed_roots kind (resolvedPath h raw) := by
  rw [← FileSystem.exists_resolves_iff]
  constructor
  · intro hg
    by_contra hcon
    simp only [not_or, not_not] at hcon
    obtain ⟨hloop, hne, hdot, hpass⟩ := hcon
    have hok := validatePath_eq_ok_iff.mpr ⟨hne, hdot, hpass, rfl⟩
    exact hloop ⟨_, (hg.1 _ hok).resolves⟩
  · intro hcond
    refine ⟨fun p hok => ?_, fun hdot => validatePath_of_dotdot hdot allowed_roots kind⟩
    obtain ⟨hne, hdot, hpass, rfl⟩ := validatePath_eq_ok_iff.mp hok
    rcases hcond with ⟨p, hr⟩ | hempty | hdot' | hrej
    · have hp : resolvedPath h raw = p :=
        FileSystem.realpath_of_resolves hr fun c hc => (h.plain_abspath raw c hc).2.2.2
      rw [hp] at hpass ⊢
      exact guarded_of_resolves hr hdot hpass
    · exact absurd hempty hne
    · exact absurd hdot' hdot
    · exact absurd hpass hrej

/-- In `/root` a link that leads to itself, one that leads outside, and one whose
target goes through both. -/
def loopHost : Host where
  fs :=
    { entries := [(["root"], .dir), (["root", "loop"], .link "loop"), (["root", "out"], .link "/out"),
        (["root", "x"], .link "loop/../out/secret"), (["out"], .dir), (["out", "secret"], .file)]
      nodup := by decide
      plain := by decide
      below := by decide }
  cwd := []
  cwd_dir := rfl

/-- **A loop opens the guard:** a path is let through that has a symbolic link in it
and leads out of the only root. -/
theorem loopHost_not_guarded :
    validatePath loopHost "/root/x" ["/root"] "file" = .ok ["root", "out", "secret"] ∧
      loopHost.fs.target ["root", "out", "secret"] = some ["out", "secret"] ∧
      ¬GuardHolds loopHost "/root/x" ["/root"] "file" := by
  have hok : validatePath loopHost "/root/x" ["/root"] "file" =
      .ok ["root", "out", "secret"] := by decide +kernel
  refine ⟨hok, by decide +kernel, fun hg => ?_⟩
  exact (hg.1 _ hok).linkFree ["root", "out"] ⟨["secret"], rfl⟩ "/out" rfl

end Files
end CppMcp
