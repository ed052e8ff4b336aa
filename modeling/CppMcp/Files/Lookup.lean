/-
# What the path guard lets through

A path given to the server is looked up by the kernel as it stands, from the root or from the
working directory.  The guard normalises it first, which without `..` leads to the same place
(`target_normpath`), and then resolves it.  So an existing path is refused only because none of
the roots, as they are spelled, is found in front of it: `complete_iff` says for which roots
nothing that is inside them is refused.
-/

import CppMcp.Files.Guard

namespace CppMcp
namespace Files

open Py (Path components split isabs Plain normpath)

/-- The parts of a path string between slashes, behind those of the working directory unless the
path is absolute. -/
def Host.parts (h : Host) (path : String) : List String :=
  if isabs path then split path '/' else h.cwd ++ split path '/'

/-- What a path string names for the kernel; the empty one names nothing. -/
def Host.lookup (h : Host) (path : String) : Option Path :=
  if path = "" then none else h.fs.target (h.parts path)

/-- `os.path.isdir`. -/
def Host.isdir (h : Host) (path : String) : Bool := (h.lookup path).bind h.fs.lstat == some .dir

/-- `os.path.abspath` normalises the parts of the path, those of the working directory before them
if it is relative. -/
theorem Host.abspath_eq (h : Host) (path : String) : h.abspath path = normpath (h.parts path) := rfl

namespace FileSystem

variable {fs : FileSystem}

/-- Parts of which some that stand for nothing have been left out. -/
inductive Thinned : List String → List String → Prop where
  | nil : Thinned [] []
  | keep (name : String) {w w' : List String} : Thinned w w' → Thinned (name :: w) (name :: w')
  | drop {name : String} {w w' : List String} : name = "" ∨ name = "." → Thinned w w' →
      Thinned (name :: w) w'

/-- Parts that stand for nothing may be left out behind other parts. -/
theorem Thinned.append_left (u : List String) {w w' : List String} (h : Thinned w w') :
    Thinned (u ++ w) (u ++ w') := by
  induction u with
  | nil => exact h
  | cons name u ih => exact .keep name ih

/-- **Empty parts and dots lead nowhere else:** a path from which some of them have been left out
leads to the same place, with no more links to follow. -/
theorem walk_thinned {links : ℕ} : ∀ {p : Path} {w w' : List String} {q : Path}, Thinned w w' →
    fs.walk links p w = some q → fs.walk links p w' = some q := by
  have loop : ∀ follow : Path → List String → Option Path,
      (∀ p w w' q, Thinned w w' → follow p w = some q → follow p w' = some q) →
      ∀ {w w'}, Thinned w w' → ∀ p q, fs.walkLoop follow p w = some q →
        fs.walkLoop follow p w' = some q := by
    intro follow hfollow w w' hthin
    induction hthin with
    | nil => exact fun _ _ h => h
    | @keep name w w' hthin ih =>
      intro p q h
      rw [walkLoop] at h ⊢
      split_ifs at h ⊢ with hdir hblank hdots
      · exact ih p q h
      · exact ih _ q h
      · cases hl : fs.lstat (p ++ [name]) with
        | none => simp [hl] at h
        | some k =>
          cases k with
          | link target =>
            simp only [hl] at h ⊢
            exact hfollow _ _ _ _ (hthin.append_left _) h
          | file => simp only [hl] at h ⊢; exact ih _ q h
          | dir => simp only [hl] at h ⊢; exact ih _ q h
          | other => simp only [hl] at h ⊢; exact ih _ q h
    | @drop name w w' hname hthin ih =>
      intro p q h
      rw [walkLoop, if_pos hname] at h
      split_ifs at h
      exact ih p q h
  induction links with
  | zero => exact fun hthin h => loop _ (fun _ _ _ _ _ h => absurd h (by simp)) hthin _ _ h
  | succ links ih =>
    exact fun hthin h => loop (fs.walk links) (fun _ _ _ _ hthin h => ih hthin h) hthin _ _ h

/-- Without `..` normalising only leaves out parts that stand for nothing. -/
theorem thinned_normpath {parts : List String} (h : ".." ∉ parts) : Thinned parts (normpath parts) := by
  have hfold : ∀ (parts comps : List String), ".." ∉ parts →
      ∃ kept, parts.foldl Py.normStep comps = comps ++ kept ∧ Thinned parts kept := by
    intro parts
    induction parts with
    | nil => exact fun comps _ => ⟨[], (List.append_nil comps).symm, .nil⟩
    | cons name parts ih =>
      intro comps hnd
      rw [List.mem_cons, not_or] at hnd
      rw [List.foldl_cons, Py.normStep]
      split_ifs with hblank hdots
      · obtain ⟨kept, hkept, hthin⟩ := ih comps hnd.2
        exact ⟨kept, hkept, .drop hblank hthin⟩
      · exact absurd hdots.symm hnd.1
      · obtain ⟨kept, hkept, hthin⟩ := ih (comps ++ [name]) hnd.2
        exact ⟨name :: kept, by rw [hkept, List.append_assoc, List.singleton_append],
          .keep name hthin⟩
  obtain ⟨kept, hkept, hthin⟩ := hfold parts [] h
  rw [normpath, hkept, List.nil_append]
  exact hthin

/-- Without `..` normalising a path does not change where it leads. -/
theorem target_normpath {parts : List String} {q : Path} (hnd : ".." ∉ parts)
    (h : fs.target parts = some q) : fs.target (normpath parts) = some q :=
  walk_thinned (thinned_normpath hnd) h

/-! ### What is there -/

/-- An entry of the file system is found at its path: paths are distinct. -/
theorem lstat_of_mem {p : Path} {k : Kind} (hp : p ≠ []) (h : (p, k) ∈ fs.entries) :
    fs.lstat p = some k := by
  rw [lstat, if_neg hp]
  obtain ⟨l₁, l₂, hentries⟩ := List.append_of_mem h
  refine List.lookup_eq_some_iff.mpr ⟨l₁, l₂, hentries, fun e he => ?_⟩
  have hnodup := fs.nodup
  rw [hentries, List.map_append, List.map_cons, List.nodup_append] at hnodup
  exact bne_iff_ne.mpr fun heq =>
    hnodup.2.2 e.1 (List.mem_map_of_mem he) p List.mem_cons_self heq.symm

/-- What is there has a directory above it. -/
theorem lstat_dropLast {p : Path} (h : (fs.lstat p).isSome) : fs.lstat p.dropLast = some .dir := by
  by_cases hp : p = []
  · rw [hp]
    rfl
  · obtain ⟨k, hk⟩ := Option.isSome_iff_exists.mp h
    rcases (fs.below _ (fs.mem_of_lstat hp hk)).2 with hroot | hmem
    · rw [show p.dropLast = [] from hroot]
      rfl
    · by_cases hroot : p.dropLast = []
      · rw [hroot]
        rfl
      · exact lstat_of_mem hroot hmem

/-- What a path leads to is there: the walk of the kernel asks for each entry that it passes. -/
theorem isSome_lstat_of_target {p q : Path} (h : fs.target p = some q) : (fs.lstat q).isSome := by
  refine walk_induct (P := fun k _ q => (fs.lstat k).isSome → (fs.lstat q).isSome)
    ?done ?dot ?dotdot ?link ?entry h rfl
  case done => exact fun _ h => h
  case dot => exact fun _ _ _ _ _ ih => ih
  case dotdot =>
    intro k _ q ih hk
    exact ih (by rw [lstat_dropLast hk]; rfl)
  case link =>
    intro k name _ q target _ _ _ hl ih hk
    refine ih ?_
    split_ifs
    · rfl
    · exact hk
  case entry => exact fun _ _ _ _ _ _ _ _ hl _ ih _ => ih (by rw [hl]; rfl)

/-- A path without symbolic links that is there leads to itself. -/
theorem LinkFree.target_self {p : Path} (hfree : fs.LinkFree p) (hp : ∀ c ∈ p, Plain c)
    (h : (fs.lstat p).isSome) : fs.target p = some p := by
  have hdir : ∀ (w k : Path), w ≠ [] → (fs.lstat (k ++ w)).isSome → fs.lstat k = some .dir := by
    intro w
    induction w using List.reverseRecOn with
    | nil => exact fun _ h => absurd rfl h
    | append_singleton w c ih =>
      intro k _ hk
      rw [← List.append_assoc] at hk
      have hparent := lstat_dropLast hk
      rw [List.dropLast_concat] at hparent
      by_cases hw : w = []
      · rwa [hw, List.append_nil] at hparent
      · exact ih k hw (by rw [hparent]; rfl)
  have hloop : ∀ (follow : Path → List String → Option Path) (w k : Path), fs.LinkFree (k ++ w) →
      (∀ c ∈ w, Plain c) → (fs.lstat (k ++ w)).isSome → fs.walkLoop follow k w = some (k ++ w) := by
    intro follow w
    induction w with
    | nil => exact fun k _ _ _ => by rw [walkLoop, List.append_nil]
    | cons c w ih =>
      intro k hk hw hsome
      obtain ⟨h₁, h₂, h₃, -⟩ := hw c List.mem_cons_self
      rw [walkLoop, if_neg (not_not.mpr (hdir (c :: w) k (by simp) hsome)),
        if_neg (not_or.mpr ⟨h₁, h₂⟩), if_neg h₃]
      have hk' : k ++ c :: w = k ++ [c] ++ w := by rw [List.append_assoc, List.singleton_append]
      rw [hk'] at hk hsome ⊢
      have hthere : (fs.lstat (k ++ [c])).isSome := by
        by_cases hw' : w = []
        · rwa [hw', List.append_nil] at hsome
        · rw [hdir w _ hw' hsome]
          rfl
      have hrest := ih (k ++ [c]) hk (fun d hd => hw d (List.mem_cons_of_mem _ hd)) hsome
      cases hl : fs.lstat (k ++ [c]) with
      | none => rw [hl] at hthere; exact absurd hthere (by simp)
      | some kind =>
        cases kind with
        | link target => exact absurd hl (hk _ (List.prefix_append _ _) target)
        | file => exact hrest
        | dir => exact hrest
        | other => exact hrest
  exact hloop _ p [] hfree hp h

/-- **What a path leads to leads to itself,** since there is no symbolic link left in it. -/
theorem target_target {p q : Path} (h : fs.target p = some q) : fs.target q = some q := by
  obtain ⟨hfree, hplain⟩ := (resolves_of_target h).linkFree (slash_not_mem_of_target h)
  exact hfree.target_self hplain (isSome_lstat_of_target h)

/-- What a path leads to consists of plain names. -/
theorem plain_of_target {p q : Path} (h : fs.target p = some q) : ∀ c ∈ q, Plain c :=
  ((resolves_of_target h).linkFree (slash_not_mem_of_target h)).2

end FileSystem

/-! ### What is let through -/

section Complete

variable {h : Host}

/-- A path without `..` has none among its parts either, since the working directory has none. -/
theorem dotdot_not_mem_parts {path : String} (hnd : ".." ∉ components path) :
    ".." ∉ h.parts path := by
  have hsplit : ".." ∉ split path '/' := fun hmem =>
    hnd (List.mem_filter.mpr ⟨hmem, by decide⟩)
  unfold Host.parts
  split_ifs
  · exact hsplit
  · exact fun hmem => (List.mem_append.mp hmem).elim
      (fun hcwd => (h.plain_cwd _ hcwd).2.2.1 rfl) hsplit

/-- **What a path names is what the guard resolves it to.** -/
theorem resolvedPath_of_lookup {raw : String} {q : Path} (hnd : ".." ∉ components raw)
    (hq : h.lookup raw = some q) : raw ≠ "" ∧ resolvedPath h raw = q := by
  unfold Host.lookup at hq
  split_ifs at hq with hempty
  refine ⟨hempty, ?_⟩
  rw [resolvedPath, Host.abspath_eq]
  exact FileSystem.realpath_of_target (FileSystem.target_normpath (dotdot_not_mem_parts hnd) hq)

/-- What a text names, as the kernel reads it, consists of plain names. -/
theorem plain_of_lookup {raw : String} {q : Path} (hq : h.lookup raw = some q) :
    ∀ c ∈ q, Plain c := by
  unfold Host.lookup at hq
  split_ifs at hq
  exact FileSystem.plain_of_target hq

/-- What exists is let through exactly when it is under a root. -/
theorem validatePath_of_lookup {raw : String} {q : Path} {allowed_roots : List String}
    (hnd : ".." ∉ components raw) (hq : h.lookup raw = some q) :
    validatePath h raw allowed_roots "file" = .ok q ↔ Under allowed_roots q := by
  obtain ⟨hempty, hresolved⟩ := resolvedPath_of_lookup hnd hq
  rw [validatePath_eq_ok_iff, Passes, underAnyRoot_iff (plain_of_lookup hq)]
  refine ⟨fun h => h.2.2.1.1, fun hunder => ⟨hempty, hnd, ⟨hunder, ?_, by simp⟩, hresolved⟩⟩
  unfold Host.lookup at hq
  rw [if_neg hempty] at hq
  rw [FileSystem.exists_, FileSystem.stat, FileSystem.target_target hq, Option.bind_some]
  exact FileSystem.isSome_lstat_of_target hq

/-- An absolute path names what `realpath` makes of it, if it is there. -/
theorem lookup_of_isdir {root : String} (habs : isabs root = true) (hdir : h.isdir root = true) :
    h.lookup root = some (h.fs.realpath (split root '/')) := by
  obtain ⟨q, hq, -⟩ := Option.bind_eq_some_iff.mp (beq_iff_eq.mp hdir)
  have htarget := hq
  unfold Host.lookup at htarget
  split_ifs at htarget
  rw [Host.parts, if_pos habs] at htarget
  rw [hq, FileSystem.realpath_of_target htarget]

/-- A path of plain names, written out, names what it leads to. -/
theorem lookup_str_of_target {p q : Path} (hplain : ∀ c ∈ p, Plain c)
    (hq : h.fs.target p = some q) : h.lookup p.str = some q := by
  have hblank : ∀ w, h.fs.target ("" :: w) = h.fs.target w := fun w => by
    change h.fs.walkLoop _ [] ("" :: w) = _
    rw [FileSystem.walkLoop, if_neg (by simp), if_pos (Or.inl rfl)]
    rfl
  rw [Host.lookup, if_neg (Py.str_ne_empty p), Host.parts, if_pos (Py.isabs_str p),
    Py.split_str fun c hc => (hplain c hc).2.2.2, hblank]
  split_ifs with hroot
  · rw [hblank, ← hroot]
    exact hq
  · exact hq

/-- What a path leads to, written out, names itself. -/
theorem lookup_str {p q : Path} (hq : h.fs.target p = some q) : h.lookup q.str = some q :=
  lookup_str_of_target (FileSystem.plain_of_target hq) (FileSystem.target_target hq)

/-- **Nothing inside the roots is refused:** whatever exists and lies, resolved, in a resolved
root is let through. -/
def Complete (h : Host) (allowed_roots : List String) : Prop :=
  ∀ raw q, h.lookup raw = some q → ".." ∉ components raw →
    (∃ root ∈ allowed_roots, h.fs.realpath (split root '/') <+: q) →
      validatePath h raw allowed_roots "file" = .ok q

/-- What lies below a path that is under one of the roots is under that root too. -/
theorem Under.mono {allowed_roots : List String} {p q : Path} (hp : Under allowed_roots p)
    (hpq : p <+: q) : Under allowed_roots q := by
  obtain ⟨root, hroot, hstr, hpre⟩ := hp
  exact ⟨root, hroot, hstr, hpre.trans hpq⟩

/-- **When nothing inside the roots is refused:** when every root, resolved, is itself under one
of the roots as they are spelled. -/
theorem complete_iff {allowed_roots : List String}
    (hroots : ∀ root ∈ allowed_roots, isabs root = true ∧ h.isdir root = true) :
    Complete h allowed_roots ↔
      ∀ root ∈ allowed_roots, Under allowed_roots (h.fs.realpath (split root '/')) := by
  constructor
  · intro hcomplete root hroot
    have hlookup := lookup_of_isdir (hroots root hroot).1 (hroots root hroot).2
    have hplain := plain_of_lookup hlookup
    -- the resolved root itself, written out
    have hstr : h.lookup (h.fs.realpath (split root '/')).str =
        some (h.fs.realpath (split root '/')) := by
      unfold Host.lookup at hlookup
      split_ifs at hlookup
      exact lookup_str hlookup
    have hnd : ".." ∉ components (h.fs.realpath (split root '/')).str := by
      rw [Py.components_str fun c hc => ⟨(hplain c hc).1, (hplain c hc).2.1, (hplain c hc).2.2.2⟩]
      exact fun hmem => (hplain _ hmem).2.2.1 rfl
    exact (validatePath_of_lookup hnd hstr).mp
      (hcomplete _ _ hstr hnd ⟨root, hroot, List.prefix_rfl⟩)
  · intro hunder raw q hq hnd hinside
    obtain ⟨root, hroot, hpre⟩ := hinside
    exact (validatePath_of_lookup hnd hq).mpr ((hunder root hroot).mono hpre)

end Complete

end Files
end CppMcp
