/-
# `os.path.realpath`

`posixpath._joinrealpath` reads a path component by component; at a symbolic link it
first reads the link's target.  It remembers what links led to, and it notices a
link that is met again while its target is being read: a loop.  This is the reader
of `Expand`, for the machine `names` whose keys are symbolic links.

`Resolves` is the reading itself, that is, what it means that a path has been
resolved.  `realpath` finds it wherever there is one (`joinrealpath_eq_value_iff`), and
what it finds has no symbolic link in it (`Resolves.linkFree`).  At a loop it does
not fail: it joins the link that closes the loop with all that is left to read, and
normalises that.
-/

import CppMcp.Files.FileSystem
import CppMcp.Lib.Expand

namespace CppMcp
namespace Files

open Py (Path isabs split Plain normpath abspath)

namespace FileSystem

variable (fs : FileSystem)

/-- One component read below a path without symbolic links: where it leads, or the
symbolic link that has to be read first. -/
def next (path : Path) (name : String) : Path ⊕ Path :=
  if name = "" ∨ name = "." then .inl path
  else if name = ".." then .inl path.dropLast
  else if (fs.readlink (path ++ [name])).isSome then .inr (path ++ [name])
  else .inl (path ++ [name])

/-- The target of a symbolic link, and the directory it is read from. -/
def linkBody (newpath : Path) : Path × List String :=
  match fs.readlink newpath with
  | some target => (if isabs target then [] else newpath.dropLast, split target '/')
  | none => (newpath, [])

/-- Reading paths in the file system. -/
def names : Expand Path String Path := ⟨fs.next, fs.linkBody⟩

/-- `os.path.join(path, rest)` where `rest` is what is left between slashes: it starts
over if that begins with a slash. -/
def joinRest (path rest : List String) : List String :=
  match rest with
  | "" :: _ :: _ => rest
  | _ => path ++ rest

/-- `posixpath._joinrealpath`, not strict.  No more links are nested than there are
entries. -/
def joinrealpath (path : Path) : Expand.Outcome Path (List String) :=
  (fs.names.eval joinRest joinRest fs.entries.length [] path []).1

/-- `os.path.realpath` of a normalised absolute path. -/
def realpath (path : Path) : Path :=
  match fs.joinrealpath path with
  | .value p => normpath p
  | .stuck parts => normpath parts

/-- **`p` is the path with all symbolic links resolved.** -/
def Resolves (path p : Path) : Prop := fs.names.Evaluates [] path p

/-- A symbolic link that stands in a circle: whoever follows it comes to it again. -/
def Circular (link : Path) : Prop := fs.names.MeetsItself link

/-- No symbolic link on the way along the path, or along the links on the way, stands in a
circle. -/
def CircleFree (path : Path) : Prop := ∀ link, fs.names.Meets [] path link → ¬fs.Circular link

variable {fs}

/-- A path is a symbolic link with some target exactly if that is what `lstat` says of it. -/
theorem readlink_eq_some_iff {p : Path} {target : String} :
    fs.readlink p = some target ↔ fs.lstat p = some (.link target) := by
  unfold readlink
  split
  · rename_i t h
    rw [h, Option.some.injEq, Option.some.injEq, Kind.link.injEq]
  · rename_i h
    exact ⟨fun h => absurd h (by simp), fun h' => absurd h' (h target)⟩

/-- The four things that `next` does: it passes over empty names and dots, goes up at `..`, stops at
a symbolic link, and goes on to any other name. -/
theorem next_cases (fs : FileSystem) (path : Path) (name : String) :
    ((name = "" ∨ name = ".") ∧ fs.next path name = .inl path) ∨
    (name = ".." ∧ fs.next path name = .inl path.dropLast) ∨
    (name ≠ "" ∧ name ≠ "." ∧ name ≠ ".." ∧ (∃ target,
      fs.readlink (path ++ [name]) = some target) ∧
        fs.next path name = .inr (path ++ [name])) ∨
    (name ≠ "" ∧ name ≠ "." ∧ name ≠ ".." ∧ fs.readlink (path ++ [name]) = none ∧
      fs.next path name = .inl (path ++ [name])) := by
  unfold next
  split_ifs with h₁ h₂ h₃
  · exact Or.inl ⟨h₁, rfl⟩
  · exact Or.inr (Or.inl ⟨h₂, rfl⟩)
  · exact Or.inr (Or.inr (Or.inl ⟨fun h => h₁ (Or.inl h), fun h => h₁ (Or.inr h), h₂,
      Option.isSome_iff_exists.mp h₃, rfl⟩))
  · exact Or.inr (Or.inr (Or.inr ⟨fun h => h₁ (Or.inl h), fun h => h₁ (Or.inr h), h₂,
      by simpa using h₃, rfl⟩))

/-- Only entries of the file system can be symbolic links that have to be read first. -/
theorem mem_entries_of_next {path : Path} {name : String} {newpath : Path}
    (h : fs.next path name = .inr newpath) : newpath ∈ fs.entries.map Prod.fst := by
  rcases next_cases fs path name with ⟨-, hn⟩ | ⟨-, hn⟩ | ⟨-, -, -, ⟨target, ht⟩, hn⟩ |
    ⟨-, -, -, -, hn⟩ <;> rw [hn] at h
  · exact absurd h (by simp)
  · exact absurd h (by simp)
  · obtain rfl := Sum.inr.inj h
    exact List.mem_map_of_mem (f := Prod.fst)
      (fs.mem_of_lstat (by simp) (readlink_eq_some_iff.mp ht))
  · exact absurd h (by simp)

/-- **`_joinrealpath` resolves every path that can be resolved,** to the path that the reading ends
at, and it gives up at no other. -/
theorem joinrealpath_eq_value_iff {path p : Path} :
    fs.joinrealpath path = .value p ↔ fs.Resolves path p :=
  Expand.eval_eq_value_iff fs.names joinRest joinRest (fs.entries.map Prod.fst)
    (fun _ _ _ h => mem_entries_of_next h) (by simp)

/-- **Links that run in circles are all that keeps a path from being resolved.** -/
theorem exists_resolves_iff {path : Path} : (∃ p, fs.Resolves path p) ↔ fs.CircleFree path := by
  have hkeys : ∀ k a i, fs.names.next k a = .inr i → i ∈ (fs.entries.map Prod.fst).toFinset :=
    fun _ _ _ h => List.mem_toFinset.mpr (mem_entries_of_next h)
  exact Expand.evaluates_iff hkeys

/-- The bound on nested links is none: with more of them the outcome is the same. -/
theorem joinrealpath_fuel (path : Path) {fuel : ℕ} (h : fs.entries.length ≤ fuel) :
    (fs.names.eval joinRest joinRest fuel [] path []).1 = fs.joinrealpath path := by
  have hunmet : (Expand.Table.unmet (fs.entries.map Prod.fst)
      ([] : Expand.Table Path Path)).length ≤ fs.entries.length := by
    rw [← List.length_map (f := Prod.fst)]
    exact List.length_filter_le _ _
  rw [joinrealpath, Expand.eval_fuel fs.names joinRest joinRest
    (fun _ _ _ h => mem_entries_of_next h) (Expand.Table.sound_nil _) (Nat.le_trans hunmet h)
    hunmet]

/-- A path resolves to one path at most. -/
theorem Resolves.det {path p p' : Path} (h : fs.Resolves path p) (h' : fs.Resolves path p') :
    p = p' :=
  Expand.Evaluates.det h h'

/-! ### Resolved paths -/

/-- The root has no symbolic link in it. -/
theorem linkFree_nil : fs.LinkFree [] := by
  intro q hq target h
  rw [List.prefix_nil.mp hq, lstat_nil] at h
  exact absurd h (by simp)

/-- Going to the parent of a path without links leads to one without links. -/
theorem LinkFree.dropLast {p : Path} (h : fs.LinkFree p) : fs.LinkFree p.dropLast :=
  fun q hq => h q (hq.trans (List.dropLast_prefix p))

/-- Going to an entry that is no link, from a path without links, keeps the path without links. -/
theorem LinkFree.concat {p : Path} (h : fs.LinkFree p) {name : String}
    (hn : fs.readlink (p ++ [name]) = none) : fs.LinkFree (p ++ [name]) := by
  intro q hq target ht
  rcases List.prefix_concat_iff.mp hq with rfl | hq
  · rw [readlink_eq_some_iff.mpr ht] at hn
    exact absurd hn (by simp)
  · exact h q hq target ht

/-- Reading keeps to plain names and to paths without links. -/
theorem linkFree_of_reads {n : ℕ} {k q : Path} {w : List String} (h : fs.names.Reads n k w q)
    (hw : ∀ c ∈ w, '/' ∉ c.toList) (hk : fs.LinkFree k) (hp : ∀ c ∈ k, Plain c) :
    fs.LinkFree q ∧ ∀ c ∈ q, Plain c := by
  induction h with
  | done k => exact ⟨hk, hp⟩
  | @move n k k' q name w hn _ ih =>
    have hrest := fun c hc => hw c (List.mem_cons_of_mem _ hc)
    rcases next_cases fs k name with ⟨-, hn'⟩ | ⟨-, hn'⟩ | ⟨-, -, -, -, hn'⟩ |
      ⟨h₁, h₂, h₃, hlink, hn'⟩ <;> rw [show fs.names.next k name = _ from hn'] at hn
    · obtain rfl := Sum.inl.inj hn
      exact ih hrest hk hp
    · obtain rfl := Sum.inl.inj hn
      exact ih hrest hk.dropLast fun c hc => hp c (List.dropLast_subset _ hc)
    · exact absurd hn (by simp)
    · obtain rfl := Sum.inl.inj hn
      refine ih hrest (hk.concat hlink) fun c hc => ?_
      rcases List.mem_append.mp hc with hc | hc
      · exact hp c hc
      · obtain rfl := List.mem_singleton.mp hc
        exact ⟨h₁, h₂, h₃, hw _ List.mem_cons_self⟩
  | @expand m n k k' q i name w hn _ _ ihi ihw =>
    have hrest := fun c hc => hw c (List.mem_cons_of_mem _ hc)
    rcases next_cases fs k name with ⟨-, hn'⟩ | ⟨-, hn'⟩ |
      ⟨-, -, -, ⟨target, ht⟩, hn'⟩ | ⟨-, -, -, -, hn'⟩ <;>
      rw [show fs.names.next k name = _ from hn'] at hn
    · exact absurd hn (by simp)
    · exact absurd hn (by simp)
    · obtain rfl := Sum.inr.inj hn
      -- the target is read from the root or from the directory of the link
      have hbody : fs.names.body (k ++ [name]) =
          (if isabs target then [] else k, split target '/') := by
        change fs.linkBody (k ++ [name]) = _
        rw [linkBody, ht, List.dropLast_concat]
      rw [hbody] at ihi
      have hstart : fs.LinkFree (if isabs target then [] else k) ∧
          ∀ c ∈ (if isabs target then [] else k), Plain c := by
        split_ifs
        · exact ⟨linkFree_nil, fun c hc => absurd hc List.not_mem_nil⟩
        · exact ⟨hk, hp⟩
      obtain ⟨hk', hp'⟩ := ihi (fun c hc => Py.slash_not_mem_split hc) hstart.1 hstart.2
      exact ihw hrest hk' hp'
    · exact absurd hn (by simp)

/-- **A resolved path has no symbolic link in it.** -/
theorem Resolves.linkFree {path p : Path} (h : fs.Resolves path p)
    (hpath : ∀ c ∈ path, '/' ∉ c.toList) : fs.LinkFree p ∧ ∀ c ∈ p, Plain c :=
  let ⟨_, hr⟩ := h
  linkFree_of_reads hr hpath linkFree_nil fun _ hc => absurd hc List.not_mem_nil

/-- What the kernel's walk keeps, along components and along links. -/
theorem walk_induct {P : Path → List String → Path → Prop} (done : ∀ p, P p [] p)
    (dot : ∀ p name rest q, name = "" ∨ name = "." → P p rest q → P p (name :: rest) q)
    (dotdot : ∀ p rest q, P p.dropLast rest q → P p (".." :: rest) q)
    (link : ∀ p name rest q target, name ≠ "" → name ≠ "." → name ≠ ".." →
      fs.lstat (p ++ [name]) = some (.link target) →
      P (if isabs target then [] else p) (split target '/' ++ rest) q → P p (name :: rest) q)
    (entry : ∀ p name rest q k, name ≠ "" → name ≠ "." → name ≠ ".." →
      fs.lstat (p ++ [name]) = some k → (∀ target, k ≠ .link target) →
      P (p ++ [name]) rest q → P p (name :: rest) q)
    {links : ℕ} {p : Path} {rest : List String} {q : Path} (h : fs.walk links p rest = some q) :
    P p rest q := by
  have loop : ∀ follow : Path → List String → Option Path,
      (∀ p rest q, follow p rest = some q → P p rest q) →
      ∀ rest p q, fs.walkLoop follow p rest = some q → P p rest q := by
    intro follow hfollow rest
    induction rest with
    | nil =>
      intro p q h
      obtain rfl := Option.some.inj h
      exact done p
    | cons name rest ih =>
      intro p q h
      rw [walkLoop] at h
      split_ifs at h with hdir h₁ h₂
      · exact dot p name rest q h₁ (ih p q h)
      · subst h₂
        exact dotdot p rest q (ih _ q h)
      · have hne := not_or.mp h₁
        split at h
        · exact absurd h (by simp)
        · rename_i target hl
          exact link p name rest q target hne.1 hne.2 h₂ hl (hfollow _ _ _ h)
        · rename_i k hnl hl
          exact entry p name rest q k hne.1 hne.2 h₂ hl hnl (ih _ q h)
  induction links generalizing p rest q with
  | zero => exact loop _ (fun _ _ _ h => absurd h (by simp)) rest p q h
  | succ links ih => exact loop _ (fun _ _ _ h => ih h) rest p q h

/-- The entry of a path without symbolic links is at that path. -/
theorem LinkFree.target_eq {p q : Path} (h : fs.LinkFree p) (hp : ∀ c ∈ p, Plain c)
    (ht : fs.target p = some q) : q = p := by
  refine walk_induct (P := fun k w q => fs.LinkFree (k ++ w) → (∀ c ∈ w, Plain c) → q = k ++ w)
    ?done ?dot ?dotdot ?link ?entry ht (by simpa using h) hp
  case done => exact fun k _ _ => (List.append_nil k).symm
  case dot =>
    intro k c w q hc _ _ hw
    have hplain := hw c List.mem_cons_self
    exact absurd hc (not_or.mpr ⟨hplain.1, hplain.2.1⟩)
  case dotdot => exact fun k w q _ _ hw => absurd rfl (hw ".." List.mem_cons_self).2.2.1
  case link => exact fun k c w q target _ _ _ hl _ hk _ => absurd hl (hk _ ⟨w, by simp⟩ target)
  case entry =>
    intro k c w q _ _ _ _ _ _ ih hk hw
    rw [ih (by simpa using hk) fun d hd => hw d (List.mem_cons_of_mem _ hd), List.append_assoc,
      List.singleton_append]

/-- A path that leads somewhere consists of names without slashes. -/
theorem slash_not_mem_of_target {p q : Path} (ht : fs.target p = some q) :
    ∀ c ∈ p, '/' ∉ c.toList := by
  refine walk_induct (P := fun _ w _ => ∀ c ∈ w, '/' ∉ c.toList) ?done ?dot ?dotdot ?link ?entry ht
  case done => exact fun _ c hc => absurd hc List.not_mem_nil
  case dot =>
    rintro _ name w _ (rfl | rfl) ih <;> exact List.forall_mem_cons.mpr ⟨by decide, ih⟩
  case dotdot => exact fun _ w _ ih => List.forall_mem_cons.mpr ⟨by decide, ih⟩
  case link =>
    intro k name w q target _ _ _ hl ih
    have hmem := fs.mem_of_lstat (by simp) hl
    exact List.forall_mem_cons.mpr ⟨(fs.plain _ hmem name (by simp)).2.2.2,
      fun c hc => ih c (List.mem_append_right _ hc)⟩
  case entry =>
    intro k name w q _ _ _ _ hl _ ih
    have hmem := fs.mem_of_lstat (by simp) hl
    exact List.forall_mem_cons.mpr ⟨(fs.plain _ hmem name (by simp)).2.2.2, ih⟩

/-- **Where the kernel gets to is where the path resolves to.** -/
theorem resolves_of_target {p q : Path} (ht : fs.target p = some q) : fs.Resolves p q := by
  refine walk_induct (P := fun k w q => fs.names.Evaluates k w q) ?done ?dot ?dotdot ?link ?entry ht
  case done => exact fun k => ⟨0, .done k⟩
  case dot =>
    rintro k name w q hname ⟨n, ih⟩
    exact ⟨n + 1, .move (show fs.next k name = .inl k by rw [next, if_pos hname]) ih⟩
  case dotdot =>
    rintro k w q ⟨n, ih⟩
    exact ⟨n + 1, .move (show fs.next k ".." = .inl k.dropLast from rfl) ih⟩
  case link =>
    rintro k name w q target h₁ h₂ h₃ hl ⟨n, ih⟩
    have hread := readlink_eq_some_iff.mpr hl
    obtain ⟨l, m, k', hbody, hrest⟩ := Expand.Reads.of_append ih
    refine ⟨l + m + 1, .expand (i := k ++ [name]) ?_ ?_ hrest⟩
    · change fs.next k name = _
      rw [next, if_neg (not_or.mpr ⟨h₁, h₂⟩), if_neg h₃, hread, Option.isSome_some, if_pos rfl]
    · change fs.names.Reads l (fs.linkBody (k ++ [name])).1 (fs.linkBody (k ++ [name])).2 k'
      rw [linkBody, hread, List.dropLast_concat]
      exact hbody
  case entry =>
    rintro k name w q kind h₁ h₂ h₃ hl hkind ⟨n, ih⟩
    have hread : fs.readlink (k ++ [name]) = none := by
      rw [Option.eq_none_iff_forall_ne_some]
      intro target ht
      rw [readlink_eq_some_iff, hl, Option.some.injEq] at ht
      exact hkind target ht
    refine ⟨n + 1, .move ?_ ih⟩
    change fs.next k name = _
    rw [next, if_neg (not_or.mpr ⟨h₁, h₂⟩), if_neg h₃, hread, if_neg (by simp)]

/-- What stands at a path without symbolic links is the same whether links are followed or not. -/
theorem LinkFree.stat_eq {p : Path} (h : fs.LinkFree p) (hp : ∀ c ∈ p, Plain c) {k : Kind}
    (hs : fs.stat p = some k) : fs.lstat p = some k := by
  obtain ⟨q, hq, hk⟩ := Option.bind_eq_some_iff.mp hs
  obtain rfl := h.target_eq hp hq
  exact hk

/-- A path without symbolic links resolves to itself, in as many steps as it has names. -/
theorem LinkFree.resolves {p : Path} (h : fs.LinkFree p) (hp : ∀ c ∈ p, Plain c) :
    fs.Resolves p p := by
  have step : ∀ (w k : Path), fs.LinkFree (k ++ w) → (∀ c ∈ w, Plain c) →
      fs.names.Reads w.length k w (k ++ w) := by
    intro w
    induction w with
    | nil => intro k _ _; rw [List.append_nil]; exact .done k
    | cons c w ih =>
      intro k hk hw
      have hc := hw c List.mem_cons_self
      have hlink : fs.readlink (k ++ [c]) = none := by
        rw [Option.eq_none_iff_forall_ne_some]
        intro target ht
        exact hk (k ++ [c]) ⟨w, by simp⟩ target (readlink_eq_some_iff.mp ht)
      have hnext : fs.names.next k c = .inl (k ++ [c]) := by
        change fs.next k c = _
        unfold next
        rw [if_neg (not_or.mpr ⟨hc.1, hc.2.1⟩), if_neg hc.2.2.1, hlink, if_neg (by simp)]
      have hrest := ih (k ++ [c]) (by simpa using hk) fun d hd => hw d (List.mem_cons_of_mem _ hd)
      rw [List.append_assoc, List.singleton_append] at hrest
      exact .move hnext hrest
  exact ⟨_, step p [] (by simpa using h) hp⟩

/-- `realpath` of a path that resolves is what it resolves to: normalising changes nothing there. -/
theorem realpath_of_resolves {path p : Path} (h : fs.Resolves path p)
    (hpath : ∀ c ∈ path, '/' ∉ c.toList) : fs.realpath path = p := by
  rw [realpath, joinrealpath_eq_value_iff.mpr h]
  exact Py.normpath_of_plain (h.linkFree hpath).2

/-- A path that leads somewhere has what it leads to for its `realpath`. -/
theorem realpath_of_target {p q : Path} (ht : fs.target p = some q) : fs.realpath p = q :=
  realpath_of_resolves (resolves_of_target ht) (slash_not_mem_of_target ht)

/-- What a path leads to has itself for its `realpath`. -/
theorem realpath_realpath {p q : Path} (ht : fs.target p = some q) : fs.realpath q = q := by
  obtain ⟨hfree, hplain⟩ := (resolves_of_target ht).linkFree (slash_not_mem_of_target ht)
  exact realpath_of_resolves (hfree.resolves hplain) fun c hc => (hplain c hc).2.2.2

/-- No component has a slash in it. -/
def Slashless (p : List String) : Prop := ∀ c ∈ p, '/' ∉ c.toList

/-- Putting paths together brings no slash into their components. -/
theorem slashless_append {p q : List String} (hp : Slashless p) (hq : Slashless q) :
    Slashless (p ++ q) :=
  fun c hc => (List.mem_append.mp hc).elim (hp c) (hq c)

/-- `os.path.join`, as it is used at a loop, brings no slash into the components. -/
theorem slashless_joinRest {p rest : List String} (hp : Slashless p) (hrest : Slashless rest) :
    Slashless (joinRest p rest) := by
  unfold joinRest
  split
  · exact hrest
  · exact slashless_append hp hrest

/-- **`realpath` gives a normalised path,** also where links run in circles. -/
theorem plain_realpath (fs : FileSystem) {path : Path} (h : Slashless path) :
    ∀ c ∈ fs.realpath path, Plain c := by
  have next_inl : ∀ k a k', Slashless k → '/' ∉ a.toList → fs.next k a = .inl k' → Slashless k' := by
    intro k a k' hk ha hn
    rcases next_cases fs k a with ⟨-, hn'⟩ | ⟨-, hn'⟩ | ⟨-, -, -, -, hn'⟩ | ⟨-, -, -, -, hn'⟩ <;>
      rw [hn'] at hn
    · exact Sum.inl.inj hn ▸ hk
    · exact Sum.inl.inj hn ▸ fun c hc => hk c (List.dropLast_subset _ hc)
    · exact absurd hn (by simp)
    · exact Sum.inl.inj hn ▸ slashless_append hk fun c hc => List.mem_singleton.mp hc ▸ ha
  have next_inr : ∀ k a i, Slashless k → '/' ∉ a.toList → fs.next k a = .inr i → Slashless i := by
    intro k a i hk ha hn
    rcases next_cases fs k a with ⟨-, hn'⟩ | ⟨-, hn'⟩ | ⟨-, -, -, -, hn'⟩ | ⟨-, -, -, -, hn'⟩ <;>
      rw [hn'] at hn
    · exact absurd hn (by simp)
    · exact absurd hn (by simp)
    · exact Sum.inr.inj hn ▸ slashless_append hk fun c hc => List.mem_singleton.mp hc ▸ ha
    · exact absurd hn (by simp)
  have body : ∀ i, Slashless i → Slashless (fs.linkBody i).1 ∧
      ∀ a ∈ (fs.linkBody i).2, '/' ∉ a.toList := by
    intro i hi
    unfold linkBody
    split
    · refine ⟨?_, fun a ha => Py.slash_not_mem_split ha⟩
      split_ifs
      · exact fun c hc => absurd hc List.not_mem_nil
      · exact fun c hc => hi c (List.dropLast_subset _ hc)
    · exact ⟨hi, fun a ha => absurd ha List.not_mem_nil⟩
  have hkeeps := (Expand.eval_keeps fs.names joinRest joinRest next_inl next_inr body
    (fun _ _ hi hw => slashless_joinRest hi hw) (fun _ _ hs hw => slashless_joinRest hs hw)
    fs.entries.length (k := []) (fun _ hc => absurd hc List.not_mem_nil) h
    (T := []) fun _ _ h => absurd h (by simp [List.lookup_nil])).1
  rw [realpath]
  change (fs.joinrealpath path).Keeps Slashless Slashless at hkeeps
  cases hout : fs.joinrealpath path with
  | value p =>
    rw [hout] at hkeeps
    exact Py.plain_normpath hkeeps
  | stuck parts =>
    rw [hout] at hkeeps
    exact Py.plain_normpath hkeeps

/-- Different resolved paths are written differently, so the cache may use the text of a resolved
path as a key. -/
theorem realpath_str_inj (fs : FileSystem) {p q : Path} (hp : Slashless p) (hq : Slashless q)
    (h : (fs.realpath p).str = (fs.realpath q).str) : fs.realpath p = fs.realpath q :=
  Py.str_inj (plain_realpath fs hp) (plain_realpath fs hq) h

end FileSystem

end Files
end CppMcp
