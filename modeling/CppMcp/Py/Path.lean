/-
# Pure path operations

`posixpath` and `pathlib.PurePosixPath`, as far as they do not look at a file
system.  A path string is split into its components; an absolute path that has
been normalised is the list of its components below `/`, a `Path`, and `Path.str`
writes it out again.  Two slashes in front, which `normpath` keeps, are one here, as
they are after `realpath`.
-/

import CppMcp.Py.Str

namespace CppMcp
namespace Py

/-- The components of a path: the parts between slashes, without the empty ones
and those that are `.`. -/
def components (path : String) : List String :=
  (split path '/').filter fun c => c ≠ "" ∧ c ≠ "."

/-- `PurePath(path).name`. -/
def pathName (path : String) : String := (components path).getLastD ""

/-- `os.path.isabs`. -/
def isabs (path : String) : Bool := startswith path "/"

/-- A normalised absolute path, as the names from the root down. -/
abbrev Path := List String

/-- The path as a string. -/
def Path.str (p : Path) : String := "/" ++ String.intercalate "/" p

/-- One step of the loop of `os.path.normpath`, below the root. -/
def normStep (comps : Path) (comp : String) : Path :=
  if comp = "" ∨ comp = "." then comps
  else if comp = ".." then comps.dropLast
  else comps ++ [comp]

/-- `os.path.normpath` of an absolute path, given by its parts between slashes. -/
def normpath (parts : List String) : Path := parts.foldl normStep []

/-- `os.path.abspath`. -/
def abspath (cwd : Path) (path : String) : Path :=
  normpath (if isabs path then split path '/' else cwd ++ split path '/')

/-- The components that two lists begin with. -/
def commonPrefix : List String → List String → List String
  | a :: as, b :: bs => if a = b then a :: commonPrefix as bs else []
  | _, _ => []

/-- `os.path.commonpath` of two paths; `none` is the `ValueError` for a relative and
an absolute one. -/
def commonpath (a b : String) : Option String :=
  if isabs a ≠ isabs b then none
  else some ((if isabs a then "/" else "") ++
    String.intercalate "/" (commonPrefix (components a) (components b)))

/-- `PurePath(path).suffix`, of a name: from the last dot on, unless that is the
first or the last character. -/
def suffix (name : String) : String :=
  let ext := name.toList.reverse.takeWhile (· ≠ '.')
  let stem := (name.toList.reverse.dropWhile (· ≠ '.')).drop 1
  if ext = [] ∨ stem = [] then "" else String.ofList ('.' :: ext.reverse)

/-! ### Components -/

/-- A name that can stand between slashes and stays in normalising. -/
def Plain (c : String) : Prop := c ≠ "" ∧ c ≠ "." ∧ c ≠ ".." ∧ '/' ∉ c.toList

instance (c : String) : Decidable (Plain c) := inferInstanceAs (Decidable (_ ∧ _))

/-- What a text is split into at the slashes has no slash in it. -/
theorem slash_not_mem_split {s c : String} (h : c ∈ split s '/') : '/' ∉ c.toList := by
  obtain ⟨l, hl, rfl⟩ := List.mem_map.mp h
  rw [String.toList_ofList]
  clear h
  generalize s.toList = cs at hl
  induction cs generalizing l with
  | nil => simp_all
  | cons x cs ih =>
    rw [List.splitOn_cons_eq_if_modifyHead] at hl
    obtain ⟨a, as, has⟩ := List.exists_cons_of_ne_nil (List.splitOn_ne_nil '/' cs)
    rw [has] at hl ih
    split_ifs at hl with hx
    · rcases List.mem_cons.mp hl with rfl | hl
      · exact List.not_mem_nil
      · exact ih l hl
    · rw [List.modifyHead_cons] at hl
      rcases List.mem_cons.mp hl with rfl | hl
      · rw [List.mem_cons, not_or]
        exact ⟨fun h => hx (beq_iff_eq.mpr h.symm), ih a List.mem_cons_self⟩
      · exact ih l (List.mem_cons_of_mem _ hl)

/-- A path written out has nothing before its first slash, and then its components. -/
theorem split_str {p : Path} (h : ∀ c ∈ p, '/' ∉ c.toList) :
    split p.str '/' = "" :: (if p = [] then [""] else p) := by
  rw [split, Path.str, String.toList_append, String.toList_intercalate]
  rw [show "/".toList = ['/'] from rfl, List.singleton_append,
    List.splitOn_cons_eq_if_modifyHead, if_pos (by simp), List.map_cons]
  congr 1
  split_ifs with hp
  · subst hp
    rfl
  · rw [List.splitOn_intercalate]
    · simp [Function.comp_def]
    · intro l hl
      obtain ⟨c, hc, rfl⟩ := List.mem_map.mp hl
      exact h c hc
    · simpa using hp

/-- **Writing a path out and splitting it again** gives its components. -/
theorem components_str {p : Path} (h : ∀ c ∈ p, c ≠ "" ∧ c ≠ "." ∧ '/' ∉ c.toList) :
    components p.str = p := by
  rw [components, split_str fun c hc => (h c hc).2.2]
  split_ifs with hp
  · subst hp
    rfl
  · rw [List.filter_cons_of_neg (by simp), List.filter_eq_self]
    exact fun c hc => decide_eq_true ⟨(h c hc).1, (h c hc).2.1⟩

/-- A path written out begins with a slash, so it is absolute. -/
theorem isabs_str (p : Path) : isabs p.str = true := by
  rw [isabs, startswith_iff, Path.str, String.toList_append]
  exact List.prefix_append _ _

/-- A path written out is never empty: the root is written as a slash. -/
theorem str_ne_empty (p : Path) : p.str ≠ "" := fun h => by
  have habs := isabs_str p
  rw [h] at habs
  exact absurd habs (by decide)

/-- What two lists begin with in common is the beginning of each. -/
theorem commonPrefix_prefix (as bs : List String) :
    commonPrefix as bs <+: as ∧ commonPrefix as bs <+: bs := by
  induction as generalizing bs with
  | nil => cases bs <;> exact ⟨List.nil_prefix, List.nil_prefix⟩
  | cons a as ih =>
    cases bs with
    | nil => exact ⟨List.nil_prefix, List.nil_prefix⟩
    | cons b bs =>
      rw [commonPrefix]
      split_ifs with h
      · subst h
        exact ⟨List.cons_prefix_cons.mpr ⟨rfl, (ih bs).1⟩,
          List.cons_prefix_cons.mpr ⟨rfl, (ih bs).2⟩⟩
      · exact ⟨List.nil_prefix, List.nil_prefix⟩

/-- If one list is the beginning of the other, that is what they begin with in common. -/
theorem commonPrefix_of_prefix {as bs : List String} (h : bs <+: as) :
    commonPrefix as bs = bs := by
  induction bs generalizing as with
  | nil => cases as <;> rfl
  | cons b bs ih =>
    cases as with
    | nil => exact absurd (List.prefix_nil.mp h) (by simp)
    | cons a as =>
      obtain ⟨rfl, htl⟩ := List.cons_prefix_cons.mp h
      rw [commonPrefix, if_pos rfl, ih htl]

/-- Writing out a path of plain names and splitting it again gives the path, the root included. -/
theorem components_str_of_plain {p : Path} (hp : ∀ c ∈ p, Plain c) : components p.str = p :=
  components_str fun c hc =>
    let ⟨h₁, h₂, _, h₃⟩ := hp c hc
    ⟨h₁, h₂, h₃⟩

/-- Paths of plain names are written differently, so such a path can be told from its text. -/
theorem str_inj {p q : Path} (hp : ∀ c ∈ p, Plain c) (hq : ∀ c ∈ q, Plain c)
    (h : p.str = q.str) : p = q := by
  rw [← components_str_of_plain hp, h, components_str_of_plain hq]

/-- **`commonpath` decides whether a path is below a root:** it gives the root back
exactly when the root is an absolute path, written without superfluous parts, whose
components the path begins with. -/
theorem commonpath_eq_root_iff {p : Path} (hp : ∀ c ∈ p, Plain c) (root : String) :
    commonpath p.str root = some root ↔
      root = Path.str (components root) ∧ components root <+: p := by
  have hcomp := components_str_of_plain hp
  unfold commonpath
  rw [isabs_str, hcomp, if_pos rfl]
  constructor
  · intro h
    split_ifs at h with habs
    have hroot : Path.str (commonPrefix p (components root)) = root := Option.some.inj h
    obtain ⟨hpre, -⟩ := commonPrefix_prefix p (components root)
    have hback : components root = commonPrefix p (components root) := by
      conv_lhs => rw [← hroot]
      refine components_str fun c hc => ?_
      have hc := hp c (hpre.subset hc)
      exact ⟨hc.1, hc.2.1, hc.2.2.2⟩
    exact ⟨by rw [hback]; exact hroot.symm, hback ▸ hpre⟩
  · rintro ⟨hroot, hpre⟩
    have habs : isabs root = true := by
      rw [hroot]
      exact isabs_str _
    rw [if_neg (by rw [habs]; simp), commonPrefix_of_prefix hpre]
    exact congrArg some hroot.symm

/-! ### Normalising -/

/-- Normalising keeps a plain name as it is. -/
theorem normStep_of_plain {comps : Path} {c : String} (hc : Plain c) :
    normStep comps c = comps ++ [c] := by
  unfold normStep
  rw [if_neg (not_or.mpr ⟨hc.1, hc.2.1⟩), if_neg hc.2.2.1]

/-- Normalising keeps names, those that are not empty, `.` or `..`. -/
theorem mem_normpath {parts : List String} {c : String} (h : c ∈ normpath parts) :
    c ∈ parts ∧ c ≠ "" ∧ c ≠ "." ∧ c ≠ ".." := by
  have step : ∀ (parts : List String) (comps : Path), c ∈ parts.foldl normStep comps →
      c ∈ comps ∨ c ∈ parts ∧ c ≠ "" ∧ c ≠ "." ∧ c ≠ ".." := by
    intro parts
    induction parts with
    | nil => exact fun _ h => Or.inl h
    | cons a parts ih =>
      intro comps h
      rcases ih _ h with hmem | ⟨hmem, hc⟩
      · unfold normStep at hmem
        split_ifs at hmem with h₁ h₂
        · exact Or.inl hmem
        · exact Or.inl (List.dropLast_subset _ hmem)
        · rcases List.mem_append.mp hmem with hmem | hmem
          · exact Or.inl hmem
          · obtain rfl := List.mem_singleton.mp hmem
            exact Or.inr ⟨List.mem_cons_self, fun h => h₁ (Or.inl h), fun h => h₁ (Or.inr h), h₂⟩
      · exact Or.inr ⟨List.mem_cons_of_mem _ hmem, hc⟩
  rcases step parts [] h with h | h
  · exact absurd h List.not_mem_nil
  · exact h

/-- Normalising leaves plain names only: empty parts, `.` and `..` are all taken out. -/
theorem plain_normpath {parts : List String} (h : ∀ c ∈ parts, '/' ∉ c.toList) :
    ∀ c ∈ normpath parts, Plain c := fun c hc =>
  let ⟨hmem, h₁, h₂, h₃⟩ := mem_normpath hc
  ⟨h₁, h₂, h₃, h c hmem⟩

/-- A path of plain names is normalised already. -/
theorem normpath_of_plain {p : Path} (h : ∀ c ∈ p, Plain c) : normpath p = p := by
  have step : ∀ (p comps : Path), (∀ c ∈ p, Plain c) → p.foldl normStep comps = comps ++ p := by
    intro p
    induction p with
    | nil => simp
    | cons c p ih =>
      intro comps h
      rw [List.foldl_cons, normStep_of_plain (h c List.mem_cons_self),
        ih _ fun c hc => h c (List.mem_cons_of_mem _ hc), List.append_assoc, List.singleton_append]
  exact step p [] h

end Py
end CppMcp
