/-
# Orphaned includes

An include is orphaned if it declares something and the main file uses nothing of it.
`tools/get_header_info.py` compares the USRs of the cursors in the include with those of what the cursors
of the main file refer to.  But a declaration refers to itself, so a main file that declares again what
the include declares, or reopens a namespace of it, counts as using it (`orphaned_iff`).
-/

import CppMcp.Tools.Exported

namespace CppMcp
namespace Tools

open Export (Acc CursorInfo)

/-! ### What is collected -/

/-- A cursor in the file has this USR to read. -/
def HasUsr (usr : CursorInfo → Option String) (tu : HeaderUnit) (file u : String) : Prop :=
  ∃ c ∈ tu.cursor.subtrees.map Rose.label, inFile file c.toCursorInfo = true ∧
    usr c.toCursorInfo = some u

/-- **What a walk collects:** the USRs of the cursors in the file. -/
theorem mem_collectUsrs {usr : CursorInfo → Option String} {tu : HeaderUnit} {file : String}
    {usrs : List String} (h : collectUsrs usr tu file = .ok usrs) (u : String) :
    u ∈ usrs ↔ HasUsr usr tu file u := by
  have hwalk := Rose.walkM_induct
    (P := fun done usrs => ∀ u, u ∈ usrs ↔ ∃ c ∈ done, inFile file (HeaderCursor.toCursorInfo c) = true ∧
      usr (HeaderCursor.toCursorInfo c) = some u) h (by simp)
    fun done usrs c usrs' hdone hvisit u => ?_
  · exact hwalk u
  · cases hvisit
    simp only [List.mem_append, List.mem_singleton, or_and_right, exists_or, exists_eq_left, ← hdone]
    by_cases hin : inFile file c.toCursorInfo = true <;> simp [hin]

/-- The includes that are listed are declared in, and nothing in them is referenced. -/
theorem mem_orphanedIncludes {tu : HeaderUnit} {referenced direct orphaned : List String}
    (h : orphanedIncludes tu referenced direct = .ok orphaned) (inc : String) :
    inc ∈ orphaned ↔ inc ∈ direct ∧ (∃ u, HasUsr declaredUsr tu inc u) ∧
      ∀ u, HasUsr declaredUsr tu inc u → u ∉ referenced := by
  induction direct generalizing orphaned with
  | nil =>
    cases h
    simp
  | cons path direct ih =>
    obtain ⟨defined, hdefined, h⟩ := Except.bind_eq_ok.mp h
    obtain ⟨rest, hrest, h⟩ := Except.bind_eq_ok.mp h
    cases h
    have hmem := mem_collectUsrs hdefined
    have hhead : (defined ≠ [] ∧ ∀ u ∈ defined, u ∉ referenced) ↔
        (∃ u, HasUsr declaredUsr tu path u) ∧ ∀ u, HasUsr declaredUsr tu path u → u ∉ referenced := by
      have hsome : defined ≠ [] ↔ ∃ u, u ∈ defined :=
        ⟨List.exists_mem_of_ne_nil defined, fun ⟨_, hu⟩ => List.ne_nil_of_mem hu⟩
      simp only [hsome, hmem]
    have hih := ih hrest
    split_ifs with hlisted
    · rw [hhead] at hlisted
      rw [List.mem_cons, List.mem_cons, hih, or_and_right]
      exact or_congr_left ⟨fun heq => ⟨heq, heq ▸ hlisted⟩, And.left⟩
    · rw [hhead] at hlisted
      rw [List.mem_cons, hih, or_and_right]
      refine (or_iff_right ?_).symm
      rintro ⟨rfl, hpath⟩
      exact hlisted hpath

/-! ### What is asked for -/

/-- The include declares a symbol with this USR. -/
def Declares (tu : HeaderUnit) (inc u : String) : Prop := HasUsr declaredUsr tu inc u

/-- A cursor of the main file refers to a declaration with this USR that is not the cursor itself. -/
def Uses (tu : HeaderUnit) (main_file u : String) : Prop :=
  ∃ c ∈ tu.cursor.subtrees.map Rose.label, inFile main_file c.toCursorInfo = true ∧
    c.refers_to_itself = false ∧ referencedUsr c.toCursorInfo = some u

/-- A cursor of the main file that has this USR is what it refers to. -/
def Redeclares (tu : HeaderUnit) (main_file u : String) : Prop :=
  ∃ c ∈ tu.cursor.subtrees.map Rose.label, inFile main_file c.toCursorInfo = true ∧
    c.refers_to_itself = true ∧ declaredUsr c.toCursorInfo = some u

/-- **An orphaned include:** it declares a symbol with a USR, and the main file uses none that it
declares. -/
def IsOrphaned (tu : HeaderUnit) (main_file inc : String) : Prop :=
  (∃ u, Declares tu inc u) ∧ ¬∃ u, Declares tu inc u ∧ Uses tu main_file u

/-- A direct include of the main file. -/
def DirectInclude (tu : HeaderUnit) (inc : String) : Prop :=
  ∃ incs, tu.get_includes = .ok incs ∧ ∃ i ∈ incs, i.name = .ok (some inc) ∧ i.depth = 1

/-- A declaration refers to itself, so what it refers to is what it declares. -/
theorem referencedUsr_of_itself {c : HeaderCursor} (h : c.refers_to_itself = true) :
    referencedUsr c.toCursorInfo = declaredUsr c.toCursorInfo := by
  rw [referencedUsr, c.of_itself h]
  rfl

/-- What the main file refers to is what it uses, and what it declares itself. -/
theorem hasUsr_referencedUsr_iff {tu : HeaderUnit} {main_file u : String} :
    HasUsr referencedUsr tu main_file u ↔ Uses tu main_file u ∨ Redeclares tu main_file u := by
  constructor
  · rintro ⟨c, hc, hin, hu⟩
    cases hself : c.refers_to_itself with
    | false => exact Or.inl ⟨c, hc, hin, hself, hu⟩
    | true => exact Or.inr ⟨c, hc, hin, hself, (referencedUsr_of_itself hself).symm.trans hu⟩
  · rintro (⟨c, hc, hin, -, hu⟩ | ⟨c, hc, hin, hself, hu⟩)
    · exact ⟨c, hc, hin, hu⟩
    · exact ⟨c, hc, hin, (referencedUsr_of_itself hself).trans hu⟩

/-- One include adds its file to the direct ones if it stands in the main file and has a name. -/
theorem mem_direct_includeStep {w : Includes} {i : FileInclusion} {inc : String} :
    inc ∈ (includeStep w i).direct_includes ↔
      inc ∈ w.direct_includes ∨ i.name = .ok (some inc) ∧ i.depth = 1 := by
  rw [includeStep]
  cases hname : i.name with
  | error e => simp [Acc.getD]
  | ok name =>
    cases name with
    | none => simp [Acc.getD]
    | some file =>
      by_cases hnew : i.depth = 1 ∧ file ∉ w.direct_includes
      · simp [Acc.getD, hnew, eq_comm]
      · simp only [Acc.getD, if_neg hnew, Except.ok.injEq, Option.some.injEq]
        refine (or_iff_left_of_imp ?_).symm
        rintro ⟨rfl, hdepth⟩
        by_contra hmem
        exact hnew ⟨hdepth, hmem⟩

/-- The direct includes are those that libclang reports at the first level, each by its name. -/
theorem mem_direct_includesOf {tu : HeaderUnit} {inc : String} :
    inc ∈ (includesOf tu).direct_includes ↔ DirectInclude tu inc := by
  have hfold : ∀ (incs : List FileInclusion) (w : Includes),
      inc ∈ (incs.foldl includeStep w).direct_includes ↔
        inc ∈ w.direct_includes ∨ ∃ i ∈ incs, i.name = .ok (some inc) ∧ i.depth = 1 := by
    intro incs
    induction incs with
    | nil => simp
    | cons i incs ih =>
      intro w
      rw [List.foldl_cons, ih, mem_direct_includeStep, List.exists_mem_cons_iff, or_assoc]
  rw [includesOf, hfold, DirectInclude]
  cases tu.get_includes with
  | error e => simp [Acc.getD]
  | ok incs => simp [Acc.getD]

/-- **The orphaned includes are right exactly if** the main file uses something of each direct include
of which it declares something again. -/
theorem orphaned_iff {tu : HeaderUnit} {main_file : String} {info : HeaderInfo}
    (hinfo : headerInfo tu main_file = .ok info) {inc : String} (hdirect : DirectInclude tu inc) :
    (inc ∈ info.orphaned_includes ↔ IsOrphaned tu main_file inc) ↔
      ((∃ u, Declares tu inc u ∧ Redeclares tu main_file u) →
        ∃ u, Declares tu inc u ∧ Uses tu main_file u) := by
  obtain ⟨-, referenced, hreferenced, horphaned⟩ := of_headerInfo_eq_ok hinfo
  have hlisted := mem_orphanedIncludes horphaned inc
  simp only [mem_collectUsrs hreferenced, hasUsr_referencedUsr_iff,
    mem_direct_includesOf.mpr hdirect, true_and] at hlisted
  rw [hlisted, IsOrphaned]
  constructor
  · rintro hright ⟨u, hu, hagain⟩
    by_contra hunused
    exact (hright.mpr ⟨⟨u, hu⟩, hunused⟩).2 u hu (Or.inr hagain)
  · intro hused
    refine and_congr_right fun hdeclares => ⟨fun hnone => ?_, fun hunused u hu => ?_⟩
    · rintro ⟨u, hu, huses⟩
      exact hnone u hu (Or.inl huses)
    · rintro (huses | hagain)
      · exact hunused ⟨u, hu, huses⟩
      · exact hunused (hused ⟨u, hu, hagain⟩)

/-- A cursor for a namespace `proj` of a file. -/
def namespaceCursor (file : String) : HeaderCursor where
  kind := .ok .namespace_
  spelling := .ok "proj"
  get_usr := .ok "c:@N@proj"
  location := .ok ⟨some file, 3, 11⟩
  referenced := .ok (some ⟨.ok "c:@N@proj"⟩)
  refers_to_itself := true
  of_itself _ := rfl

/-- A unit that includes a header with the namespace `proj`, and has these cursors of its own. -/
def includingUnit (own : List HeaderCursor) : HeaderUnit where
  cursor := .node unitRoot ((namespaceCursor "/proj/a.h" :: own).map fun c => .node c [])
  get_includes := .ok [⟨.ok (some "/proj/a.h"), 1⟩]

/-- `orphaned_iff` at a unit that uses nothing of its include, nor declares any of it. -/
theorem orphaned_iff_includingUnit :
    ("/proj/a.h" ∈ ["/proj/a.h"] ↔ IsOrphaned (includingUnit []) "/proj/a.cpp" "/proj/a.h") ↔
      ((∃ u, Declares (includingUnit []) "/proj/a.h" u ∧ Redeclares (includingUnit []) "/proj/a.cpp" u) →
        ∃ u, Declares (includingUnit []) "/proj/a.h" u ∧ Uses (includingUnit []) "/proj/a.cpp" u) :=
  @orphaned_iff (includingUnit []) "/proj/a.cpp"
    ⟨["/proj/a.h"], ["/proj/a.h"], [], [], ["/proj/a.h"]⟩ (by rfl) "/proj/a.h"
    ⟨_, rfl, _, List.mem_cons_self, rfl, rfl⟩

/-- **An include that is not used is not reported** where the main file reopens its namespace: the
`referenced` of a declaration is itself, and its USR is that of the namespace in the header. -/
theorem reopened_namespace_not_orphaned :
    let tu := includingUnit [namespaceCursor "/proj/a.cpp"]
    DirectInclude tu "/proj/a.h" ∧ IsOrphaned tu "/proj/a.cpp" "/proj/a.h" ∧
      ∃ info, headerInfo tu "/proj/a.cpp" = .ok info ∧ "/proj/a.h" ∉ info.orphaned_includes := by
  refine ⟨⟨_, rfl, _, List.mem_cons_self, rfl, rfl⟩, ⟨⟨"c:@N@proj", ?_⟩, ?_⟩,
    ⟨["/proj/a.h"], ["/proj/a.h"], [], [], []⟩, by rfl, List.not_mem_nil⟩
  · exact ⟨namespaceCursor "/proj/a.h", by simp [includingUnit], rfl, rfl⟩
  · rintro ⟨u, -, c, hc, hin, hself, -⟩
    have hcursors : c ∈ [unitRoot, namespaceCursor "/proj/a.h", namespaceCursor "/proj/a.cpp"] := hc
    simp only [List.mem_cons, List.not_mem_nil, or_false] at hcursors
    obtain rfl | rfl | rfl := hcursors
    · cases hin
    · cases hself
    · cases hself

end Tools
end CppMcp
