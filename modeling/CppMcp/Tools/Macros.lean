/-
# Which definition of a macro is listed

`_collect_macros` of `tools/get_preprocessor_state.py` lists each macro at the first definition that it
comes by, and passes over the later ones.  The definition that is in force is the last one.

So the table gives the last definitions exactly if those of each macro that come first and last say the
same (`macroTable_iff`).
-/

import CppMcp.Tools.GetPreprocessorState

namespace CppMcp
namespace Tools

open Export (Acc Cursor CursorInfo)

/-- The definitions of a macro among some cursors. -/
def defining (cursors : List CursorInfo) (name : String) : List CursorInfo :=
  cursors.filter fun c => macroName c = some name

/-- The definitions of a macro, in preorder. -/
def definitions (t : Cursor) (name : String) : List CursorInfo :=
  defining (t.subtrees.map Rose.label) name

/-- **The table of the macros:** each that is defined, once, with the value and the location of its last
definition. -/
structure IsMacroTable (t : Cursor) (macros : List Macro) : Prop where
  nodup : (macros.map Macro.name).Nodup
  names : ∀ name, name ∈ macros.map Macro.name ↔ definitions t name ≠ []
  last : ∀ m ∈ macros, ∃ c, (definitions t m.name).getLast? = some c ∧ macroEntry m.name c = .ok m

/-! ### What is listed -/

/-- The definitions of a macro in two lists of cursors are those in the one and then those in the
other. -/
theorem defining_append (cursors more : List CursorInfo) (name : String) :
    defining (cursors ++ more) name = defining cursors name ++ defining more name :=
  List.filter_append _ _

/-- One cursor is a definition of the macro that it names, and of no other. -/
theorem defining_singleton (c : CursorInfo) (name : String) :
    defining [c] name = if macroName c = some name then [c] else [] := by
  by_cases h : macroName c = some name <;> simp [defining, h]

/-- An entry of the table has the name that it is made for. -/
theorem name_of_macroEntry {name : String} {c : CursorInfo} {m : Macro}
    (h : macroEntry name c = .ok m) : m.name = name := by
  obtain ⟨loc, -, h⟩ := Except.bind_eq_ok.mp h
  cases h
  rfl

/-- What the visitor has listed after some cursors: each macro once, at its first definition. -/
structure ListsFirst (cursors : List CursorInfo) (w : MacroTable) : Prop where
  seen : ∀ name, name ∈ w.seen ↔ name ∈ w.macros.map Macro.name
  nodup : (w.macros.map Macro.name).Nodup
  names : ∀ name, name ∈ w.macros.map Macro.name ↔ defining cursors name ≠ []
  first : ∀ m ∈ w.macros, ∃ c, (defining cursors m.name).head? = some c ∧ macroEntry m.name c = .ok m

/-- Of no cursors the empty table lists the first definitions. -/
theorem listsFirst_nil : ListsFirst [] {} where
  seen := (ListedOnce.nil Macro.name).seen
  nodup := (ListedOnce.nil Macro.name).nodup
  names _ := by simp [defining]
  first _ h := absurd h List.not_mem_nil

/-- What comes first still does when more comes after it. -/
theorem ListsFirst.first_append {cursors : List CursorInfo} {w : MacroTable}
    (h : ListsFirst cursors w) (more : List CursorInfo) {m : Macro} (hm : m ∈ w.macros) :
    ∃ c, (defining (cursors ++ more) m.name).head? = some c ∧ macroEntry m.name c = .ok m := by
  obtain ⟨c, hhead, hentry⟩ := h.first m hm
  exact ⟨c, by rw [defining_append, List.head?_append, hhead]; rfl, hentry⟩

/-- A cursor that defines nothing new leaves the table as it is. -/
theorem ListsFirst.pass {cursors : List CursorInfo} {w : MacroTable} {c : CursorInfo}
    (h : ListsFirst cursors w) (hc : ∀ name, macroName c = some name → name ∈ w.seen) :
    ListsFirst (cursors ++ [c]) w where
  seen := h.seen
  nodup := h.nodup
  names name := by
    rw [h.names, defining_append, defining_singleton]
    split_ifs with hname
    · have hlisted := (h.names name).mp ((h.seen name).mp (hc name hname))
      simp [hlisted]
    · rw [List.append_nil]
  first _ hm := h.first_append [c] hm

/-- A macro that has not been seen is listed at its definition. -/
theorem ListsFirst.push {cursors : List CursorInfo} {w : MacroTable} {c : CursorInfo} {m : Macro}
    (h : ListsFirst cursors w) (hname : macroName c = some m.name) (hnew : m.name ∉ w.seen)
    (hentry : macroEntry m.name c = .ok m) :
    ListsFirst (cursors ++ [c]) ⟨w.macros ++ [m], m.name :: w.seen⟩ := by
  have hlisted : ListedOnce Macro.name (w.macros ++ [m]) (m.name :: w.seen) :=
    ListedOnce.push ⟨h.seen, h.nodup⟩ hnew
  have hnone : defining cursors m.name = [] := by
    by_contra hsome
    exact hnew ((h.seen _).mpr ((h.names _).mpr hsome))
  refine
    { seen := hlisted.seen
      nodup := hlisted.nodup
      names := fun name => ?_
      first := fun m' hm' => ?_ }
  · rw [List.map_append, List.map_singleton, List.mem_append, List.mem_singleton, h.names,
      defining_append, defining_singleton]
    by_cases heq : name = m.name
    · simp [heq, hname]
    · simp [heq, hname, Ne.symm heq]
  · obtain hm' | hm' := List.mem_append.mp hm'
    · exact h.first_append [c] hm'
    · obtain rfl := List.mem_singleton.mp hm'
      refine ⟨c, ?_, hentry⟩
      rw [defining_append, hnone, defining_singleton, if_pos hname]
      rfl

/-- One call of the visitor keeps the invariant: the macro is listed there, or it has been before.
-/
theorem ListsFirst.visit {cursors : List CursorInfo} {w w' : MacroTable} {c : CursorInfo}
    (h : ListsFirst cursors w) (hvisit : visitMacro w c = .ok w') :
    ListsFirst (cursors ++ [c]) w' := by
  unfold visitMacro at hvisit
  cases hname : macroName c with
  | none =>
    rw [hname] at hvisit
    cases hvisit
    exact h.pass fun name hc => nomatch hname.symm.trans hc
  | some name =>
    simp only [hname] at hvisit
    split_ifs at hvisit with hseen
    · cases hvisit
      refine h.pass fun name' hc => ?_
      cases hname.symm.trans hc
      exact hseen
    · obtain ⟨m, hentry, hvisit⟩ := Except.bind_eq_ok.mp hvisit
      cases hvisit
      cases name_of_macroEntry hentry
      exact h.push hname hseen hentry

/-- **What is listed of a unit:** each macro once, at its first definition. -/
theorem listsFirst_of_collectMacros {t : Cursor} {macros : List Macro}
    (h : collectMacros t = .ok macros) : ∃ seen, ListsFirst (t.subtrees.map Rose.label) ⟨macros, seen⟩ := by
  obtain ⟨w, hwalk, h⟩ := Except.bind_eq_ok.mp h
  cases h
  exact ⟨w.seen, Rose.walkM_induct hwalk listsFirst_nil fun _ _ _ _ hdone hvisit => hdone.visit hvisit⟩

/-! ### What should be listed -/

/-- **The table gives the last definitions exactly if** the first and the last definition of each macro
give the same value and location. -/
theorem macroTable_iff {t : Cursor} {macros : List Macro} (h : collectMacros t = .ok macros) :
    IsMacroTable t macros ↔ ∀ name first last, (definitions t name).head? = some first →
      (definitions t name).getLast? = some last → macroEntry name last = macroEntry name first := by
  obtain ⟨seen, hlists⟩ := listsFirst_of_collectMacros h
  constructor
  · intro htable name first last hfirst hlast
    have hlisted : name ∈ macros.map Macro.name :=
      (hlists.names name).mpr fun hnil => by
        rw [definitions, hnil] at hfirst
        exact nomatch hfirst
    obtain ⟨m, hm, rfl⟩ := List.mem_map.mp hlisted
    obtain ⟨c, hc, hentry⟩ := hlists.first m hm
    obtain ⟨c', hc', hentry'⟩ := htable.last m hm
    cases hc.symm.trans hfirst
    cases hc'.symm.trans hlast
    rw [hentry, hentry']
  · intro hsame
    refine ⟨hlists.nodup, hlists.names, fun m hm => ?_⟩
    obtain ⟨first, hfirst, hentry⟩ := hlists.first m hm
    have hsome : definitions t m.name ≠ [] := fun hnil => by
      rw [definitions] at hnil
      rw [hnil] at hfirst
      exact nomatch hfirst
    have hlast := List.getLast?_eq_some_getLast hsome
    exact ⟨_, hlast, (hsame m.name first _ hfirst hlast).trans hentry⟩

/-- A definition of the macro `SIZE` on a line. -/
def sizeAt (line : ℕ) (value : String) : Cursor :=
  .node { kind := .ok .macroDefinition, spelling := .ok "SIZE",
          location := .ok ⟨some "/proj/a.cpp", line, 9⟩,
          get_tokens := .ok [.ok "SIZE", .ok value] } []

/-- `#define N 3`, on line 2. -/
def defineN : Cursor :=
  .node { kind := .ok .macroDefinition, spelling := .ok "N", location := .ok ⟨some "/proj/a.cpp", 2, 9⟩,
          get_tokens := .ok [.ok "N", .ok "3"] } []

/-- `#define SIZE 1`, `#define N 3` -/
def twoMacros : Cursor := .node { kind := .ok (.other 350) } [sizeAt 1 "1", defineN]

/-- `#define SIZE 1`, `#undef SIZE`, `#define SIZE 2` -/
def definedAgain : Cursor := .node { kind := .ok (.other 350) } [sizeAt 1 "1", sizeAt 3 "2"]

/-- The cursors of `twoMacros` that define a macro are one for each of its macros. -/
theorem mem_twoMacros {c : CursorInfo} (h : c ∈ twoMacros.subtrees.map Rose.label) :
    macroName c = none ∨ c = (sizeAt 1 "1").label ∨ c = defineN.label := by
  have hcursors : twoMacros.subtrees.map Rose.label =
      [twoMacros.label, (sizeAt 1 "1").label, defineN.label] := rfl
  rw [hcursors] at h
  rcases List.mem_cons.mp h with rfl | h
  · exact Or.inl rfl
  · exact Or.inr ((List.mem_cons.mp h).imp_right List.mem_singleton.mp)

/-- **Two macros, each defined once,** are listed as they are: what comes first and last among the
definitions of a macro is the one cursor that has its name. -/
theorem macroTable_iff_twoMacros : IsMacroTable twoMacros
    [⟨"SIZE", "1", some ("/proj/a.cpp", 1)⟩, ⟨"N", "3", some ("/proj/a.cpp", 2)⟩] := by
  refine (macroTable_iff rfl).mpr fun name first last hfirst hlast => ?_
  obtain ⟨hmem, hname⟩ := List.mem_filter.mp (List.mem_of_head? hfirst)
  obtain ⟨hmem', hname'⟩ := List.mem_filter.mp (List.mem_of_getLast? hlast)
  have hfirst := of_decide_eq_true hname
  have hsame := (of_decide_eq_true hname').trans hfirst.symm
  rcases mem_twoMacros hmem with hnone | rfl | rfl
  · exact absurd (hnone.symm.trans hfirst) (by simp)
  · rcases mem_twoMacros hmem' with hnone | rfl | rfl
    · exact absurd (hnone.symm.trans hsame) (by decide)
    · rfl
    · exact absurd hsame (by decide)
  · rcases mem_twoMacros hmem' with hnone | rfl | rfl
    · exact absurd (hnone.symm.trans hsame) (by decide)
    · exact absurd hsame (by decide)
    · rfl

/-- **The old value is reported** where a macro is defined again: the set of names seen keeps the
first definition of each. -/
theorem definedAgain_lists_old_value : ∃ macros, collectMacros definedAgain = .ok macros ∧
    macros = [⟨"SIZE", "1", some ("/proj/a.cpp", 1)⟩] ∧ ¬IsMacroTable definedAgain macros := by
  refine ⟨_, rfl, rfl, fun htable => ?_⟩
  obtain ⟨c, hlast, hentry⟩ := htable.last ⟨"SIZE", "1", some ("/proj/a.cpp", 1)⟩ List.mem_cons_self
  cases hlast
  exact absurd (congrArg (Except.map Macro.value) hentry) (by decide)

end Tools
end CppMcp
