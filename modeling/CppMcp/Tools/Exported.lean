/-
# The exported symbols of a unit

`_collect_exported_symbols` of `tools/get_header_info.py` goes no further at a cursor without a file, and
the root of a translation unit has none.  So it lists nothing, and its list is right only where nothing
is to be listed (`listsExported_iff`).
-/

import CppMcp.Tools.GetHeaderInfo

namespace CppMcp
namespace Tools

open Export (Acc CursorInfo)

/-- The cursor has a location, but no file. -/
def NoFile (c : CursorInfo) : Prop := ∃ loc, c.location = .ok loc ∧ loc.file = none

/-- The cursor has a location in a file. -/
def hasFile (c : CursorInfo) : Bool :=
  match c.location with
  | .ok loc => loc.file.isSome
  | .error _ => false

/-- The cursor is of an exported kind. -/
def isExported (c : CursorInfo) : Bool := c.kindName.any (· ∈ EXPORTED_KINDS)

/-- **The cursors to list,** in preorder: those of an exported kind with a file, whose ancestors below the
root are all of exported kinds. -/
def toBeListed (t : Rose HeaderCursor) : List HeaderCursor :=
  (t.paths.filter fun p =>
    isExported p.2.label.toCursorInfo && hasFile p.2.label.toCursorInfo &&
      p.1.dropLast.all fun c => isExported c.toCursorInfo).map fun p => p.2.label

/-- The symbols are those of the cursors to list, one for each. -/
def ListsExported (t : Rose HeaderCursor) (symbols : List ExportedSymbol) : Prop :=
  List.Forall₂ (fun symbol c => exportedAt c.toCursorInfo = some [symbol]) symbols (toBeListed t)

/-- **Nothing is listed** of a unit whose root has no file. -/
theorem collectExportedSymbols_eq_nil {tu : HeaderUnit} (hroot : NoFile tu.cursor.label.toCursorInfo) :
    collectExportedSymbols tu = .ok [] := by
  obtain ⟨loc, hloc, hfile⟩ := hroot
  have hstop : exportedAt tu.cursor.label.toCursorInfo = none := by
    rw [exportedAt, hloc]
    simp only [hfile]
  unfold collectExportedSymbols
  cases htree : tu.cursor with
  | node c ts =>
    rw [htree, Rose.label_node] at hstop
    rw [visitExported, hstop]

/-- An empty list is right only where nothing is to be listed. -/
theorem listsExported_nil_iff {t : Rose HeaderCursor} : ListsExported t [] ↔ toBeListed t = [] :=
  List.forall₂_nil_left_iff

/-- **The exported symbols are right exactly if** nothing is to be listed, of the function and of
the tool. The root of a unit has no file, and the visitor of `_collect_exported_symbols` returns at
a cursor without one, so it never gets below the root. -/
theorem listsExported_iff {tu : HeaderUnit} (hroot : NoFile tu.cursor.label.toCursorInfo) :
    ((∃ symbols, collectExportedSymbols tu = .ok symbols ∧ ListsExported tu.cursor symbols) ↔
        toBeListed tu.cursor = []) ∧
      ∀ main_file info, headerInfo tu main_file = .ok info →
        (ListsExported tu.cursor info.exported_symbols ↔ toBeListed tu.cursor = []) := by
  have hnil := collectExportedSymbols_eq_nil hroot
  refine ⟨?_, fun main_file info hinfo => ?_⟩
  · rw [← listsExported_nil_iff]
    constructor
    · rintro ⟨symbols, hsymbols, hlists⟩
      cases hnil.symm.trans hsymbols
      exact hlists
    · exact fun hlists => ⟨[], hnil, hlists⟩
  · have hsymbols : collectExportedSymbols tu = .ok info.exported_symbols :=
      (of_headerInfo_eq_ok hinfo).1
    rw [← Except.ok.inj (hnil.symm.trans hsymbols)]
    exact listsExported_nil_iff

/-- The root of a translation unit. -/
def unitRoot : HeaderCursor where
  kind := .ok (.other 350)
  refers_to_itself := false
  of_itself := nofun

/-- The function `f`, on line 1. -/
def functionCursor : HeaderCursor where
  kind := .ok .functionDecl
  spelling := .ok "f"
  displayname := .ok "f()"
  get_usr := .ok "c:@F@f#"
  location := .ok ⟨some "/proj/a.h", 1, 6⟩
  refers_to_itself := false
  of_itself := nofun

/-- A unit with nothing in it. -/
def emptyUnit : HeaderUnit where
  cursor := .node unitRoot []

/-- A unit with one function. -/
def functionUnit : HeaderUnit where
  cursor := .node unitRoot [.node functionCursor []]

/-- A function that libclang knows itself: it stands in no file. -/
def builtinCursor : HeaderCursor := { functionCursor with location := .ok {} }

/-- The parameter of `f`, of no exported kind. -/
def parameterCursor : HeaderCursor :=
  { functionCursor with kind := .ok .parmDecl, spelling := .ok "x", displayname := .ok "x" }

/-- A unit with a function to list, a parameter and a built-in function not to list. -/
def mixedUnit : HeaderUnit where
  cursor := .node unitRoot
    [.node builtinCursor [], .node functionCursor [.node parameterCursor []]]

/-- `listsExported_iff` for that unit: of the three cursors one is to be listed, and is not. -/
theorem listsExported_iff_mixedUnit : toBeListed mixedUnit.cursor = [functionCursor] ∧
    (¬∃ symbols, collectExportedSymbols mixedUnit = .ok symbols ∧
      ListsExported mixedUnit.cursor symbols) ∧
    ∀ main_file info, headerInfo mixedUnit main_file = .ok info →
      ¬ListsExported mixedUnit.cursor info.exported_symbols := by
  have hlist : toBeListed mixedUnit.cursor = [functionCursor] := rfl
  have hsome : toBeListed mixedUnit.cursor ≠ [] := by
    rw [hlist]
    exact List.cons_ne_nil _ _
  have hroot : NoFile mixedUnit.cursor.label.toCursorInfo := ⟨{}, rfl, rfl⟩
  obtain ⟨hfunction, htool⟩ := listsExported_iff hroot
  exact ⟨hlist, mt hfunction.mp hsome,
    fun main_file info hinfo => mt (htool main_file info hinfo).mp hsome⟩

/-- **A function at the top level is not listed,** though it is of an exported kind and stands in
the file. -/
theorem functionUnit_not_listed : NoFile functionUnit.cursor.label.toCursorInfo ∧
    toBeListed functionUnit.cursor = [functionCursor] ∧
      collectExportedSymbols functionUnit = .ok [] ∧ ¬ListsExported functionUnit.cursor [] :=
  ⟨⟨{}, rfl, rfl⟩, rfl, rfl, nofun⟩

end Tools
end CppMcp
