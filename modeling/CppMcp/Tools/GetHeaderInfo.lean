/-
# The tool `get_header_info`

`tools/get_header_info.py`, from the translation unit on: the files that the unit includes, the names
that its diagnostics miss, the symbols that the exported kinds of cursors declare, and the direct
includes of which nothing is referenced.

A cursor's `referenced` may be the cursor itself, as it is for a declaration.  The tool cannot tell, since
it compares USRs only; so `HeaderCursor` says of each cursor whether it is.
-/

import CppMcp.Lib.Visitor
import CppMcp.Export.Cursor
import CppMcp.Py.Parse

namespace CppMcp
namespace Tools

open Export (Acc Exc CursorInfo CursorKind Ref)

/-- A cursor, and whether it is its own `referenced`. -/
structure HeaderCursor extends CursorInfo where
  refers_to_itself : Bool
  of_itself : refers_to_itself = true → referenced = .ok (some ⟨get_usr⟩)

/-- An item of `get_includes()`: the file's `name`, if there is a file, and the depth. -/
structure FileInclusion where
  name : Acc (Option String)
  depth : ℕ

/-- A translation unit, as the tool uses it. -/
structure HeaderUnit where
  cursor : Rose HeaderCursor
  get_includes : Acc (List FileInclusion) := .ok []
  diagnostics : List (Acc String) := []

/-! ### `_collect_exported_symbols` -/

/-- `CursorKind.ENUM_DECL`, by its number. -/
def ENUM_DECL : CursorKind := .other 5

/-- `_EXPORTED_KINDS`. -/
def EXPORTED_KINDS : List CursorKind :=
  [.functionDecl, .cxxMethod, .constructor_, .destructor, .structDecl, .classDecl, .classTemplate,
    .functionTemplate, .typedefDecl, .typeAliasDecl, .namespace_, .varDecl, ENUM_DECL]

/-- An item of the list of symbols. -/
structure ExportedSymbol where
  kind : CursorKind
  name : String
  usr : String
  signature : String
  file : String
  line : ℕ
  deriving DecidableEq, Repr

/-- `cursor.displayname or cursor.spelling`. -/
def signatureOf (cursor : CursorInfo) : String :=
  let sig : Acc String := do
    let displayname ← cursor.displayname
    if displayname = "" then cursor.spelling else return displayname
  Acc.getD sig ""

/-- What `_visit` of `_collect_exported_symbols` finds at a cursor; `none` if it goes no further. -/
def exportedAt (cursor : CursorInfo) : Option (List ExportedSymbol) :=
  match cursor.location with
  | .error _ => some []
  | .ok loc =>
    match loc.file, cursor.kindName with
    | some file, some kind =>
      if kind ∈ EXPORTED_KINDS then
        match cursor.spelling with
        | .error _ => some []
        | .ok name => some [{
            kind, name, file
            usr := cursor.safeUsr
            signature := signatureOf cursor
            line := loc.line }]
      else none
    | _, _ => none

mutual

/-- `_visit` of `_collect_exported_symbols`. -/
def visitExported : Rose HeaderCursor → List ExportedSymbol → Acc (List ExportedSymbol)
  | .node cursor children, symbols =>
    match exportedAt cursor.toCursorInfo with
    | none => .ok symbols
    | some found => do
      cursor.getChildren
      visitExportedList children (symbols ++ found)

/-- `_visit` of each child. -/
def visitExportedList : List (Rose HeaderCursor) → List ExportedSymbol → Acc (List ExportedSymbol)
  | [], symbols => .ok symbols
  | t :: ts, symbols => do
    let symbols ← visitExported t symbols
    visitExportedList ts symbols

end

/-- `_collect_exported_symbols`. -/
def collectExportedSymbols (tu : HeaderUnit) : Acc (List ExportedSymbol) := visitExported tu.cursor []

/-! ### `_collect_usrs_in_main_file` and `_collect_usrs_in_file` -/

/-- The cursor has a location in the file. -/
def inFile (file : String) (cursor : CursorInfo) : Bool :=
  match cursor.location with
  | .ok loc => loc.file = some file
  | .error _ => false

/-- The USR of what the cursor refers to, if it has one. -/
def referencedUsr (cursor : CursorInfo) : Option String :=
  match cursor.referenced with
  | .ok (some ref) => if ref.safeUsr = "" then none else some ref.safeUsr
  | _ => none

/-- The USR of the cursor, if it has one. -/
def declaredUsr (cursor : CursorInfo) : Option String :=
  if cursor.safeUsr = "" then none else some cursor.safeUsr

/-- The walk that both functions make: the USRs that are read of the cursors in a file. -/
def collectUsrs (usr : CursorInfo → Option String) (tu : HeaderUnit) (file : String) :
    Acc (List String) :=
  Rose.walkM
    (fun usrs (cursor : HeaderCursor) =>
      .ok (if inFile file cursor.toCursorInfo then usrs ++ (usr cursor.toCursorInfo).toList else usrs))
    (fun cursor => cursor.getChildren) tu.cursor []

/-- `_collect_usrs_in_main_file`. -/
def collectUsrsInMainFile (tu : HeaderUnit) (main_file : String) : Acc (List String) :=
  collectUsrs referencedUsr tu main_file

/-- `_collect_usrs_in_file`. -/
def collectUsrsInFile (tu : HeaderUnit) (file_name : String) : Acc (List String) :=
  collectUsrs declaredUsr tu file_name

/-! ### The answer -/

/-- `direct_includes` and `transitive_includes`. -/
structure Includes where
  direct_includes : List String := []
  transitive_includes : List String := []

/-- One turn of the loop over the includes; `seen_transitive` has what `transitive_includes` has. -/
def includeStep (w : Includes) (inc : FileInclusion) : Includes :=
  match Acc.getD inc.name none with
  | none => w
  | some include_file => {
      direct_includes :=
        if inc.depth = 1 ∧ include_file ∉ w.direct_includes then w.direct_includes ++ [include_file]
        else w.direct_includes
      transitive_includes :=
        if include_file ∈ w.transitive_includes then w.transitive_includes
        else w.transitive_includes ++ [include_file] }

/-- `'` or `"`. -/
def isQuote (c : Char) : Bool := c == '\'' || c == '"'

/-- `re.search(r"['\"]([^'\"]+)['\"]", msg)`, the group of it. -/
def quotedName : List Char → Option String
  | [] => none
  | c :: rest =>
    let name := rest.takeWhile fun c => !isQuote c
    if isQuote c ∧ name ≠ [] ∧ name.length < rest.length then some (String.ofList name)
    else quotedName rest

/-- One turn of the loop over the diagnostics.  `lower` gives no letter of these phrases for a character
that is not ASCII. -/
def missingStep (missing_includes : List String) (spelling : Acc String) : Acc (List String) := do
  let msg ← spelling
  if Py.contains (Py.lower msg) "file not found" || Py.contains (Py.lower msg) "no such file" then
    match quotedName msg.toList with
    | none => return missing_includes
    | some inc_name =>
      return if inc_name ∈ missing_includes then missing_includes else missing_includes ++ [inc_name]
  else return missing_includes

/-- The loop over the direct includes. -/
def orphanedIncludes (tu : HeaderUnit) (referenced_usrs : List String) :
    List String → Acc (List String)
  | [] => .ok []
  | inc_path :: direct_includes => do
    let defined_usrs ← collectUsrsInFile tu inc_path
    let orphaned_includes ← orphanedIncludes tu referenced_usrs direct_includes
    return if defined_usrs ≠ [] ∧ ∀ usr ∈ defined_usrs, usr ∉ referenced_usrs
      then inc_path :: orphaned_includes else orphaned_includes

/-- What the tool answers, the flags and the cache apart. -/
structure HeaderInfo where
  direct_includes : List String
  transitive_includes : List String
  exported_symbols : List ExportedSymbol
  missing_includes : List String
  orphaned_includes : List String

/-- The includes that the unit is asked for. -/
def includesOf (tu : HeaderUnit) : Includes :=
  (Acc.getD tu.get_includes []).foldl includeStep {}

/-- `_do_get_header_info`, from the translation unit on. -/
def headerInfo (tu : HeaderUnit) (main_file : String) : Acc HeaderInfo := do
  let missing_includes ← tu.diagnostics.foldlM missingStep []
  let referenced_usrs ← collectUsrsInMainFile tu main_file
  let orphaned_includes ← orphanedIncludes tu referenced_usrs (includesOf tu).direct_includes
  let exported_symbols ← collectExportedSymbols tu
  return {
    direct_includes := (includesOf tu).direct_includes
    transitive_includes := (includesOf tu).transitive_includes
    exported_symbols
    missing_includes
    orphaned_includes }

/-- Where the symbols and the orphaned includes of an answer come from. -/
theorem of_headerInfo_eq_ok {tu : HeaderUnit} {main_file : String} {info : HeaderInfo}
    (h : headerInfo tu main_file = .ok info) :
    collectExportedSymbols tu = .ok info.exported_symbols ∧
      ∃ referenced_usrs, collectUsrsInMainFile tu main_file = .ok referenced_usrs ∧
        orphanedIncludes tu referenced_usrs (includesOf tu).direct_includes =
          .ok info.orphaned_includes := by
  obtain ⟨missing_includes, -, h⟩ := Except.bind_eq_ok.mp h
  obtain ⟨referenced_usrs, hreferenced, h⟩ := Except.bind_eq_ok.mp h
  obtain ⟨orphaned_includes, horphaned, h⟩ := Except.bind_eq_ok.mp h
  obtain ⟨exported_symbols, hexported, h⟩ := Except.bind_eq_ok.mp h
  cases h
  exact ⟨hexported, referenced_usrs, hreferenced, horphaned⟩

end Tools
end CppMcp
