/-
# The cursor at a position

`core/cursor.py` and what every tool that looks at one translation unit does first: the two paths
go through the guard, the flags are resolved, the session is asked for the translation unit, and
libclang for the cursor at the line and column.  What the position is checked against is the text
of the file on disk.
-/

import CppMcp.Ingest.IngestCode
import CppMcp.Lib.Outline
import CppMcp.Py.Parse

namespace CppMcp
namespace Tools

open Py (Path)
open Files (Host)
open Cache (ClangSession ParseCall)
open Export (Acc Exc Cursor CursorInfo CursorKind)
open Ingest (CompilationDatabase FlagSource guardExc resolveFlags)

/-- A translation unit, as the tools use it. -/
structure TranslationUnit where
  cursor : Cursor
  /-- Whether `get_file(name)` is a file and not `None`. -/
  get_file : String → Acc Bool
  /-- `Cursor.from_location(tu, tu.get_location(name, (line, col)))`. -/
  from_location : String → ℤ → ℤ → Acc (Option CursorInfo)

/-- What the tools meet outside. -/
structure Outside where
  host : Host
  sha1 : Py.Sha1
  old_mtime : Path → Option ℤ
  new_mtime : Path → Option ℤ
  index_parse : ParseCall → Acc TranslationUnit
  load_compile_db : Path → Option CompilationDatabase
  /-- `Path(name).read_text(encoding="utf-8", errors="replace")`, or the text of the `OSError`. -/
  read_text : String → Except String String

/-- The part of it that the session sees. -/
def Outside.world (o : Outside) : Cache.World TranslationUnit :=
  ⟨o.host.fs, o.sha1, o.old_mtime, o.new_mtime, o.index_parse⟩

/-! ### `cursor_at` -/

def invalidPosition (message : String) : Exc := ⟨"InvalidPositionError", message⟩

section Position

variable (read_text : String → Except String String) (file_path : Path)

/-- The lines of the file. -/
def lines : Acc (List String) :=
  match read_text file_path.str with
  | .error exc => .error (invalidPosition ("Cannot read file to validate position: " ++ exc))
  | .ok text => .ok (Py.splitlines text)

/-- `_count_lines`. -/
def countLines : Acc ℕ := do
  let n := (← lines read_text file_path).length
  return if n = 0 then 1 else n

/-- `_line_length`. -/
def lineLength (line : ℤ) : Acc ℕ := do
  let lines ← lines read_text file_path
  if line < 1 ∨ lines.length < line then return 0
  else return ((lines[(line - 1).toNat]?).getD "").length

/-- The checks of the line and the column, before libclang is asked. -/
def checkPosition (line col : ℤ) : Acc Unit := do
  if line < 1 ∨ col < 1 then
    throw (invalidPosition
      ("line and col must be >= 1; got line=" ++ toString line ++ ", col=" ++ toString col))
  let total_lines ← countLines read_text file_path
  if total_lines < line then
    throw (invalidPosition
      ("line " ++ toString line ++ " is beyond end of file (" ++ toString total_lines ++ " lines)"))
  let line_len ← lineLength read_text file_path line
  if line_len + 1 < col then
    throw (invalidPosition
      ("col " ++ toString col ++ " is beyond end of line " ++ toString line ++
        " (length " ++ toString line_len ++ ")"))

end Position

/-- `CursorKind.TRANSLATION_UNIT`, by its number. -/
def TRANSLATION_UNIT : CursorKind := .other 350

/-- `CursorKind.INVALID_FILE`. -/
def INVALID_FILE : CursorKind := .other 70

/-- How a position is written in a message. -/
def positionText (file_path : Path) (line col : ℤ) : String :=
  file_path.str ++ ":" ++ toString line ++ ":" ++ toString col

/-- The check of the cursor that libclang has given. -/
def checkCursor (file_path : Path) (line col : ℤ) (cursor : CursorInfo) : Acc CursorInfo := do
  let kind ← cursor.kind
  if kind = TRANSLATION_UNIT then
    throw (invalidPosition ("No symbol at " ++ positionText file_path line col ++
      " (cursor kind: CursorKind.TRANSLATION_UNIT)"))
  else if kind = INVALID_FILE then
    throw (invalidPosition ("No symbol at " ++ positionText file_path line col ++
      " (cursor kind: CursorKind.INVALID_FILE)"))
  else return cursor

/-- `cursor_at`. -/
def cursorAt (read_text : String → Except String String) (tu : TranslationUnit) (file_path : Path)
    (line col : ℤ) : Acc CursorInfo := do
  checkPosition read_text file_path line col
  if !(← tu.get_file file_path.str) then
    throw (invalidPosition
      ("libclang cannot find file " ++ file_path.str ++ " in the TranslationUnit"))
  match ← tu.from_location file_path.str line col with
  | none => throw (invalidPosition ("No cursor found at " ++ positionText file_path line col))
  | some cursor => checkCursor file_path line col cursor

/-- The checks at the end of `cursor_at` change nothing about the cursor. -/
theorem eq_of_checkCursor {file_path : Path} {line col : ℤ} {cursor c : CursorInfo}
    (h : checkCursor file_path line col cursor = .ok c) : cursor = c := by
  obtain ⟨kind, -, h⟩ := Except.bind_eq_ok.mp h
  split_ifs at h
  exact Except.ok.inj h

/-- **The cursor is the one libclang gives for the position:** the checks around
`Cursor.from_location` only raise. -/
theorem from_location_of_cursorAt {read_text : String → Except String String}
    {tu : TranslationUnit} {file_path : Path} {line col : ℤ} {c : CursorInfo}
    (h : cursorAt read_text tu file_path line col = .ok c) :
    tu.from_location file_path.str line col = .ok (some c) := by
  obtain ⟨-, -, h⟩ := Except.bind_eq_ok.mp h
  obtain ⟨found, -, h⟩ := Except.bind_eq_ok.mp h
  cases found with
  | false => exact nomatch h
  | true =>
    obtain ⟨cursor, hcursor, h⟩ := Except.bind_eq_ok.mp h
    cases cursor with
    | none => exact nomatch h
    | some cursor =>
      rw [hcursor, eq_of_checkCursor h]

/-! ### The translation unit of a request -/

/-- The arguments that say which translation unit is meant, and where in it. -/
structure Request where
  file_path : String
  line : ℤ
  col : ℤ
  build_path : Option String
  allowed_roots : List String
  default_flags : List String
  request_id : String

/-- What a tool has before it looks for the cursor. -/
structure Opened where
  resolved_file : Path
  tu : TranslationUnit
  flags_source : FlagSource
  cache_hit : Bool

/-- `validate_path` with the exceptions it raises. -/
def validated (o : Outside) (raw : String) (allowed_roots : List String) (kind : String) :
    Acc Path :=
  match Files.validatePath o.host raw allowed_roots kind with
  | .error exc => .error (guardExc exc)
  | .ok path => .ok path

/-- The paths and the flags of a request. -/
def resolveRequest (o : Outside) (req : Request) :
    Acc (Path × Option Path × List String × FlagSource) := do
  let resolved_file ← validated o req.file_path req.allowed_roots "file"
  let resolved_build ←
    match req.build_path with
    | none => pure none
    | some build_path => do pure (some (← validated o build_path req.allowed_roots "dir"))
  let flags ←
    resolveFlags o.host.fs o.load_compile_db resolved_file resolved_build req.default_flags
  return (resolved_file, resolved_build, flags)

/-- The translation unit of a request, and the session after it has been asked. -/
def openUnit (o : Outside) (session : ClangSession TranslationUnit) (req : Request) :
    Acc Opened × ClangSession TranslationUnit :=
  match resolveRequest o req with
  | .error exc => (.error exc, session)
  | .ok (resolved_file, resolved_build, flags, flags_source) =>
    let answer := session.getOrParseSync o.world resolved_file resolved_build flags 0
    (answer.result.map fun tu => ⟨resolved_file, tu.1, flags_source, tu.2⟩, answer.session)

end Tools
end CppMcp
