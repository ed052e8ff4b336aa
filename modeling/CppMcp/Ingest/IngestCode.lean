/-
# The tool `ingest_code`

`_do_ingest_code` of `src/cpp_mcp/tools/ingest_code.py` and `export_file` of
`src/cpp_mcp/graphdb/exporter.py`: a request is checked, the driver chosen and
connected, the files collected, and then file by file the flags are resolved, the
translation unit got from the session, its nodes and edges extracted and written.
What raises for one file is recorded and the loop goes on.

Everything outside the server is `Outside`.  Besides what it returns, a run keeps the
calls of `index.parse` and the translation units it has exported.
-/

import CppMcp.Cache.ClangSession
import CppMcp.Export.Walk
import CppMcp.Files.Guard
import CppMcp.Graph.Backend
import CppMcp.Ingest.Collect
import CppMcp.Ingest.CompileDb

namespace CppMcp
namespace Ingest

open Py (Path)
open Files (Host GuardError)
open Cache (ClangSession ParseCall Answer)
open Export (Acc Exc Cursor NodeRecord EdgeRecord)
open CppMcp.Graph (Action GraphDriver Backend Servers)

/-- What the server meets outside. -/
structure Outside where
  host : Host
  sha1 : Py.Sha1
  /-- `os.stat(…).st_mtime_ns` when a cached entry is checked. -/
  old_mtime : Path → Option ℤ
  /-- `os.stat(…).st_mtime_ns` after a parse. -/
  new_mtime : Path → Option ℤ
  index_parse : ParseCall → Acc Cursor
  load_compile_db : Path → Option CompilationDatabase
  urlparse_raises : String → Option Exc
  /-- `driver.connect`. -/
  connect : String → Acc Unit

/-- The part of it that the session sees. -/
def Outside.world (o : Outside) : Cache.World Cursor :=
  ⟨o.host.fs, o.sha1, o.old_mtime, o.new_mtime, o.index_parse⟩

/-! ### One file -/

/-- What `export_file` returns. -/
structure ExportCounts where
  nodes_written : ℕ
  edges_written : ℕ
  nodes_attempted : ℕ
  edges_attempted : ℕ

/-- A computation that has no part in the state. -/
def ofAcc {σ α : Type} (x : Acc α) : Action σ α := fun s =>
  match x with
  | .ok a => .ok a s
  | .error exc => .error exc s

/-- `export_file`. -/
def exportFile {σ : Type} (sha1 : Py.Sha1) (driver : GraphDriver σ) (file_path : Path)
    (tu : Cursor) : Action σ ExportCounts := do
  let records ← ofAcc (Export.extractNodesAndEdges sha1 file_path.str tu)
  let nodes_written ← driver.upsert_nodes records.1
  let edges_written ← driver.upsert_edges records.2
  return ⟨nodes_written, edges_written, records.1.length, records.2.length⟩

/-- An item of `errors`. -/
structure FileError where
  file : String
  code : String
  message : String
  deriving DecidableEq, Repr

/-- The variables of the loop over the files, the session and the database; at the end the
calls of `index.parse` and the files that have been exported, with their translation units. -/
structure Progress (σ : Type) where
  session : ClangSession Cursor
  db : σ
  files_processed : ℕ := 0
  nodes_written : ℕ := 0
  edges_written : ℕ := 0
  nodes_attempted : ℕ := 0
  edges_attempted : ℕ := 0
  errors : List FileError := []
  parse_calls : List ParseCall := []
  exported : List (Path × Cursor) := []

section Loop

variable {σ : Type}

/-- The handler: an exception is recorded. -/
def Progress.fail (p : Progress σ) (cpp_file : Path) (exc : Exc) : Progress σ :=
  { p with errors := p.errors ++ [⟨cpp_file.str, exc.typeName, exc.message⟩] }

/-- The session has answered. -/
def Progress.answered (p : Progress σ) (answer : Answer Cursor) : Progress σ :=
  { p with
    session := answer.session
    parse_calls := p.parse_calls ++ answer.parse_call.toList }

/-- The file has been exported. -/
def Progress.succeed (p : Progress σ) (cpp_file : Path) (tu : Cursor) (counts : ExportCounts)
    (db : σ) : Progress σ :=
  { p with
    db := db
    files_processed := p.files_processed + 1
    nodes_written := p.nodes_written + counts.nodes_written
    edges_written := p.edges_written + counts.edges_written
    nodes_attempted := p.nodes_attempted + counts.nodes_attempted
    edges_attempted := p.edges_attempted + counts.edges_attempted
    exported := p.exported ++ [(cpp_file, tu)] }

variable (o : Outside) (driver : GraphDriver σ) (validated_build : Path)
  (default_flags : List String)

/-- One turn of the loop. -/
def processFile (p : Progress σ) (cpp_file : Path) : Progress σ :=
  match resolveFlags o.host.fs o.load_compile_db cpp_file (some validated_build) default_flags with
  | .error exc => p.fail cpp_file exc
  | .ok (flags, _source) =>
    let answer := p.session.getOrParseSync o.world cpp_file (some validated_build) flags 0
    match answer.result with
    | .error exc => (p.answered answer).fail cpp_file exc
    | .ok (tu, _hit) =>
      match exportFile o.sha1 driver cpp_file tu p.db with
      | .error exc db => { p.answered answer with db := db }.fail cpp_file exc
      | .ok counts db => (p.answered answer).succeed cpp_file tu counts db

/-- `for cpp_file in cpp_files`. -/
def processFiles (p : Progress σ) (cpp_files : List Path) : Progress σ :=
  cpp_files.foldl (processFile o driver validated_build default_flags) p

end Loop

/-! ### The request -/

/-- The arguments of `_do_ingest_code`, but for the session. -/
structure Request where
  file_path_or_dir : String
  build_path : Option String
  db_uri : Option String
  allowed_roots : List String
  default_flags : List String
  request_id : String
  recursive : Bool

/-- The success payload. -/
structure Payload where
  files_processed : ℕ
  nodes_written : ℕ
  edges_written : ℕ
  nodes_attempted : ℕ
  edges_attempted : ℕ
  errors : List FileError
  request_id : String

/-- What a run leaves. -/
structure Run (U : Type) where
  result : Except Exc Payload
  session : ClangSession Cursor
  servers : Servers U
  parse_calls : List ParseCall

/-- The exception classes of the path guard. -/
def guardExc : GuardError → Exc
  | .pathViolation message => ⟨"PathViolationError", message⟩
  | .fileNotFound message => ⟨"FileNotFoundError", message⟩
  | .invalidArgument message => ⟨"InvalidArgumentError", message⟩

/-- What leaves the `try` around `driver.connect`. -/
def connectExc (db_uri : String) (exc : Exc) : Exc :=
  if exc.typeName ∈ ["DependencyMissingError", "DBUnreachableError"] then exc
  else ⟨"DBUnreachableError",
    "Cannot reach graph database at " ++ Py.repr db_uri ++ ": " ++ exc.message⟩

/-- The arguments after all checks. -/
structure Checked where
  backend : Backend
  validated_build : Path
  validated_input : Path

/-- The checks before anything is done: the empty arguments, the scheme, the two paths. -/
def checkRequest (o : Outside) (req : Request) : Except Exc Checked :=
  if req.db_uri.getD "" = "" then
    .error ⟨"InvalidArgumentError",
      "db_uri is required and must be a non-empty string for ingest_code."⟩
  else if req.build_path.getD "" = "" then
    .error ⟨"InvalidArgumentError",
      "build_path is required and must be a non-empty string for ingest_code."⟩
  else
    match Graph.selectDriver o.urlparse_raises (req.db_uri.getD "") with
    | .error exc => .error exc
    | .ok backend =>
      match Files.validatePath o.host (req.build_path.getD "") req.allowed_roots "dir" with
      | .error exc => .error (guardExc exc)
      | .ok validated_build =>
        match Files.validatePath o.host req.file_path_or_dir req.allowed_roots "file" with
        | .error exc => .error (guardExc exc)
        | .ok validated_input => .ok ⟨backend, validated_build, validated_input⟩

/-- A request passes when both arguments are given, the scheme is known and the guard lets
both paths through. -/
theorem checkRequest_eq_ok_iff {o : Outside} {req : Request} {checked : Checked} :
    checkRequest o req = .ok checked ↔
      req.db_uri.getD "" ≠ "" ∧ req.build_path.getD "" ≠ "" ∧
        Graph.selectDriver o.urlparse_raises (req.db_uri.getD "") = .ok checked.backend ∧
        Files.validatePath o.host (req.build_path.getD "") req.allowed_roots "dir" =
          .ok checked.validated_build ∧
        Files.validatePath o.host req.file_path_or_dir req.allowed_roots "file" =
          .ok checked.validated_input := by
  unfold checkRequest
  split_ifs with h₁ h₂
  · exact ⟨fun h => absurd h (by simp), fun h => absurd h₁ h.1⟩
  · exact ⟨fun h => absurd h (by simp), fun h => absurd h₂ h.2.1⟩
  · split
    · rename_i exc hsel
      refine ⟨fun h => absurd h (by simp), fun h => ?_⟩
      rw [hsel] at h
      exact absurd h.2.2.1 (by simp)
    · rename_i backend hsel
      split
      · rename_i exc hbuild
        refine ⟨fun h => absurd h (by simp), fun h => ?_⟩
        rw [hbuild] at h
        exact absurd h.2.2.2.1 (by simp)
      · rename_i validated_build hbuild
        split
        · rename_i exc hinput
          refine ⟨fun h => absurd h (by simp), fun h => ?_⟩
          rw [hinput] at h
          exact absurd h.2.2.2.2 (by simp)
        · rename_i validated_input hinput
          rw [hsel, hbuild, hinput]
          constructor
          · intro h
            cases h
            exact ⟨h₁, h₂, rfl, rfl, rfl⟩
          · rintro ⟨-, -, hsel, hbuild, hinput⟩
            cases hsel
            cases hbuild
            cases hinput
            rfl

variable {U : Type} [DecidableEq U]

/-- The loop over the files, with the driver of the backend. -/
def ingestFiles (o : Outside) (b : Backend) (uuid5 : String → U) (validated_build : Path)
    (default_flags : List String) (session : ClangSession Cursor) (servers : Servers U)
    (cpp_files : List Path) : Progress (Servers U) :=
  processFiles o (b.driver uuid5) validated_build default_flags
    { session := session, db := servers } cpp_files

variable (uuid5 : String → U)

/-- `_do_ingest_code`. -/
def doIngestCode (o : Outside) (req : Request) (session : ClangSession Cursor)
    (servers : Servers U) : Run U :=
  match checkRequest o req with
  | .error exc => ⟨.error exc, session, servers, []⟩
  | .ok checked =>
    match o.connect (req.db_uri.getD "") with
    | .error exc => ⟨.error (connectExc (req.db_uri.getD "") exc), session, servers, []⟩
    | .ok () =>
      match collectCppFiles o.host.fs checked.validated_input req.recursive with
      | none =>
        ⟨.error ⟨"NotADirectoryError", "[Errno 20] Not a directory: " ++
          Py.repr checked.validated_input.str⟩, session,
          checked.backend.setConnected true servers, []⟩
      | some cpp_files =>
        let p := ingestFiles o checked.backend uuid5 checked.validated_build req.default_flags
          session (checked.backend.setConnected true servers) cpp_files
        ⟨.ok ⟨p.files_processed, p.nodes_written, p.edges_written, p.nodes_attempted,
            p.edges_attempted, p.errors, req.request_id⟩,
          p.session, checked.backend.setConnected false p.db, p.parse_calls⟩

variable {uuid5}

/-- A run parses what its loop parses, and without a loop nothing. -/
theorem mem_parse_calls_doIngestCode_iff {o : Outside} {req : Request}
    {session : ClangSession Cursor} {servers : Servers U} {call : ParseCall} :
    call ∈ (doIngestCode uuid5 o req session servers).parse_calls ↔
      ∃ checked cpp_files, checkRequest o req = .ok checked ∧
        o.connect (req.db_uri.getD "") = .ok () ∧
        collectCppFiles o.host.fs checked.validated_input req.recursive = some cpp_files ∧
        call ∈ (ingestFiles o checked.backend uuid5 checked.validated_build req.default_flags
          session (checked.backend.setConnected true servers) cpp_files).parse_calls := by
  constructor
  · intro h
    unfold doIngestCode at h
    split at h
    · exact absurd h List.not_mem_nil
    · rename_i checked hchecked
      split at h
      · exact absurd h List.not_mem_nil
      · rename_i hconnect
        dsimp only at h
        split at h
        · exact absurd h List.not_mem_nil
        · rename_i cpp_files hfiles
          exact ⟨checked, cpp_files, hchecked, hconnect, hfiles, h⟩
  · rintro ⟨checked, cpp_files, hchecked, hconnect, hfiles, h⟩
    unfold doIngestCode
    rw [hchecked]
    dsimp only
    rw [hconnect]
    dsimp only
    rw [hfiles]
    exact h

end Ingest
end CppMcp
