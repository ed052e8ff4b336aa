/-
# The tools share one session

Six tools look at one translation unit each, and do the same before they look: the two paths go through
the guard, the flags are resolved, and the session is asked for the unit, with the options of the tool
(`onUnit`).  They share the session, so a unit has to be what each of them reads (`SharedUnit`).

Which other calls the session has served before makes no difference, although files may have changed in
between: as long as modification times can be trusted and no flag looks like one that the session adds,
a tool looks at what libclang returns for exactly its request (`onUnit_eq_uncached`).  Only `cache_hit`
tells whether it had been asked before.
-/

import CppMcp.Ast.Tree
import CppMcp.Cache.Dated
import CppMcp.Tools.GetHeaderInfo
import CppMcp.Tools.GetPreprocessorState
import CppMcp.Tools.GetReferences

namespace CppMcp
namespace Tools

open Py (Path)
open Files (FileSystem Host)
open Cache (ClangSession Current Dated FlagsAmong ParseCall SessionRequest World)
open Export (Acc Exc Location TypeKind)
open Ingest (CompilationDatabase FlagSource guardExc resolveFlags)

/-- What is read of the declaration that `cursor.get_definition()` gives. -/
structure Definition where
  location : Acc Location
  get_usr : Acc String

/-- What is read of `cursor.type` and of its `get_canonical()`. -/
structure SymbolType where
  spelling : Acc String
  canonical_spelling : Acc String
  get_size : Acc ℤ
  get_align : Acc ℤ
  is_const_qualified : Acc Bool
  kind : Acc TypeKind
  canonical_is_pod : Acc Bool

/-- A translation unit, as each of the tools reads it. -/
structure SharedUnit where
  /-- For `ingest_code` and `get_preprocessor_state`. -/
  exported : Export.Cursor
  spelling : String
  /-- For `cursor_at` and `get_references`. -/
  located : TranslationUnit
  /-- For `get_ast`. -/
  walked : Ast.TranslationUnit
  /-- For `get_header_info`. -/
  header : HeaderUnit
  /-- What `get_definition()` gives of the cursor that `from_location` gives. -/
  definition_at : String → ℤ → ℤ → Acc (Option Definition)
  /-- The `type` of the cursor that `from_location` gives. -/
  type_at : String → ℤ → ℤ → Acc SymbolType

/-- What the tools meet outside. -/
structure SharedOutside where
  host : Host
  sha1 : Py.Sha1
  old_mtime : Path → Option ℤ
  new_mtime : Path → Option ℤ
  index_parse : ParseCall → Acc SharedUnit
  load_compile_db : Path → Option CompilationDatabase
  read_text : String → Except String String
  /-- What `get_preprocessor_state` gets when it opens a file and reads it. -/
  read_file : String → Acc String
  alnum : Char → Bool

namespace SharedOutside

variable (o : SharedOutside)

/-- The part of it that the session sees. -/
def world : Cache.World SharedUnit :=
  ⟨o.host.fs, o.sha1, o.old_mtime, o.new_mtime, o.index_parse⟩

/-- The part of it that the tools with a position see. -/
def located : Outside where
  host := o.host
  sha1 := o.sha1
  old_mtime := o.old_mtime
  new_mtime := o.new_mtime
  index_parse call := (o.index_parse call).map SharedUnit.located
  load_compile_db := o.load_compile_db
  read_text := o.read_text

/-- The unit as `get_preprocessor_state` sees it, with the file as it is now. -/
def recorded (tu : SharedUnit) : RecordedUnit := ⟨tu.exported, tu.spelling, o.read_file tu.spelling⟩

end SharedOutside

/-- The arguments that say which translation unit is meant. -/
structure UnitRequest where
  file_path : String
  build_path : Option String
  allowed_roots : List String
  default_flags : List String

/-- What a tool has before it looks. -/
structure OpenedUnit where
  resolved_file : Path
  tu : SharedUnit
  flags_source : FlagSource
  cache_hit : Bool

/-- `validate_path` for the roots of the request, with the exceptions it raises. -/
def UnitRequest.validate (o : SharedOutside) (req : UnitRequest) (raw kind : String) : Acc Path :=
  (Files.validatePath o.host raw req.allowed_roots kind).mapError guardExc

/-- The build directory, if one is given. -/
def UnitRequest.validateBuild (o : SharedOutside) (req : UnitRequest) : Acc (Option Path) :=
  match req.build_path with
  | none => .ok none
  | some build_path => (req.validate o build_path "dir").map some

/-- The paths and the flags of a request. -/
def resolveUnit (o : SharedOutside) (req : UnitRequest) :
    Acc (Path × Option Path × List String × FlagSource) := do
  let resolved_file ← req.validate o req.file_path "file"
  let resolved_build ← req.validateBuild o
  let flags ←
    resolveFlags o.host.fs o.load_compile_db resolved_file resolved_build req.default_flags
  return (resolved_file, resolved_build, flags)

section Tool

variable {α : Type} (o : SharedOutside) (req : UnitRequest) (options : ℤ) (look : OpenedUnit → Acc α)

/-- A tool on a translation unit: what `look` finds there, and the session after it has been asked. -/
def onUnit (session : ClangSession SharedUnit) : Acc α × ClangSession SharedUnit :=
  match resolveUnit o req with
  | .error exc => (.error exc, session)
  | .ok (resolved_file, resolved_build, flags, flags_source) =>
    let answer := session.getOrParseSync o.world resolved_file resolved_build flags options
    (do
      let (tu, cache_hit) ← answer.result
      look ⟨resolved_file, tu, flags_source, cache_hit⟩, answer.session)

/-- **A tool without a cache:** libclang is asked for exactly the request. -/
def uncached (cache_hit : Bool) : Acc α := do
  let (resolved_file, _, flags, flags_source) ← resolveUnit o req
  let tu ← o.index_parse ⟨o.host.fs.realpath resolved_file, flags, options⟩
  look ⟨resolved_file, tu, flags_source, cache_hit⟩

/-- The flags of the request can be told apart by the cache. -/
def CleanUnit (M : Set String) : Prop :=
  ∀ file build flags source, resolveUnit o req = .ok (file, build, flags, source) →
    FlagsAmong M flags options

end Tool

/-! ### What the session has served before makes no difference -/

section Uncached

variable {α : Type} {o : SharedOutside} {req : UnitRequest}

/-- What a tool has resolved is what the guard lets through. -/
theorem validatePath_of_resolveUnit {file : Path} {build : Option Path} {flags : List String}
    {source : FlagSource} (h : resolveUnit o req = .ok (file, build, flags, source)) :
    Files.validatePath o.host req.file_path req.allowed_roots "file" = .ok file := by
  obtain ⟨resolved_file, hfile, h⟩ := Except.bind_eq_ok.mp h
  obtain ⟨resolved_build, -, h⟩ := Except.bind_eq_ok.mp h
  obtain ⟨flags', -, h⟩ := Except.bind_eq_ok.mp h
  cases h
  unfold UnitRequest.validate at hfile
  cases hvalid : Files.validatePath o.host req.file_path req.allowed_roots "file" with
  | error exc =>
    rw [hvalid] at hfile
    exact nomatch hfile
  | ok path =>
    rw [hvalid] at hfile
    rw [Except.ok.inj hfile]

/-- What a tool has resolved is a path that leads to something, since the guard asks for its kind.
-/
theorem exists_target_of_resolveUnit {file : Path} {build : Option Path} {flags : List String}
    {source : FlagSource} (h : resolveUnit o req = .ok (file, build, flags, source)) :
    ∃ t, o.host.fs.target file = some t := by
  obtain ⟨kind, hkind⟩ := Option.isSome_iff_exists.mp
    (Files.validatePath_eq_ok_iff.mp (validatePath_of_resolveUnit h)).2.2.1.2.1
  obtain ⟨t, ht, -⟩ := Option.bind_eq_some_iff.mp hkind
  exact ⟨t, ht⟩

/-- No name in it has a slash, since the guard has split it there. -/
theorem slashless_of_resolveUnit {file : Path} {build : Option Path} {flags : List String}
    {source : FlagSource} (h : resolveUnit o req = .ok (file, build, flags, source)) :
    FileSystem.Slashless file :=
  let ⟨_, ht⟩ := exists_target_of_resolveUnit h
  FileSystem.slash_not_mem_of_target ht

variable {file : Path} {build : Option Path} {flags : List String} {source : FlagSource}

/-- A tool whose request resolves asks the session for the unit and looks at what it gets. -/
theorem onUnit_of_resolve (h : resolveUnit o req = .ok (file, build, flags, source)) (options : ℤ)
    (look : OpenedUnit → Acc α) (s : ClangSession SharedUnit) :
    onUnit o req options look s =
      ((s.getOrParseSync o.world file build flags options).result >>= fun unit =>
          look ⟨file, unit.1, source, unit.2⟩,
        (s.getOrParseSync o.world file build flags options).session) := by
  unfold onUnit
  rw [h]

/-- A tool without a cache whose request resolves asks libclang for the unit. -/
theorem uncached_of_resolve (h : resolveUnit o req = .ok (file, build, flags, source)) (options : ℤ)
    (look : OpenedUnit → Acc α) (cache_hit : Bool) :
    uncached o req options look cache_hit =
      (o.index_parse ⟨o.host.fs.realpath file, flags, options⟩ >>= fun tu =>
        look ⟨file, tu, source, cache_hit⟩) := by
  unfold uncached
  rw [h]
  rfl

/-- **A tool looks at what libclang returns for its request,** whatever the session has served. -/
theorem onUnit_eq_uncached {W : Set (World SharedUnit)} {M : Set String} {s : ClangSession SharedUnit}
    (h : Current W M s) (hdated : Dated W M) (hw : o.world ∈ W) {options : ℤ}
    (hclean : CleanUnit o req options M) (look : OpenedUnit → Acc α) :
    (∃ cache_hit, (onUnit o req options look s).1 = uncached o req options look cache_hit) ∧
      Current W M (onUnit o req options look s).2 := by
  cases hresolve : resolveUnit o req with
  | error exc =>
    unfold onUnit uncached
    rw [hresolve]
    exact ⟨⟨false, rfl⟩, h⟩
  | ok resolved =>
    obtain ⟨file, build, flags, source⟩ := resolved
    have hr : SessionRequest.Among
      ⟨file, build, flags, options, slashless_of_resolveUnit hresolve⟩ M :=
      hclean file build flags source hresolve
    have hanswer := h.answer hw hr
    have hserve := h.serve hdated hw hr
    change ((s.getOrParseSync o.world file build flags options).result).map Prod.fst =
      o.index_parse ⟨o.host.fs.realpath file, flags, options⟩ at hanswer
    change Current W M (s.getOrParseSync o.world file build flags options).session at hserve
    rw [onUnit_of_resolve hresolve]
    refine ⟨?_, hserve⟩
    simp only [uncached_of_resolve hresolve, ← hanswer]
    cases (s.getOrParseSync o.world file build flags options).result with
    | error exc => exact ⟨false, rfl⟩
    | ok unit => exact ⟨unit.2, rfl⟩

end Uncached

end Tools
end CppMcp
