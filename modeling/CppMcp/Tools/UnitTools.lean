/-
# The six tools on one translation unit

`get_ast`, `get_definition`, `get_type_info`, `get_references`, `get_header_info` and
`get_preprocessor_state`: each is a `Tool`, by the check it makes first, the options it parses with, and
what it looks for in the unit.  The flag `cache_hit` is passed on and nothing else is made of it, so a
tool that is served from the cache answers what it answers without one, the flag apart
(`run_eq_uncached`).
-/

import CppMcp.Tools.SharedSession

namespace CppMcp
namespace Tools

open Py (Path)
open Cache (ClangSession Current Dated World)
open Export (Acc Exc)
open Ingest (FlagSource guardExc)
open Ast (GraphAst JsonAst)

/-! ### The answers -/

/-- An answer: what has been found, and where the flags and the unit come from. -/
structure Answered (α : Type) where
  payload : α
  flags_source : FlagSource
  cache_hit : Bool

/-- What `get_definition` answers, the flags and the cache apart. -/
structure SymbolDefinition where
  definition_found : Bool
  file : Option String
  line : Option ℕ
  col : Option ℕ
  usr : String
  request_id : String

/-- What `get_type_info` answers, the flags and the cache apart. -/
structure SymbolTypeInfo where
  display_type : String
  canonical_type : String
  size_bytes : Option ℤ
  alignment_bytes : Option ℤ
  is_pod : Bool
  is_const : Bool
  is_reference : Bool
  is_pointer : Bool
  request_id : String

/-- What a tool on a translation unit answers. -/
inductive UnitAnswer where
  | ast (answer : Answered (GraphAst ⊕ JsonAst))
  | definition (answer : Answered SymbolDefinition)
  | typeInfo (answer : Answered SymbolTypeInfo)
  | references (answer : References)
  | headerInfo (answer : Answered HeaderInfo)
  | preprocessorState (answer : Answered (List Macro × List Conditional))

/-- The answer with the flag set. -/
def Answered.withHit {α : Type} (cache_hit : Bool) (answer : Answered α) : Answered α :=
  { answer with cache_hit }

/-- The answer with the flag set. -/
def UnitAnswer.withHit (cache_hit : Bool) : UnitAnswer → UnitAnswer
  | .ast answer => .ast (answer.withHit cache_hit)
  | .definition answer => .definition (answer.withHit cache_hit)
  | .typeInfo answer => .typeInfo (answer.withHit cache_hit)
  | .references answer => .references { answer with cache_hit }
  | .headerInfo answer => .headerInfo (answer.withHit cache_hit)
  | .preprocessorState answer => .preprocessorState (answer.withHit cache_hit)

/-- What a tool does: a check before all else, the options, and what it looks for in the unit. -/
structure Tool where
  check : Acc Unit := .ok ()
  req : UnitRequest
  options : ℤ := 0
  look : OpenedUnit → Acc UnitAnswer

/-- `found` in the unit, with the flags and the cache, as one of the answers. -/
def answering {α : Type} (answer : Answered α → UnitAnswer) (found : Path → SharedUnit → Acc α)
    (opened : OpenedUnit) : Acc UnitAnswer := do
  let payload ← found opened.resolved_file opened.tu
  return answer ⟨payload, opened.flags_source, opened.cache_hit⟩

/-! ### `get_ast` -/

/-- The arguments of `_do_get_ast`. -/
structure AstRequest extends UnitRequest where
  format : String
  depth : ℤ
  start_line : Option ℤ
  end_line : Option ℤ
  max_nodes : ℕ
  max_bytes : ℕ

/-- The first and the last line are not the wrong way round. -/
def AstRequest.checkRange (req : AstRequest) : Acc Unit :=
  match req.start_line, req.end_line with
  | some start_line, some end_line =>
    if end_line < start_line then
      .error ⟨"InvalidRangeError", "start_line (" ++ toString start_line ++
        ") must not be greater than end_line (" ++ toString end_line ++ ")"⟩
    else .ok ()
  | _, _ => .ok ()

/-- `has_zero_ast_nodes`. -/
def hasZeroAstNodes (tu : Ast.TranslationUnit) : Bool :=
  match tu.cursor with
  | .node c children =>
    match c.getChildren with
    | .error _ => true
    | .ok () => children.isEmpty

/-- `has_fatal_diagnostics`: an exception ends the loop. -/
def hasFatalDiagnostics : List (Acc Ast.Diagnostic) → Bool
  | [] => false
  | .error _ :: _ => false
  | .ok diag :: diagnostics => decide (4 ≤ diag.severity) || hasFatalDiagnostics diagnostics

/-- The walk of `_do_get_ast`. -/
def AstRequest.walk (req : AstRequest) (tu : Ast.TranslationUnit) : Acc (GraphAst ⊕ JsonAst) := do
  if hasZeroAstNodes tu && hasFatalDiagnostics tu.diagnostics then
    throw ⟨"FatalParseError", "libclang produced zero AST nodes with fatal diagnostics for " ++
      Py.repr req.file_path⟩
  if Py.lower (if req.format = "" then "json" else req.format) = "graph" then
    return .inl (← Ast.walkGraph tu req.start_line req.end_line req.max_nodes req.max_bytes)
  else
    return .inr (← Ast.walkJson tu req.depth req.start_line req.end_line req.max_nodes req.max_bytes)

/-- `_do_get_ast`. -/
def doGetAst (req : AstRequest) : Tool where
  check := req.checkRange
  req := req.toUnitRequest
  look := answering .ast fun _ tu => req.walk tu.walked

/-! ### The tools with a position -/

/-- The translation unit that is meant. -/
def Request.unit (req : Request) : UnitRequest :=
  ⟨req.file_path, req.build_path, req.allowed_roots, req.default_flags⟩

section Position

variable (o : SharedOutside) (req : Request)

/-- The definition of the symbol at the position, if libclang knows one. -/
def findDefinition (file_path : Path) (tu : SharedUnit) : Acc SymbolDefinition := do
  let cursor ← cursorAt o.read_text tu.located file_path req.line req.col
  let not_found : Acc SymbolDefinition := do
    return ⟨false, none, none, none, ← cursor.get_usr, req.request_id⟩
  match ← tu.definition_at file_path.str req.line req.col with
  | none => not_found
  | some definition =>
    let def_loc ← definition.location
    match def_loc.file with
    | none => not_found
    | some file =>
      return ⟨true, some file, some def_loc.line, some def_loc.column, ← definition.get_usr,
        req.request_id⟩

/-- `_do_get_definition`. -/
def doGetDefinition : Tool where
  req := req.unit
  look := answering .definition (findDefinition o req)

/-- `_safe_size`. -/
def safeSize (value : ℤ) : Option ℤ := if 0 < value then some value else none

/-- What is known of the type of the symbol at the position. -/
def findTypeInfo (file_path : Path) (tu : SharedUnit) : Acc SymbolTypeInfo := do
  let _ ← cursorAt o.read_text tu.located file_path req.line req.col
  let typ ← tu.type_at file_path.str req.line req.col
  let display_type ← typ.spelling
  let canonical_type ← typ.canonical_spelling
  let raw_size ← typ.get_size
  let raw_align ← typ.get_align
  let is_const ← typ.is_const_qualified
  let kind ← typ.kind
  return {
    display_type
    canonical_type
    size_bytes := safeSize raw_size
    alignment_bytes := safeSize raw_align
    is_pod := Acc.getD typ.canonical_is_pod false
    is_const
    is_reference := kind = .lvalueReference || kind = .rvalueReference
    is_pointer := kind = .pointer
    request_id := req.request_id }

/-- `_do_get_type_info`. -/
def doGetTypeInfo : Tool where
  req := req.unit
  look := answering .typeInfo (findTypeInfo o req)

/-- What `references` needs of a unit that has been opened. -/
def OpenedUnit.located (opened : OpenedUnit) : Opened :=
  ⟨opened.resolved_file, opened.tu.located, opened.flags_source, opened.cache_hit⟩

/-- `_do_get_references`, on the session that is shared. -/
def sharedGetReferences : Tool where
  req := req.unit
  look opened := do
    let cursor ←
      cursorAt o.read_text opened.tu.located opened.resolved_file req.line req.col
    return .references (← references o.read_text opened.located req.request_id cursor)

end Position

/-! ### The tools on a whole file -/

/-- `_do_get_header_info`. -/
def doGetHeaderInfo (req : UnitRequest) : Tool where
  req := req
  look := answering .headerInfo fun file_path tu => headerInfo tu.header file_path.str

/-- `_PARSE_DETAILED`. -/
def PARSE_DETAILED : ℤ := 1

/-- `_do_get_preprocessor_state`. -/
def doGetPreprocessorState (o : SharedOutside) (req : UnitRequest) : Tool where
  req := req
  options := PARSE_DETAILED
  look := answering .preprocessorState fun _ tu => preprocessorState o.alnum (o.recorded tu)

/-! ### The tools -/

/-- A call of one of the tools. -/
inductive UnitTask where
  | get_ast (req : AstRequest)
  | get_definition (req : Request)
  | get_type_info (req : Request)
  | get_references (req : Request)
  | get_header_info (req : UnitRequest)
  | get_preprocessor_state (req : UnitRequest)

/-- The tool that is called. -/
def UnitTask.tool (o : SharedOutside) : UnitTask → Tool
  | .get_ast req => doGetAst req
  | .get_definition req => doGetDefinition o req
  | .get_type_info req => doGetTypeInfo o req
  | .get_references req => sharedGetReferences o req
  | .get_header_info req => doGetHeaderInfo req
  | .get_preprocessor_state req => doGetPreprocessorState o req

namespace Tool

variable (o : SharedOutside) (t : Tool)

/-- The tool, and the session after it. -/
def run (session : ClangSession SharedUnit) : Acc UnitAnswer × ClangSession SharedUnit :=
  match t.check with
  | .error exc => (.error exc, session)
  | .ok () => onUnit o t.req t.options t.look session

/-- **The tool without a cache.** -/
def uncached (cache_hit : Bool) : Acc UnitAnswer := do
  t.check
  Tools.uncached o t.req t.options t.look cache_hit

/-- The tool only passes the flag on. -/
def PassesOn : Prop :=
  ∀ opened, t.look opened =
    (t.look { opened with cache_hit := false }).map (UnitAnswer.withHit opened.cache_hit)

end Tool

/-- A tool that puts its answer together at the end only passes the flag on. -/
theorem passesOn_answering {α : Type} (answer : Answered α → UnitAnswer)
    (hanswer : ∀ a hit, (answer a).withHit hit = answer (a.withHit hit))
    (found : Path → SharedUnit → Acc α) (opened : OpenedUnit) :
    answering answer found opened = (answering answer found { opened with cache_hit := false }).map
      (UnitAnswer.withHit opened.cache_hit) := by
  unfold answering
  dsimp only
  cases found opened.resolved_file opened.tu with
  | error exc => rfl
  | ok payload =>
    exact congrArg Except.ok (hanswer ⟨payload, opened.flags_source, false⟩ opened.cache_hit).symm

/-- `get_references` only passes the flag on: where it stands among its calls is of no matter to the
rest. -/
theorem passesOn_references (o : SharedOutside) (req : Request) :
    (sharedGetReferences o req).PassesOn := by
  intro opened
  unfold sharedGetReferences references OpenedUnit.located
  dsimp only
  cases cursorAt o.read_text opened.tu.located opened.resolved_file req.line req.col with
  | error exc => rfl
  | ok cursor =>
    dsimp only [bind, Except.bind]
    cases cursor.get_usr with
    | error exc => rfl
    | ok target_usr =>
      dsimp only
      cases collectReferences o.read_text target_usr opened.tu.located with
      | error exc => rfl
      | ok all_refs => rfl

/-- **Every tool only passes the flag on** that says where its unit comes from. -/
theorem UnitTask.passesOn (o : SharedOutside) (task : UnitTask) : (task.tool o).PassesOn := by
  cases task with
  | get_ast req => exact passesOn_answering .ast (fun _ _ => rfl) fun _ tu => req.walk tu.walked
  | get_definition req => exact passesOn_answering .definition (fun _ _ => rfl) _
  | get_type_info req => exact passesOn_answering .typeInfo (fun _ _ => rfl) _
  | get_references req => exact passesOn_references o req
  | get_header_info req =>
    exact passesOn_answering .headerInfo (fun _ _ => rfl) fun file_path tu =>
      headerInfo tu.header file_path.str
  | get_preprocessor_state req =>
    exact passesOn_answering .preprocessorState (fun _ _ => rfl) fun _ tu =>
      preprocessorState o.alnum (o.recorded tu)

namespace Tool

variable {o : SharedOutside} {t : Tool}

/-- So the answers of a tool with the one flag and with the other differ in the flag alone. -/
theorem PassesOn.uncached (h : t.PassesOn) (cache_hit : Bool) :
    t.uncached o cache_hit = (t.uncached o false).map (UnitAnswer.withHit cache_hit) := by
  unfold Tool.uncached Tools.uncached
  cases t.check with
  | error exc => rfl
  | ok checked =>
    dsimp only [bind, Except.bind]
    cases resolveUnit o t.req with
    | error exc => rfl
    | ok resolved =>
      dsimp only
      cases o.index_parse ⟨o.host.fs.realpath resolved.1, resolved.2.2.1, t.options⟩ with
      | error exc => rfl
      | ok tu => exact h ⟨resolved.1, tu, resolved.2.2.2, cache_hit⟩

/-- **A tool answers what it answers without a cache,** `cache_hit` apart, whatever the session has
served before. -/
theorem run_eq_uncached (h : t.PassesOn) {W : Set (World SharedUnit)} {M : Set String}
    {s : ClangSession SharedUnit} (hs : Current W M s) (hdated : Dated W M) (hw : o.world ∈ W)
    (hclean : CleanUnit o t.req t.options M) :
    (∃ cache_hit, (t.run o s).1 = (t.uncached o false).map (UnitAnswer.withHit cache_hit)) ∧
      Current W M (t.run o s).2 := by
  obtain ⟨⟨cache_hit, hanswer⟩, hcurrent⟩ := onUnit_eq_uncached hs hdated hw hclean t.look
  simp only [← h.uncached]
  unfold run Tool.uncached
  cases t.check with
  | error exc => exact ⟨⟨false, rfl⟩, hs⟩
  | ok checked => exact ⟨⟨cache_hit, hanswer⟩, hcurrent⟩

end Tool

/-! ### `get_references` on its own session -/

/-- With a session of its own `get_references` resolves a request as with the shared one. -/
theorem resolveRequest_located (o : SharedOutside) (req : Request) :
    resolveRequest o.located req = resolveUnit o req.unit := by
  have hvalid : ∀ raw kind, validated o.located raw req.allowed_roots kind =
      req.unit.validate o raw kind := by
    intro raw kind
    unfold validated UnitRequest.validate
    dsimp only [SharedOutside.located, Request.unit]
    cases Files.validatePath o.host raw req.allowed_roots kind <;> rfl
  unfold resolveRequest resolveUnit UnitRequest.validateBuild
  rw [hvalid]
  change _ = (req.unit.validate o req.file_path "file" >>= fun _ => _)
  cases req.unit.validate o req.file_path "file" with
  | error exc => rfl
  | ok file =>
    have hbuild : req.unit.build_path = req.build_path := rfl
    rw [hbuild]
    cases req.build_path with
    | none => rfl
    | some build_path =>
      dsimp only [bind, Except.bind]
      rw [hvalid]
      cases req.unit.validate o build_path "dir" <;> rfl

/-- **`get_references` does not see that the session is shared:** with a session of its own, of which
every unit is what it reads of the shared one, it answers the same. -/
theorem doGetReferences_map (o : SharedOutside) (s : ClangSession SharedUnit) (req : Request) :
    (doGetReferences o.located (s.map SharedUnit.located) req).1.map UnitAnswer.references =
        ((sharedGetReferences o req).run o s).1 ∧
      (doGetReferences o.located (s.map SharedUnit.located) req).2 =
        ((sharedGetReferences o req).run o s).2.map SharedUnit.located := by
  unfold doGetReferences openUnit
  rw [resolveRequest_located]
  change _ = (onUnit o req.unit 0 (sharedGetReferences o req).look s).1 ∧
    _ = (onUnit o req.unit 0 (sharedGetReferences o req).look s).2.map _
  cases hresolve : resolveUnit o req.unit with
  | error exc =>
    unfold onUnit
    rw [hresolve]
    exact ⟨rfl, rfl⟩
  | ok resolved =>
    obtain ⟨file, build, flags, source⟩ := resolved
    have hmap := ClangSession.getOrParseSync_map SharedUnit.located o.world s file build flags 0
    change (s.map SharedUnit.located).getOrParseSync o.located.world file build flags 0 = _ at hmap
    rw [onUnit_of_resolve hresolve]
    dsimp only
    rw [hmap]
    refine ⟨?_, rfl⟩
    dsimp only
    cases (s.getOrParseSync o.world file build flags 0).result with
    | error exc => rfl
    | ok unit =>
      have hread : o.located.read_text = o.read_text := rfl
      rw [hread]
      dsimp only [Except.map, bind, Except.bind]
      change _ = (cursorAt o.read_text unit.1.located file req.line req.col >>= fun _ => _)
      cases cursorAt o.read_text unit.1.located file req.line req.col with
      | error exc => rfl
      | ok cursor =>
        dsimp only [bind, Except.bind]
        change _ = (references o.read_text ⟨file, unit.1.located, source, unit.2⟩ req.request_id
          cursor >>= fun _ => _)
        cases references o.read_text ⟨file, unit.1.located, source, unit.2⟩ req.request_id cursor <;>
          rfl

end Tools
end CppMcp
