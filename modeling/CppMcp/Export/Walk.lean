/-
# Extracting the nodes and edges of one file

`_walk_cursor` and `extract_nodes_and_edges` of
`src/cpp_mcp/graphdb/exporter.py`.

`walkCursor` has the branches of `_walk_cursor` in its order, each block that
emits something being a definition of its own.  The context it hands down is the parent's USR and kind
and the innermost enclosing function.  An exception that nothing catches ends
the extraction, so the walk gives a batch or that exception.
-/

import CppMcp.Export.TypeChain
import CppMcp.Py.Path

namespace CppMcp
namespace Export

/-- `_file_usr`. -/
def fileUsr (file_path : String) : String := "file://" ++ file_path

/-- The synthetic USR of parameter `idx` of a function. -/
def paramUsr (usr : String) (idx : ℕ) : String := usr ++ "#param:" ++ toString idx

/-! ### The blocks that emit -/

/-- Inclusion directives → `INCLUDES` edge. -/
def emitInclusion (file_usr : String) (c : CursorInfo) (b : Batch) : Batch :=
  match c.get_included_file with
  | .ok (some (.ok inc_path)) =>
    (if fileUsr inc_path ∈ b.seen_usrs then b
      else (b.see (fileUsr inc_path)).addNode ⟨.file, fileUsr inc_path,
        [("path", .str inc_path), ("spelling", .str inc_path),
          ("schema_version", .str SCHEMA_VERSION)]⟩).addEdge file_usr (fileUsr inc_path) .includes
  | _ => b

/-- The USR of the declaration a cursor refers to, if there is one. -/
def CursorInfo.target (c : CursorInfo) : Option String :=
  match c.referenced with
  | .ok (some ref) => if ref.safeUsr = "" then none else some ref.safeUsr
  | _ => none

/-- Symbol use-sites → `REFERENCES` edge. -/
def emitUseSite (file_usr : String) (enclosing_func_usr : Option String) (c : CursorInfo)
    (b : Batch) : Batch :=
  b.addEdge? (enclosing_func_usr.getD file_usr) c.target .references

/-- The properties of a symbol's node. -/
def symbolProps (c : CursorInfo) (children : List Cursor) (node_type : NodeType) : Props :=
  let loc := safeLocation c.location
  let type_spelling :=
    match c.type with
    | .ok (some t) => Acc.getD t.info.spelling ""
    | _ => ""
  [("spelling", .str c.safeSpelling), ("type", .str type_spelling), ("file", .str loc.1),
    ("line", .int loc.2.1), ("col", .int loc.2.2)] ++
  (if node_type ∈ [.field, .globalVariable] then
    [("is_const", .bool (varQualifiers c).1), ("is_constexpr", .bool (varQualifiers c).2),
      ("is_static", .bool ((node_type == .globalVariable && c.kindName == some .fieldDecl) ||
        isStorageStatic c)),
      ("storage_class", .str (storageClassValue c node_type))]
  else []) ++
  (if node_type = .function then emitFunctionSignatureProps c else []) ++
  (if node_type = .class_ then emitClassProps c children else [])

/-- A symbol's USR is taken and its node appended. -/
def Batch.takeSymbol (b : Batch) (c : CursorInfo) (children : List Cursor) (node_type : NodeType) :
    Batch :=
  (b.see c.safeUsr).addNode ⟨node_type, c.safeUsr, symbolProps c children node_type⟩

/-- The symbol's node, and the `OF_TYPE` edge of a field or variable, unless the
USR is taken. -/
def emitSymbol (sha1 : Py.Sha1) (c : CursorInfo) (children : List Cursor) (node_type : NodeType)
    (b : Batch) : Batch :=
  if c.safeUsr ∈ b.seen_usrs then b
  else if node_type ∈ [.field, .globalVariable] then
    linkType c.safeUsr .ofType (getOrCreateTypeOf sha1 (b.takeSymbol c children node_type) c.type)
  else b.takeSymbol c children node_type

/-- `EDGE_DEFINES if is_definition else EDGE_DECLARES`. -/
def CursorInfo.bodyEdge (c : CursorInfo) : EdgeType :=
  if Acc.getD c.is_definition false then .defines else .declares

/-- The edge between the symbol and its parent, or the file at top level. -/
def emitParentEdge (file_usr : String) (parent_usr : Option String)
    (parent_kind : Option CursorKind) (c : CursorInfo) (b : Batch) : Batch :=
  match parent_usr with
  | some parent_usr =>
    if kindIn parent_kind memberParentKinds && kindIn c.kindName memberKinds then
      b.addEdge c.safeUsr parent_usr .memberOf [("access", .str (resolveAccess c parent_kind))]
    else b.addEdge parent_usr c.safeUsr c.bodyEdge
  | none => b.addEdge file_usr c.safeUsr c.bodyEdge

/-- The USRs of the base classes; an exception ends the loop. -/
def baseUsrs : List Cursor → List String
  | [] => []
  | base :: rest =>
    if base.label.kindName = some .cxxBaseSpecifier then
      match base.label.get_definition with
      | .error _ => []
      | .ok none => baseUsrs rest
      | .ok (some base_def) =>
        if base_def.safeUsr = "" then baseUsrs rest else base_def.safeUsr :: baseUsrs rest
    else baseUsrs rest

/-- `INHERITS` edges for class bases. -/
def emitInherits (c : CursorInfo) (children : List Cursor) (b : Batch) : Batch :=
  if kindIn c.kindName inheritingKinds && c.children_raise.isNone then
    (baseUsrs children).foldl (fun b base_usr => b.addEdge c.safeUsr base_usr .inherits) b
  else b

/-- `CALLS` edges for call expressions. -/
def emitCalls (parent_usr : Option String) (c : CursorInfo) (b : Batch) : Batch :=
  if c.kindName = some .callExpr then
    match parent_usr with
    | some parent_usr => b.addEdge? parent_usr c.target .calls
    | none => b
  else b

/-- The return type's node and the `RETURNS` edge. -/
def emitReturns (sha1 : Py.Sha1) (c : CursorInfo) (b : Batch) : Batch :=
  if kindIn c.kindName functionCursorKinds then
    linkType c.safeUsr .returns (getOrCreateTypeOf sha1 b c.result_type)
  else b

/-- The properties of a parameter's node. -/
def paramProps (p : Param) (idx : ℕ) (spelling : String) : Props :=
  let loc := safeLocation p.location
  [("spelling", .str (if spelling = "" then "<param#" ++ toString idx ++ ">" else spelling)),
    ("name", .str spelling), ("index", .int idx), ("default_value", .str (renderDefaultValue p)),
    ("file", .str loc.1), ("line", .int loc.2.1), ("col", .int loc.2.2)]

/-- The parameter's node, the `HAS_PARAM` edge and the `OF_TYPE` edge. -/
def linkParam (usr : String) (p : Param) (idx : ℕ) (spelling : String)
    (r : Batch × Option String) : Batch :=
  ((r.1.addNode ⟨.parameter, paramUsr usr idx, paramProps p idx spelling⟩).addEdge usr
    (paramUsr usr idx) .hasParam [("index", .int idx)]).addEdge? (paramUsr usr idx) r.2 .ofType

/-- The loop over the arguments of function `usr`, from argument `idx` on.  A
spelling that raises ends it, the parameter's USR and type having been taken. -/
def emitParamsFrom (sha1 : Py.Sha1) (usr : String) : ℕ → List Param → Batch → Batch
  | _, [], b => b
  | idx, param :: rest, b =>
    if paramUsr usr idx ∈ b.seen_usrs then emitParamsFrom sha1 usr (idx + 1) rest b
    else
      match param.spelling with
      | .error _ => (getOrCreateTypeOf sha1 (b.see (paramUsr usr idx)) param.type).1
      | .ok spelling =>
        emitParamsFrom sha1 usr (idx + 1) rest
          (linkParam usr param idx spelling
            (getOrCreateTypeOf sha1 (b.see (paramUsr usr idx)) param.type))

/-- Parameter nodes with their `HAS_PARAM` and `OF_TYPE` edges. -/
def emitParams (sha1 : Py.Sha1) (c : CursorInfo) (b : Batch) : Batch :=
  if kindIn c.kindName functionCursorKinds then emitParamsFrom sha1 c.safeUsr 0 c.get_arguments b
  else b

/-! ### The walk -/

/-- What `_walk_cursor` is handed from above. -/
structure Ctx where
  parent_usr : Option String
  parent_kind : Option CursorKind
  enclosing_func_usr : Option String

/-- `node_type and usr`: the label, if the cursor is schema-relevant and has a
USR. -/
def CursorInfo.schema (c : CursorInfo) : Option NodeType :=
  if c.safeUsr = "" then none else classifyNode c

/-- The cursor stands in another file than `file_path`. -/
def CursorInfo.foreign (c : CursorInfo) (file_path : String) : Bool :=
  (safeLocation c.location).1 ≠ "" && (safeLocation c.location).1 ≠ file_path

/-- `next_enclosing_func`. -/
def CursorInfo.nextEnclosing (c : CursorInfo) (enclosing_func_usr : Option String) :
    Option String :=
  if kindIn c.kindName functionCursorKinds then some c.safeUsr else enclosing_func_usr

/-- Everything the branch of a schema cursor emits before it recurses. -/
def emitSchema (sha1 : Py.Sha1) (file_usr : String) (ctx : Ctx) (node_type : NodeType)
    (c : CursorInfo) (children : List Cursor) (b : Batch) : Batch :=
  emitParams sha1 c <| emitReturns sha1 c <| emitCalls ctx.parent_usr c <|
    emitInherits c children <| emitParentEdge file_usr ctx.parent_usr ctx.parent_kind c <|
    emitSymbol sha1 c children node_type b

mutual

/-- `_walk_cursor`. -/
def walkCursor (sha1 : Py.Sha1) (file_path : String) (b : Batch) (ctx : Ctx) : Cursor → Acc Batch
  | .node c children =>
    if c.kindName = some .parmDecl then .ok b
    else if c.kindName = some .inclusionDirective then
      .ok (emitInclusion (fileUsr file_path) c b)
    else if kindIn c.kindName referenceCursorKinds then do
      let b := emitUseSite (fileUsr file_path) ctx.enclosing_func_usr c b
      c.getChildren
      walkChildren sha1 file_path b ctx children
    else if c.foreign file_path then do
      c.getChildren
      walkChildren sha1 file_path b ⟨none, none, ctx.enclosing_func_usr⟩ children
    else
      match c.schema with
      | some node_type => do
        let b := emitSchema sha1 (fileUsr file_path) ctx node_type c children b
        c.getChildren
        walkChildren sha1 file_path b
          ⟨some c.safeUsr, c.kindName, c.nextEnclosing ctx.enclosing_func_usr⟩ children
      | none => do
        c.getChildren
        walkChildren sha1 file_path b ctx children

/-- The loops of `_walk_cursor` over `cursor.get_children()`. -/
def walkChildren (sha1 : Py.Sha1) (file_path : String) (b : Batch) (ctx : Ctx) :
    List Cursor → Acc Batch
  | [] => .ok b
  | child :: rest => do
    let b ← walkCursor sha1 file_path b ctx child
    walkChildren sha1 file_path b ctx rest

end

/-- The File node of the exported file. -/
def fileNode (file_path : String) : NodeRecord :=
  ⟨.file, fileUsr file_path,
    [("path", .str file_path), ("spelling", .str (Py.pathName file_path)),
      ("schema_version", .str SCHEMA_VERSION)]⟩

/-- The batch the walk starts with. -/
def initialBatch (file_path : String) : Batch :=
  ⟨[fileNode file_path], [], [fileUsr file_path]⟩

/-- The `(source, target)` pairs that `CALLS` edges cover. -/
def callsPairs (edges : List EdgeRecord) : List (String × String) :=
  (edges.filter fun e => e.edge_type = .calls).map fun e => (e.source_usr, e.target_usr)

/-- `REFERENCES` edges that duplicate a `CALLS` edge are dropped. -/
def suppressReferences (edges : List EdgeRecord) : List EdgeRecord :=
  if callsPairs edges = [] then edges
  else edges.filter fun e =>
    !(e.edge_type == .references && (callsPairs edges).contains (e.source_usr, e.target_usr))

/-- `extract_nodes_and_edges` on the root cursor of a translation unit. -/
def extractNodesAndEdges (sha1 : Py.Sha1) (file_path : String) (cursor : Cursor) :
    Acc (List NodeRecord × List EdgeRecord) := do
  let b ← walkCursor sha1 file_path (initialBatch file_path) ⟨none, none, none⟩ cursor
  return (b.nodes, suppressReferences b.edges)

end Export
end CppMcp
