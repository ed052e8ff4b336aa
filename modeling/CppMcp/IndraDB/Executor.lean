/-
# The read-only query executor for IndraDB

`src/cpp_mcp/graphdb/indradb_query_executor.py`.  `execute` reads a query of the form
`{"query": "<verb>", "args": {…}}`, sends the queries of the verb, and joins what they
answer: the items of one stream with the properties of another.

The `indradb` client is outside the repository.  A `Client` is what it answers to a query: a
stream of batches, or the exception that ends it.  `json.loads` and `uuid.UUID` are taken
as functions of the text (`Library`).  The elapsed time `ms` is left out.
-/

import CppMcp.Export.Cursor
import CppMcp.Lib.Collect
import CppMcp.Py.Json
import CppMcp.Py.Uuid

namespace CppMcp
namespace IndraDB

open Export (Exc Acc)
open Py (Json Uuid)

/-- The exceptions that leave the executor: those of `core/error_envelope.py` with their message,
and one that no clause catches. -/
inductive Error where
  | queryParse (message : String)
  | queryUnsupported (message : String)
  | unmapped (exc : Exc)
  deriving DecidableEq, Repr

/-! ### The client -/

/-- The identifier of a type; IndraDB has no empty one. -/
structure Identifier where
  name : String
  nonempty : name ≠ ""
  deriving DecidableEq

/-- `indradb.Vertex`. -/
structure Vertex where
  id : Uuid
  t : Identifier
  deriving DecidableEq

/-- `indradb.Edge`. -/
structure Edge where
  outbound_id : Uuid
  t : Identifier
  inbound_id : Uuid
  deriving DecidableEq

/-- `NamedProperty`. -/
structure NamedProperty where
  name : String
  value : Json

/-- `VertexProperties`. -/
structure VertexProperties where
  vertex : Vertex
  props : List NamedProperty

/-- `EdgeProperties`. -/
structure EdgeProperties where
  edge : Edge
  props : List NamedProperty

/-- A query that is answered by vertices.  The client of the tests resolves a pipe to vertices. -/
inductive VertexQuery where
  | all
  | specific (ids : List Uuid)
  | pipe (id : Uuid) (direction : String) (t : Option String)

/-- A query that is answered by edges; a pipe of the `indradb` client is one. -/
inductive EdgeQuery where
  | all
  | specific (edges : List Edge)
  | outbound (id : Uuid) (t : Option String)
  | inbound (id : Uuid) (t : Option String)

/-- `client.get(query)` for the four kinds of queries, the last two being
`query.properties()`, and whether vertex queries have a method `outbound`. -/
structure Client where
  vertices : VertexQuery → Acc (List (List Vertex))
  edges : EdgeQuery → Acc (List (List Edge))
  vertexProperties : VertexQuery → Acc (List (List VertexProperties))
  edgeProperties : EdgeQuery → Acc (List (List EdgeProperties))
  has_outbound : Bool

/-- Why `json.loads` fails: with a `ValueError`, or otherwise. -/
inductive LoadsError where
  | valueError (text : String)
  | other (exc : Exc)

/-- `json.loads`, and `uuid.UUID` with the text of its `ValueError`. -/
structure Library where
  loads : String → Except LoadsError Json
  UUID : String → Except String Uuid

/-- What a call raises leaves the executor as it is. -/
def call {α : Type} (x : Acc α) : Except Error α := x.mapError .unmapped

/-! ### Validation -/

/-- `_ALLOWED_VERBS`. -/
inductive Verb where
  | all_vertices | all_edges | vertex_with_type | edge_with_type
  | vertex_with_property_equal | edge_with_property_equal | pipe
  deriving DecidableEq, Repr

/-- A verb as it is written in a query. -/
def Verb.name : Verb → String
  | all_vertices => "all_vertices"
  | all_edges => "all_edges"
  | vertex_with_type => "vertex_with_type"
  | edge_with_type => "edge_with_type"
  | vertex_with_property_equal => "vertex_with_property_equal"
  | edge_with_property_equal => "edge_with_property_equal"
  | pipe => "pipe"

/-- The allowed verbs, sorted by name. -/
def Verb.sorted : List Verb :=
  [all_edges, all_vertices, edge_with_property_equal, edge_with_type, pipe,
    vertex_with_property_equal, vertex_with_type]

/-- The allowed verb of a name. -/
def Verb.ofName (s : String) : Option Verb := Verb.sorted.find? fun v => decide (v.name = s)

/-- The directions of the verb `pipe`. -/
inductive Direction where
  | outbound | inbound
  deriving DecidableEq, Repr

/-- A direction as it is written in a query. -/
def Direction.name : Direction → String
  | outbound => "outbound"
  | inbound => "inbound"

/-- The direction of a name. -/
def Direction.ofName (s : String) : Option Direction :=
  [outbound, inbound].find? fun d => decide (d.name = s)

/-- `repr` of a list of strings. -/
def reprStrings (items : List String) : String :=
  "[" ++ String.intercalate ", " (items.map Py.repr) ++ "]"

/-- The string that a value is, where it is looked up in a set: what cannot be hashed cannot be
looked up. -/
def hashableStr (value : Json) : Except Error (Option String) :=
  match value with
  | .str s => .ok (some s)
  | .list _ => .error (.unmapped ⟨"TypeError", "unhashable type: 'list'"⟩)
  | .dict _ => .error (.unmapped ⟨"TypeError", "unhashable type: 'dict'"⟩)
  | _ => .ok none

/-- A character that `_TYPE_IDENT_RE` lets a type begin with. -/
def isIdentStart (c : Char) : Bool := c.isAlpha || c = '_'

/-- A character that `_TYPE_IDENT_RE` lets a type go on with. -/
def isIdentRest (c : Char) : Bool := c.isAlphanum || c = '_'

/-- `_TYPE_IDENT_RE.match(s)`: `$` also matches before a newline that ends the string. -/
def matchesTypeIdent (s : String) : Bool :=
  match s.toList with
  | [] => false
  | c :: cs => isIdentStart c &&
      (cs.all isIdentRest || (cs.getLast? = some '\n' && cs.dropLast.all isIdentRest))

/-- `_validate_t`. -/
def validateT (t : Json) : Except Error String :=
  let error := Error.queryParse ("Invalid type identifier " ++ t.repr ++
    "; must match ^[A-Za-z_][A-Za-z0-9_]*$")
  match t with
  | .str s => if matchesTypeIdent s then .ok s else .error error
  | _ => .error error

/-- `_validate_uuid`. -/
def validateUuid (library : Library) (vertex_id : Json) : Except Error Uuid :=
  match vertex_id with
  | .str s =>
    match library.UUID s with
    | .ok id => .ok id
    | .error text =>
      .error (.queryParse ("vertex_id " ++ Py.repr s ++ " is not a valid UUID: " ++ text))
  | _ => .error (.queryParse ("vertex_id must be a string UUID, got " ++ vertex_id.typeName))

/-- `_validate_scalar`. -/
def validateScalar (value : Json) : Except Error Json :=
  if value.isScalar then .ok value
  else .error (.queryParse ("value must be a JSON scalar (str/int/float/bool/null), got " ++
    value.typeName))

/-- The items of a `dict` of arguments. -/
abbrev Args := List (String × Json)

/-- `_require_args`. -/
def requireArgs (args : Args) (required optional : List String) : Except Error Unit :=
  let missing := required.filter (· ∉ args.map Prod.fst)
  let extra := (args.map Prod.fst).filter (· ∉ required ++ optional)
  let sorted (names : List String) := reprStrings (names.mergeSort fun a b => decide (a ≤ b))
  if missing ≠ [] then .error (.queryParse ("Missing required args: " ++ sorted missing))
  else if extra ≠ [] then .error (.queryParse ("Unexpected args: " ++ sorted extra))
  else .ok ()

/-- `args[name]`. -/
def Args.get (args : Args) (name : String) : Except Error Json :=
  match args.lookup name with
  | some value => .ok value
  | none => .error (.unmapped ⟨"KeyError", Py.repr name⟩)

/-- `args[name]`, which has to be a string. -/
def Args.getStr (args : Args) (name : String) : Except Error String := do
  match ← args.get name with
  | .str s => .ok s
  | value => .error (.queryParse (Py.repr name ++ " must be a string, got " ++ value.typeName))

/-- The allowed verb that a value is. -/
def parseVerb (verb : Json) : Except Error Verb := do
  match (← hashableStr verb).bind Verb.ofName with
  | some verb => return verb
  | none => throw (.queryUnsupported ("Unsupported query verb " ++ verb.repr ++ "; allowed: " ++
      reprStrings (Verb.sorted.map Verb.name)))

/-- The direction that a value is. -/
def parseDirection (direction : Json) : Except Error Direction := do
  match (← hashableStr direction).bind Direction.ofName with
  | some direction => return direction
  | none =>
    throw (.queryParse ("'direction' must be 'outbound' or 'inbound', got " ++ direction.repr))

/-- The verb and the arguments of a query. -/
def parseQuery (library : Library) (query : String) : Except Error (Verb × Args) := do
  let payload ← match library.loads query with
    | .ok payload => pure payload
    | .error (.valueError text) => throw (.queryParse
        ("query must be a valid JSON object (IndraDB endpoint); parse error: " ++ text))
    | .error (.other exc) => throw (.unmapped exc)
  let .dict payload := payload | throw (.queryParse
    ("query must be a JSON object with 'query' and 'args' keys, got " ++ payload.typeName))
  let verb := (payload.lookup "query").getD .null
  let args := (payload.lookup "args").getD (.dict [])
  let .dict args := args | throw (.queryParse ("'args' must be a JSON object, got " ++ args.typeName))
  return (← parseVerb verb, args)

/-! ### Rows -/

/-- A dictionary of properties. -/
abbrev Properties := OrderedDict String Json

/-- A row of a result. -/
inductive Row where
  | vertex (id t : String) (properties : Properties)
  | edge (outbound_id inbound_id t : String) (properties : Properties)

/-- `_coerce_vertex`. -/
def coerceVertex (vertex : Vertex) (props : Properties) : Row :=
  .vertex vertex.id.str vertex.t.name props

/-- `_coerce_edge`. -/
def coerceEdge (edge : Edge) (props : Properties) : Row :=
  .edge edge.outbound_id.str edge.inbound_id.str edge.t.name props

/-- The key of an edge in the dictionary of properties. -/
def Edge.key (edge : Edge) : String × String × String :=
  (edge.outbound_id.str, edge.t.name, edge.inbound_id.str)

/-- The dictionary of the properties of a stream, `by_id`. -/
def collectVertexProps (batches : List (List VertexProperties)) : OrderedDict String Properties :=
  batches.foldl (fun by_id batch =>
    batch.foldl (fun by_id vp =>
      vp.props.foldl (fun by_id np => by_id.setIn vp.vertex.id.str np.name np.value) by_id)
      by_id) .empty

/-- The dictionary of the properties of a stream, `by_key`. -/
def collectEdgeProps (batches : List (List EdgeProperties)) :
    OrderedDict (String × String × String) Properties :=
  batches.foldl (fun by_key batch =>
    batch.foldl (fun by_key ep =>
      if ep.edge.outbound_id.str ≠ "" ∧ ep.edge.inbound_id.str ≠ "" ∧ ep.edge.t.name ≠ "" then
        ep.props.foldl (fun by_key np => by_key.setIn ep.edge.key np.name np.value) by_key
      else by_key) by_key) .empty

/-- `_fetch_vertex_props`. -/
def fetchVertexProps (client : Client) (query : VertexQuery) (items : List Vertex) :
    Except Error (List Properties) := do
  let by_id := collectVertexProps (← call (client.vertexProperties query))
  return items.map fun item => by_id.getIn item.id.str

/-- `_fetch_edge_props`. -/
def fetchEdgeProps (client : Client) (query : EdgeQuery) (items : List Edge) :
    Except Error (List Properties) := do
  let by_key := collectEdgeProps (← call (client.edgeProperties query))
  return items.map fun e => by_key.getIn e.key

/-- `_flatten_results`. -/
def flattenResults {α : Type} (batches : List (List α)) : List α := batches.flatten

/-! ### The verbs -/

/-- What a verb gives: its rows, and `_last_total`. -/
abbrev Dispatched := List Row × ℕ

/-- The vertices `items` with the properties that `query` gives. -/
def vertexRows (client : Client) (query : VertexQuery) (items : List Vertex) :
    Except Error (List Row) := do
  let props_list ← fetchVertexProps client query items
  return List.zipWith coerceVertex items props_list

/-- The edges `items` with the properties that `query` gives. -/
def edgeRows (client : Client) (query : EdgeQuery) (items : List Edge) :
    Except Error (List Row) := do
  let props_list ← fetchEdgeProps client query items
  return List.zipWith coerceEdge items props_list

variable (client : Client) (library : Library) (args : Args) (row_limit : ℕ)

/-- The verb `all_vertices`. -/
def allVertices : Except Error Dispatched := do
  requireArgs args [] []
  let raw := flattenResults (← call (client.vertices .all))
  return (← vertexRows client .all (raw.take row_limit), raw.length)

/-- The verb `all_edges`. -/
def allEdges : Except Error Dispatched := do
  requireArgs args [] []
  let raw := flattenResults (← call (client.edges .all))
  return (← edgeRows client .all (raw.take row_limit), raw.length)

/-- The verb `vertex_with_type`. -/
def vertexWithType : Except Error Dispatched := do
  requireArgs args ["t"] []
  let t ← validateT (← args.get "t")
  let all_raw := flattenResults (← call (client.vertices .all))
  let raw := all_raw.filter fun v => decide (v.t.name = t)
  let items := raw.take row_limit
  if items.isEmpty then return ([], raw.length)
  return (← vertexRows client (.specific (items.map Vertex.id)) items, raw.length)

/-- The verb `edge_with_type`. -/
def edgeWithType : Except Error Dispatched := do
  requireArgs args ["t"] []
  let t ← validateT (← args.get "t")
  let all_raw := flattenResults (← call (client.edges .all))
  let raw := all_raw.filter fun e => decide (e.t.name = t)
  let items := raw.take row_limit
  if items.isEmpty then return ([], raw.length)
  return (← edgeRows client (.specific items) items, raw.length)

/-- `props.get(name) == value`: a missing property is `None`. -/
def propEqual (props : Properties) (name : String) (value : Json) : Bool :=
  ((props.get name).getD .null).eqScalar value

/-- The verb `vertex_with_property_equal`. -/
def vertexWithPropertyEqual : Except Error Dispatched := do
  requireArgs args ["name", "value"] []
  let prop_name ← args.getStr "name"
  let prop_value ← validateScalar (← args.get "value")
  let all_raw_v := flattenResults (← call (client.vertices .all))
  let all_props := collectVertexProps (← call (client.vertexProperties .all))
  let raw := all_raw_v.filter fun v => propEqual (all_props.getIn v.id.str) prop_name prop_value
  let items := raw.take row_limit
  return (items.map fun v => coerceVertex v (all_props.getIn v.id.str), raw.length)

/-- The verb `edge_with_property_equal`. -/
def edgeWithPropertyEqual : Except Error Dispatched := do
  requireArgs args ["name", "value"] []
  let edge_prop_name ← args.getStr "name"
  let edge_prop_value ← validateScalar (← args.get "value")
  let all_raw_e := flattenResults (← call (client.edges .all))
  let all_edge_props := collectEdgeProps (← call (client.edgeProperties .all))
  let raw_e := all_raw_e.filter fun e =>
    propEqual (all_edge_props.getIn e.key) edge_prop_name edge_prop_value
  let items_e := raw_e.take row_limit
  return (items_e.map fun e => coerceEdge e (all_edge_props.getIn e.key), raw_e.length)

/-- The end of a hop that is not the vertex it begins at. -/
def Direction.neighbor (direction : Direction) (e : Edge) : Uuid :=
  match direction with
  | .outbound => e.inbound_id
  | .inbound => e.outbound_id

/-- The query of a hop. -/
def Direction.query (direction : Direction) (id : Uuid) (t : Option String) : EdgeQuery :=
  match direction with
  | .outbound => .outbound id t
  | .inbound => .inbound id t

/-- The path of the verb `pipe` for a client whose pipe gives vertices. -/
def pipeVertices (vid : Uuid) (direction : Direction) (t_opt : Option String) :
    Except Error Dispatched := do
  let raw := flattenResults (← call (client.vertices (.pipe vid direction.name t_opt)))
  let items := raw.take row_limit
  if items.isEmpty then return ([], raw.length)
  return (← vertexRows client (.specific (items.map Vertex.id)) items, raw.length)

/-- The path of the verb `pipe` for a client whose pipe gives edges. -/
def pipeEdges (vid : Uuid) (direction : Direction) (t_opt : Option String) :
    Except Error Dispatched := do
  let raw_edges := flattenResults (← call (client.edges (direction.query vid t_opt)))
  let edges := raw_edges.take row_limit
  if edges.isEmpty then return ([], raw_edges.length)
  let neighbor_ids := edges.map direction.neighbor
  let neighbor_vertices := flattenResults (← call (client.vertices (.specific neighbor_ids)))
  let vid_to_vertex : OrderedDict String Vertex :=
    neighbor_vertices.foldl (fun d v => d.set v.id.str v) .empty
  let items := neighbor_ids.filterMap fun nid => vid_to_vertex.get nid.str
  if items.isEmpty then return ([], raw_edges.length)
  return (← vertexRows client (.specific (items.map Vertex.id)) items, raw_edges.length)

/-- The verb `pipe`. -/
def pipe : Except Error Dispatched := do
  requireArgs args ["direction", "vertex_id"] ["t"]
  let vid ← validateUuid library (← args.get "vertex_id")
  let direction ← parseDirection (← args.get "direction")
  let t_opt ← match args.lookup "t" with
    | none | some .null => pure none
    | some t => some <$> validateT t
  if client.has_outbound then pipeEdges client row_limit vid direction t_opt
  else pipeVertices client row_limit vid direction t_opt

/-- `_dispatch_query`. -/
def dispatchQuery (query : String) : Except Error Dispatched := do
  let (verb, args) ← parseQuery library query
  match verb with
  | .all_vertices => allVertices client args row_limit
  | .all_edges => allEdges client args row_limit
  | .vertex_with_type => vertexWithType client args row_limit
  | .edge_with_type => edgeWithType client args row_limit
  | .vertex_with_property_equal => vertexWithPropertyEqual client args row_limit
  | .edge_with_property_equal => edgeWithPropertyEqual client args row_limit
  | .pipe => pipe client library args row_limit

/-- `QueryResult`, without the elapsed time. -/
structure QueryResult where
  rows : List Row
  rows_returned : ℕ
  truncated : Bool

/-- `IndraDbQueryExecutor.execute`. -/
def execute (query : String) : Except Error QueryResult := do
  let (rows, last_total) ← dispatchQuery client library row_limit query
  return {
    rows
    rows_returned := rows.length
    truncated := decide (rows.length < last_total) }

end IndraDB
end CppMcp
