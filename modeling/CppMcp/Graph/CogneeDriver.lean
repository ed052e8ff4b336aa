/-
# The Cognee driver

`src/cpp_mcp/graphdb/cognee_driver.py`.  Cognee cannot merge, so the driver keeps two indices for a
session, of the nodes by their USR and of the edges by source, type and target.  For each record of
a batch it looks whether the key is new, puts the record into the index and hands a document to the
transport, which may raise.

The transport is outside: `fault k` is the exception that call number `k` of `ingest` raises, if
any. The calls of a session are kept, each with the key of its record and whether it returned.
-/

import CppMcp.Graph.Backend
import CppMcp.Lib.Upsert

namespace CppMcp
namespace Graph

open Export (Exc NodeRecord EdgeRecord PropVal)

namespace Cognee

/-- What the driver knows a record by: the key of the index that it is in. -/
inductive Subject where
  | node (usr : String)
  | edge (source_usr edge_type target_usr : String)
  deriving DecidableEq, Repr

/-- A payload: a flat map. -/
abbrev Payload := OrderedDict String PropVal

/-- A call of `ingest`, made for a record with this subject. -/
structure Request where
  subject : Subject
  key : String
  payload : Payload
  dataset : String
  node_set : List String
  returned : Bool

/-- The driver, and its transport. -/
structure Session where
  dataset : String := ""
  node_set : List String := []
  connected : Bool := false
  node_index : OrderedDict String NodeRecord := .empty
  edge_index : OrderedDict (String × String × String) EdgeRecord := .empty
  /-- The calls of `ingest` since the last `connect`. -/
  requests : List Request := []
  /-- The number of all calls so far. -/
  calls : ℕ := 0
  fault : ℕ → Option Exc

/-! ### `connect` and `close` -/

/-- What follows the scheme of a URL. -/
def urlRest (url : String) : List Char := ((urlChars url).dropWhile (· ≠ ':')).tail

/-- `urlparse(url).netloc`, where the scheme is not empty. -/
def urlNetloc (url : String) : String :=
  match urlRest url with
  | '/' :: '/' :: rest => String.ofList (rest.takeWhile (· ∉ ['/', '?', '#']))
  | _ => ""

/-- `urlparse(url).path`, where the scheme is not empty. -/
def urlPath (url : String) : String :=
  let rest := match urlRest url with
    | '/' :: '/' :: rest => rest.dropWhile (· ∉ ['/', '?', '#'])
    | rest => rest
  String.ofList (rest.takeWhile (· ∉ ['?', '#']))

/-- `parsed.netloc or parsed.path.lstrip("/")`. -/
def datasetOf (uri : String) : String :=
  if urlNetloc uri = "" then String.ofList ((urlPath uri).toList.dropWhile (· = '/')) else urlNetloc uri

/-- `connect`; `urlparse_raises` is the `ValueError` of `urlparse` at a malformed host. -/
def connect (urlparse_raises : String → Option Exc) (uri : String) (node_set : List String) :
    Action Session Unit := fun s =>
  match urlparse_raises uri with
  | some exc => .error exc s
  | none =>
    if urlScheme uri ≠ "cognee" then
      .error ⟨"DBUnreachableError", "CogneeDriver requires a 'cognee://' URI, got scheme=" ++
        Py.repr (urlScheme uri)⟩ s
    else if datasetOf uri = "" then
      .error ⟨"DBUnreachableError", "CogneeDriver URI must include a dataset name, " ++
        "e.g. 'cognee://my-dataset'. Got: " ++ Py.repr uri⟩ s
    else
      .ok () { s with
        dataset := datasetOf uri
        node_set := node_set
        connected := true
        node_index := .empty
        edge_index := .empty
        requests := [] }

/-- `close`. -/
def close : Action Session Unit := fun s =>
  .ok () { s with
    connected := false
    dataset := ""
    node_set := []
    node_index := .empty
    edge_index := .empty }

/-! ### The documents -/

variable (sha256 : String → String)

/-- `_node_key`. -/
def nodeKey (usr : String) : String := "node:" ++ String.ofList ((sha256 usr).toList.take 16)

/-- `_edge_key`. -/
def edgeKey (source_usr edge_type target_usr : String) : String :=
  "edge:" ++ String.ofList
    ((sha256 (source_usr ++ "\x00" ++ edge_type ++ "\x00" ++ target_usr)).toList.take 16)

/-- The payload of a node: the envelope, and the properties of the record over it. -/
def nodePayload (rec : NodeRecord) : Payload :=
  OrderedDict.empty.setAll
    ([("kind", .str "node"), ("label", .str rec.label.text), ("usr", .str rec.usr)] ++ rec.props)

/-- The payload of an edge. -/
def edgePayload (rec : EdgeRecord) : Payload :=
  OrderedDict.empty.setAll
    ([("kind", .str "edge"), ("source_usr", .str rec.source_usr),
      ("edge_type", .str rec.edge_type.text), ("target_usr", .str rec.target_usr)] ++ rec.props)

/-- `self._transport.ingest(key, payload, self._dataset, self._node_set)`. -/
def ingest (subject : Subject) (key : String) (payload : Payload) : Action Session Unit := fun s =>
  let request := fun returned => ⟨subject, key, payload, s.dataset, s.node_set, returned⟩
  match s.fault s.calls with
  | some exc =>
    .error exc { s with requests := s.requests ++ [request false], calls := s.calls + 1 }
  | none => .ok () { s with requests := s.requests ++ [request true], calls := s.calls + 1 }

/-- The triple of an edge. -/
def tripleOf (rec : EdgeRecord) : String × String × String :=
  (rec.source_usr, rec.edge_type.text, rec.target_usr)

/-! ### The two methods -/

/-- One turn of the loop of `upsert_nodes`. -/
def upsertNode (rec : NodeRecord) : Action Session ℕ := do
  let s ← get
  let is_new := decide (rec.usr ∉ s.node_index.keys)
  set { s with node_index := s.node_index.set rec.usr rec }
  ingest (.node rec.usr) (nodeKey sha256 rec.usr) (nodePayload rec)
  return if is_new then 1 else 0

/-- One turn of the loop of `upsert_edges`. -/
def upsertEdge (rec : EdgeRecord) : Action Session ℕ := do
  let s ← get
  let is_new := decide (tripleOf rec ∉ s.edge_index.keys)
  set { s with edge_index := s.edge_index.set (tripleOf rec) rec }
  ingest (.edge rec.source_usr rec.edge_type.text rec.target_usr)
    (edgeKey sha256 rec.source_usr rec.edge_type.text rec.target_usr) (edgePayload rec)
  return if is_new then 1 else 0

/-- `if not batch or not self._connected: return 0`, and the loop. -/
def upsertAll {α : Type} (upsert : α → Action Session ℕ) (batch : List α) : Action Session ℕ :=
  fun s => if batch = [] ∨ s.connected = false then .ok 0 s else tallyRecords upsert batch s

/-- `CogneeDriver`. -/
def driver : GraphDriver Session where
  upsert_nodes := upsertAll (upsertNode sha256)
  upsert_edges := upsertAll (upsertEdge sha256)

end Cognee
end Graph
end CppMcp
