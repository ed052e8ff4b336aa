/-
# The backends

`select_driver` of `src/cpp_mcp/graphdb/__init__.py` chooses the driver by the scheme of
the URI.  `Servers` has both databases; a driver works on its own and leaves the other
alone.

The two drivers differ in what a vertex is known by, `Backend.Vertex`.  `upsert_nodes_ok`
and `upsert_edges_ok` say of both at once what they do to the store.
-/

import CppMcp.Graph.IndraDBDriver
import CppMcp.Graph.Neo4jDriver
import CppMcp.Py.Str

namespace CppMcp
namespace Graph

open Export (Exc NodeRecord EdgeRecord NodeType EdgeType)

/-- The drivers that `select_driver` knows. -/
inductive Backend where
  | neo4j | indradb
  deriving DecidableEq, Repr

/-- `_NEO4J_SCHEMES`. -/
def NEO4J_SCHEMES : List String := ["bolt", "bolt+s", "bolt+ssc", "neo4j", "neo4j+s", "neo4j+ssc"]

/-- `_INDRADB_SCHEMES`. -/
def INDRADB_SCHEMES : List String := ["indradb", "grpc", "indradb+grpc"]

/-- Both sets of schemes, sorted, as a message shows them. -/
def supportedSchemes : String :=
  "['bolt', 'bolt+s', 'bolt+ssc', 'grpc', 'indradb', 'indradb+grpc', 'neo4j', 'neo4j+s', 'neo4j+ssc']"

/-- The characters of a URL after the control characters that `urlparse` removes. -/
def urlChars (url : String) : List Char :=
  (url.toList.dropWhile fun c => c.toNat ≤ 32).filter fun c => c ∉ ['\t', '\r', '\n']

/-- `urlparse(url).scheme`: what stands before the first colon, in lower case, if it is made
as schemes are. -/
def urlScheme (url : String) : String :=
  let scheme := (urlChars url).takeWhile (· ≠ ':')
  if ':' ∈ urlChars url ∧ (scheme.head?.any Char.isAlpha) = true ∧
      (scheme.all fun c => c.isAlphanum || c ∈ ['+', '-', '.']) = true then
    String.ofList (scheme.map Char.toLower)
  else ""

/-- `select_driver`; `urlparse_raises` is the `ValueError` of `urlparse` at a malformed host. -/
def selectDriver (urlparse_raises : String → Option Exc) (db_uri : String) : Except Exc Backend :=
  if db_uri = "" ∨ Py.contains db_uri "://" = false then
    .error ⟨"InvalidArgumentError", "db_uri must include a scheme (got " ++ Py.repr db_uri ++
      "); supported: " ++ supportedSchemes⟩
  else
    match urlparse_raises db_uri with
    | some exc => .error exc
    | none =>
      if urlScheme db_uri ∈ NEO4J_SCHEMES then .ok .neo4j
      else if urlScheme db_uri ∈ INDRADB_SCHEMES then .ok .indradb
      else .error ⟨"InvalidArgumentError", "Unsupported db_uri scheme " ++
        Py.repr (urlScheme db_uri) ++ "; supported: " ++ supportedSchemes⟩

/-- Both databases, each behind its client. -/
structure Servers (U : Type) where
  neo4j : Client Neo4j.Store
  indradb : Client (IndraDB.Store U)

section Lift

variable {U α : Type}

/-- A program of the Neo4j driver. -/
def onNeo4j (x : Action (Client Neo4j.Store) α) : Action (Servers U) α := fun s =>
  match x s.neo4j with
  | .ok a c => .ok a { s with neo4j := c }
  | .error exc c => .error exc { s with neo4j := c }

/-- A program of the IndraDB driver. -/
def onIndradb (x : Action (Client (IndraDB.Store U)) α) : Action (Servers U) α := fun s =>
  match x s.indradb with
  | .ok a c => .ok a { s with indradb := c }
  | .error exc c => .error exc { s with indradb := c }

/-- A program of the Neo4j driver that returns has run on the Neo4j client and returned there. -/
theorem onNeo4j_eq_ok {x : Action (Client Neo4j.Store) α} {s s' : Servers U} {a : α}
    (h : onNeo4j x s = .ok a s') : x s.neo4j = .ok a s'.neo4j := by
  unfold onNeo4j at h
  split at h
  · rename_i hx
    cases h
    exact hx
  · exact absurd h (by simp)

/-- A program of the IndraDB driver that returns has run on the IndraDB client and returned there.
-/
theorem onIndradb_eq_ok {x : Action (Client (IndraDB.Store U)) α} {s s' : Servers U} {a : α}
    (h : onIndradb x s = .ok a s') : x s.indradb = .ok a s'.indradb := by
  unfold onIndradb at h
  split at h
  · rename_i hx
    cases h
    exact hx
  · exact absurd h (by simp)

end Lift

namespace Backend

variable {U : Type}

/-- What a vertex is known by. -/
abbrev Vertex (U : Type) : Backend → Type
  | neo4j => Neo4j.NodeKey
  | indradb => U

/-- What is stored with a vertex. -/
abbrev VertexData : Backend → Type
  | neo4j => Properties
  | indradb => NodeType × Properties

/-- An edge: its source, type and target. -/
abbrev Edge (U : Type) (b : Backend) : Type := b.Vertex U × EdgeType × b.Vertex U

/-- The store of the backend. -/
def store : (b : Backend) → Servers U → PropertyGraph (b.Vertex U) EdgeType b.VertexData Properties
  | neo4j, s => s.neo4j.store
  | indradb, s => s.indradb.store

/-- The driver has a client. -/
def connected (b : Backend) (s : Servers U) : Bool :=
  match b with
  | neo4j => s.neo4j.connected
  | indradb => s.indradb.connected

/-- `connect` gives the driver a client, `close` takes it. -/
def setConnected (b : Backend) (connected : Bool) (s : Servers U) : Servers U :=
  match b with
  | neo4j => { s with neo4j := { s.neo4j with connected := connected } }
  | indradb => { s with indradb := { s.indradb with connected := connected } }

variable [DecidableEq U] (uuid5 : String → U)

/-- The driver of the backend. -/
def driver : Backend → GraphDriver (Servers U)
  | neo4j => ⟨fun batch => onNeo4j (Neo4j.driver.upsert_nodes batch),
      fun batch => onNeo4j (Neo4j.driver.upsert_edges batch)⟩
  | indradb => ⟨fun batch => onIndradb ((IndraDB.driver uuid5).upsert_nodes batch),
      fun batch => onIndradb ((IndraDB.driver uuid5).upsert_edges batch)⟩

/-- The vertex of a node record. -/
def vertexOf (rec : NodeRecord) : (b : Backend) → b.Vertex U
  | neo4j => (rec.label, rec.usr)
  | indradb => uuid5 rec.usr

/-- The edges that an edge record stands for. -/
def edgesOf (rec : EdgeRecord) : (b : Backend) → Set (b.Edge U)
  | neo4j => Neo4j.edgesOf rec
  | indradb => {IndraDB.edgeOf uuid5 rec}

/-- What is offered when a file is written. -/
def batchOf (b : Backend) (records : List NodeRecord × List EdgeRecord) :
    Loading.Batch (b.Vertex U) (b.Edge U) where
  vertices := {v | ∃ rec ∈ records.1, v ∈ ({b.vertexOf uuid5 rec} : Set _)}
  edges := {e | ∃ rec ∈ records.2, e ∈ b.edgesOf uuid5 rec}

variable {uuid5}

/-- **What `upsert_nodes` does,** with either driver: when it returns, the vertices of the batch
have been added and the number it returns is that of the new ones. -/
theorem upsert_nodes_ok {b : Backend} {records : List NodeRecord × List EdgeRecord}
    {s s' : Servers U} {n : ℕ} (hc : b.connected s = true)
    (h : (b.driver uuid5).upsert_nodes records.1 s = .ok n s') :
    PropertyGraph.AddsVertices (b.batchOf uuid5 records).vertices (b.store s) n (b.store s') ∧
      b.connected s' = true := by
  cases b with
  | neo4j => exact Neo4j.upsert_nodes_ok hc (onNeo4j_eq_ok h)
  | indradb => exact IndraDB.upsert_nodes_ok hc (onIndradb_eq_ok h)

/-- **What `upsert_edges` does,** with either driver: when it returns, the edges of the batch have
been added where both ends are there. -/
theorem upsert_edges_ok {b : Backend} {records : List NodeRecord × List EdgeRecord}
    {s s' : Servers U} {n : ℕ} (hc : b.connected s = true)
    (h : (b.driver uuid5).upsert_edges records.2 s = .ok n s') :
    PropertyGraph.AddsEdges (b.batchOf uuid5 records).edges (b.store s) n (b.store s') ∧
      b.connected s' = true := by
  cases b with
  | neo4j => exact Neo4j.upsert_edges_ok hc (onNeo4j_eq_ok h)
  | indradb => exact IndraDB.upsert_edges_ok hc (onIndradb_eq_ok h)

end Backend

end Graph
end CppMcp
