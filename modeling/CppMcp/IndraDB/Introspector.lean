/-
# The schema introspector for IndraDB

`IndraDbSchemaIntrospector` of `graphdb/schema_introspector.py`: all vertices and all edges are
grouped by type, each type is counted, and the names of its properties are read off a sample.  The
notes say when the stamps of the `File` vertices are not those of the running code.
-/

import CppMcp.Export.Record
import CppMcp.IndraDB.Executor
import CppMcp.Lib.Groups

namespace CppMcp
namespace Py

/-- `str` of a JSON value. -/
def Json.pyStr : Json → String
  | .str s => s
  | value => value.repr

/-- `items[:stop]`; a negative `stop` counts from the end. -/
def sliceTo {α : Type} (items : List α) (stop : ℤ) : List α :=
  items.take (if 0 ≤ stop then stop.toNat else items.length - stop.natAbs)

/-- `sorted` of strings. -/
def sortedStrs (names : List String) : List String := names.insertionSort fun a b => a ≤ b

end Py

namespace IndraDB

open Export (Exc Acc SCHEMA_VERSION)
open Py (Json sliceTo sortedStrs)

/-- An entry of `node_types` or of `edge_types`. -/
structure TypeEntry where
  name : String
  count : ℕ
  property_keys : List String
  deriving DecidableEq, Repr

/-- The order by `(-t["count"], t["name"])`. -/
def TypeEntry.le (t t' : TypeEntry) : Prop :=
  t'.count < t.count ∨ (t.count = t'.count ∧ t.name ≤ t'.name)

instance : DecidableRel TypeEntry.le := fun _ _ => inferInstanceAs (Decidable (_ ∨ _))

/-- `_sort_types`. -/
def sortTypes (types : List TypeEntry) : List TypeEntry := types.insertionSort TypeEntry.le

/-- `_NOTE_SAMPLE`. -/
def NOTE_SAMPLE : String :=
  "Property keys are inferred from a sample of nodes/edges; rare properties may not appear."

/-- `_NOTE_LIVE`. -/
def NOTE_LIVE : String :=
  "Counts are live as of this call; concurrent ingest_code runs may shift values."

/-- What `describe` gives. -/
structure Description where
  schema_version : String
  backend : String
  node_types : List TypeEntry
  edge_types : List TypeEntry
  vertices : ℕ
  edges : ℕ
  notes : List String
  deriving DecidableEq, Repr

/-! ### The keys of the properties -/

section PropertyKeys

variable {α β : Type} (get : α → Acc (List (List β))) (props : β → List NamedProperty)

/-- One turn of the loop over the items of a sample: the names of its properties join the set. -/
def addKeys (keys : List String) (item : α) : Acc (List String) := do
  let prop_batches ← get item
  return prop_batches.foldl (fun keys prop_batch => prop_batch.foldl (fun keys p =>
    (props p).foldl (fun keys np => keys.insert np.name) keys) keys) keys

/-- The names of the properties of a sample, each once. -/
def propertyKeys (items : List α) : Acc (List String) := items.foldlM (addKeys get props) []

end PropertyKeys

variable (client : Client)

/-- `client.get(SpecificVertexQuery(vertex.id).properties())`. -/
def Client.propsOfVertex (vertex : Vertex) : Acc (List (List VertexProperties)) :=
  client.vertexProperties (.specific [vertex.id])

/-- `client.get(SpecificEdgeQuery(edge).properties())`. -/
def Client.propsOfEdge (edge : Edge) : Acc (List (List EdgeProperties)) :=
  client.edgeProperties (.specific [edge])

/-- `_vertex_property_keys`. -/
def vertexPropertyKeys (vertices : List Vertex) : Acc (List String) :=
  propertyKeys client.propsOfVertex VertexProperties.props vertices

/-- `_edge_property_keys`. -/
def edgePropertyKeys (edges : List Edge) : Acc (List String) :=
  propertyKeys client.propsOfEdge EdgeProperties.props edges

/-! ### The notes -/

/-- What the loop over the properties of a `File` vertex keeps. -/
structure VersionScan where
  observed_versions : List (Option String)
  found_any_prop : Bool := false
  found_schema_version : Bool := false

/-- One turn of that loop. -/
def VersionScan.read (s : VersionScan) (np : NamedProperty) : VersionScan :=
  if np.name = "schema_version" then
    { observed_versions := s.observed_versions.insert (some np.value.pyStr)
      found_any_prop := true
      found_schema_version := true }
  else { s with found_any_prop := true }

/-- One turn of the loop over the `File` vertices. -/
def observeVersions (observed_versions : List (Option String)) (vertex : Vertex) :
    Acc (List (Option String)) := do
  let prop_batches ← client.propsOfVertex vertex
  let scan := prop_batches.foldl (fun s prop_batch => prop_batch.foldl (fun s vp =>
    vp.props.foldl VersionScan.read s) s) (VersionScan.mk observed_versions false false)
  return if scan.found_any_prop && !scan.found_schema_version then scan.observed_versions.insert none
    else scan.observed_versions

/-- The note on a graph without stamps. -/
def unstampedNote : String :=
  "Graph was ingested under a pre-v6 schema (no schema_version stamp); current code is " ++
    SCHEMA_VERSION ++ ". Re-run ingest_code to re-stamp."

/-- The note on a stamp of another version. -/
def mismatchNote (observed : String) : String :=
  "Graph contains File nodes with schema_version=" ++ observed ++ "; current code is " ++
    SCHEMA_VERSION ++ "; counts and property keys may differ. Re-run ingest_code to re-stamp."

/-- The notes on the versions that have been observed. -/
def versionNotes (observed_versions : List (Option String)) : List String :=
  let non_null := observed_versions.reduceOption
  if none ∈ observed_versions ∧ non_null = [] then [unstampedNote]
  else if non_null ≠ [] ∧ ∃ v ∈ non_null, v ≠ SCHEMA_VERSION then
    (sortedStrs (non_null.filter fun v => v ≠ SCHEMA_VERSION)).map mismatchNote
  else []

/-- `_build_notes`. -/
def buildNotes (vertex_groups : OrderedDict String (List Vertex)) : Acc (List String) := do
  let file_vertices := (vertex_groups.get "File").getD []
  let observed_versions ← file_vertices.foldlM (observeVersions client) []
  return [NOTE_SAMPLE, NOTE_LIVE] ++ versionNotes observed_versions

/-! ### The description -/

/-- The loop over the groups of one kind of item. -/
def typeEntries {α : Type} (keysOf : List α → Acc (List String)) (sample_size : ℤ)
    (groups : OrderedDict String (List α)) : Acc (List TypeEntry) :=
  groups.items.mapM fun group => do
    let prop_keys ← keysOf (sliceTo group.2 sample_size)
    return ⟨group.1, group.2.length, sortedStrs prop_keys⟩

/-- The items of a stream, grouped by type. -/
def groupBatches {α : Type} (t : α → String) (batches : List (List α)) :
    OrderedDict String (List α) :=
  batches.foldl (fun groups batch => batch.foldl (fun groups item => groups.append (t item) item)
    groups) .empty

/-- `describe`. -/
def describe (client : Option Client) (sample_size : ℤ) : Acc Description := do
  match client with
  | none => throw ⟨"DBUnreachableError", "IndraDB client not connected"⟩
  | some client =>
    let vertex_groups := groupBatches (fun v : Vertex => v.t.name) (← client.vertices .all)
    let edge_groups := groupBatches (fun e : Edge => e.t.name) (← client.edges .all)
    let node_types ← typeEntries (vertexPropertyKeys client) sample_size vertex_groups
    let edge_types ← typeEntries (edgePropertyKeys client) sample_size edge_groups
    let notes ← buildNotes client vertex_groups
    return {
      schema_version := SCHEMA_VERSION
      backend := "indradb"
      node_types := sortTypes node_types
      edge_types := sortTypes edge_types
      vertices := (node_types.map TypeEntry.count).sum
      edges := (edge_types.map TypeEntry.count).sum
      notes }

end IndraDB
end CppMcp
