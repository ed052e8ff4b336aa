/-
# What the queries of the Neo4j driver write

The query of a record merges and sets; here are these writes one by one, as requests to
a property graph.  The queries of a batch do what its writes do (`runAll_nodesWrites`,
`runAll_edgesWrites`).  An edge record matches the nodes that are stored when its transaction
begins, for the edges of a batch leave the nodes alone.
-/

import CppMcp.Graph.Neo4jDriver
import CppMcp.Lib.GraphRequests

namespace CppMcp
namespace Graph
namespace Neo4j

open Export (NodeRecord EdgeRecord NodeType EdgeType PropVal)

/-- A single write. -/
abbrev Write := PropertyGraph.Request NodeKey EdgeType Properties String PropVal

/-- What the query of a node record writes. -/
def nodeWrites (rec : NodeRecord) : List Write :=
  .addVertex (rec.label, rec.usr) .empty ::
    (withUsr rec.props rec.usr).map fun item => .setVertex (rec.label, rec.usr) item.1 item.2

/-- What the query of an edge record writes for each edge it matches. -/
def edgeWrites (s : Store) (rec : EdgeRecord) : List Write :=
  (s.matchEnds rec).flatMap fun edge =>
    .addEdge edge :: rec.props.map fun item => .setEdge edge item.1 item.2

/-- What the transaction of the nodes writes. -/
def nodesWrites (nodes : List NodeRecord) : List Write := nodes.flatMap nodeWrites

/-- What the transaction of the edges writes. -/
def edgesWrites (edges : List EdgeRecord) (s : Store) : List Write := edges.flatMap (edgeWrites s)

/-- The nodes are merged one after the other. -/
def Store.putNodes (nodes : List NodeRecord) (s : Store) : ℕ × Store :=
  PropertyGraph.tally mergeNode nodes s

/-- The edges are merged one after the other. -/
def Store.putEdges (edges : List EdgeRecord) (s : Store) : ℕ × Store :=
  PropertyGraph.tally mergeEdge edges s

/-- The writes of a node record act on the store as its query. -/
theorem runAll_nodeWrites (rec : NodeRecord) (s : Store) :
    PropertyGraph.runAll (nodeWrites rec) s = (Store.mergeNode rec s).2 :=
  PropertyGraph.runAll_map_setVertex (rec.label, rec.usr) (withUsr rec.props rec.usr)
    (s.addVertex (rec.label, rec.usr) .empty)

/-- The writes of the nodes of a file act on the store as their transaction. -/
theorem runAll_nodesWrites (nodes : List NodeRecord) (s : Store) :
    PropertyGraph.runAll (nodesWrites nodes) s = (Store.putNodes nodes s).2 := by
  induction nodes generalizing s with
  | nil => rfl
  | cons rec nodes ih =>
    rw [nodesWrites, List.flatMap_cons, PropertyGraph.runAll_append, runAll_nodeWrites,
      ← nodesWrites, ih]
    rfl

/-- The writes of a record for some edges act as merging these edges one after the other. -/
theorem runAll_pairWrites (rec : EdgeRecord) (edges : List (NodeKey × EdgeType × NodeKey))
    (s : Store) :
    PropertyGraph.runAll (edges.flatMap fun edge =>
        (.addEdge edge :: rec.props.map fun item => .setEdge edge item.1 item.2 : List Write)) s =
      (PropertyGraph.tally (Store.mergePair rec.props) edges s).2 := by
  induction edges generalizing s with
  | nil => rfl
  | cons edge edges ih =>
    have hpair : PropertyGraph.runAll
        (.addEdge edge :: rec.props.map fun item => .setEdge edge item.1 item.2 : List Write) s =
          (Store.mergePair rec.props edge s).2 :=
      PropertyGraph.runAll_map_setEdge edge rec.props (s.addEdge edge .empty)
    rw [List.flatMap_cons, PropertyGraph.runAll_append, hpair, ih]
    rfl

/-- The query of an edge record leaves the keys of the nodes as they are. -/
theorem vertices_mergeEdge (rec : EdgeRecord) (s : Store) :
    (Store.mergeEdge rec s).2.vertices.keys = s.vertices.keys :=
  (addsEdges_mergeEdge rec s).keys_vertices

/-- The writes of the edges of a file act on the store as their transaction, though each record is
matched when it begins. -/
theorem runAll_edgesWrites (edges : List EdgeRecord) (s : Store) :
    PropertyGraph.runAll (edgesWrites edges s) s = (Store.putEdges edges s).2 := by
  have hwrites : ∀ s' : Store, s'.vertices.keys = s.vertices.keys →
      PropertyGraph.runAll (edges.flatMap (edgeWrites s)) s' = (Store.putEdges edges s').2 := by
    induction edges with
    | nil => exact fun _ _ => rfl
    | cons rec edges ih =>
      intro s' hkeys
      have hrec : PropertyGraph.runAll (edgeWrites s rec) s' = (Store.mergeEdge rec s').2 := by
        rw [edgeWrites, Store.matchEnds, ← hkeys, Store.mergeEdge]
        exact runAll_pairWrites rec (s'.matchEnds rec) s'
      rw [List.flatMap_cons, PropertyGraph.runAll_append, hrec,
        ih _ ((vertices_mergeEdge rec s').trans hkeys)]
      rfl
  exact hwrites s rfl

/-- Edges leave the nodes as they are, keys and properties. -/
theorem vertices_putEdges (edges : List EdgeRecord) (s : Store) :
    (Store.putEdges edges s).2.vertices = s.vertices :=
  PropertyGraph.eq_of_tally (fun rec s => PropertyGraph.eq_of_tally
    (fun edge s => s.vertices_addEdge edge .empty) (s.matchEnds rec) s) edges s

end Neo4j
end Graph
end CppMcp
