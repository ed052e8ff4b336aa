/-
# The drivers as loaders of files

Each driver loads the records of a file by writes to the vertices and then to the edges of its store
(`PropertyGraph.FileLoader`): a node record makes its vertex and an edge record its edges, if
both of their ends are there, and the last value of each property stays.
-/

import CppMcp.Graph.Relabel
import CppMcp.Graph.Twin
import CppMcp.Lib.Reloading

namespace CppMcp
namespace Graph

open Export (NodeRecord EdgeRecord EdgeType Props)

/-- The records of a file, its nodes and its edges. -/
abbrev FileRecords := List NodeRecord × List EdgeRecord

/-! ### IndraDB -/

namespace IndraDB

variable {U : Type} [DecidableEq U]

/-- **The IndraDB driver as a loader.** -/
def loader (uuid5 : String → U) :
    PropertyGraph.FileLoader FileRecords U EdgeType (Export.NodeType × Properties) Properties where
  load records s := (Store.putEdges uuid5 records.2 (Store.putNodes uuid5 records.1 s).2).2
  nodes records := records.1.map (nodeUpsert uuid5)
  edges vids records := records.2.map (edgeUpsert uuid5 vids)
  vertices_load records s := by rw [vertices_putEdges, vertices_putNodes]
  edges_load records s := by rw [edges_putEdges, edges_putNodes, vertices_putEdges]
  nodes_twice fs d := by
    rw [← List.map_flatMap]
    exact upsertAll_nodeUpsert_twice uuid5 _ d
  edges_twice vids fs d := by
    rw [← List.map_flatMap]
    exact upsertAll_edgeUpsert_twice uuid5 vids _ d

/-- `upsert_edges` of IndraDB, when it returns, has stored the edges and returns what they count. -/
theorem upsert_edges_tally {uuid5 : String → U} {c c' : Client (Store U)} {n : ℕ}
    {batch : List EdgeRecord} (hc : c.connected = true)
    (h : (driver uuid5).upsert_edges batch c = .ok n c') :
    (n, c'.store) = Store.putEdges uuid5 batch c.store ∧ c'.connected = true :=
  Acts.unlessIdle (Acts.tallyRecords (acts_upsertEdge uuid5) batch)
    (by rintro rfl; exact fun _ => rfl) hc h

end IndraDB

/-! ### Neo4j -/

namespace Neo4j

/-- What is matched by an edge record where the nodes have these keys. -/
def matchKeys (keys : List NodeKey) (rec : EdgeRecord) : List (NodeKey × EdgeType × NodeKey) :=
  (keys.filter fun a => a.2 = rec.source_usr).flatMap fun a =>
    (keys.filter fun b => b.2 = rec.target_usr).map fun b => (a, rec.edge_type, b)

/-- What is merged for a pair of nodes. -/
def pairUpsert (x : (NodeKey × EdgeType × NodeKey) × Props) :
    Upsert (NodeKey × EdgeType × NodeKey) Properties where
  key := x.1
  new := some .empty
  change stored := stored.update x.2

/-- The edges that a record merges where the nodes have these keys, each with its properties. -/
def pairsOf (keys : List NodeKey) (rec : EdgeRecord) :
    List ((NodeKey × EdgeType × NodeKey) × Props) :=
  (matchKeys keys rec).map fun e => (e, rec.props)

/-- Merging some edges between stored nodes writes each of them as an `Upsert`. -/
theorem edges_mergePairs (props : Props) {edges : List (NodeKey × EdgeType × NodeKey)} {s : Store}
    (hends : ∀ e ∈ edges, e.1 ∈ s.vertices.keys ∧ e.2.2 ∈ s.vertices.keys) :
    (PropertyGraph.tally (Store.mergePair props) edges s).2.edges =
      OrderedDict.upsertAll (edges.map fun e => pairUpsert (e, props)) s.edges := by
  induction edges generalizing s with
  | nil => rfl
  | cons e edges ih =>
    obtain ⟨he, hedges⟩ := List.forall_mem_cons.mp hends
    have hkeys : (Store.mergePair props e s).2.vertices = s.vertices := vertices_mergePair props e s
    rw [PropertyGraph.tally, ih (hkeys ▸ hedges), edges_mergePair props he]
    rfl

/-- An edge record does to the edges what the upserts of its matches do. -/
theorem edges_mergeEdge (rec : EdgeRecord) (s : Store) :
    (Store.mergeEdge rec s).2.edges =
      OrderedDict.upsertAll ((pairsOf s.vertices.keys rec).map pairUpsert) s.edges := by
  rw [pairsOf, List.map_map]
  exact edges_mergePairs rec.props fun e he => ((mem_matchEnds_iff rec s e).mp he).2

/-- The edges of a file do so in their order, all with the nodes that are there when the transaction
begins. -/
theorem edges_putEdges (edges : List EdgeRecord) (s : Store) :
    (Store.putEdges edges s).2.edges =
      OrderedDict.upsertAll (edges.flatMap fun rec => (pairsOf s.vertices.keys rec).map pairUpsert)
        s.edges := by
  induction edges generalizing s with
  | nil => rfl
  | cons rec edges ih =>
    refine (ih _).trans ?_
    rw [vertices_mergeEdge, edges_mergeEdge, List.flatMap_cons]
    exact (List.foldl_append ..).symm

/-- The nodes of a file leave the edges alone. -/
theorem edges_putNodes (nodes : List NodeRecord) (s : Store) :
    (Store.putNodes nodes s).2.edges = s.edges :=
  PropertyGraph.eq_of_tally (f := PropertyGraph.edges) (fun _ _ => rfl) nodes s

/-- Merging the same nodes once more leaves the nodes as they are. -/
theorem upsertAll_nodeUpsert_twice (nodes : List NodeRecord) (d : OrderedDict NodeKey Properties) :
    OrderedDict.upsertAll (nodes.map nodeUpsert) (OrderedDict.upsertAll (nodes.map nodeUpsert) d) =
      OrderedDict.upsertAll (nodes.map nodeUpsert) d :=
  OrderedDict.upsertAll_map_twice (fun props stored => stored.setAll props)
    (fun rec => withUsr rec.props rec.usr) (fun _ _ => rfl) (fun _ => rfl)
    (fun props props' stored => stored.setAll_append props props')
    (fun props stored => stored.setAll_setAll props)
    (fun _ _ _ hnone => absurd hnone (by simp [nodeUpsert])) nodes d

/-- Merging the same matches once more leaves the edges as they are. -/
theorem upsertAll_pairUpsert_twice (pairs : List ((NodeKey × EdgeType × NodeKey) × Props))
    (d : OrderedDict (NodeKey × EdgeType × NodeKey) Properties) :
    OrderedDict.upsertAll (pairs.map pairUpsert) (OrderedDict.upsertAll (pairs.map pairUpsert) d) =
      OrderedDict.upsertAll (pairs.map pairUpsert) d :=
  OrderedDict.upsertAll_map_twice (fun props stored => stored.setAll props) Prod.snd
    (fun _ _ => rfl) (fun _ => rfl) (fun props props' stored => stored.setAll_append props props')
    (fun props stored => stored.setAll_setAll props)
    (fun _ _ _ hnone => absurd hnone (by simp [pairUpsert])) pairs d

/-- **The Neo4j driver as a loader.** -/
def loader : PropertyGraph.FileLoader FileRecords NodeKey EdgeType Properties Properties where
  load records s := (Store.putEdges records.2 (Store.putNodes records.1 s).2).2
  nodes records := records.1.map nodeUpsert
  edges keys records := records.2.flatMap fun rec => (pairsOf keys rec).map pairUpsert
  vertices_load records s := by
    rw [vertices_putEdges]
    exact vertices_mergeNodes records.1 s
  edges_load records s := by rw [edges_putEdges, edges_putNodes, vertices_putEdges]
  nodes_twice fs d := by
    rw [← List.map_flatMap]
    exact upsertAll_nodeUpsert_twice _ d
  edges_twice keys fs d := by
    rw [show fs.flatMap (fun records => records.2.flatMap fun rec => (pairsOf keys rec).map pairUpsert) =
      (fs.flatMap fun records => records.2.flatMap (pairsOf keys)).map pairUpsert by
        rw [List.map_flatMap]
        exact List.flatMap_congr fun records _ => List.map_flatMap.symm]
    exact upsertAll_pairUpsert_twice _ d

/-- `upsert_edges` of Neo4j, when it returns, has merged the edges and returns what they count. -/
theorem upsert_edges_tally {c c' : Client Store} {n : ℕ} {batch : List EdgeRecord}
    (hc : c.connected = true) (h : driver.upsert_edges batch c = .ok n c') :
    (n, c'.store) = Store.putEdges batch c.store ∧ c'.connected = true :=
  Acts.unlessIdle
    (acts_executeWrite (Acts.tallyRecords (fun rec => Acts.call (Store.mergeEdge rec)) batch))
    (by rintro rfl; exact fun _ => rfl) hc h

end Neo4j
end Graph
end CppMcp
