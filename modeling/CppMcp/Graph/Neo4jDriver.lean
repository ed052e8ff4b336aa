/-
# The Neo4j driver

`src/cpp_mcp/graphdb/neo4j_driver.py`.  A batch is written in one transaction, by a query for
each record: `MERGE` for a node, which finds it by its label and USR, and for an edge `MATCH`
of its endpoints by USR alone and `MERGE` of the edge between them.  Where several
nodes have the USR of an endpoint, one edge is merged for every pair; where none has, the
query does nothing.

The store has the nodes that were merged, one for each label and USR.  Neo4j runs the
transaction function again after a transient error, so a failure here is what is left
after that.
-/

import CppMcp.Graph.Client

namespace CppMcp
namespace Graph
namespace Neo4j

open Export (NodeRecord EdgeRecord NodeType EdgeType Props)

/-- A node is known by its label and its USR. -/
abbrev NodeKey := NodeType × String

/-- What Neo4j stores. -/
abbrev Store := PropertyGraph NodeKey EdgeType Properties Properties

/-- `MERGE (n:label {usr: $usr}) SET n += $props`, with `nodes_created`. -/
def Store.mergeNode (rec : NodeRecord) (s : Store) : ℕ × Store :=
  (s.vertices.created (s.addVertex (rec.label, rec.usr) .empty).vertices (rec.label, rec.usr),
    (s.addVertex (rec.label, rec.usr) .empty).modifyVertex (rec.label, rec.usr) fun stored =>
      stored.update (withUsr rec.props rec.usr))

/-- `MATCH (a {usr: $src}), (b {usr: $tgt})`: all pairs of nodes with these USRs. -/
def Store.matchEnds (s : Store) (rec : EdgeRecord) : List (NodeKey × EdgeType × NodeKey) :=
  (s.vertices.keys.filter fun a => a.2 = rec.source_usr).flatMap fun a =>
    (s.vertices.keys.filter fun b => b.2 = rec.target_usr).map fun b => (a, rec.edge_type, b)

/-- `MERGE (a)-[r:etype]->(b) SET r += $props`, with `relationships_created`. -/
def Store.mergePair (props : Props) (edge : NodeKey × EdgeType × NodeKey) (s : Store) :
    ℕ × Store :=
  (s.edges.created (s.addEdge edge .empty).edges edge,
    (s.addEdge edge .empty).modifyEdge edge fun stored => stored.update props)

/-- The query of one edge record. -/
def Store.mergeEdge (rec : EdgeRecord) (s : Store) : ℕ × Store :=
  PropertyGraph.tally (mergePair rec.props) (s.matchEnds rec) s

/-- `session.execute_write`: the transaction is committed, or rolled back when a query or
the commit fails. -/
def executeWrite {α : Type} (tx : Action (Client Store) α) : Action (Client Store) α := fun c =>
  match (do let a ← tx; call fun s => ((), s); return a : Action (Client Store) α) c with
  | .ok a c' => .ok a c'
  | .error exc c' => .error exc { c' with store := c.store }

/-- `Neo4jDriver`. -/
def driver : GraphDriver (Client Store) where
  upsert_nodes batch := unlessIdle batch
    (executeWrite (tallyRecords (fun rec => call (Store.mergeNode rec)) batch))
  upsert_edges batch := unlessIdle batch
    (executeWrite (tallyRecords (fun rec => call (Store.mergeEdge rec)) batch))

/-! ### What the driver does to the store -/

/-- A transaction that is committed acts as the queries in it. -/
theorem acts_executeWrite {α : Type} {tx : Action (Client Store) α} {f : Store → α × Store}
    (h : Acts tx f) : Acts (executeWrite tx) f := by
  intro c a c' hok
  unfold executeWrite at hok
  split at hok
  · rename_i a' c'' hrun
    cases hok
    exact h.bind (fun a => (Acts.call _).bind fun _ => Acts.pure a) c _ _ hrun
  · exact absurd hok (by simp)

/-- The edges that an edge record stands for. -/
def edgesOf (rec : EdgeRecord) : Set (NodeKey × EdgeType × NodeKey) :=
  {e | e.1.2 = rec.source_usr ∧ e.2.1 = rec.edge_type ∧ e.2.2.2 = rec.target_usr}

/-- A node record adds the node of its label and USR and counts it if it is new. -/
theorem addsVertices_mergeNode (rec : NodeRecord) (s : Store) :
    PropertyGraph.AddsVertices {(rec.label, rec.usr)} s (Store.mergeNode rec s).1
      (Store.mergeNode rec s).2 := by
  have h := (s.addsVertices_addVertex (rec.label, rec.usr) .empty).trans
    (PropertyGraph.addsVertices_modifyVertex _ (rec.label, rec.usr) fun stored : Properties =>
      stored.update (withUsr rec.props rec.usr))
  rw [Set.union_empty] at h
  exact h

/-- A matched edge is added if both nodes are stored, and counted if it is new. -/
theorem addsEdges_mergePair (props : Props) (edge : NodeKey × EdgeType × NodeKey) (s : Store) :
    PropertyGraph.AddsEdges {edge} s (Store.mergePair props edge s).1
      (Store.mergePair props edge s).2 := by
  have h := (s.addsEdges_addEdge edge .empty).trans
    (PropertyGraph.addsEdges_modifyEdge _ edge fun stored : Properties => stored.update props)
  rw [Set.union_empty] at h
  exact h

/-- What `MATCH` finds for an edge record: the edges of its type between stored nodes with the USRs
of its ends. -/
theorem mem_matchEnds_iff (rec : EdgeRecord) (s : Store) (e : NodeKey × EdgeType × NodeKey) :
    e ∈ s.matchEnds rec ↔ e ∈ edgesOf rec ∧ e.1 ∈ s.vertices.keys ∧ e.2.2 ∈ s.vertices.keys := by
  obtain ⟨a, t, b⟩ := e
  simp only [Store.matchEnds, edgesOf, List.mem_flatMap, List.mem_map, List.mem_filter,
    decide_eq_true_eq, Set.mem_ofPred_eq, Prod.mk.injEq]
  constructor
  · rintro ⟨a', ⟨ha, ha'⟩, b', ⟨hb, hb'⟩, rfl, rfl, rfl⟩
    exact ⟨⟨ha', rfl, hb'⟩, ha, hb⟩
  · rintro ⟨⟨ha', rfl, hb'⟩, ha, hb⟩
    exact ⟨a, ⟨ha, ha'⟩, b, ⟨hb, hb'⟩, rfl, rfl, rfl⟩

/-- **A matched edge is merged** for every pair of stored nodes with the endpoints' USRs. -/
theorem addsEdges_mergeEdge (rec : EdgeRecord) (s : Store) :
    PropertyGraph.AddsEdges (edgesOf rec) s (Store.mergeEdge rec s).1
      (Store.mergeEdge rec s).2 := by
  obtain ⟨hgrows, hmem, hvert⟩ := PropertyGraph.AddsEdges.tally
    (addsEdges_mergePair rec.props) (s.matchEnds rec) s
  refine ⟨hgrows, fun e => (hmem e).trans (or_congr_right ?_), hvert⟩
  rw [Set.mem_ofPred_eq, show (∃ a ∈ s.matchEnds rec, e ∈ ({a} : Set _)) ↔ e ∈ s.matchEnds rec from
    by simp, mem_matchEnds_iff, and_assoc, and_self]

section Upsert

variable {c c' : Client Store} {n : ℕ}

/-- `upsert_nodes`, when it returns, has merged the nodes one by one and returns the sum of what
they count. -/
theorem upsert_nodes_tally {batch : List NodeRecord} (hc : c.connected = true)
    (h : driver.upsert_nodes batch c = .ok n c') :
    (n, c'.store) = PropertyGraph.tally Store.mergeNode batch c.store ∧ c'.connected = true :=
  Acts.unlessIdle
    (acts_executeWrite (Acts.tallyRecords (fun rec => Acts.call (Store.mergeNode rec)) batch))
    (by rintro rfl; exact fun _ => rfl) hc h

/-- `upsert_nodes`, when it returns, has added the nodes of its records, each under its label and
USR. -/
theorem upsert_nodes_ok {batch : List NodeRecord} (hc : c.connected = true)
    (h : driver.upsert_nodes batch c = .ok n c') :
    PropertyGraph.AddsVertices {v | ∃ rec ∈ batch, v ∈ ({(rec.label, rec.usr)} : Set NodeKey)}
      c.store n c'.store ∧ c'.connected = true := by
  obtain ⟨hf, hc'⟩ := upsert_nodes_tally hc h
  obtain ⟨rfl, hstore⟩ := Prod.mk.inj hf
  rw [hstore]
  exact ⟨PropertyGraph.AddsVertices.tally addsVertices_mergeNode batch c.store, hc'⟩

/-- `upsert_edges`, when it returns, has added the edges between all stored nodes with the USRs of a
record. -/
theorem upsert_edges_ok {batch : List EdgeRecord} (hc : c.connected = true)
    (h : driver.upsert_edges batch c = .ok n c') :
    PropertyGraph.AddsEdges {e | ∃ rec ∈ batch, e ∈ edgesOf rec} c.store n c'.store ∧
      c'.connected = true := by
  obtain ⟨hf, hc'⟩ := Acts.unlessIdle
    (acts_executeWrite (Acts.tallyRecords (fun rec => Acts.call (Store.mergeEdge rec)) batch))
    (by rintro rfl; exact fun _ => rfl) hc h
  obtain ⟨rfl, hstore⟩ := Prod.mk.inj hf
  rw [hstore]
  exact ⟨PropertyGraph.AddsEdges.tally addsEdges_mergeEdge batch c.store, hc'⟩

end Upsert

end Neo4j
end Graph
end CppMcp
