/-
# The IndraDB driver

`src/cpp_mcp/graphdb/indradb_driver.py`.  A vertex has the identifier
`uuid5(NS_CPPMCP_USR, usr)`.  IndraDB stores an edge only if both of its endpoint
vertices are stored and drops it silently otherwise, so the driver looks whether an edge
is there before it creates it and once more before it counts it.

`uuid5` is a parameter.  The property values the exporter writes are scalars, which
`_normalise_prop` lets pass.
-/

import CppMcp.Graph.Client

namespace CppMcp
namespace Graph
namespace IndraDB

open Export (NodeRecord EdgeRecord NodeType EdgeType Props PropVal)

/-- What IndraDB stores: vertices with their type and properties, edges with their
properties.  `U` are the identifiers. -/
abbrev Store (U : Type) := PropertyGraph U EdgeType (NodeType × Properties) Properties

variable {U : Type} [DecidableEq U] (uuid5 : String → U)

/-- The loop of `set_properties(SpecificVertexQuery(vid), …)`. -/
def setVertexProperties (vid : U) : Props → Action (Client (Store U)) Unit
  | [] => pure ()
  | (key, value) :: props => do
    call fun s => ((), s.modifyVertex vid fun a => (a.1, a.2.set key value))
    setVertexProperties vid props

/-- The loop of `set_properties(SpecificEdgeQuery(edge), …)`; without the edge nothing is
set. -/
def setEdgeProperties (edge : U × EdgeType × U) : Props → Action (Client (Store U)) Unit
  | [] => pure ()
  | (key, value) :: props => do
    call fun s => ((), s.modifyEdge edge fun stored => stored.set key value)
    setEdgeProperties edge props

/-- One turn of the loop of `upsert_nodes`. -/
def upsertNode (rec : NodeRecord) : Action (Client (Store U)) ℕ := do
  let existing ← call fun s => (decide (uuid5 rec.usr ∈ s.vertices.keys), s)
  if existing then
    setVertexProperties (uuid5 rec.usr) (withUsr rec.props rec.usr)
    return 0
  else
    call fun s => ((), s.addVertex (uuid5 rec.usr) (rec.label, .empty))
    setVertexProperties (uuid5 rec.usr) (withUsr rec.props rec.usr)
    return 1

/-- `indradb.Edge(outbound_id, t, inbound_id)`. -/
def edgeOf (rec : EdgeRecord) : U × EdgeType × U :=
  (uuid5 rec.source_usr, rec.edge_type, uuid5 rec.target_usr)

/-- One turn of the loop of `upsert_edges`. -/
def upsertEdge (rec : EdgeRecord) : Action (Client (Store U)) ℕ := do
  let existing ← call fun s => (decide (edgeOf uuid5 rec ∈ s.edges.keys), s)
  if existing then
    setEdgeProperties (edgeOf uuid5 rec) rec.props
    return 0
  else
    call fun s => ((), s.addEdge (edgeOf uuid5 rec) .empty)
    let stored ← call fun s => (decide (edgeOf uuid5 rec ∈ s.edges.keys), s)
    setEdgeProperties (edgeOf uuid5 rec) rec.props
    return if stored then 1 else 0

/-- `IndraDBDriver`. -/
def driver : GraphDriver (Client (Store U)) where
  upsert_nodes batch := unlessIdle batch (tallyRecords (upsertNode uuid5) batch)
  upsert_edges batch := unlessIdle batch (tallyRecords (upsertEdge uuid5) batch)

/-! ### What the driver does to the store -/

/-- The properties of a vertex are written one by one. -/
def Store.setVertex (s : Store U) (vid : U) (props : Props) : Store U :=
  props.foldl (fun s item => s.modifyVertex vid fun a => (a.1, a.2.set item.1 item.2)) s

/-- The properties of an edge are written one by one. -/
def Store.setEdge (s : Store U) (edge : U × EdgeType × U) (props : Props) : Store U :=
  props.foldl (fun s item => s.modifyEdge edge fun stored => stored.set item.1 item.2) s

/-- A node is stored, and counted if it is new. -/
def Store.putNode (rec : NodeRecord) (s : Store U) : ℕ × Store U :=
  (s.vertices.created (s.addVertex (uuid5 rec.usr) (rec.label, .empty)).vertices (uuid5 rec.usr),
    Store.setVertex (s.addVertex (uuid5 rec.usr) (rec.label, .empty)) (uuid5 rec.usr)
      (withUsr rec.props rec.usr))

/-- An edge is stored if its endpoints are, and counted if it is new and has been stored. -/
def Store.putEdge (rec : EdgeRecord) (s : Store U) : ℕ × Store U :=
  (s.edges.created (s.addEdge (edgeOf uuid5 rec) .empty).edges (edgeOf uuid5 rec),
    Store.setEdge (s.addEdge (edgeOf uuid5 rec) .empty) (edgeOf uuid5 rec) rec.props)

/-- The loop of `set_properties` over a vertex writes the properties in their order. -/
theorem acts_setVertexProperties (vid : U) (props : Props) :
    Acts (setVertexProperties vid props) fun s => ((), Store.setVertex s vid props) := by
  induction props with
  | nil => exact Acts.pure ()
  | cons item props ih => exact (Acts.call _).bind fun _ => ih

/-- The loop of `set_properties` over an edge writes the properties in their order. -/
theorem acts_setEdgeProperties (edge : U × EdgeType × U) (props : Props) :
    Acts (setEdgeProperties edge props) fun s => ((), Store.setEdge s edge props) := by
  induction props with
  | nil => exact Acts.pure ()
  | cons item props ih => exact (Acts.call _).bind fun _ => ih

/-- A turn of the loop of `upsert_nodes` stores the node: the branch for an existing vertex and that
for a new one write the same. -/
theorem acts_upsertNode (rec : NodeRecord) :
    Acts (upsertNode uuid5 rec) (Store.putNode uuid5 rec) := by
  refine Acts.congr ((Acts.call _).bind (g := fun existing s =>
    if existing then (0, Store.setVertex s (uuid5 rec.usr) (withUsr rec.props rec.usr))
    else
      (1, Store.setVertex (s.addVertex (uuid5 rec.usr) (rec.label, .empty)) (uuid5 rec.usr)
        (withUsr rec.props rec.usr))) fun existing => ?_) fun s => ?_
  · cases existing with
    | true => exact (acts_setVertexProperties _ _).bind fun _ => Acts.pure 0
    | false =>
      exact (Acts.call _).bind fun _ =>
        (acts_setVertexProperties _ _).bind fun _ => Acts.pure 1
  · rw [Store.putNode, PropertyGraph.created_addVertex]
    by_cases h : uuid5 rec.usr ∈ s.vertices.keys
    · simp [h, PropertyGraph.addVertex_of_mem s h]
    · simp [h]

/-- A turn of the loop of `upsert_edges` stores the edge, and counts it only if the second look
finds it. -/
theorem acts_upsertEdge (rec : EdgeRecord) :
    Acts (upsertEdge uuid5 rec) (Store.putEdge uuid5 rec) := by
  refine Acts.congr ((Acts.call _).bind (g := fun existing s =>
    if existing then (0, Store.setEdge s (edgeOf uuid5 rec) rec.props)
    else
      (if edgeOf uuid5 rec ∈ (s.addEdge (edgeOf uuid5 rec) .empty).edges.keys then 1 else 0,
        Store.setEdge (s.addEdge (edgeOf uuid5 rec) .empty) (edgeOf uuid5 rec) rec.props))
    fun existing => ?_) fun s => ?_
  · cases existing with
    | true => exact (acts_setEdgeProperties _ _).bind fun _ => Acts.pure 0
    | false =>
      refine Acts.congr ((Acts.call _).bind fun _ => (Acts.call _).bind fun stored =>
        (acts_setEdgeProperties _ _).bind fun _ => Acts.pure (if stored then 1 else 0)) fun s => ?_
      simp
  · rw [Store.putEdge, OrderedDict.created]
    by_cases h : edgeOf uuid5 rec ∈ s.edges.keys
    · simp [h, PropertyGraph.addEdge_of_mem s h]
    · simp [h]

/-- A node record adds the vertex of its USR and counts it if it is new. -/
theorem addsVertices_putNode (rec : NodeRecord) (s : Store U) :
    PropertyGraph.AddsVertices {uuid5 rec.usr} s (Store.putNode uuid5 rec s).1
      (Store.putNode uuid5 rec s).2 := by
  have h := (s.addsVertices_addVertex (uuid5 rec.usr) (rec.label, .empty)).trans
    (PropertyGraph.addsVertices_foldl_modifyVertex _ (uuid5 rec.usr)
      (fun (item : String × PropVal) a => (a.1, a.2.set item.1 item.2))
      (withUsr rec.props rec.usr))
  rw [Set.union_empty] at h
  exact h

/-- An edge record adds its edge if both ends are stored, and counts it if it is new. -/
theorem addsEdges_putEdge (rec : EdgeRecord) (s : Store U) :
    PropertyGraph.AddsEdges {edgeOf uuid5 rec} s (Store.putEdge uuid5 rec s).1
      (Store.putEdge uuid5 rec s).2 := by
  have h := (s.addsEdges_addEdge (edgeOf uuid5 rec) .empty).trans
    (PropertyGraph.addsEdges_foldl_modifyEdge _ (edgeOf uuid5 rec)
      (fun (item : String × PropVal) stored => stored.set item.1 item.2) rec.props)
  rw [Set.union_empty] at h
  exact h

section Upsert

variable {uuid5} {c c' : Client (Store U)} {n : ℕ}

/-- `upsert_nodes`, when it returns, has stored the nodes one by one and returns the sum of what
they count. -/
theorem upsert_nodes_tally {batch : List NodeRecord} (hc : c.connected = true)
    (h : (driver uuid5).upsert_nodes batch c = .ok n c') :
    (n, c'.store) = PropertyGraph.tally (Store.putNode uuid5) batch c.store ∧
      c'.connected = true :=
  Acts.unlessIdle (Acts.tallyRecords (acts_upsertNode uuid5) batch)
    (by rintro rfl; exact fun _ => rfl) hc h

/-- `upsert_nodes`, when it returns, has added the vertices of its records. -/
theorem upsert_nodes_ok {batch : List NodeRecord} (hc : c.connected = true)
    (h : (driver uuid5).upsert_nodes batch c = .ok n c') :
    PropertyGraph.AddsVertices {v | ∃ rec ∈ batch, v ∈ ({uuid5 rec.usr} : Set U)} c.store n
      c'.store ∧ c'.connected = true := by
  obtain ⟨hf, hc'⟩ := upsert_nodes_tally hc h
  obtain ⟨rfl, hstore⟩ := Prod.mk.inj hf
  rw [hstore]
  exact ⟨PropertyGraph.AddsVertices.tally (addsVertices_putNode uuid5) batch c.store, hc'⟩

/-- `upsert_edges`, when it returns, has added those edges of its records whose ends are stored. -/
theorem upsert_edges_ok {batch : List EdgeRecord} (hc : c.connected = true)
    (h : (driver uuid5).upsert_edges batch c = .ok n c') :
    PropertyGraph.AddsEdges {e | ∃ rec ∈ batch, e ∈ ({edgeOf uuid5 rec} : Set _)} c.store n
      c'.store ∧ c'.connected = true := by
  obtain ⟨hf, hc'⟩ := Acts.unlessIdle (Acts.tallyRecords (acts_upsertEdge uuid5) batch)
    (by rintro rfl; exact fun _ => rfl) hc h
  obtain ⟨rfl, hstore⟩ := Prod.mk.inj hf
  rw [hstore]
  exact ⟨PropertyGraph.AddsEdges.tally (addsEdges_putEdge uuid5) batch c.store, hc'⟩

end Upsert

end IndraDB
end Graph
end CppMcp
