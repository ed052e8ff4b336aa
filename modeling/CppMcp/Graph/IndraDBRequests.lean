/-
# The requests of the IndraDB driver

Each method of `IndraDBDriver` sends one request for each call of the client.  Here are the
requests that a record leads to, and with them the programs of
`CppMcp.Graph.IndraDBDriver`: they send these requests and no others (`sends_upsertNode`,
`sends_upsertEdge`).
-/

import CppMcp.Graph.Calls
import CppMcp.Graph.IndraDBDriver
import CppMcp.Lib.GraphRequests

namespace CppMcp
namespace Graph
namespace IndraDB

open Export (NodeRecord EdgeRecord NodeType EdgeType Props PropVal)

/-- A request to IndraDB. -/
abbrev Request (U : Type) := PropertyGraph.Request U EdgeType (NodeType × Properties) String PropVal

variable {U : Type} [DecidableEq U] (uuid5 : String → U)

/-- What is sent for a node record. -/
def nodeRequests (rec : NodeRecord) (s : Store U) : List (Request U) :=
  .hasVertex (uuid5 rec.usr) ::
    ((if (s.vertices.get (uuid5 rec.usr)).isSome then []
        else [.addVertex (uuid5 rec.usr) (rec.label, .empty)]) ++
      (withUsr rec.props rec.usr).map fun item => .setVertex (uuid5 rec.usr) item.1 item.2)

/-- What is sent for an edge record. -/
def edgeRequests (rec : EdgeRecord) (s : Store U) : List (Request U) :=
  .hasEdge (edgeOf uuid5 rec) ::
    ((if (s.edges.get (edgeOf uuid5 rec)).isSome then []
      else [.addEdge (edgeOf uuid5 rec), .hasEdge (edgeOf uuid5 rec)]) ++
      rec.props.map fun item => .setEdge (edgeOf uuid5 rec) item.1 item.2)

/-- What is sent while the nodes of a file are written. -/
def nodesRequests (nodes : List NodeRecord) (s : Store U) : List (Request U) :=
  requestsAll PropertyGraph.Request.run (nodeRequests uuid5) nodes s

/-- What is sent while the edges of a file are written. -/
def edgesRequests (edges : List EdgeRecord) (s : Store U) : List (Request U) :=
  requestsAll PropertyGraph.Request.run (edgeRequests uuid5) edges s

/-- The loop over the properties of a vertex sends one request for each of them. -/
theorem sends_setVertexProperties (vid : U) (props : Props) :
    Sends PropertyGraph.Request.run (setVertexProperties vid props)
      (fun _ => props.map fun item => .setVertex vid item.1 item.2) fun _ => () := by
  induction props with
  | nil => exact Sends.pure ()
  | cons item props ih =>
    have hset : Sends PropertyGraph.Request.run
        (call fun s : Store U => ((), s.modifyVertex vid fun a => (a.1, a.2.set item.1 item.2)))
        (fun _ => [.setVertex vid item.1 item.2]) fun _ => () := Sends.call fun _ => rfl
    exact hset.bind fun _ => ih

/-- The loop over the properties of an edge sends one request for each of them. -/
theorem sends_setEdgeProperties (edge : U × EdgeType × U) (props : Props) :
    Sends PropertyGraph.Request.run (setEdgeProperties edge props)
      (fun _ => props.map fun item => .setEdge edge item.1 item.2) fun _ => () := by
  induction props with
  | nil => exact Sends.pure ()
  | cons item props ih =>
    have hset : Sends PropertyGraph.Request.run
        (call fun s : Store U => ((), s.modifyEdge edge fun stored => stored.set item.1 item.2))
        (fun _ => [.setEdge edge item.1 item.2]) fun _ => () := Sends.call fun _ => rfl
    exact hset.bind fun _ => ih

/-- What the driver does for a node record, request by request. -/
theorem sends_upsertNode_requests (rec : NodeRecord) :
    ∃ answer, Sends PropertyGraph.Request.run (upsertNode uuid5 rec) (nodeRequests uuid5 rec)
      answer := by
  have hset := sends_setVertexProperties (uuid5 rec.usr) (withUsr rec.props rec.usr)
  have hadd : Sends PropertyGraph.Request.run
      (call fun s : Store U => ((), s.addVertex (uuid5 rec.usr) (rec.label, .empty)))
      (fun _ => [.addVertex (uuid5 rec.usr) (rec.label, .empty)]) fun _ => () := Sends.call fun _ => rfl
  refine ⟨_, Sends.congr ((Sends.call (r := .hasVertex (uuid5 rec.usr)) fun _ => rfl).bind
    (q := fun existing _ =>
      (if existing then [] else [.addVertex (uuid5 rec.usr) (rec.label, .empty)]) ++
      (withUsr rec.props rec.usr).map fun item => .setVertex (uuid5 rec.usr) item.1 item.2)
    (g := fun existing _ => if existing then 0 else 1) fun existing => ?_) (fun s => ?_)
    fun s => rfl⟩
  · cases existing with
    | true => exact (hset.bind fun _ => Sends.pure 0).congr (fun s => by simp) fun s => rfl
    | false =>
      exact (hadd.bind fun _ => hset.bind fun _ => Sends.pure 1).congr (fun s => by simp) fun s => rfl
  · by_cases h : uuid5 rec.usr ∈ s.vertices.keys <;> simp [nodeRequests, h, OrderedDict.isSome_get_iff]

/-- What the driver does for an edge record, request by request. -/
theorem sends_upsertEdge_requests (rec : EdgeRecord) :
    ∃ answer, Sends PropertyGraph.Request.run (upsertEdge uuid5 rec) (edgeRequests uuid5 rec)
      answer := by
  have hset := sends_setEdgeProperties (edgeOf uuid5 rec) rec.props
  have hhas : Sends PropertyGraph.Request.run
      (call fun s : Store U => (decide (edgeOf uuid5 rec ∈ s.edges.keys), s))
      (fun _ => [.hasEdge (edgeOf uuid5 rec)]) fun s => decide (edgeOf uuid5 rec ∈ s.edges.keys) :=
    Sends.call fun _ => rfl
  have hadd : Sends PropertyGraph.Request.run
      (call fun s : Store U => ((), s.addEdge (edgeOf uuid5 rec) .empty))
      (fun _ => [.addEdge (edgeOf uuid5 rec)]) fun _ => () := Sends.call fun _ => rfl
  refine ⟨_, Sends.congr (hhas.bind
    (q := fun existing _ => (if existing then []
      else [.addEdge (edgeOf uuid5 rec), .hasEdge (edgeOf uuid5 rec)]) ++
        rec.props.map fun item => .setEdge (edgeOf uuid5 rec) item.1 item.2)
    (g := fun existing s => if existing then 0
      else if edgeOf uuid5 rec ∈ (s.addEdge (edgeOf uuid5 rec) .empty).edges.keys then 1 else 0)
    fun existing => ?_) (fun s => ?_) fun s => rfl⟩
  · cases existing with
    | true => exact (hset.bind fun _ => Sends.pure 0).congr (fun s => by simp) fun s => rfl
    | false =>
      refine (hadd.bind fun _ => hhas.bind fun stored =>
        hset.bind fun _ => Sends.pure (if stored then 1 else 0)).congr (fun s => ?_) fun s => ?_
      · simp
      · rw [if_neg Bool.false_ne_true]
        exact if_congr decide_eq_true_iff rfl rfl
  · by_cases h : edgeOf uuid5 rec ∈ s.edges.keys <;> simp [edgeRequests, h, OrderedDict.isSome_get_iff]

/-- The requests of a node record act on the store as storing the node. -/
theorem runAll_nodeRequests (rec : NodeRecord) (s : Store U) :
    PropertyGraph.runAll (nodeRequests uuid5 rec s) s = (Store.putNode uuid5 rec s).2 := by
  obtain ⟨answer, h⟩ := sends_upsertNode_requests uuid5 rec
  exact (congrArg Prod.snd (h.store_of_acts (acts_upsertNode uuid5 rec) s)).symm

/-- The requests of an edge record act on the store as storing the edge. -/
theorem runAll_edgeRequests (rec : EdgeRecord) (s : Store U) :
    PropertyGraph.runAll (edgeRequests uuid5 rec s) s = (Store.putEdge uuid5 rec s).2 := by
  obtain ⟨answer, h⟩ := sends_upsertEdge_requests uuid5 rec
  exact (congrArg Prod.snd (h.store_of_acts (acts_upsertEdge uuid5 rec) s)).symm

/-- **A node record:** the driver sends its requests and no others, and returns what storing the
node counts. -/
theorem sends_upsertNode (rec : NodeRecord) :
    Sends PropertyGraph.Request.run (upsertNode uuid5 rec) (nodeRequests uuid5 rec)
      fun s => (Store.putNode uuid5 rec s).1 := by
  obtain ⟨answer, h⟩ := sends_upsertNode_requests uuid5 rec
  exact h.congr (fun _ => rfl) fun s =>
    (congrArg Prod.fst (h.store_of_acts (acts_upsertNode uuid5 rec) s)).symm

/-- **An edge record:** the driver sends its requests and no others, and returns what storing the
edge counts. -/
theorem sends_upsertEdge (rec : EdgeRecord) :
    Sends PropertyGraph.Request.run (upsertEdge uuid5 rec) (edgeRequests uuid5 rec)
      fun s => (Store.putEdge uuid5 rec s).1 := by
  obtain ⟨answer, h⟩ := sends_upsertEdge_requests uuid5 rec
  exact h.congr (fun _ => rfl) fun s =>
    (congrArg Prod.fst (h.store_of_acts (acts_upsertEdge uuid5 rec) s)).symm

/-! ### The two methods -/

/-- The nodes are stored one after the other. -/
def Store.putNodes (nodes : List NodeRecord) (s : Store U) : ℕ × Store U :=
  PropertyGraph.tally (Store.putNode uuid5) nodes s

/-- The edges are stored one after the other. -/
def Store.putEdges (edges : List EdgeRecord) (s : Store U) : ℕ × Store U :=
  PropertyGraph.tally (Store.putEdge uuid5) edges s

/-- The requests of the nodes of a file act on the store as storing them. -/
theorem runAll_nodesRequests (nodes : List NodeRecord) (s : Store U) :
    PropertyGraph.runAll (nodesRequests uuid5 nodes s) s = (Store.putNodes uuid5 nodes s).2 :=
  runAll_requestsAll (runAll_nodeRequests uuid5) nodes s

/-- The requests of the edges of a file act on the store as storing them. -/
theorem runAll_edgesRequests (edges : List EdgeRecord) (s : Store U) :
    PropertyGraph.runAll (edgesRequests uuid5 edges s) s = (Store.putEdges uuid5 edges s).2 :=
  runAll_requestsAll (runAll_edgeRequests uuid5) edges s

variable {c : Client (Store U)}

/-- `upsert_nodes` of a connected driver sends the requests of its records, one by one, and returns
the sum. -/
theorem upsert_nodes_eq_replay (nodes : List NodeRecord) (hc : c.connected = true) :
    (driver uuid5).upsert_nodes nodes c =
      replay PropertyGraph.Request.run (Store.putNodes uuid5 nodes c.store).1
        (nodesRequests uuid5 nodes c.store) c :=
  (Sends.tallyRecords (sends_upsertNode uuid5) (runAll_nodeRequests uuid5) nodes).unlessIdle
    (by rintro rfl; exact fun _ => ⟨rfl, rfl⟩) hc

/-- `upsert_edges` of a connected driver sends the requests of its records, one by one, and returns
the sum. -/
theorem upsert_edges_eq_replay (edges : List EdgeRecord) (hc : c.connected = true) :
    (driver uuid5).upsert_edges edges c =
      replay PropertyGraph.Request.run (Store.putEdges uuid5 edges c.store).1
        (edgesRequests uuid5 edges c.store) c :=
  (Sends.tallyRecords (sends_upsertEdge uuid5) (runAll_edgeRequests uuid5) edges).unlessIdle
    (by rintro rfl; exact fun _ => ⟨rfl, rfl⟩) hc

end IndraDB
end Graph
end CppMcp
