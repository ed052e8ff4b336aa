/-
# Writing a batch twice to IndraDB

What `upsert_nodes` returns is the number of vertices that are new in the store, and what
`upsert_edges` returns the number of edges.  When the same batches are written once more
nothing is new and nothing changes: a record writes its vertex or edge as an `Upsert`, and of the
records of one vertex the last value of each property stays, the second time as the first
(`upserts_count_and_converge`).

That `uuid5` tells USRs apart is not needed.
-/

import CppMcp.Graph.IndraDBRequests

namespace CppMcp
namespace Graph

open Export (NodeRecord EdgeRecord NodeType EdgeType Props)

namespace IndraDB

variable {U : Type} [DecidableEq U] (uuid5 : String → U)

/-! ### Records as writes into the two dictionaries -/

/-- What a node record writes into the vertices. -/
def nodeUpsert (rec : NodeRecord) : Upsert U (NodeType × Properties) where
  key := uuid5 rec.usr
  new := some (rec.label, .empty)
  change a := (a.1, a.2.setAll (withUsr rec.props rec.usr))

/-- What an edge record writes into the edges when the vertices are `vids`. -/
def edgeUpsert (vids : List U) (rec : EdgeRecord) : Upsert (U × EdgeType × U) Properties where
  key := edgeOf uuid5 rec
  new := if uuid5 rec.source_usr ∈ vids ∧ uuid5 rec.target_usr ∈ vids then some .empty else none
  change stored := stored.setAll rec.props

/-- Writing the properties of a vertex one by one is writing them at once. -/
theorem setVertex_eq_modifyVertex (s : Store U) (vid : U) (props : Props) :
    Store.setVertex s vid props = s.modifyVertex vid fun a => (a.1, a.2.setAll props) := by
  have h := PropertyGraph.runAll_map_setVertex vid props s
  rw [PropertyGraph.runAll, List.foldl_map] at h
  exact h

/-- Writing the properties of an edge one by one is writing them at once. -/
theorem setEdge_eq_modifyEdge (s : Store U) (edge : U × EdgeType × U) (props : Props) :
    Store.setEdge s edge props = s.modifyEdge edge fun stored => stored.setAll props := by
  have h := PropertyGraph.runAll_map_setEdge edge props s
  rw [PropertyGraph.runAll, List.foldl_map] at h
  exact h

/-- A node record does to the vertices what its `Upsert` does. -/
theorem vertices_putNode (rec : NodeRecord) (s : Store U) :
    (Store.putNode uuid5 rec s).2.vertices = s.vertices.upsert (nodeUpsert uuid5 rec) := by
  rw [Store.putNode, setVertex_eq_modifyVertex]
  rfl

/-- A node record leaves the edges alone. -/
theorem edges_putNode (rec : NodeRecord) (s : Store U) :
    (Store.putNode uuid5 rec s).2.edges = s.edges := by
  rw [Store.putNode, setVertex_eq_modifyVertex]
  rfl

/-- An edge record leaves the vertices alone. -/
theorem vertices_putEdge (rec : EdgeRecord) (s : Store U) :
    (Store.putEdge uuid5 rec s).2.vertices = s.vertices := by
  rw [Store.putEdge, setEdge_eq_modifyEdge]
  exact s.vertices_addEdge _ _

/-- An edge record does to the edges what its `Upsert` does, which asks for both ends among the
vertices. -/
theorem edges_putEdge (rec : EdgeRecord) (s : Store U) :
    (Store.putEdge uuid5 rec s).2.edges =
      s.edges.upsert (edgeUpsert uuid5 s.vertices.keys rec) := by
  rw [Store.putEdge, setEdge_eq_modifyEdge, OrderedDict.upsert]
  change (s.addEdge (edgeOf uuid5 rec) .empty).edges.modify (edgeOf uuid5 rec)
    (fun stored => stored.setAll rec.props) = _
  refine congrArg (fun d : OrderedDict (U × EdgeType × U) Properties =>
    d.modify (edgeOf uuid5 rec) fun stored => stored.setAll rec.props) ?_
  rw [PropertyGraph.addEdge, edgeUpsert]
  split_ifs with h h' h'
  · rfl
  · exact absurd h h'
  · exact absurd h' h
  · rfl

/-- The nodes of a file do to the vertices what their upserts do, one after the other. -/
theorem vertices_putNodes (nodes : List NodeRecord) (s : Store U) :
    (Store.putNodes uuid5 nodes s).2.vertices =
      OrderedDict.upsertAll (nodes.map (nodeUpsert uuid5)) s.vertices := by
  induction nodes generalizing s with
  | nil => rfl
  | cons rec nodes ih => exact (ih _).trans (congrArg _ (vertices_putNode uuid5 rec s))

/-- The nodes of a file leave the edges alone. -/
theorem edges_putNodes (nodes : List NodeRecord) (s : Store U) :
    (Store.putNodes uuid5 nodes s).2.edges = s.edges :=
  PropertyGraph.eq_of_tally (edges_putNode uuid5) nodes s

/-- The edges of a file leave the vertices alone. -/
theorem vertices_putEdges (edges : List EdgeRecord) (s : Store U) :
    (Store.putEdges uuid5 edges s).2.vertices = s.vertices :=
  PropertyGraph.eq_of_tally (vertices_putEdge uuid5) edges s

/-- The edges of a file do to the edges what their upserts do, all with the vertices that are there
when the loop begins. -/
theorem edges_putEdges (edges : List EdgeRecord) (s : Store U) :
    (Store.putEdges uuid5 edges s).2.edges =
      OrderedDict.upsertAll (edges.map (edgeUpsert uuid5 s.vertices.keys)) s.edges := by
  induction edges generalizing s with
  | nil => rfl
  | cons rec edges ih =>
    refine (ih _).trans ?_
    rw [vertices_putEdge, edges_putEdge]
    rfl

/-! ### The second time -/

/-- Writing the same nodes once more leaves the vertices as they are. -/
theorem upsertAll_nodeUpsert_twice (nodes : List NodeRecord)
    (d : OrderedDict U (NodeType × Properties)) :
    OrderedDict.upsertAll (nodes.map (nodeUpsert uuid5))
        (OrderedDict.upsertAll (nodes.map (nodeUpsert uuid5)) d) =
      OrderedDict.upsertAll (nodes.map (nodeUpsert uuid5)) d := by
  refine OrderedDict.upsertAll_map_twice (fun props a => (a.1, a.2.setAll props))
    (fun rec => withUsr rec.props rec.usr) (fun rec a => rfl) (fun a => rfl)
    (fun props props' a => ?_) (fun props a => ?_) (fun rec rec' _ hnone => ?_) nodes d
  · rw [OrderedDict.setAll_append]
  · rw [OrderedDict.setAll_setAll]
  · exact absurd hnone (by simp [nodeUpsert])

/-- Writing the same edges once more, with the same vertices, leaves the edges as they are. -/
theorem upsertAll_edgeUpsert_twice (vids : List U) (edges : List EdgeRecord)
    (d : OrderedDict (U × EdgeType × U) Properties) :
    OrderedDict.upsertAll (edges.map (edgeUpsert uuid5 vids))
        (OrderedDict.upsertAll (edges.map (edgeUpsert uuid5 vids)) d) =
      OrderedDict.upsertAll (edges.map (edgeUpsert uuid5 vids)) d := by
  refine OrderedDict.upsertAll_map_twice (fun props stored => stored.setAll props)
    EdgeRecord.props (fun rec stored => rfl) (fun stored => rfl)
    (fun props props' stored => stored.setAll_append props props')
    (fun props stored => stored.setAll_setAll props) (fun rec rec' hkey hnone => ?_) edges d
  -- whether an edge is made depends on its ends alone
  obtain ⟨hs, hst⟩ := Prod.mk.inj hkey
  rw [edgeUpsert] at hnone ⊢
  rw [← hs, ← (Prod.mk.inj hst).2]
  exact hnone

/-- **A file's records written once more leave everything as it is.** -/
theorem put_twice (nodes : List NodeRecord) (edges : List EdgeRecord) (s : Store U) :
    let s' := (Store.putEdges uuid5 edges (Store.putNodes uuid5 nodes s).2).2
    (Store.putNodes uuid5 nodes s').2 = s' ∧ (Store.putEdges uuid5 edges s').2 = s' := by
  intro s'
  have hv : s'.vertices = OrderedDict.upsertAll (nodes.map (nodeUpsert uuid5)) s.vertices :=
    (vertices_putEdges uuid5 edges _).trans (vertices_putNodes uuid5 nodes s)
  have he : s'.edges =
      OrderedDict.upsertAll (edges.map (edgeUpsert uuid5 s'.vertices.keys)) s.edges := by
    rw [hv, ← vertices_putNodes, ← edges_putNodes uuid5 nodes s]
    exact edges_putEdges uuid5 edges _
  constructor
  · refine PropertyGraph.ext_parts ?_ (edges_putNodes uuid5 nodes s')
    rw [vertices_putNodes, hv, upsertAll_nodeUpsert_twice]
  · refine PropertyGraph.ext_parts (vertices_putEdges uuid5 edges s') ?_
    rw [edges_putEdges, he, upsertAll_edgeUpsert_twice]

/-! ### What the methods return -/

/-- A batch whose writing leaves the keys as they are has nothing new. -/
theorem eq_zero_of_keys_append {κ : Type} {keys new : List κ} {n : ℕ}
    (h : keys = keys ++ new) (hn : new.length = n) : n = 0 := by
  rw [← hn, List.self_eq_append_right.mp h, List.length_nil]

/-- The number that a batch of nodes returns is that of the vertices it has appended. -/
theorem putNodes_grows (nodes : List NodeRecord) (s : Store U) :
    ∃ new, (Store.putNodes uuid5 nodes s).2.vertices.keys = s.vertices.keys ++ new ∧
      new.length = (Store.putNodes uuid5 nodes s).1 :=
  (PropertyGraph.AddsVertices.tally (addsVertices_putNode uuid5) nodes s).grows

/-- The number that a batch of edges returns is that of the edges it has appended. -/
theorem putEdges_grows (edges : List EdgeRecord) (s : Store U) :
    ∃ new, (Store.putEdges uuid5 edges s).2.edges.keys = s.edges.keys ++ new ∧
      new.length = (Store.putEdges uuid5 edges s).1 :=
  (PropertyGraph.AddsEdges.tally (addsEdges_putEdge uuid5) edges s).grows

section Returns

variable {uuid5} {c : Client (Store U)}

/-- `upsert_nodes` returns what the store counts, unless a call fails. -/
theorem upsert_nodes_returns (nodes : List NodeRecord) (hc : c.connected = true) :
    Returns ((driver uuid5).upsert_nodes nodes)
      (fun n c' => (n, c'.store) = Store.putNodes uuid5 nodes c.store ∧ c'.connected = true) c := by
  unfold Returns
  rw [upsert_nodes_eq_replay uuid5 nodes hc]
  refine (returns_replay _ _ c).mono fun n c' h => ⟨Prod.ext h.1 ?_, h.2.2.trans hc⟩
  exact h.2.1.trans (runAll_nodesRequests uuid5 nodes c.store)

/-- `upsert_edges` returns what the store counts, unless a call fails. -/
theorem upsert_edges_returns (edges : List EdgeRecord) (hc : c.connected = true) :
    Returns ((driver uuid5).upsert_edges edges)
      (fun m c' => (m, c'.store) = Store.putEdges uuid5 edges c.store ∧ c'.connected = true) c := by
  unfold Returns
  rw [upsert_edges_eq_replay uuid5 edges hc]
  refine (returns_replay _ _ c).mono fun m c' h => ⟨Prod.ext h.1 ?_, h.2.2.trans hc⟩
  exact h.2.1.trans (runAll_edgesRequests uuid5 edges c.store)

/-- A pass over a file returns both counts and leaves the store with nodes and edges written, unless
a call fails. -/
theorem pass_returns (nodes : List NodeRecord) (edges : List EdgeRecord)
    (hc : c.connected = true) :
    Returns ((driver uuid5).pass nodes edges)
      (fun counts c' => counts = ((Store.putNodes uuid5 nodes c.store).1,
          (Store.putEdges uuid5 edges (Store.putNodes uuid5 nodes c.store).2).1) ∧
        c'.store = (Store.putEdges uuid5 edges (Store.putNodes uuid5 nodes c.store).2).2 ∧
        c'.connected = true) c := by
  refine (upsert_nodes_returns nodes hc).bind fun n c' hn => ?_
  refine (upsert_edges_returns edges hn.2).bind fun m c'' hm => ?_
  rw [← hn.1]
  exact ⟨Prod.ext rfl (congrArg Prod.fst hm.1), congrArg Prod.snd hm.1, hm.2⟩

end Returns

/-- **What is counted is what is new, and the second time it is nothing.**  From every state of
the client, unless a call fails: `upsert_nodes` returns how many vertices are stored besides
those that were; `upsert_edges` returns how many edges; and when both batches have been
written, writing them again returns 0 and 0 and leaves the store as it is. -/
theorem upserts_count_and_converge (nodes : List NodeRecord) (edges : List EdgeRecord)
    (c : Client (Store U)) :
    Returns ((driver uuid5).upsert_nodes nodes)
        (fun n c' => ∃ new, c'.store.vertices.keys = c.store.vertices.keys ++ new ∧
          new.length = n) c ∧
      Returns ((driver uuid5).upsert_edges edges)
        (fun m c' => ∃ new, c'.store.edges.keys = c.store.edges.keys ++ new ∧ new.length = m) c ∧
      Returns ((driver uuid5).pass nodes edges)
        (fun _ c' => Returns ((driver uuid5).pass nodes edges)
          (fun counts c'' => counts = (0, 0) ∧ c''.store = c'.store) c') c := by
  cases hc : c.connected with
  | false =>
    have hnodes : (driver uuid5).upsert_nodes nodes c = .ok 0 c := unlessIdle_of_not_connected hc
    have hedges : (driver uuid5).upsert_edges edges c = .ok 0 c := unlessIdle_of_not_connected hc
    have hpass : (driver uuid5).pass nodes edges c = .ok (0, 0) c :=
      GraphDriver.pass_of_eq_ok hnodes hedges
    exact ⟨returns_of_eq_ok hnodes ⟨[], (List.append_nil _).symm, rfl⟩,
      returns_of_eq_ok hedges ⟨[], (List.append_nil _).symm, rfl⟩,
      returns_of_eq_ok hpass (returns_of_eq_ok hpass ⟨rfl, rfl⟩)⟩
  | true =>
    refine ⟨(upsert_nodes_returns nodes hc).mono fun n c' h => ?_,
      (upsert_edges_returns edges hc).mono fun m c' h => ?_,
      (pass_returns nodes edges hc).mono fun counts c' h =>
        (pass_returns nodes edges h.2.2).mono fun counts' c'' h' => ?_⟩
    · obtain ⟨rfl, hstore⟩ := Prod.mk.inj h.1
      rw [hstore]
      exact putNodes_grows uuid5 nodes c.store
    · obtain ⟨rfl, hstore⟩ := Prod.mk.inj h.1
      rw [hstore]
      exact putEdges_grows uuid5 edges c.store
    · obtain ⟨-, hstore, -⟩ := h
      obtain ⟨hcounts, hstore', -⟩ := h'
      obtain ⟨hnodes, hedges⟩ := put_twice uuid5 nodes edges c.store
      rw [← hstore] at hnodes hedges
      rw [hnodes] at hcounts hstore'
      rw [hedges] at hstore'
      obtain ⟨new, hkeys, hn⟩ := putNodes_grows uuid5 nodes c'.store
      obtain ⟨new', hkeys', hm⟩ := putEdges_grows uuid5 edges c'.store
      rw [hnodes] at hkeys
      rw [hedges] at hkeys'
      rw [eq_zero_of_keys_append hkeys hn, eq_zero_of_keys_append hkeys' hm] at hcounts
      exact ⟨hcounts, hstore'⟩

end IndraDB
end Graph
end CppMcp
