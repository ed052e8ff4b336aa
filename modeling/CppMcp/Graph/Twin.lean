/-
# Two databases with one content

The same records written to Neo4j and to IndraDB leave the same graph, under different names: a
node is known by its label and USR there, by `uuid5` of the USR here, where the label is its type.
As long as no symbol has two labels and `uuid5` tells the symbols apart, every write keeps the two
stores in step and is counted alike by both drivers (`Twin.pass`).

The two assumptions are a `Naming`, and the records that keep to it are those it knows.
-/

import CppMcp.Graph.Failure
import CppMcp.Graph.Relabel
import CppMcp.Lib.Renaming

namespace CppMcp
namespace Graph

open Export (NodeRecord EdgeRecord NodeType EdgeType Props)

namespace Neo4j

/-- Merging an edge leaves the nodes as they are, keys and properties. -/
theorem vertices_mergePair (props : Props) (e : NodeKey × EdgeType × NodeKey) (s : Store) :
    (Store.mergePair props e s).2.vertices = s.vertices :=
  s.vertices_addEdge e .empty

/-- What an edge between stored nodes merges into the edges. -/
theorem edges_mergePair (props : Props) {e : NodeKey × EdgeType × NodeKey} {s : Store}
    (hends : e.1 ∈ s.vertices.keys ∧ e.2.2 ∈ s.vertices.keys) :
    (Store.mergePair props e s).2.edges =
      s.edges.upsert ⟨e, some .empty, fun stored => stored.update props⟩ := by
  have hadd : (s.addEdge e .empty).edges = s.edges.add e .empty := by
    rw [PropertyGraph.addEdge, dif_pos hends]
  exact congrArg (fun d : OrderedDict _ Properties => d.modify e fun stored => stored.update props)
    hadd

end Neo4j

/-- Without both of its ends an edge is not stored. -/
theorem IndraDB.Store.putEdge_of_not_stored {U : Type} [DecidableEq U] {uuid5 : String → U}
    {rec : EdgeRecord} {t : Store U}
    (h : ¬(uuid5 rec.source_usr ∈ t.vertices.keys ∧ uuid5 rec.target_usr ∈ t.vertices.keys)) :
    putEdge uuid5 rec t = (0, t) := by
  have hnew : (edgeUpsert uuid5 t.vertices.keys rec).new = none := if_neg h
  refine Prod.ext ?_ (PropertyGraph.ext_parts (vertices_putEdge uuid5 rec t) ?_)
  · rw [putEdge, PropertyGraph.created_addEdge]
    exact if_neg fun hadd => h hadd.1
  · rw [edges_putEdge, OrderedDict.upsert, hnew]
    exact OrderedDict.modify_of_not_mem (fun he => h (t.ends _ he)) _

/-- **The symbols that occur:** each has one label, and `uuid5` tells them apart. -/
structure Naming {U : Type} (uuid5 : String → U) where
  usrs : Set String
  label : String → NodeType
  injOn : Set.InjOn uuid5 usrs

variable {U : Type} {uuid5 : String → U}

/-- The record is of a symbol, under its label. -/
def Naming.KnowsNode (N : Naming uuid5) (rec : NodeRecord) : Prop :=
  rec.usr ∈ N.usrs ∧ rec.label = N.label rec.usr

/-- The record is of an edge between symbols. -/
def Naming.KnowsEdge (N : Naming uuid5) (rec : EdgeRecord) : Prop :=
  rec.source_usr ∈ N.usrs ∧ rec.target_usr ∈ N.usrs

/-- The records of a file keep to the names. -/
structure Naming.Knows (N : Naming uuid5) (records : List NodeRecord × List EdgeRecord) : Prop where
  nodes : ∀ rec ∈ records.1, N.KnowsNode rec
  edges : ∀ rec ∈ records.2, N.KnowsEdge rec

/-- The key of a symbol in Neo4j. -/
def Naming.key (N : Naming uuid5) (usr : String) : Neo4j.NodeKey := (N.label usr, usr)

/-- The vertex in IndraDB of a node in Neo4j. -/
def vertexName (uuid5 : String → U) (key : Neo4j.NodeKey) : U := uuid5 key.2

/-- **The two stores have one content:** item by item, in the same order. -/
structure Twin (N : Naming uuid5) (s : Neo4j.Store) (t : IndraDB.Store U) : Prop where
  renamed : PropertyGraph.Renamed (vertexName uuid5) id (fun key props => (key.1, props)) id s t
  known : ∀ key ∈ s.vertices.keys, key.2 ∈ N.usrs ∧ key = N.key key.2

namespace Twin

variable {N : Naming uuid5} {s : Neo4j.Store} {t : IndraDB.Store U}

/-- Two empty stores have one content. -/
theorem empty (N : Naming uuid5) : Twin N .empty .empty where
  renamed := ⟨OrderedDict.renamed_empty _ _, OrderedDict.renamed_empty _ _⟩
  known _ hkey := absurd hkey List.not_mem_nil

/-- A symbol has one node: the one under the label that its name gives it. -/
theorem eq_key (h : Twin N s t) {usr : String} (husr : usr ∈ N.usrs) {key : Neo4j.NodeKey}
    (hkey : key ∈ s.vertices.keys) (heq : vertexName uuid5 key = uuid5 usr) : key = N.key usr := by
  obtain ⟨hmem, hlabel⟩ := h.known key hkey
  rw [hlabel, N.injOn hmem husr heq]

/-- The symbol is stored in both or in neither. -/
theorem mem_iff (h : Twin N s t) {usr : String} (husr : usr ∈ N.usrs) :
    uuid5 usr ∈ t.vertices.keys ↔ N.key usr ∈ s.vertices.keys := by
  have hname : vertexName uuid5 (N.key usr) = uuid5 usr := rfl
  rw [← hname]
  exact h.renamed.vertices.mem_keys_iff fun _ hkey heq => h.eq_key husr hkey heq

/-- Edges with one name are one edge, since `uuid5` tells the stored nodes apart. -/
theorem eq_edge (h : Twin N s t) {e e' : Neo4j.NodeKey × EdgeType × Neo4j.NodeKey}
    (he : e ∈ s.edges.keys) (hs : e'.1 ∈ s.vertices.keys) (ht : e'.2.2 ∈ s.vertices.keys)
    (heq : PropertyGraph.renameEdge (vertexName uuid5) id e =
      PropertyGraph.renameEdge (vertexName uuid5) id e') : e = e' := by
  obtain ⟨hsource, hrest⟩ := Prod.mk.inj heq
  obtain ⟨htype, htarget⟩ := Prod.mk.inj hrest
  exact Prod.ext (h.renamed.vertices.injOn (s.ends e he).1 hs hsource)
    (Prod.ext htype (h.renamed.vertices.injOn (s.ends e he).2 ht htarget))

/-- The nodes with the USR of a symbol: its own, if it is stored. -/
theorem filter_usr (h : Twin N s t) {usr : String} (husr : usr ∈ N.usrs) :
    s.vertices.keys.filter (fun key => key.2 = usr) =
      if N.key usr ∈ s.vertices.keys then [N.key usr] else [] := by
  have hfilter : s.vertices.keys.filter (fun key => key.2 = usr) =
      s.vertices.keys.filter fun key => key = N.key usr := by
    refine List.filter_congr fun key hkey => decide_eq_decide.mpr ⟨fun heq => ?_, fun heq => ?_⟩
    · exact h.eq_key husr hkey (congrArg uuid5 heq)
    · exact congrArg Prod.snd heq
  have hnodup : s.vertices.keys.Nodup := s.vertices.nodup
  rw [hfilter, List.filter_eq, hnodup.count]
  split_ifs <;> rfl

/-- What an edge record matches: the edge between its ends, if both are stored. -/
theorem matchEnds_eq (h : Twin N s t) {rec : EdgeRecord} (hrec : N.KnowsEdge rec) :
    s.matchEnds rec =
      if N.key rec.source_usr ∈ s.vertices.keys ∧ N.key rec.target_usr ∈ s.vertices.keys then
        [(N.key rec.source_usr, rec.edge_type, N.key rec.target_usr)]
      else [] := by
  rw [Neo4j.Store.matchEnds, h.filter_usr hrec.1, h.filter_usr hrec.2]
  by_cases hs : N.key rec.source_usr ∈ s.vertices.keys <;>
    by_cases ht : N.key rec.target_usr ∈ s.vertices.keys <;> simp [hs, ht]

variable [DecidableEq U]

/-- **A node record** is counted alike and keeps the stores in step. -/
theorem node (h : Twin N s t) {rec : NodeRecord} (hrec : N.KnowsNode rec) :
    (Neo4j.Store.mergeNode rec s).1 = (IndraDB.Store.putNode uuid5 rec t).1 ∧
      Twin N (Neo4j.Store.mergeNode rec s).2 (IndraDB.Store.putNode uuid5 rec t).2 := by
  have hkey : (rec.label, rec.usr) = N.key rec.usr := Prod.ext hrec.2 rfl
  have hmem : uuid5 rec.usr ∈ t.vertices.keys ↔ (rec.label, rec.usr) ∈ s.vertices.keys := by
    rw [hkey]
    exact h.mem_iff hrec.1
  refine ⟨?_, ⟨⟨?_, ?_⟩, fun key hin => ?_⟩⟩
  · rw [Neo4j.Store.mergeNode, IndraDB.Store.putNode, PropertyGraph.created_addVertex,
      PropertyGraph.created_addVertex]
    by_cases hin : (rec.label, rec.usr) ∈ s.vertices.keys
    · rw [if_pos hin, if_pos (hmem.mpr hin)]
    · rw [if_neg hin, if_neg (mt hmem.mp hin)]
  · rw [IndraDB.vertices_putNode]
    change OrderedDict.Renamed _ _ (s.vertices.upsert (Neo4j.nodeUpsert rec)) _
    refine h.renamed.vertices.upsert (fun key hin heq => ?_) rfl rfl fun _ => rfl
    exact (h.eq_key hrec.1 hin heq).trans hkey.symm
  · rw [IndraDB.edges_putNode]
    exact h.renamed.edges
  · rcases (Neo4j.addsVertices_mergeNode rec s).mem_iff key |>.mp hin with hold | rfl
    · exact h.known key hold
    · exact ⟨hrec.1, hkey⟩

/-- An edge whose ends are stored is counted alike and keeps the stores in step. -/
theorem edge_of_stored (h : Twin N s t) {rec : EdgeRecord}
    (hs : N.key rec.source_usr ∈ s.vertices.keys ∧ N.key rec.target_usr ∈ s.vertices.keys)
    (ht : uuid5 rec.source_usr ∈ t.vertices.keys ∧ uuid5 rec.target_usr ∈ t.vertices.keys) :
    let e := (N.key rec.source_usr, rec.edge_type, N.key rec.target_usr)
    (PropertyGraph.tally (Neo4j.Store.mergePair rec.props) [e] s).1 =
        (IndraDB.Store.putEdge uuid5 rec t).1 ∧
      Twin N (PropertyGraph.tally (Neo4j.Store.mergePair rec.props) [e] s).2
        (IndraDB.Store.putEdge uuid5 rec t).2 := by
  intro e
  have hname : ∀ e' ∈ s.edges.keys, PropertyGraph.renameEdge (vertexName uuid5) id e' =
      PropertyGraph.renameEdge (vertexName uuid5) id e → e' = e :=
    fun e' he' heq => h.eq_edge he' hs.1 hs.2 heq
  have hmem : IndraDB.edgeOf uuid5 rec ∈ t.edges.keys ↔ e ∈ s.edges.keys :=
    h.renamed.edges.mem_keys_iff hname
  have hnew : (IndraDB.edgeUpsert uuid5 t.vertices.keys rec).new = some .empty := if_pos ht
  refine ⟨?_, ⟨⟨?_, ?_⟩, fun key hkey => ?_⟩⟩
  · rw [PropertyGraph.tally, PropertyGraph.tally, Neo4j.Store.mergePair, IndraDB.Store.putEdge,
      PropertyGraph.created_addEdge, PropertyGraph.created_addEdge, Nat.add_zero]
    by_cases hin : e ∈ s.edges.keys
    · rw [if_neg fun hadd => hadd.2 hin, if_neg fun hadd => hadd.2 (hmem.mpr hin)]
    · rw [if_pos ⟨hs, hin⟩, if_pos ⟨ht, mt hmem.mp hin⟩]
  · rw [PropertyGraph.tally, PropertyGraph.tally, Neo4j.vertices_mergePair,
      IndraDB.vertices_putEdge]
    exact h.renamed.vertices
  · rw [PropertyGraph.tally, PropertyGraph.tally, Neo4j.edges_mergePair rec.props hs,
      IndraDB.edges_putEdge]
    exact h.renamed.edges.upsert hname rfl hnew fun _ => rfl
  · rw [PropertyGraph.tally, PropertyGraph.tally, Neo4j.vertices_mergePair] at hkey
    exact h.known key hkey

/-- **An edge record** is counted alike and keeps the stores in step. -/
theorem edge (h : Twin N s t) {rec : EdgeRecord} (hrec : N.KnowsEdge rec) :
    (Neo4j.Store.mergeEdge rec s).1 = (IndraDB.Store.putEdge uuid5 rec t).1 ∧
      Twin N (Neo4j.Store.mergeEdge rec s).2 (IndraDB.Store.putEdge uuid5 rec t).2 := by
  have hends : (uuid5 rec.source_usr ∈ t.vertices.keys ∧ uuid5 rec.target_usr ∈ t.vertices.keys) ↔
      N.key rec.source_usr ∈ s.vertices.keys ∧ N.key rec.target_usr ∈ s.vertices.keys :=
    and_congr (h.mem_iff hrec.1) (h.mem_iff hrec.2)
  rw [Neo4j.Store.mergeEdge, h.matchEnds_eq hrec]
  by_cases hstored : N.key rec.source_usr ∈ s.vertices.keys ∧ N.key rec.target_usr ∈ s.vertices.keys
  · rw [if_pos hstored]
    exact h.edge_of_stored hstored (hends.mpr hstored)
  · rw [if_neg hstored, IndraDB.Store.putEdge_of_not_stored (mt hends.mp hstored)]
    exact ⟨rfl, h⟩

/-- **The records of a file** are counted alike and keep the stores in step. -/
theorem pass (h : Twin N s t) {records : List NodeRecord × List EdgeRecord}
    (hrecords : N.Knows records) :
    let nodes := Neo4j.Store.putNodes records.1 s
    let nodes' := IndraDB.Store.putNodes uuid5 records.1 t
    let edges := Neo4j.Store.putEdges records.2 nodes.2
    let edges' := IndraDB.Store.putEdges uuid5 records.2 nodes'.2
    (nodes.1, edges.1) = (nodes'.1, edges'.1) ∧ Twin N edges.2 edges'.2 := by
  intro nodes nodes' edges edges'
  have hnodes : nodes.1 = nodes'.1 ∧ Twin N nodes.2 nodes'.2 :=
    PropertyGraph.rel_tally (fun rec hrec _ _ h => h.node (hrecords.nodes rec hrec)) h
  have hedges : edges.1 = edges'.1 ∧ Twin N edges.2 edges'.2 :=
    PropertyGraph.rel_tally (fun rec hrec _ _ h => h.edge (hrecords.edges rec hrec)) hnodes.2
  exact ⟨Prod.ext hnodes.1 hedges.1, hedges.2⟩

end Twin

end Graph
end CppMcp
