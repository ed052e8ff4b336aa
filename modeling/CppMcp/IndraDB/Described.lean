/-
# The description of a store

A client that serves a store describes it: every type with its number of items, and the totals
(`Serves.describes`).  Where items are added and none is lost, every type stays and counts as many items
or more (`DescribesTypes.grows`).  Where all `File` vertices of the driver's store have the stamp of the
running code, there is no warning (`Stamped.notes`).
-/

import CppMcp.IndraDB.Describe
import CppMcp.IndraDB.Pipe
import CppMcp.IndraDB.Stored
import CppMcp.IndraDB.VersionNotes

namespace CppMcp
namespace IndraDB

open Export (Acc NodeType SCHEMA_VERSION)
open Py (Uuid)

/-! ### Counts -/

section Serves

variable {client : Client} {store : Store}

/-- A client that serves a store answers every query of the introspector. -/
theorem Serves.answering (h : Serves client store) : Answering client where
  vertices := h.vertices.imp fun _ hbatches => hbatches.1
  edges := h.edges.imp fun _ hbatches => hbatches.1
  vertexProps v := (h.specificVertices [v.id]).imp fun _ hbatches => hbatches.1
  edgeProps e := (h.specificEdges [e]).imp fun _ hbatches => hbatches.1

/-- **A client that serves a store describes it:** the description is of the vertices and edges that
are stored. -/
theorem Serves.describes (h : Serves client store) (n : ℤ) :
    ∃ d, describe (some client) n = .ok d ∧
      Describes client n store.vertexItems store.edgeItems d := by
  obtain ⟨d, hd⟩ := h.answering.exists_describe n
  obtain ⟨vertices, edges, hvertices, hedges, hdescribes⟩ := describes_of_describe hd
  obtain ⟨batches, hbatches, hflat⟩ := h.vertices
  obtain ⟨batches', hbatches', hflat'⟩ := h.edges
  obtain rfl := Except.ok.inj (hbatches.symm.trans hvertices)
  obtain rfl := Except.ok.inj (hbatches'.symm.trans hedges)
  exact ⟨d, hd, hflat ▸ hflat' ▸ hdescribes⟩

end Serves

/-- Every type is there still, with as many items or more. -/
def Grows (entries entries' : List TypeEntry) : Prop :=
  ∀ e ∈ entries, ∃ e' ∈ entries', e'.name = e.name ∧ e.count ≤ e'.count

/-- Where no item is lost, no type is, and each counts as many items as before or more. -/
theorem DescribesTypes.grows {α β : Type} {t : α → String} {get get' : α → Acc (List (List β))}
    {props : β → List NamedProperty} {n n' : ℤ} {items items' : List α}
    {entries entries' : List TypeEntry} (h : DescribesTypes t get props n items entries)
    (h' : DescribesTypes t get' props n' items' entries') (hitems : items <+: items') :
    Grows entries entries' := by
  intro e he
  obtain ⟨hpos, hcount⟩ :=
    (h.counted e.name e.count).mp (List.mem_map_of_mem (f := TypeEntry.counted) he)
  have hle : e.count ≤ (ofType t items' e.name).length :=
    hcount.trans_le (hitems.sublist.filter _).length_le
  obtain ⟨e', he', heq⟩ := List.mem_map.mp
    ((h'.counted e.name (ofType t items' e.name).length).mpr ⟨hpos.trans_le hle, rfl⟩)
  obtain ⟨hname, hcount'⟩ := Prod.mk.inj heq
  exact ⟨e', he', hname, hle.trans_eq hcount'.symm⟩

/-! ### Stamps -/

/-- The notes are those on the vertices that are streamed. -/
theorem notes_of_describe {client : Client} {n : ℤ} {d : Description}
    (h : describe (some client) n = .ok d) : ∃ vertices, client.vertices .all = .ok vertices ∧
      buildNotes client (groupBatches (fun v : Vertex => v.t.name) vertices) = .ok d.notes := by
  obtain ⟨vertices, hvertices, h⟩ := Except.bind_eq_ok.mp h
  obtain ⟨_, -, h⟩ := Except.bind_eq_ok.mp h
  obtain ⟨_, -, h⟩ := Except.bind_eq_ok.mp h
  obtain ⟨_, -, h⟩ := Except.bind_eq_ok.mp h
  obtain ⟨notes, hnotes, h⟩ := Except.bind_eq_ok.mp h
  cases h
  exact ⟨vertices, hvertices, hnotes⟩

/-- The `File` vertices that are looked at for stamps are the vertices of that type. -/
theorem mem_fileVertices {batches : List (List Vertex)} {v : Vertex}
    (h : v ∈ fileVertices (groupBatches (fun v : Vertex => v.t.name) batches)) :
    v ∈ batches.flatten ∧ v.t.name = "File" := by
  rw [fileVertices, groupBatches_eq] at h
  cases hget : (OrderedDict.groups (fun v : Vertex => v.t.name) batches.flatten).get "File" with
  | none =>
    rw [hget] at h
    exact absurd h List.not_mem_nil
  | some group =>
    rw [hget, Option.getD_some,
      (OrderedDict.mem_items_groups.mp (OrderedDict.get_eq_some_iff.mp hget)).1] at h
    exact ⟨List.mem_of_mem_filter h, of_decide_eq_true (List.mem_filter.mp h).2⟩

/-- The client gives the properties of what it is asked for, and of nothing else. -/
structure Client.Selective (client : Client) : Prop where
  vertices : ∀ ids batches, client.vertexProperties (.specific ids) = .ok batches →
    ∀ vp ∈ batches.flatten, vp.vertex.id ∈ ids
  edges : ∀ edges batches, client.edgeProperties (.specific edges) = .ok batches →
    ∀ ep ∈ batches.flatten, ep.edge ∈ edges

/-- The client of the tests gives the properties of what it is asked for alone. -/
theorem selective_fakeClient (store : Store) : (fakeClient store).Selective where
  vertices ids batches hbatches vp hvp := by
    cases hbatches
    obtain ⟨v, hv, rfl⟩ := List.mem_map.mp (List.flatten_singleton ▸ hvp)
    obtain ⟨id, hid, hvertex⟩ := List.mem_filterMap.mp hv
    rwa [id_of_vertex hvertex]
  edges edges batches hbatches ep hep := by
    cases hbatches
    obtain ⟨e, he, rfl⟩ := List.mem_map.mp (List.flatten_singleton ▸ hep)
    exact List.mem_of_mem_filter he

/-- Where a stream tells what is stored, the names in it are those of the stored properties. -/
theorem hasKey_iff_of_tells {α β : Type} {get : α → Acc (List (List β))}
    {props : β → List NamedProperty} {item : α} {batches : List (List β)}
    (hget : get item = .ok batches) {stored : Properties}
    (h : ∀ name value, (∃ p ∈ batches.flatten, ⟨name, value⟩ ∈ props p) ↔
      stored.get name = some value) (k : String) :
    HasKey get props item k ↔ ∃ value, stored.get k = some value := by
  constructor
  · rintro ⟨prop_batches, hbatches, p, hp, ⟨name, value⟩, hnp, rfl⟩
    obtain rfl := Except.ok.inj (hget.symm.trans hbatches)
    exact ⟨value, (h _ value).mp ⟨p, hp, hnp⟩⟩
  · rintro ⟨value, hvalue⟩
    obtain ⟨p, hp, hnp⟩ := (h k value).mpr hvalue
    exact ⟨batches, hget, p, hp, _, hnp, rfl⟩

section Selective

variable {client : Client} {store : Store}

/-- What a client that serves a store streams of a vertex. -/
theorem Serves.vertexStream (h : Serves client store) (hselective : client.Selective) (v : Vertex) :
    ∃ batches, client.propsOfVertex v = .ok batches ∧
      ∀ name value, (∃ vp ∈ batches.flatten, ⟨name, value⟩ ∈ vp.props) ↔
        (store.vertexProps v.id).get name = some value := by
  obtain ⟨batches, hbatches, htells⟩ := h.specificVertices [v.id]
  refine ⟨batches, hbatches, fun name value => ?_⟩
  rw [← htells v.id (List.mem_singleton_self _)]
  refine exists_congr fun vp => and_congr_right fun hvp => ?_
  have hid := List.mem_singleton.mp (hselective.vertices [v.id] batches hbatches vp hvp)
  exact (and_iff_right hid).symm

/-- What a client that serves a store streams of an edge. -/
theorem Serves.edgeStream (h : Serves client store) (hselective : client.Selective) (e : Edge) :
    ∃ batches, client.propsOfEdge e = .ok batches ∧
      ∀ name value, (∃ ep ∈ batches.flatten, ⟨name, value⟩ ∈ ep.props) ↔
        (store.edgeProps e).get name = some value := by
  obtain ⟨batches, hbatches, htells⟩ := h.specificEdges [e]
  refine ⟨batches, hbatches, fun name value => ?_⟩
  rw [← htells e (List.mem_singleton_self _)]
  refine exists_congr fun ep => and_congr_right fun hep => ?_
  have hedge := List.mem_singleton.mp (hselective.edges [e] batches hbatches ep hep)
  exact (and_iff_right hedge).symm

/-- The names that are read of a vertex are those of its properties. -/
theorem Serves.hasKey_vertex_iff (h : Serves client store) (hselective : client.Selective)
    (v : Vertex) (k : String) : HasKey client.propsOfVertex VertexProperties.props v k ↔
      ∃ value, (store.vertexProps v.id).get k = some value := by
  obtain ⟨batches, hbatches, htells⟩ := h.vertexStream hselective v
  exact hasKey_iff_of_tells hbatches htells k

/-- The names that are read of an edge are those of its properties. -/
theorem Serves.hasKey_edge_iff (h : Serves client store) (hselective : client.Selective) (e : Edge)
    (k : String) : HasKey client.propsOfEdge EdgeProperties.props e k ↔
      ∃ value, (store.edgeProps e).get k = some value := by
  obtain ⟨batches, hbatches, htells⟩ := h.edgeStream hselective e
  exact hasKey_iff_of_tells hbatches htells k

end Selective

/-- The stamp that is read is the one that is stored. -/
theorem Serves.mem_stamps_iff {client : Client} {store : Store} (h : Serves client store)
    (hselective : client.Selective) (v : Vertex) (version : String) :
    version ∈ stamps (propsRead client v) ↔
      ∃ value, (store.vertexProps v.id).get "schema_version" = some value ∧
        value.pyStr = version := by
  obtain ⟨batches, hbatches, htells⟩ := h.vertexStream hselective v
  have hmem : ∀ np, np ∈ propsRead client v ↔
      (store.vertexProps v.id).get np.name = some np.value := fun np => by
    rw [propsRead, hbatches, List.mem_flatMap, ← htells]
  simp only [stamps, List.mem_map, List.mem_filter, hmem, decide_eq_true_eq]
  constructor
  · rintro ⟨⟨name, value⟩, ⟨hget, rfl⟩, hversion⟩
    exact ⟨value, hget, hversion⟩
  · rintro ⟨value, hget, hversion⟩
    exact ⟨⟨_, value⟩, ⟨hget, rfl⟩, hversion⟩

/-- **All `File` vertices have the stamp of the running code.** -/
def Stamped {U : Type} [DecidableEq U] (d : OrderedDict U (NodeType × Graph.Properties)) : Prop :=
  ∀ v a, d.get v = some a → a.1 = .file →
    a.2.get "schema_version" = some (.str SCHEMA_VERSION)

/-- **Where all files are stamped there is no warning.** -/
theorem Stamped.notes {s : Graph.IndraDB.Store Uuid} (h : Stamped s.vertices) {client : Client}
    (hserves : Serves client (stored s)) (hselective : client.Selective) {n : ℤ} {d : Description}
    (hd : describe (some client) n = .ok d) : d.notes = [NOTE_SAMPLE, NOTE_LIVE] := by
  obtain ⟨vertices, hvertices, hnotes⟩ := notes_of_describe hd
  obtain ⟨batches, hbatches, hflat⟩ := hserves.vertices
  obtain rfl := Except.ok.inj (hbatches.symm.trans hvertices)
  have hstamps : ∀ props ∈ fileProps client (groupBatches (fun v : Vertex => v.t.name) batches),
      ∀ version, version ∈ stamps props ↔ version = SCHEMA_VERSION := by
    intro props hprops version
    obtain ⟨v, hv, rfl⟩ := List.mem_map.mp hprops
    obtain ⟨hmem, hfile⟩ := mem_fileVertices hv
    rw [hflat, vertexItems_stored] at hmem
    obtain ⟨item, hitem, rfl⟩ := List.mem_map.mp hmem
    have hlabel : item.2.1 = .file := by
      revert hfile
      change item.2.1.text = _ → _
      cases item.2.1 <;> decide
    have hget : s.vertices.get item.1 = some item.2 := OrderedDict.get_eq_some_iff.mpr hitem
    rw [hserves.mem_stamps_iff hselective, vertexProps_stored, hget, Option.bind_some,
      h item.1 item.2 hget hlabel]
    simp [jsonOf, Py.Json.pyStr, eq_comm]
  by_contra hwarns
  rcases (warns_iff hnotes).mp hwarns with
    ⟨⟨props, hprops, hunstamped⟩, -⟩ | ⟨props, hprops, version, hversion, hne⟩
  · have hmem := (hstamps props hprops SCHEMA_VERSION).mpr rfl
    rw [hunstamped.2] at hmem
    exact absurd hmem List.not_mem_nil
  · exact hne ((hstamps props hprops version).mp hversion)

end IndraDB
end CppMcp
