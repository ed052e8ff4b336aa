/-
# The description of what has been ingested

The introspector counts what the backend streams, and an answer of an ingest request says how much the
run has added.  Over any history of requests the two agree: between two descriptions the totals grow by
the counts of the answers in between, and no type loses an item (`described_growth`).

The records that are exported stamp the `File` vertices with the version of the running code.  So the
advice of the introspector holds: once every file of an old graph has been exported again, whatever
else has been, it warns no more (`restamped_no_warning`).
-/

import CppMcp.IndraDB.Described
import CppMcp.Ingest.Found
import CppMcp.Ingest.Stamps

namespace CppMcp
namespace Ingest

open Export (NodeRecord NodeSite NodeType SCHEMA_VERSION)
open IndraDB (Grows NOTE_LIVE NOTE_SAMPLE Serves Stamped describe edgeItems_stored fakeClient
  foldl_cell_nodeUpsert recProps selective_fakeClient serves_fakeClient stored symbolAfter
  vertexItems_stored)
open Py (Uuid)
open CppMcp.Graph (Servers)

/-! ### Counts -/

/-- Loading keeps the vertices and the edges in their places. -/
theorem prefix_stored_loadAll (uuid5 : String → Uuid) (rs : List Records)
    (s : Graph.IndraDB.Store Uuid) :
    (stored s).vertexItems <+: (stored ((Graph.IndraDB.loader uuid5).loadAll rs s)).vertexItems ∧
      (stored s).edgeItems <+: (stored ((Graph.IndraDB.loader uuid5).loadAll rs s)).edgeItems := by
  constructor
  · have hlabels : ∀ u ∈ rs.flatMap (Graph.IndraDB.loader uuid5).nodes, ∀ a,
        (u.change a).1 = a.1 := by
      intro u hu a
      obtain ⟨records, -, hu⟩ := List.mem_flatMap.mp hu
      obtain ⟨rec, -, rfl⟩ := List.mem_map.mp hu
      rfl
    have hprefix := (OrderedDict.map_items_prefix_upsertAll hlabels s.vertices).map
      fun item => (⟨item.1, IndraDB.nodeIdentifier item.2⟩ : IndraDB.Vertex)
    rw [List.map_map, List.map_map] at hprefix
    rwa [vertexItems_stored, vertexItems_stored, PropertyGraph.FileLoader.vertices_loadAll]
  · rw [edgeItems_stored, edgeItems_stored]
    exact ((Graph.IndraDB.loader uuid5).keys_edges_loadAll rs s).map _

/-- **Descriptions grow by what the answers count.** Between a description before a history of
requests and one after it, with samples of any size, the totals grow by exactly the nodes and edges
counted in the answers, and no type loses an item. -/
theorem described_growth (uuid5 : String → Uuid) (calls : List Call) {servers : Servers Uuid}
    (hanswers : ∀ k, servers.indradb.fault k = none) {client client' : IndraDB.Client}
    (hserves : Serves client (stored servers.indradb.store))
    (hserves' : Serves client' (stored (ingestAll uuid5 calls servers).2.indradb.store))
    (sample_size sample_size' : ℤ) :
    ∃ d d', describe (some client) sample_size = .ok d ∧
      describe (some client') sample_size' = .ok d' ∧
      d'.vertices = d.vertices + nodesCounted (ingestAll uuid5 calls servers).1 ∧
      d'.edges = d.edges + edgesCounted (ingestAll uuid5 calls servers).1 ∧
      Grows d.node_types d'.node_types ∧ Grows d.edge_types d'.edge_types := by
  have hleaves := leaves_ingestAll uuid5 calls hanswers
  obtain ⟨d, hd, hdescribes⟩ := hserves.describes sample_size
  obtain ⟨d', hd', hdescribes'⟩ := hserves'.describes sample_size'
  obtain ⟨hvertices, hedges⟩ :=
    prefix_stored_loadAll uuid5 (recordsAll uuid5 calls servers) servers.indradb.store
  rw [← hleaves.store] at hvertices hedges
  refine ⟨d, d', hd, hd', ?_, ?_, hdescribes.node_types.grows hdescribes'.node_types hvertices,
    hdescribes.edge_types.grows hdescribes'.edge_types hedges⟩
  · have hnodes := hleaves.nodes_eq
    simp only [OrderedDict.keys, List.length_map] at hnodes
    rw [hdescribes.vertices, hdescribes'.vertices, vertexItems_stored, vertexItems_stored,
      List.length_map, List.length_map]
    omega
  · have hedges' := hleaves.edges_eq
    rw [hdescribes.edges, hdescribes'.edges, edgeItems_stored, edgeItems_stored, List.length_map,
      List.length_map]
    omega

/-- `described_growth` for `/proj`, ingested twice from an empty database, the second time by way of
the cache. -/
theorem described_growth_proj : ∃ d d',
    describe (some (fakeClient (stored freshServers.indradb.store))) 100 = .ok d ∧
      describe (some (fakeClient
        (stored (ingestAll projUuid5 projCalls freshServers).2.indradb.store))) 100 = .ok d' ∧
      d'.vertices = d.vertices + nodesCounted (ingestAll projUuid5 projCalls freshServers).1 ∧
      d'.edges = d.edges + edgesCounted (ingestAll projUuid5 projCalls freshServers).1 ∧
      Grows d.node_types d'.node_types ∧ Grows d.edge_types d'.edge_types :=
  described_growth projUuid5 projCalls (fun _ => rfl) (serves_fakeClient _) (serves_fakeClient _)
    100 100

example : nodesCounted (ingestAll projUuid5 projCalls freshServers).1 = 4 := by decide +kernel

/-! ### Stamps -/

variable {U : Type} [DecidableEq U] {uuid5 : String → U}

/-- Every node record of a history comes from one of the sites of the exporter. -/
theorem site_of_mem_nodesAll (calls : List Call) {servers : Servers U}
    (hanswers : ∀ k, servers.indradb.fault k = none) :
    ∀ rec ∈ nodesAll uuid5 calls servers, ∃ sha1, NodeSite sha1 rec := by
  intro rec hrec
  obtain ⟨records, hrecords, hrec⟩ := List.mem_flatMap.mp hrec
  obtain ⟨sha1, file_path, tu, hextract⟩ :=
    (leaves_ingestAll uuid5 calls hanswers).extracted records hrecords
  exact ⟨sha1, (Export.site_of_mem_extract hextract).1 rec hrec⟩

/-- What a record of the exporter sets as the version is that of the running code, and it sets one if
it is that of a file. -/
theorem version_of_site {sha1 : Py.Sha1} {rec : NodeRecord} (h : NodeSite sha1 rec) :
    (∀ value, ("schema_version", value) ∈ recProps rec → value = .str SCHEMA_VERSION) ∧
      (rec.label = .file → ("schema_version", .str SCHEMA_VERSION) ∈ recProps rec) := by
  refine ⟨fun value hmem => (h.version ((mem_withUsr (by decide)).mp hmem)).2, fun hfile => ?_⟩
  refine (mem_withUsr (by decide)).mpr ?_
  obtain ⟨path, rfl | rfl⟩ := h.file_cases hfile
  · simp [Export.fileNode]
  · simp [Export.includedNode]

/-- Some records write the version at a vertex: it is that of the running code, if one of them is that
of a file or it was so before. -/
theorem get_version_symbolAfter {recs : List NodeRecord} {old : Option (NodeType × Graph.Properties)}
    (hsite : ∀ rec ∈ recs, ∃ sha1, NodeSite sha1 rec) {a : NodeType × Graph.Properties}
    (h : symbolAfter old recs = some a) (hfile : a.1 = .file)
    (hold : ∀ b, old = some b → b.1 = .file →
      b.2.get "schema_version" = some (.str SCHEMA_VERSION) ∨ ∃ rec ∈ recs, rec.label = .file) :
    a.2.get "schema_version" = some (.str SCHEMA_VERSION) := by
  obtain ⟨b, hb, rfl⟩ := Option.map_eq_some_iff.mp h
  rw [OrderedDict.get_setAll]
  cases hlookup : (recs.flatMap recProps).reverse.lookup "schema_version" with
  | some value =>
    obtain ⟨rec, hrec, hmem⟩ := List.mem_flatMap.mp (OrderedDict.mem_of_lookup_reverse hlookup)
    obtain ⟨sha1, hrecSite⟩ := hsite rec hrec
    rw [(version_of_site hrecSite).1 value hmem]
    rfl
  | none =>
    -- no record of a file is among them, so the vertex has been one before
    have hno : ∀ rec ∈ recs, rec.label ≠ .file := by
      intro rec hrec hlabel
      obtain ⟨sha1, hrecSite⟩ := hsite rec hrec
      have hmem := List.mem_flatMap.mpr ⟨rec, hrec, (version_of_site hrecSite).2 hlabel⟩
      exact absurd (List.lookup_eq_none_iff.mp hlookup _ (List.mem_reverse.mpr hmem)) (by simp)
    rw [Option.none_or]
    cases old with
    | some old =>
      cases hb
      refine (hold _ rfl hfile).resolve_right ?_
      rintro ⟨rec, hrec, hlabel⟩
      exact hno rec hrec hlabel
    | none =>
      obtain ⟨first, hfirst, rfl⟩ := Option.map_eq_some_iff.mp hb
      exact absurd hfile (hno first (List.mem_of_mem_head? hfirst))

/-- **Once every file has been exported again all files are stamped.** -/
theorem stamped_ingestAll (calls : List Call) {servers : Servers U}
    (hanswers : ∀ k, servers.indradb.fault k = none)
    (hcover : ∀ v a, servers.indradb.store.vertices.get v = some a → a.1 = .file →
      a.2.get "schema_version" = some (.str SCHEMA_VERSION) ∨
        ∃ rec ∈ nodesAll uuid5 calls servers, rec.label = .file ∧ uuid5 rec.usr = v) :
    Stamped (ingestAll uuid5 calls servers).2.indradb.store.vertices := by
  intro v a hget hfile
  rw [vertices_ingestAll uuid5 calls hanswers, OrderedDict.get_upsertAll, List.filter_map,
    foldl_cell_nodeUpsert] at hget
  refine get_version_symbolAfter (fun rec hrec => ?_) hget hfile fun b hb hlabel => ?_
  · exact site_of_mem_nodesAll calls hanswers rec (List.mem_of_mem_filter hrec)
  · refine (hcover v b hb hlabel).imp_right ?_
    rintro ⟨rec, hrec, hrecFile, hkey⟩
    exact ⟨rec, List.mem_filter.mpr ⟨hrec, decide_eq_true hkey⟩, hrecFile⟩

/-- **To ingest again takes the warning away:** once every file that was not stamped by the running code
has been exported again, the notes are the two that are always there. -/
theorem restamped_no_warning (uuid5 : String → Uuid) (calls : List Call) {servers : Servers Uuid}
    (hanswers : ∀ k, servers.indradb.fault k = none)
    (hcover : ∀ v a, servers.indradb.store.vertices.get v = some a → a.1 = .file →
      a.2.get "schema_version" = some (.str SCHEMA_VERSION) ∨
        ∃ rec ∈ nodesAll uuid5 calls servers, rec.label = .file ∧ uuid5 rec.usr = v)
    {client : IndraDB.Client}
    (hserves : Serves client (stored (ingestAll uuid5 calls servers).2.indradb.store))
    (hselective : client.Selective) (sample_size : ℤ) :
    ∃ d, describe (some client) sample_size = .ok d ∧ d.notes = [NOTE_SAMPLE, NOTE_LIVE] := by
  obtain ⟨d, hd, -⟩ := hserves.describes sample_size
  exact ⟨d, hd, (stamped_ingestAll calls hanswers hcover).notes hserves hselective hd⟩

/-- A database in which an older version of the code has left `/proj/a.cpp`. -/
def oldServers : Servers Uuid :=
  { freshServers with
    indradb :=
      { freshServers.indradb with
        store := PropertyGraph.empty.addVertex (projUuid5 "file:///proj/a.cpp")
          (.file, OrderedDict.empty.set "schema_version" (.str "v5")) } }

/-- `restamped_no_warning` for a database in which an older version has left a file of `/proj`. -/
theorem restamped_no_warning_old : ∃ d,
    describe (some (fakeClient
        (stored (ingestAll projUuid5 projCalls oldServers).2.indradb.store))) 100 = .ok d ∧
      d.notes = [NOTE_SAMPLE, NOTE_LIVE] := by
  refine restamped_no_warning projUuid5 projCalls (fun _ => rfl) (fun v a hget _ => Or.inr ?_)
    (serves_fakeClient _) (selective_fakeClient _) 100
  have hexported : ∃ rec ∈ nodesAll projUuid5 projCalls oldServers,
      rec.label = .file ∧ projUuid5 rec.usr = projUuid5 "file:///proj/a.cpp" := by decide +kernel
  have hkeys : ∀ v ∈ oldServers.indradb.store.vertices.keys,
      v = projUuid5 "file:///proj/a.cpp" := by decide +kernel
  rw [hkeys v (OrderedDict.isSome_get_iff.mp (by rw [hget]; rfl))]
  exact hexported

/-- Before that there is a warning. -/
example : (describe (some (fakeClient (stored oldServers.indradb.store))) 100).map
    (fun d => d.notes.length) = .ok 3 := by decide +kernel

end Ingest
end CppMcp
