/-
# Which edges a run stores

The files of a run are written one after the other, each with its nodes before its edges,
and either backend stores an edge only between vertices that are there.  So an edge from one
file to a symbol of another is lost if the other file comes later.  Nothing reports it,
and a second run stores it.

A run without errors loads the batches of its files (`processFiles_loads`).
`keeps_edges_iff` says when no edge is lost, which is when a second run adds none.
-/

import CppMcp.Ingest.IngestCode

namespace CppMcp
namespace Ingest

open Py (Path)
open Cache (ClangSession Answer)
open Export (Exc Cursor NodeRecord EdgeRecord)
open CppMcp.Graph (Backend GraphDriver Servers)

/-- What is extracted from a file. -/
def recordsOf (sha1 : Py.Sha1) (x : Path × Cursor) : List NodeRecord × List EdgeRecord :=
  Export.Acc.getD (Export.extractNodesAndEdges sha1 x.1.str x.2) ([], [])

/-- What is extracted from the files of a run. -/
def Progress.records {σ : Type} (sha1 : Py.Sha1) (p : Progress σ) :
    List (List NodeRecord × List EdgeRecord) :=
  p.exported.map (recordsOf sha1)

section Loop

variable {σ : Type} (o : Outside) (driver : GraphDriver σ) (build : Path)
  (default_flags : List String)

/-- A file is recorded as an error, or it is exported. -/
theorem processFile_cases (p : Progress σ) (f : Path) :
    (∃ error, (processFile o driver build default_flags p f).errors = p.errors ++ [error]) ∨
    ∃ answer tu counts db, exportFile o.sha1 driver f tu p.db = .ok counts db ∧
      processFile o driver build default_flags p f =
        (p.answered answer).succeed f tu counts db := by
  unfold processFile
  split
  · exact Or.inl ⟨_, rfl⟩
  · dsimp only
    split
    · exact Or.inl ⟨_, rfl⟩
    · split
      · exact Or.inl ⟨_, rfl⟩
      · rename_i counts db hexport
        exact Or.inr ⟨_, _, counts, db, hexport, rfl⟩

/-- The errors of a run only grow. -/
theorem errors_processFiles (p : Progress σ) (files : List Path) :
    p.errors <+: (processFiles o driver build default_flags p files).errors := by
  induction files generalizing p with
  | nil => exact List.prefix_rfl
  | cons f files ih =>
    refine List.IsPrefix.trans ?_ (ih _)
    rcases processFile_cases o driver build default_flags p f with
      ⟨error, herr⟩ | ⟨answer, tu, counts, db, -, heq⟩
    · rw [herr]
      exact List.prefix_append _ _
    · rw [heq]
      exact List.prefix_rfl

end Loop

variable {U : Type} {uuid5 : String → U} {b : Backend} {sha1 : Py.Sha1}

/-- What the loop has done between `p` and `p'`: files with the records `rs` are exported and
their batches loaded, and `edges_written` counts the edges that are new. -/
structure Loads (b : Backend) (uuid5 : String → U) (sha1 : Py.Sha1)
    (rs : List (List NodeRecord × List EdgeRecord)) (p p' : Progress (Servers U)) : Prop where
  records : p'.records sha1 = p.records sha1 ++ rs
  graph : (b.store p'.db).toGraph = (b.store p.db).toGraph.loadAll (rs.map (b.batchOf uuid5))
  grows : ∃ new, (b.store p'.db).edges.keys = (b.store p.db).edges.keys ++ new ∧
    p'.edges_written = p.edges_written + new.length
  connected : b.connected p'.db = true

/-- Nothing is counted exactly when no edge is new. -/
theorem Loads.edges_written_eq_iff {rs : List (List NodeRecord × List EdgeRecord)}
    {p p' : Progress (Servers U)} (h : Loads b uuid5 sha1 rs p p') :
    p'.edges_written = p.edges_written ↔
      (b.store p'.db).toGraph.edges = (b.store p.db).toGraph.edges := by
  obtain ⟨new, hnew, hlen⟩ := h.grows
  rw [hlen, Nat.add_eq_left, List.length_eq_zero_iff]
  constructor
  · rintro rfl
    rw [List.append_nil] at hnew
    exact congrArg (fun keys => {e | e ∈ keys}) hnew
  · intro heq
    refine List.eq_nil_iff_forall_not_mem.mpr fun e he => ?_
    have hnodup : ((b.store p.db).edges.keys ++ new).Nodup := hnew ▸ (b.store p'.db).edges.nodup
    have hmem : e ∈ (b.store p'.db).toGraph.edges := by
      change e ∈ (b.store p'.db).edges.keys
      rw [hnew]
      exact List.mem_append_right _ he
    rw [heq] at hmem
    exact (List.nodup_append.mp hnodup).2.2 e hmem e he rfl

/-- **Every edge record is stored** whose endpoints are nodes of the run. -/
def KeepsEdges (b : Backend) (uuid5 : String → U) (sha1 : Py.Sha1) (p : Progress (Servers U)) :
    Prop :=
  ∀ r ∈ p.records sha1, ∀ rec ∈ r.2,
    (∃ r' ∈ p.records sha1, ∃ node ∈ r'.1, node.usr = rec.source_usr) →
    (∃ r' ∈ p.records sha1, ∃ node ∈ r'.1, node.usr = rec.target_usr) →
    ∃ e ∈ b.edgesOf uuid5 rec, e ∈ (b.store p.db).edges.keys

/-- **Every edge comes in time:** for every edge that a record of the run stands for, if its ends
are vertices of the run, some file with a record for it comes no earlier than files with
its ends. -/
def EdgesInTime (b : Backend) (uuid5 : String → U)
    (rs : List (List NodeRecord × List EdgeRecord)) : Prop :=
  Loading.InOrder PropertyGraph.edgeEnds (rs.map (b.batchOf uuid5))

/-- A record stands for the edge between the vertices of nodes with its USRs. -/
theorem mem_edgesOf {rec : EdgeRecord} {source target : NodeRecord}
    (hs : source.usr = rec.source_usr) (ht : target.usr = rec.target_usr) :
    (b.vertexOf uuid5 source, rec.edge_type, b.vertexOf uuid5 target) ∈ b.edgesOf uuid5 rec := by
  cases b with
  | neo4j => exact ⟨hs, rfl, ht⟩
  | indradb =>
    change (uuid5 source.usr, rec.edge_type, uuid5 target.usr) = Graph.IndraDB.edgeOf uuid5 rec
    rw [hs, ht, Graph.IndraDB.edgeOf]

/-- Where the graph of the batches keeps all edges that its vertices allow, no edge record is lost.
-/
theorem keepsEdges_of_keepsAll {p : Progress (Servers U)}
    (h : (b.store p.db).toGraph.KeepsAll ((p.records sha1).map (b.batchOf uuid5))) :
    KeepsEdges b uuid5 sha1 p := by
  rintro r hr rec hrec ⟨r₁, hr₁, source, hsource, hs⟩ ⟨r₂, hr₂, target, htarget, ht⟩
  refine ⟨_, mem_edgesOf hs ht, h _ ⟨_, List.mem_map_of_mem hr, rec, hrec, mem_edgesOf hs ht⟩ ?_⟩
  exact Set.pair_subset ⟨_, List.mem_map_of_mem hr₁, source, hsource, rfl⟩
    ⟨_, List.mem_map_of_mem hr₂, target, htarget, rfl⟩

/-! ### Runs -/

variable [DecidableEq U]

/-- **A file that is exported loads its batch,** and counts the edges that are new. -/
theorem exportFile_loads {f : Path} {tu : Cursor} {s s' : Servers U} {counts : ExportCounts}
    (hc : b.connected s = true)
    (h : exportFile sha1 (b.driver uuid5) f tu s = .ok counts s') :
    (b.store s').toGraph = (b.store s).toGraph.load (b.batchOf uuid5 (recordsOf sha1 (f, tu))) ∧
      (∃ new, (b.store s').edges.keys = (b.store s).edges.keys ++ new ∧
        new.length = counts.edges_written) ∧ b.connected s' = true := by
  obtain ⟨records, s₁, hrecords, h⟩ := Graph.bind_eq_ok.mp h
  obtain ⟨m, s₂, hnodes, h⟩ := Graph.bind_eq_ok.mp h
  obtain ⟨n, s₃, hedges, h⟩ := Graph.bind_eq_ok.mp h
  cases h
  have hextract : Export.extractNodesAndEdges sha1 f.str tu = .ok records ∧ s₁ = s := by
    unfold ofAcc at hrecords
    split at hrecords <;> cases hrecords
    exact ⟨‹_›, rfl⟩
  obtain ⟨hextract, rfl⟩ := hextract
  have hrec : recordsOf sha1 (f, tu) = records := by
    change Export.Acc.getD (Export.extractNodesAndEdges sha1 f.str tu) ([], []) = records
    rw [hextract]
    rfl
  obtain ⟨hadds, hc₂⟩ := Backend.upsert_nodes_ok hc hnodes
  obtain ⟨hadds', hc₃⟩ := Backend.upsert_edges_ok hc₂ hedges
  obtain ⟨new, hnew, hlen⟩ := hadds'.grows
  rw [hrec]
  exact ⟨PropertyGraph.toGraph_eq_load hadds hadds', ⟨new, by rw [hnew, hadds.keys_edges], hlen⟩,
    hc₃⟩

/-- **A run without errors loads its files,** in their order, each as the batch of what is extracted
from it. -/
theorem processFiles_loads {o : Outside} {build : Path} {default_flags : List String}
    {p : Progress (Servers U)} {files : List Path} (hc : b.connected p.db = true)
    (herr : (processFiles o (b.driver uuid5) build default_flags p files).errors = p.errors) :
    ∃ rs, rs.length = files.length ∧ Loads b uuid5 o.sha1 rs p
      (processFiles o (b.driver uuid5) build default_flags p files) := by
  induction files generalizing p with
  | nil =>
    exact ⟨[], rfl, (List.append_nil _).symm, rfl, ⟨[], (List.append_nil _).symm, rfl⟩, hc⟩
  | cons f files ih =>
    have hpre := errors_processFiles o (b.driver uuid5) build default_flags
      (processFile o (b.driver uuid5) build default_flags p f) files
    rcases processFile_cases o (b.driver uuid5) build default_flags p f with
      ⟨error, herr'⟩ | ⟨answer, tu, counts, db, hexport, heq⟩
    · -- errors are never taken back
      rw [herr', show (processFiles o (b.driver uuid5) build default_flags _ files).errors = _ from
        herr] at hpre
      exact absurd hpre.length_le (by simp)
    · obtain ⟨hgraph, ⟨new, hnew, hlen⟩, hc'⟩ := exportFile_loads hc hexport
      rw [show processFiles o (b.driver uuid5) build default_flags p (f :: files) =
        processFiles o (b.driver uuid5) build default_flags
          ((p.answered answer).succeed f tu counts db) files from
        congrArg (fun p => processFiles o (b.driver uuid5) build default_flags p files) heq] at herr ⊢
      obtain ⟨rs, hrs, hloads⟩ := ih (p := (p.answered answer).succeed f tu counts db) hc' herr
      obtain ⟨new', hnew', hlen'⟩ := hloads.grows
      refine ⟨recordsOf o.sha1 (f, tu) :: rs, congrArg (· + 1) hrs, ?_, ?_, ?_,
        hloads.connected⟩
      · rw [hloads.records, List.append_cons]
        congr 1
        exact List.map_append
      · rw [hloads.graph]
        change (b.store db).toGraph.loadAll _ = _
        rw [hgraph]
        rfl
      · refine ⟨new ++ new', ?_, ?_⟩
        · rw [hnew']
          change (b.store db).edges.keys ++ new' = _
          rw [hnew, List.append_assoc]
        · rw [hlen', List.length_append, hlen]
          exact Nat.add_assoc _ _ _

/-- **A run without errors loads its files,** starting from what the databases hold. -/
theorem ingestFiles_loads {o : Outside} {build : Path} {default_flags : List String}
    {session : ClangSession Cursor} {servers : Servers U} {files : List Path}
    {p : Progress (Servers U)} (hp : p = ingestFiles o b uuid5 build default_flags session servers files)
    (hc : b.connected servers = true) (herr : p.errors = []) :
    Loads b uuid5 o.sha1 (p.records o.sha1) { session := session, db := servers } p := by
  subst hp
  obtain ⟨rs, -, hloads⟩ := processFiles_loads (p := { session := session, db := servers }) hc herr
  have hrs : (ingestFiles o b uuid5 build default_flags session servers files).records o.sha1 = rs :=
    hloads.records
  rw [hrs]
  exact hloads

/-- **When no edge is lost,** and a second identical run adds none: when every edge comes in
time.  The first run starts with an empty store, and the second one extracts the same
records. -/
theorem keeps_edges_iff (o : Outside) (build : Path) (default_flags : List String)
    (files : List Path) (session session' : ClangSession Cursor) (servers : Servers U)
    {first second : Progress (Servers U)}
    (hfirst : first = ingestFiles o b uuid5 build default_flags session servers files)
    (hsecond : second = ingestFiles o b uuid5 build default_flags session' first.db files)
    (hempty : b.store servers = .empty) (hconn : b.connected servers = true)
    (herr : first.errors = []) (herr' : second.errors = [])
    (hsame : second.records o.sha1 = first.records o.sha1) :
    KeepsEdges b uuid5 o.sha1 first ∧ second.edges_written = 0 ↔
      EdgesInTime b uuid5 (first.records o.sha1) := by
  have hloads := ingestFiles_loads hfirst hconn herr
  have hloads' := ingestFiles_loads hsecond hloads.connected herr'
  rw [hsame] at hloads'
  have hgraph : (b.store first.db).toGraph =
      Loading.Graph.empty.loadAll ((first.records o.sha1).map (b.batchOf uuid5)) := by
    rw [hloads.graph, hempty, PropertyGraph.toGraph_empty]
  have hagain : second.edges_written = 0 ↔ EdgesInTime b uuid5 (first.records o.sha1) := by
    rw [EdgesInTime, ← Loading.again_iff_inOrder, ← hgraph, ← hloads'.graph]
    exact hloads'.edges_written_eq_iff
  refine ⟨fun h => hagain.mp h.2, fun h => ⟨keepsEdges_of_keepsAll ?_, hagain.mpr h⟩⟩
  rw [hgraph]
  exact (Loading.keepsAll_iff_inOrder _).mpr h

/-- In `a.cpp` a function that uses one of `b.cpp`. -/
def callerTree : Cursor :=
  .node { kind := .ok (.other 350) } [
    .node { kind := .ok .functionDecl, get_usr := .ok "c:@F@f#", spelling := .ok "f",
            is_definition := .ok true,
            location := .ok { file := "/proj/a.cpp", line := 2, column := 6 } } [
      .node { kind := .ok .declRefExpr, spelling := .ok "g",
              location := .ok { file := "/proj/a.cpp", line := 2, column := 12 },
              referenced := .ok (some ⟨.ok "c:@F@g#"⟩) } []]]

/-- The function of `b.cpp`. -/
def calleeTree : Cursor :=
  .node { kind := .ok (.other 350) } [
    .node { kind := .ok .functionDecl, get_usr := .ok "c:@F@g#", spelling := .ok "g",
            is_definition := .ok true,
            location := .ok { file := "/proj/b.cpp", line := 1, column := 6 } } []]

/-- The two files, which libclang parses into these trees. -/
def projOutside : Outside where
  host :=
    { fs :=
        { entries := [(["proj"], .dir), (["proj", "a.cpp"], .file), (["proj", "b.cpp"], .file)]
          nodup := by decide
          plain := by decide
          below := by decide }
      cwd := []
      cwd_dir := rfl }
  sha1 := default
  old_mtime _ := some 1
  new_mtime _ := some 1
  index_parse call := .ok (if call.path = ["proj", "a.cpp"] then callerTree else calleeTree)
  load_compile_db _ := none
  urlparse_raises _ := none
  connect _ := .ok ()

/-- Two empty databases that are connected and answer every call. -/
def emptyServers : Servers String :=
  ⟨⟨.empty, true, 0, fun _ => none⟩, ⟨.empty, true, 0, fun _ => none⟩⟩

/-- The run over both files, in sorted order. -/
def firstRun : Progress (Servers String) :=
  ingestFiles projOutside .indradb (fun usr => usr) ["proj"] [] .new emptyServers
    [["proj", "a.cpp"], ["proj", "b.cpp"]]

/-- The same run once more. -/
def secondRun : Progress (Servers String) :=
  ingestFiles projOutside .indradb (fun usr => usr) ["proj"] [] firstRun.session firstRun.db
    [["proj", "a.cpp"], ["proj", "b.cpp"]]

/-- The first run stores what each file defines, and no edge between the two functions. -/
theorem edges_firstRun : (Backend.indradb.store firstRun.db).edges.keys =
    [("file:///proj/a.cpp", .defines, "c:@F@f#"), ("file:///proj/b.cpp", .defines, "c:@F@g#")] := by
  decide +kernel

/-- **A use of a later file is lost:** no file has an error, but the edge from `f` to `g` is not
stored, and a second run writes it. -/
theorem firstRun_loses_edge :
    firstRun.errors = [] ∧ secondRun.errors = [] ∧
      secondRun.records projOutside.sha1 = firstRun.records projOutside.sha1 ∧
      secondRun.edges_written = 1 ∧
      ¬KeepsEdges .indradb (fun usr => usr) projOutside.sha1 firstRun := by
  refine ⟨by decide +kernel, by decide +kernel, by decide +kernel, by decide +kernel, fun h => ?_⟩
  have hrec : ∃ r ∈ firstRun.records projOutside.sha1,
      ⟨"c:@F@f#", "c:@F@g#", .references, []⟩ ∈ r.2 := by decide +kernel
  obtain ⟨r, hr, hrec⟩ := hrec
  obtain ⟨e, he, hmem⟩ := h r hr _ hrec (by decide +kernel) (by decide +kernel)
  have heq : e = ("c:@F@f#", .references, "c:@F@g#") := he
  rw [edges_firstRun, heq] at hmem
  revert hmem
  decide

/-- `keeps_edges_iff` at these two runs: the edge of the first file comes before the node of the
second. -/
theorem keeps_edges_iff_firstRun :
    ¬EdgesInTime .indradb (fun usr => usr) (firstRun.records projOutside.sha1) := by
  intro h
  have hfirst : firstRun = ingestFiles projOutside .indradb (fun usr => usr) ["proj"] [] .new
    emptyServers [["proj", "a.cpp"], ["proj", "b.cpp"]] := rfl
  have hsecond : secondRun = ingestFiles projOutside .indradb (fun usr => usr) ["proj"] []
    firstRun.session firstRun.db [["proj", "a.cpp"], ["proj", "b.cpp"]] := rfl
  have hnone := ((keeps_edges_iff projOutside ["proj"] [] [["proj", "a.cpp"], ["proj", "b.cpp"]] .new
    firstRun.session emptyServers hfirst hsecond rfl rfl (by decide +kernel) (by decide +kernel)
    (by decide +kernel)).mpr h).2
  revert hnone
  decide +kernel

end Ingest
end CppMcp
