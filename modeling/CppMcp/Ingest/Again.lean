/-
# Ingesting the same files again

A second run over the same files brings the edges that came too early in the first.  It creates no
node, and after it a run changes nothing: no node, no edge and no property, on either
database (`third_run_changes_nothing`).

For this the runs must extract the same records, though most units come from the cache.  They do as
long as no flag looks like one the session adds: then an unchanged file has the records of
`fileRecords`, whatever the session has parsed before.
-/

import CppMcp.Cache.Transparent
import CppMcp.Graph.Loaders
import CppMcp.Ingest.Accounting

namespace CppMcp
namespace Ingest

open Py (Path)
open Files (FileSystem)
open Cache (ClangSession Faithful FlagsAmong SessionRequest)
open Export (Exc Cursor)
open CppMcp.Graph (Backend Servers)

section Files

variable (o : Outside) (build : Path) (default_flags : List String)

/-- **What is in a file,** if libclang is asked: the records of the unit it returns for the flags of
the file. -/
def fileRecords (cpp_file : Path) : Option Records :=
  match resolveFlags o.host.fs o.load_compile_db cpp_file (some build) default_flags with
  | .error _ => none
  | .ok (flags, _source) =>
    match o.index_parse ⟨o.host.fs.realpath cpp_file, flags, 0⟩ with
    | .error _ => none
    | .ok tu => (Export.extractNodesAndEdges o.sha1 cpp_file.str tu).toOption

/-- The flags of the file can be told apart by the cache. -/
def CleanFlags (M : Set String) (cpp_file : Path) : Prop :=
  ∀ flags source,
    resolveFlags o.host.fs o.load_compile_db cpp_file (some build) default_flags =
      .ok (flags, source) →
    FlagsAmong M flags 0

end Files

variable {U : Type} [DecidableEq U] (uuid5 : String → U)

/-- The store with all nodes and edges of the files, one file after the other. -/
def writtenAll (b : Backend) (rs : List Records)
    (G : PropertyGraph (b.Vertex U) Export.EdgeType b.VertexData Graph.Properties) :
    PropertyGraph (b.Vertex U) Export.EdgeType b.VertexData Graph.Properties :=
  match b with
  | .neo4j => Graph.Neo4j.loader.loadAll rs G
  | .indradb => (Graph.IndraDB.loader uuid5).loadAll rs G

section WrittenAll

variable {b : Backend} (rs : List Records)
  (G : PropertyGraph (b.Vertex U) Export.EdgeType b.VertexData Graph.Properties)

/-- With no files the store stays as it is. -/
theorem writtenAll_nil : writtenAll uuid5 b [] G = G := by
  cases b <;> rfl

/-- The first file is written, and then the rest into the store that it leaves. -/
theorem writtenAll_cons {records : Records} {s s' : Servers U}
    (h : b.store s' = written uuid5 b records s) :
    writtenAll uuid5 b (records :: rs) (b.store s) = writtenAll uuid5 b rs (b.store s') := by
  rw [h]
  cases b <;> rfl

/-- The second time no vertex is new, and none has another property: the last value of each stays.
-/
theorem vertices_writtenAll_twice :
    (writtenAll uuid5 b rs (writtenAll uuid5 b rs G)).vertices = (writtenAll uuid5 b rs G).vertices := by
  cases b with
  | neo4j => exact Graph.Neo4j.loader.vertices_loadAll_twice rs G
  | indradb => exact (Graph.IndraDB.loader uuid5).vertices_loadAll_twice rs G

/-- **From the second time on nothing changes,** since the edges that came too early have been
stored by then. -/
theorem writtenAll_settled :
    writtenAll uuid5 b rs (writtenAll uuid5 b rs (writtenAll uuid5 b rs G)) =
      writtenAll uuid5 b rs (writtenAll uuid5 b rs G) := by
  cases b with
  | neo4j => exact Graph.Neo4j.loader.loadAll_settled rs G
  | indradb => exact (Graph.IndraDB.loader uuid5).loadAll_settled rs G

end WrittenAll

/-! ### What a run writes -/

variable {uuid5}

/-- **A file that is exported is written,** and what is new is counted. -/
theorem exportFile_written {b : Backend} {sha1 : Py.Sha1} {f : Path} {tu : Cursor}
    {s s' : Servers U} {counts : ExportCounts} (hc : b.connected s = true)
    (h : exportFile sha1 (b.driver uuid5) f tu s = .ok counts s') :
    ∃ records, Export.extractNodesAndEdges sha1 f.str tu = .ok records ∧
      b.store s' = written uuid5 b records s ∧
      (∃ new, (b.store s').vertices.keys = (b.store s).vertices.keys ++ new ∧
        new.length = counts.nodes_written) ∧
      (∃ new, (b.store s').edges.keys = (b.store s).edges.keys ++ new ∧
        new.length = counts.edges_written) ∧ b.connected s' = true := by
  obtain ⟨records, s₁, hrecords, h⟩ := Graph.bind_eq_ok.mp h
  obtain ⟨m, s₂, hnodes, h⟩ := Graph.bind_eq_ok.mp h
  obtain ⟨n, s₃, hedges, h⟩ := Graph.bind_eq_ok.mp h
  cases h
  have hextract : Export.extractNodesAndEdges sha1 f.str tu = .ok records ∧ s₁ = s := by
    unfold ofAcc at hrecords
    split at hrecords <;> cases hrecords
    exact ⟨‹_›, rfl⟩
  obtain ⟨hextract, rfl⟩ := hextract
  obtain ⟨hadds, hc₂⟩ := Backend.upsert_nodes_ok hc hnodes
  obtain ⟨hadds', hc₃⟩ := Backend.upsert_edges_ok hc₂ hedges
  obtain ⟨new, hnew, hlen⟩ := hadds.grows
  obtain ⟨new', hnew', hlen'⟩ := hadds'.grows
  refine ⟨records, hextract, ?_, ⟨new, by rw [hadds'.keys_vertices, hnew], hlen⟩,
    ⟨new', by rw [hnew', hadds.keys_edges], hlen'⟩, hc₃⟩
  cases b with
  | neo4j =>
    have hn := (Graph.Neo4j.upsert_nodes_tally hc (Graph.onNeo4j_eq_ok hnodes)).1
    have he := (Graph.Neo4j.upsert_edges_tally hc₂ (Graph.onNeo4j_eq_ok hedges)).1
    exact (congrArg Prod.snd he).trans
      (congrArg (fun t => (Graph.Neo4j.Store.putEdges records.2 t).2) (congrArg Prod.snd hn))
  | indradb =>
    have hn := (Graph.IndraDB.upsert_nodes_tally hc (Graph.onIndradb_eq_ok hnodes)).1
    have he := (Graph.IndraDB.upsert_edges_tally hc₂ (Graph.onIndradb_eq_ok hedges)).1
    exact (congrArg Prod.snd he).trans
      (congrArg (fun t => (Graph.IndraDB.Store.putEdges uuid5 records.2 t).2) (congrArg Prod.snd hn))

/-- From `p` to `p'` files with the records `rs` have been written, and what is new is counted. -/
structure Written (b : Backend) (uuid5 : String → U) (o : Outside) (M : Set String) (rs : List Records)
    (p p' : Progress (Servers U)) : Prop where
  store : b.store p'.db = writtenAll uuid5 b rs (b.store p.db)
  nodes : ∃ new, (b.store p'.db).vertices.keys = (b.store p.db).vertices.keys ++ new ∧
    p'.nodes_written = p.nodes_written + new.length
  edges : ∃ new, (b.store p'.db).edges.keys = (b.store p.db).edges.keys ++ new ∧
    p'.edges_written = p.edges_written + new.length
  connected : b.connected p'.db = true
  faithful : Faithful M o.world p'.session

/-- One file and then the rest: the counts add up, since what is new each time is appended. -/
theorem Written.trans {b : Backend} {o : Outside} {M : Set String} {records : Records}
    {rs : List Records} {p p' p'' : Progress (Servers U)} (h : Written b uuid5 o M [records] p p')
    (h' : Written b uuid5 o M rs p' p'') : Written b uuid5 o M (records :: rs) p p'' := by
  obtain ⟨new, hnew, hnodes⟩ := h.nodes
  obtain ⟨new', hnew', hnodes'⟩ := h'.nodes
  obtain ⟨newEdges, hnewEdges, hedges⟩ := h.edges
  obtain ⟨newEdges', hnewEdges', hedges'⟩ := h'.edges
  refine ⟨?_, ⟨new ++ new', ?_, ?_⟩, ⟨newEdges ++ newEdges', ?_, ?_⟩, h'.connected, h'.faithful⟩
  · rw [h'.store, h.store]
    cases b <;> rfl
  · rw [hnew', hnew, List.append_assoc]
  · rw [hnodes', hnodes, List.length_append, Nat.add_assoc]
  · rw [hnewEdges', hnewEdges, List.append_assoc]
  · rw [hedges', hedges, List.length_append, Nat.add_assoc]

variable {b : Backend} {o : Outside} {build : Path} {default_flags : List String} {M : Set String}

variable (uuid5) in
/-- **A turn without an error writes what is in its file.** -/
theorem turn_written {p : Progress (Servers U)} {f : Path} (hc : b.connected p.db = true)
    (hfaithful : Faithful M o.world p.session) (hsha1 : Set.InjOn o.sha1.hexdigest M)
    (hf : FileSystem.Slashless f) (hclean : CleanFlags o build default_flags M f) :
    (∃ error, (processFile o (b.driver uuid5) build default_flags p f).errors =
      p.errors ++ [error]) ∨
    ∃ records, fileRecords o build default_flags f = some records ∧
      Written b uuid5 o M [records] p (processFile o (b.driver uuid5) build default_flags p f) := by
  unfold processFile fileRecords
  cases hflags : resolveFlags o.host.fs o.load_compile_db f (some build) default_flags with
  | error exc => exact Or.inl ⟨_, rfl⟩
  | ok resolved =>
    dsimp only
    obtain ⟨flags, source⟩ := resolved
    have hr : SessionRequest.Among ⟨f, some build, flags, 0, hf⟩ M := hclean flags source hflags
    have hanswer := hfaithful.answer hr
    have hsession := hfaithful.serve hsha1 hr
    change ((p.session.getOrParseSync o.world f (some build) flags 0).result).map Prod.fst =
      o.index_parse ⟨o.host.fs.realpath f, flags, 0⟩ at hanswer
    change Faithful M o.world (p.session.getOrParseSync o.world f (some build) flags 0).session
      at hsession
    rw [← hanswer]
    cases hresult : (p.session.getOrParseSync o.world f (some build) flags 0).result with
    | error exc => exact Or.inl ⟨_, rfl⟩
    | ok unit =>
      dsimp only [Except.map]
      cases hexport : exportFile o.sha1 (b.driver uuid5) f unit.1 p.db with
      | error exc db => exact Or.inl ⟨_, rfl⟩
      | ok counts db =>
        obtain ⟨records, hextract, hstore, ⟨new, hnew, hlen⟩, ⟨new', hnew', hlen'⟩, hc'⟩ :=
          exportFile_written hc hexport
        rw [hextract]
        refine Or.inr ⟨records, rfl, ?_, ⟨new, hnew, ?_⟩, ⟨new', hnew', ?_⟩, hc', hsession⟩
        · rw [writtenAll_cons uuid5 [] hstore, writtenAll_nil]
          rfl
        · rw [hlen]
          rfl
        · rw [hlen']
          rfl

variable (uuid5) in
/-- **A run without errors writes what is in its files,** whichever of their units come from the
cache, and counts what is new. -/
theorem run_written {p : Progress (Servers U)} {files : List Path} (hc : b.connected p.db = true)
    (hfaithful : Faithful M o.world p.session) (hsha1 : Set.InjOn o.sha1.hexdigest M)
    (hfiles : ∀ f ∈ files, FileSystem.Slashless f ∧ CleanFlags o build default_flags M f)
    (herr : (processFiles o (b.driver uuid5) build default_flags p files).errors = p.errors) :
    Written b uuid5 o M (files.filterMap (fileRecords o build default_flags)) p
      (processFiles o (b.driver uuid5) build default_flags p files) := by
  induction files generalizing p with
  | nil =>
    exact ⟨(writtenAll_nil uuid5 _).symm, ⟨[], (List.append_nil _).symm, rfl⟩,
      ⟨[], (List.append_nil _).symm, rfl⟩, hc, hfaithful⟩
  | cons f files ih =>
    obtain ⟨⟨hf, hclean⟩, hfiles⟩ := List.forall_mem_cons.mp hfiles
    have hpre := errors_processFiles o (b.driver uuid5) build default_flags
      (processFile o (b.driver uuid5) build default_flags p f) files
    have herr' : (processFiles o (b.driver uuid5) build default_flags
      (processFile o (b.driver uuid5) build default_flags p f) files).errors = p.errors := herr
    rcases turn_written uuid5 hc hfaithful hsha1 hf hclean with
      ⟨error, herror⟩ | ⟨records, hrecords, hturn⟩
    · -- errors are never taken back
      rw [herror, herr'] at hpre
      exact absurd hpre.length_le (by simp)
    · have herrors : (processFile o (b.driver uuid5) build default_flags p f).errors = p.errors :=
        ((errors_processFiles o (b.driver uuid5) build default_flags p [f]).eq_of_length_le
          (herr' ▸ hpre.length_le)).symm
      rw [List.filterMap_cons_some hrecords]
      exact hturn.trans (ih hturn.connected hturn.faithful hfiles (herr'.trans herrors.symm))

/-! ### Three runs -/

/-- What is collected is a file. -/
theorem isFile_of_collected {fs : FileSystem} {path : Path} {recursive : Bool}
    {files : List Path} (h : collectCppFiles fs path recursive = some files) {f : Path}
    (hf : f ∈ files) : fs.isFile f = true := by
  unfold collectCppFiles at h
  split_ifs at h with hpath hsuffix hrec
  · obtain rfl := Option.some.inj h
    rwa [List.mem_singleton.mp hf]
  · obtain rfl := Option.some.inj h
    exact absurd hf List.not_mem_nil
  · obtain rfl := Option.some.inj h
    rw [sortedPaths, List.mem_insertionSort] at hf
    exact ((Bool.and_eq_true _ _).mp (List.mem_filter.mp hf).2).1
  · obtain ⟨paths, -, rfl⟩ := Option.map_eq_some_iff.mp h
    rw [sortedPaths, List.mem_insertionSort] at hf
    exact ((Bool.and_eq_true _ _).mp (List.mem_filter.mp hf).2).1

/-- What is collected leads to a file, perhaps by way of symbolic links. -/
theorem exists_target_of_collected {fs : FileSystem} {path : Path} {recursive : Bool}
    {files : List Path} (h : collectCppFiles fs path recursive = some files) {f : Path}
    (hf : f ∈ files) : ∃ t, fs.target f = some t := by
  obtain ⟨t, ht, -⟩ := Option.bind_eq_some_iff.mp
    (beq_iff_eq.mp (isFile_of_collected h hf) : fs.stat f = some .file)
  exact ⟨t, ht⟩

/-- The names in a path that is collected have no slash, since they are names of a directory's
entries. -/
theorem slashless_of_collected {fs : FileSystem} {path : Path} {recursive : Bool}
    {files : List Path} (h : collectCppFiles fs path recursive = some files) {f : Path}
    (hf : f ∈ files) : FileSystem.Slashless f :=
  let ⟨_, ht⟩ := exists_target_of_collected h hf
  FileSystem.slash_not_mem_of_target ht

/-- What a request without errors leaves: its files are written, and what is new is counted. -/
structure RunWrites (b : Backend) (uuid5 : String → U) (o : Outside) (M : Set String)
    (rs : List Records) (payload : Payload) (servers : Servers U) (run : Run U) : Prop where
  store : b.store run.servers = writtenAll uuid5 b rs (b.store servers)
  nodes : ∃ new, (b.store run.servers).vertices.keys = (b.store servers).vertices.keys ++ new ∧
    payload.nodes_written = new.length
  edges : ∃ new, (b.store run.servers).edges.keys = (b.store servers).edges.keys ++ new ∧
    payload.edges_written = new.length
  faithful : Faithful M o.world run.session

omit [DecidableEq U] in
/-- Opening or closing the connection leaves what is stored. -/
theorem store_setConnected (b : Backend) (connected : Bool) (s : Servers U) :
    b.store (b.setConnected connected s) = b.store s := by
  cases b <;> rfl

/-- **What a request writes,** when it returns without errors: what is in its files, with what is
new counted, into whatever the session holds and the store has. -/
theorem doIngestCode_writes {req : Request} {checked : Checked} {files : List Path}
    (hchecked : checkRequest o req = .ok checked)
    (hconnect : o.connect (req.db_uri.getD "") = .ok ())
    (hfiles : collectCppFiles o.host.fs checked.validated_input req.recursive = some files)
    (hsha1 : Set.InjOn o.sha1.hexdigest M)
    (hclean : ∀ f ∈ files, CleanFlags o checked.validated_build req.default_flags M f)
    {session : ClangSession Cursor} (hfaithful : Faithful M o.world session) {servers : Servers U}
    {run : Run U} (hrun : run = doIngestCode uuid5 o req session servers) {payload : Payload}
    (hok : run.result = .ok payload) (herr : payload.errors = []) :
    RunWrites checked.backend uuid5 o M
      (files.filterMap (fileRecords o checked.validated_build req.default_flags)) payload servers
      run := by
  rw [doIngestCode_of_checked uuid5 session servers hchecked hconnect hfiles] at hrun
  subst hrun
  obtain rfl := Except.ok.inj hok
  have hc : checked.backend.connected (checked.backend.setConnected true servers) = true := by
    cases checked.backend <;> rfl
  have hwritten := run_written uuid5 (b := checked.backend)
    (p := { session := session, db := checked.backend.setConnected true servers }) hc hfaithful
    hsha1 (fun f hf => ⟨slashless_of_collected hfiles hf, hclean f hf⟩) herr
  obtain ⟨hstore, ⟨new, hnew, hnodes⟩, ⟨new', hnew', hedges⟩, -, hfaithful'⟩ := hwritten
  rw [store_setConnected] at hstore hnew hnew'
  refine ⟨?_, ⟨new, ?_, hnodes.trans (Nat.zero_add _)⟩, ⟨new', ?_, hedges.trans (Nat.zero_add _)⟩,
    hfaithful'⟩
  · rw [store_setConnected]
    exact hstore
  · rw [store_setConnected]
    exact hnew
  · rw [store_setConnected]
    exact hnew'

/-- **The third run changes nothing:** when the same request is made three times, the files
are as they were and no file has an error, the second run creates no node, and the third creates
neither a node nor an edge and leaves the store as it is. -/
theorem third_run_changes_nothing (uuid5 : String → U) (o : Outside) (req : Request) {M : Set String}
    {checked : Checked} {files : List Path} (hchecked : checkRequest o req = .ok checked)
    (hconnect : o.connect (req.db_uri.getD "") = .ok ())
    (hfiles : collectCppFiles o.host.fs checked.validated_input req.recursive = some files)
    (hsha1 : Set.InjOn o.sha1.hexdigest M)
    (hclean : ∀ f ∈ files, CleanFlags o checked.validated_build req.default_flags M f)
    {session : ClangSession Cursor} (hfaithful : Faithful M o.world session) (servers : Servers U)
    {first second third : Run U} (hfirst : first = doIngestCode uuid5 o req session servers)
    (hsecond : second = doIngestCode uuid5 o req first.session first.servers)
    (hthird : third = doIngestCode uuid5 o req second.session second.servers)
    {p₁ p₂ p₃ : Payload} (hok₁ : first.result = .ok p₁) (hok₂ : second.result = .ok p₂)
    (hok₃ : third.result = .ok p₃) (herr₁ : p₁.errors = []) (herr₂ : p₂.errors = [])
    (herr₃ : p₃.errors = []) :
    p₂.nodes_written = 0 ∧ p₃.nodes_written = 0 ∧ p₃.edges_written = 0 ∧
      checked.backend.store third.servers = checked.backend.store second.servers := by
  have hrun₁ := doIngestCode_writes hchecked hconnect hfiles hsha1 hclean hfaithful hfirst hok₁ herr₁
  have hrun₂ := doIngestCode_writes hchecked hconnect hfiles hsha1 hclean hrun₁.faithful hsecond
    hok₂ herr₂
  have hrun₃ := doIngestCode_writes hchecked hconnect hfiles hsha1 hclean hrun₂.faithful hthird
    hok₃ herr₃
  have hvertices : (checked.backend.store second.servers).vertices =
      (checked.backend.store first.servers).vertices := by
    rw [hrun₂.store, hrun₁.store, vertices_writtenAll_twice]
  have hstore : checked.backend.store third.servers = checked.backend.store second.servers := by
    rw [hrun₃.store, hrun₂.store, hrun₁.store, writtenAll_settled]
  obtain ⟨new₂, hnew₂, hnodes₂⟩ := hrun₂.nodes
  obtain ⟨new₃, hnew₃, hnodes₃⟩ := hrun₃.nodes
  obtain ⟨new₃', hnew₃', hedges₃⟩ := hrun₃.edges
  rw [hvertices, List.self_eq_append_right] at hnew₂
  rw [hstore, List.self_eq_append_right] at hnew₃ hnew₃'
  rw [hnodes₂, hnodes₃, hedges₃, hnew₂, hnew₃, hnew₃']
  exact ⟨rfl, rfl, rfl, hstore⟩

/-- The three runs over `/proj`. -/
def thirdRuns : Run String × Run String × Run String :=
  let first := doIngestCode (fun usr => usr) projOutside projRequest .new emptyServers
  let second := doIngestCode (fun usr => usr) projOutside projRequest first.session first.servers
  (first, second,
    doIngestCode (fun usr => usr) projOutside projRequest second.session second.servers)

/-- `third_run_changes_nothing` for the two files of `/proj`, of which the first uses a function of
the second. -/
theorem third_run_changes_nothing_proj :
    Backend.indradb.store thirdRuns.2.2.servers = Backend.indradb.store thirdRuns.2.1.servers := by
  have hchecked : checkRequest projOutside projRequest = .ok ⟨.indradb, ["proj"], ["proj"]⟩ :=
    checkRequest_eq_ok_iff.mpr (by decide +kernel)
  have hfiles : collectCppFiles projOutside.host.fs ["proj"] false =
      some [["proj", "a.cpp"], ["proj", "b.cpp"]] := by decide +kernel
  have hnone : ∀ run : Run String,
      (run.result.toOption.map Payload.errors = some []) →
      ∃ payload, run.result = .ok payload ∧ payload.errors = [] := by
    intro run h
    cases hresult : run.result with
    | error exc =>
      rw [hresult] at h
      exact absurd h (by simp [Except.toOption])
    | ok payload =>
      rw [hresult] at h
      exact ⟨payload, rfl, Option.some.inj h⟩
  obtain ⟨p₁, hok₁, herr₁⟩ := hnone thirdRuns.1 (by decide +kernel)
  obtain ⟨p₂, hok₂, herr₂⟩ := hnone thirdRuns.2.1 (by decide +kernel)
  obtain ⟨p₃, hok₃, herr₃⟩ := hnone thirdRuns.2.2 (by decide +kernel)
  refine (third_run_changes_nothing (fun usr => usr) projOutside projRequest hchecked rfl hfiles
    (Set.injOn_singleton _ (Py.reprTuple (Cache.effectiveFlags [] 0))) (fun f _ flags source hflags => ?_)
    (fun _ hitem => absurd hitem List.not_mem_nil) emptyServers rfl rfl rfl hok₁ hok₂ hok₃ herr₁
    herr₂ herr₃).2.2.2
  have hdefault : resolveFlags projOutside.host.fs projOutside.load_compile_db f
      (some ["proj"]) [] = .ok ([], .default_) := rfl
  obtain ⟨rfl, -⟩ := Prod.mk.inj (Except.ok.inj (hdefault.symm.trans hflags))
  exact ⟨fun _ hflag => absurd hflag List.not_mem_nil, rfl⟩

end Ingest
end CppMcp
