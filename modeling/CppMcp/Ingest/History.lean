/-
# A database that ingest runs have filled

Ingest requests follow one another, each with the world as it is then and with a session that other
tools may have used in between.  As long as IndraDB answers every call, what it stores is what the
records of all files exported to it load, one after the other, whichever files could not be parsed, and
the counts in the answers add up to what is stored (`leaves_ingestAll`).
-/

import CppMcp.Ingest.Again
import CppMcp.Ingest.InStep
import Mathlib.Algebra.GroupWithZero.Nat

namespace CppMcp
namespace Ingest

open Py (Path)
open Cache (ClangSession)
open Export (Exc Cursor)
open CppMcp.Graph (Backend Client Servers)

/-- A request, with what it meets. -/
structure Call where
  outside : Outside
  request : Request
  session : ClangSession Cursor

/-- The driver that the request is for. -/
def Call.backend (c : Call) : Option Backend :=
  (Graph.selectDriver c.outside.urlparse_raises (c.request.db_uri.getD "")).toOption

/-- What counts if the request is for IndraDB. -/
def Call.onIndradb {α : Type} (c : Call) (x zero : α) : α :=
  if c.backend = some .indradb then x else zero

variable {U : Type} [DecidableEq U] (uuid5 : String → U)

/-- The requests one after the other, each with its answer. -/
def ingestAll : List Call → Servers U → List (Call × Run U) × Servers U
  | [], servers => ([], servers)
  | c :: calls, servers =>
    let run := doIngestCode uuid5 c.outside c.request c.session servers
    let rest := ingestAll calls run.servers
    ((c, run) :: rest.1, rest.2)

/-- The records that a request exports. -/
def exportedRecords (c : Call) (servers : Servers U) : List Records :=
  match checkRequest c.outside c.request with
  | .error _ => []
  | .ok checked =>
    match c.outside.connect (c.request.db_uri.getD ""),
      collectCppFiles c.outside.host.fs checked.validated_input c.request.recursive with
    | .ok (), some cpp_files =>
      (ingestFiles c.outside checked.backend uuid5 checked.validated_build c.request.default_flags
        c.session (checked.backend.setConnected true servers) cpp_files).records c.outside.sha1
    | _, _ => []

/-- The records that the requests export to IndraDB. -/
def recordsAll : List Call → Servers U → List Records
  | [], _ => []
  | c :: calls, servers => c.onIndradb (exportedRecords uuid5 c servers) [] ++
      recordsAll calls (doIngestCode uuid5 c.outside c.request c.session servers).servers

/-- The nodes that an answer counts. -/
def Run.nodes (run : Run U) : ℕ := (run.result.toOption.map Payload.nodes_written).getD 0

/-- The edges that an answer counts. -/
def Run.edges (run : Run U) : ℕ := (run.result.toOption.map Payload.edges_written).getD 0

/-! ### One run -/

variable {uuid5}

/-- From `p` to `p'` the records `rs` have been exported to IndraDB. -/
structure Exports (uuid5 : String → U) (sha1 : Py.Sha1) (rs : List Records)
    (p p' : Progress (Servers U)) : Prop where
  records : p'.records sha1 = p.records sha1 ++ rs
  store : p'.db.indradb.store =
    (Graph.IndraDB.loader uuid5).loadAll rs p.db.indradb.store
  nodes : p'.nodes_written + p.db.indradb.store.vertices.keys.length =
    p.nodes_written + p'.db.indradb.store.vertices.keys.length
  edges : p'.edges_written + p.db.indradb.store.edges.keys.length =
    p.edges_written + p'.db.indradb.store.edges.keys.length
  ready : Ready p'.db.indradb
  extracted : ∀ r ∈ rs, ∃ file_path tu, Export.extractNodesAndEdges sha1 file_path tu = .ok r

/-- A turn that ends with an error before anything is written exports nothing and counts nothing. -/
theorem Exports.of_fail {sha1 : Py.Sha1} {p p' : Progress (Servers U)} (hdb : p'.db = p.db)
    (hexported : p'.exported = p.exported) (hnodes : p'.nodes_written = p.nodes_written)
    (hedges : p'.edges_written = p.edges_written) (h : Ready p.db.indradb) :
    Exports uuid5 sha1 [] p p' where
  records := by rw [Progress.records, hexported, List.append_nil, Progress.records]
  store := by
    rw [hdb]
    rfl
  nodes := by rw [hdb, hnodes]
  edges := by rw [hdb, hedges]
  ready := hdb ▸ h
  extracted _ hr := absurd hr List.not_mem_nil

/-- What is exported in two stretches of a run is exported in it, in this order, and the counts add
up. -/
theorem Exports.trans {sha1 : Py.Sha1} {rs rs' : List Records} {p p' p'' : Progress (Servers U)}
    (h : Exports uuid5 sha1 rs p p') (h' : Exports uuid5 sha1 rs' p' p'') :
    Exports uuid5 sha1 (rs ++ rs') p p'' where
  records := by rw [h'.records, h.records, List.append_assoc]
  store := by
    rw [h'.store, h.store]
    exact (List.foldl_append ..).symm
  nodes := by
    have h₁ := h.nodes
    have h₂ := h'.nodes
    omega
  edges := by
    have h₁ := h.edges
    have h₂ := h'.edges
    omega
  ready := h'.ready
  extracted r hr := (List.mem_append.mp hr).elim (h.extracted r) (h'.extracted r)

variable (uuid5) (o : Outside) (build : Path) (default_flags : List String)

/-- **A turn exports the records of its file,** or nothing where the file cannot be parsed or
extracted. -/
theorem exports_turn {p : Progress (Servers U)} (h : Ready p.db.indradb) (f : Path) :
    ∃ rs, Exports uuid5 o.sha1 rs p
      (processFile o (Backend.indradb.driver uuid5) build default_flags p f) := by
  unfold processFile
  split
  · exact ⟨[], .of_fail rfl rfl rfl rfl h⟩
  · dsimp only
    split
    · exact ⟨[], .of_fail rfl rfl rfl rfl h⟩
    · rename_i tu _hit _
      cases hextract : Export.extractNodesAndEdges o.sha1 f.str tu with
      | error exc =>
        rw [exportFile_of_extract_error hextract]
        exact ⟨[], .of_fail rfl rfl rfl rfl h⟩
      | ok records =>
        have hpass := Graph.onIndradb_of_ok (s := p.db)
          ((Graph.IndraDB.writes_pass uuid5 records.1 records.2 h.connected).ok fun i _ =>
            h.answers _)
        rw [← Graph.pass_indradb uuid5] at hpass
        rw [exportFile_of_pass_ok hextract hpass]
        obtain ⟨new, hnew, hlen⟩ := Graph.IndraDB.putNodes_grows uuid5 records.1 p.db.indradb.store
        obtain ⟨new', hnew', hlen'⟩ := Graph.IndraDB.putEdges_grows uuid5 records.2
          (Graph.IndraDB.Store.putNodes uuid5 records.1 p.db.indradb.store).2
        rw [Graph.IndraDB.edges_putNodes] at hnew'
        refine ⟨[records], ?_, rfl, ?_, ?_, ⟨h.connected, h.answers⟩, ?_⟩
        · have hrecords : recordsOf o.sha1 (f, tu) = records := by
            change Export.Acc.getD (Export.extractNodesAndEdges o.sha1 f.str tu) ([], []) = records
            rw [hextract]
            rfl
          rw [← hrecords]
          exact List.map_append
        · change p.nodes_written + (Graph.IndraDB.Store.putNodes uuid5 records.1 _).1 + _ =
            p.nodes_written + (Graph.IndraDB.Store.putEdges uuid5 records.2 _).2.vertices.keys.length
          rw [Graph.IndraDB.vertices_putEdges, hnew, List.length_append, hlen]
          omega
        · change p.edges_written + (Graph.IndraDB.Store.putEdges uuid5 records.2 _).1 + _ =
            p.edges_written + (Graph.IndraDB.Store.putEdges uuid5 records.2 _).2.edges.keys.length
          rw [hnew', List.length_append, hlen']
          omega
        · intro r hr
          rw [List.mem_singleton.mp hr]
          exact ⟨f.str, tu, hextract⟩

/-- **A run exports the records of its files,** of those that could be parsed. -/
theorem exports_run {p : Progress (Servers U)} (h : Ready p.db.indradb) (files : List Path) :
    ∃ rs, Exports uuid5 o.sha1 rs p
      (processFiles o (Backend.indradb.driver uuid5) build default_flags p files) := by
  induction files generalizing p with
  | nil => exact ⟨[], .of_fail rfl rfl rfl rfl h⟩
  | cons f files ih =>
    obtain ⟨rs, hturn⟩ := exports_turn uuid5 o build default_flags h f
    obtain ⟨rs', hrest⟩ := ih hturn.ready
    exact ⟨rs ++ rs', hturn.trans hrest⟩

/-! ### A run on the other database -/

omit [DecidableEq U] in
/-- A program of the Neo4j driver leaves IndraDB alone. -/
theorem indradb_after_onNeo4j {α : Type} (x : Graph.Action (Client Graph.Neo4j.Store) α)
    (s : Servers U) : (Graph.after (Graph.onNeo4j x) s).indradb = s.indradb := by
  unfold Graph.after Graph.onNeo4j
  cases x s.neo4j <;> rfl

/-- A file that is exported to Neo4j leaves IndraDB alone. -/
theorem indradb_exportFile_neo4j (sha1 : Py.Sha1) (f : Path) (tu : Cursor) (s : Servers U) :
    (Graph.after (exportFile sha1 (Backend.neo4j.driver uuid5) f tu) s).indradb = s.indradb := by
  cases hextract : Export.extractNodesAndEdges sha1 f.str tu with
  | error exc => rw [Graph.after_of_error (exportFile_of_extract_error hextract s)]
  | ok records => rw [after_exportFile hextract, Graph.pass_neo4j, indradb_after_onNeo4j]

/-- The loop of a run on Neo4j leaves IndraDB alone. -/
theorem indradb_processFiles_neo4j (p : Progress (Servers U)) (files : List Path) :
    (processFiles o (Backend.neo4j.driver uuid5) build default_flags p files).db.indradb =
      p.db.indradb := by
  induction files generalizing p with
  | nil => rfl
  | cons f files ih =>
    refine (ih _).trans ?_
    unfold processFile
    split
    · rfl
    · dsimp only
      split
      · rfl
      · rename_i tu _hit _
        have hafter := indradb_exportFile_neo4j uuid5 o.sha1 f tu p.db
        split <;> rename_i hexport
        · rw [Graph.after_of_error hexport] at hafter
          exact hafter
        · rw [Graph.after_of_ok hexport] at hafter
          exact hafter

/-! ### One request -/

variable {uuid5}

/-- What a request leaves in IndraDB, and what it counts there. -/
structure Leaves (uuid5 : String → U) (rs : List Records) (nodes edges : ℕ)
    (servers servers' : Servers U) : Prop where
  store : servers'.indradb.store =
    (Graph.IndraDB.loader uuid5).loadAll rs servers.indradb.store
  nodes_eq : nodes + servers.indradb.store.vertices.keys.length =
    servers'.indradb.store.vertices.keys.length
  edges_eq : edges + servers.indradb.store.edges.keys.length =
    servers'.indradb.store.edges.keys.length
  answers : ∀ k, servers'.indradb.fault k = none
  extracted : ∀ r ∈ rs, ∃ sha1 file_path tu, Export.extractNodesAndEdges sha1 file_path tu = .ok r

/-- A request that leaves the store as it was exports nothing to it and counts nothing. -/
theorem Leaves.of_store_eq {servers servers' : Servers U}
    (hstore : servers'.indradb.store = servers.indradb.store)
    (hanswers : ∀ k, servers'.indradb.fault k = none) : Leaves uuid5 [] 0 0 servers servers' where
  store := hstore
  nodes_eq := by rw [hstore, Nat.zero_add]
  edges_eq := by rw [hstore, Nat.zero_add]
  answers := hanswers
  extracted _ hr := absurd hr List.not_mem_nil

/-- What counts alike for both backends is not asked for the backend. -/
theorem Call.onIndradb_self {α : Type} (c : Call) (x : α) : c.onIndradb x x = x := ite_self x

/-- The loop of a request. -/
def Call.loop (uuid5 : String → U) (c : Call) (checked : Checked) (servers : Servers U)
    (cpp_files : List Path) : Progress (Servers U) :=
  ingestFiles c.outside checked.backend uuid5 checked.validated_build c.request.default_flags
    c.session (checked.backend.setConnected true servers) cpp_files

variable (uuid5)

/-- **The two fates of a request:** it raises before the loop and exports nothing, or it runs the
loop. -/
theorem call_cases (c : Call) (servers : Servers U) :
    (∃ exc servers', doIngestCode uuid5 c.outside c.request c.session servers =
        ⟨.error exc, c.session, servers', []⟩ ∧ exportedRecords uuid5 c servers = [] ∧
        servers'.indradb.store = servers.indradb.store ∧
        servers'.indradb.fault = servers.indradb.fault) ∨
    ∃ checked cpp_files, c.backend = some checked.backend ∧
      (doIngestCode uuid5 c.outside c.request c.session servers).servers =
        checked.backend.setConnected false (c.loop uuid5 checked servers cpp_files).db ∧
      (doIngestCode uuid5 c.outside c.request c.session servers).nodes =
        (c.loop uuid5 checked servers cpp_files).nodes_written ∧
      (doIngestCode uuid5 c.outside c.request c.session servers).edges =
        (c.loop uuid5 checked servers cpp_files).edges_written ∧
      exportedRecords uuid5 c servers =
        (c.loop uuid5 checked servers cpp_files).records c.outside.sha1 := by
  unfold exportedRecords
  cases hchecked : checkRequest c.outside c.request with
  | error exc =>
    refine Or.inl ⟨exc, servers, ?_, rfl, rfl, rfl⟩
    unfold doIngestCode
    rw [hchecked]
  | ok checked =>
    dsimp only
    cases hconnect : c.outside.connect (c.request.db_uri.getD "") with
    | error exc =>
      refine Or.inl ⟨connectExc (c.request.db_uri.getD "") exc, servers, ?_, rfl, rfl, rfl⟩
      unfold doIngestCode
      rw [hchecked]
      dsimp only
      rw [hconnect]
    | ok connected =>
      cases hfiles : collectCppFiles c.outside.host.fs checked.validated_input
        c.request.recursive with
      | none =>
        refine Or.inl ⟨⟨"NotADirectoryError", "[Errno 20] Not a directory: " ++
          Py.repr checked.validated_input.str⟩, checked.backend.setConnected true servers, ?_, rfl,
          ?_, ?_⟩
        · unfold doIngestCode
          rw [hchecked]
          dsimp only
          rw [hconnect]
          dsimp only
          rw [hfiles]
        · cases checked.backend <;> rfl
        · cases checked.backend <;> rfl
      | some cpp_files =>
        have hrun := doIngestCode_of_checked uuid5 c.session servers hchecked hconnect hfiles
        rw [hrun]
        refine Or.inr ⟨checked, cpp_files, ?_, rfl, rfl, rfl, rfl⟩
        rw [Call.backend, (checkRequest_eq_ok_iff.mp hchecked).2.2.1]
        rfl

/-- **What one request leaves,** whatever becomes of it: what it has exported is loaded, and what is
new is counted. -/
theorem leaves_call (c : Call) {servers : Servers U}
    (hanswers : ∀ k, servers.indradb.fault k = none) {run : Run U}
    (h : doIngestCode uuid5 c.outside c.request c.session servers = run) :
    Leaves uuid5 (c.onIndradb (exportedRecords uuid5 c servers) []) (c.onIndradb run.nodes 0)
      (c.onIndradb run.edges 0) servers run.servers := by
  subst h
  rcases call_cases uuid5 c servers with
    ⟨exc, servers', hrun, hrecords, hstore, hfault⟩ |
    ⟨⟨backend, build, input⟩, cpp_files, hbackend, hservers, hnodes, hedges, hrecords⟩
  · rw [hrun, hrecords]
    change Leaves uuid5 (c.onIndradb [] []) (c.onIndradb 0 0) (c.onIndradb 0 0) servers servers'
    rw [Call.onIndradb_self, Call.onIndradb_self]
    exact .of_store_eq hstore (hfault ▸ hanswers)
  · rw [hservers, hnodes, hedges, hrecords]
    cases backend with
    | neo4j =>
      have hother : ∀ {α : Type} (x zero : α), c.onIndradb x zero = zero := fun x zero =>
        if_neg (by rw [hbackend]; simp)
      rw [hother, hother, hother]
      have hindradb := indradb_processFiles_neo4j uuid5 c.outside build
        c.request.default_flags
        { session := c.session, db := Backend.neo4j.setConnected true servers } cpp_files
      refine .of_store_eq (congrArg Client.store hindradb) fun k => ?_
      exact (congrArg (fun client => client.fault k) hindradb).trans (hanswers k)
    | indradb =>
      have hthis : ∀ {α : Type} (x zero : α), c.onIndradb x zero = x := fun x zero =>
        if_pos hbackend
      rw [hthis, hthis, hthis]
      obtain ⟨rs, hexports⟩ := exports_run uuid5 c.outside build c.request.default_flags
        (p := { session := c.session, db := Backend.indradb.setConnected true servers })
        (.setConnected hanswers) cpp_files
      rw [show (c.loop uuid5 ⟨.indradb, build, input⟩ servers cpp_files).records c.outside.sha1 = rs
        from hexports.records]
      exact ⟨hexports.store, hexports.nodes.trans (Nat.zero_add _),
        hexports.edges.trans (Nat.zero_add _), hexports.ready.answers,
        fun r hr => ⟨_, hexports.extracted r hr⟩⟩

/-! ### A history of requests -/

variable {uuid5}

/-- What two requests leave, one after the other, is what both export, and their counts add up. -/
theorem Leaves.trans {rs rs' : List Records} {m n m' n' : ℕ} {servers servers' servers'' : Servers U}
    (h : Leaves uuid5 rs m n servers servers') (h' : Leaves uuid5 rs' m' n' servers' servers'') :
    Leaves uuid5 (rs ++ rs') (m + m') (n + n') servers servers'' where
  store := by
    rw [h'.store, h.store]
    exact (List.foldl_append ..).symm
  nodes_eq := by
    have h₁ := h.nodes_eq
    have h₂ := h'.nodes_eq
    omega
  edges_eq := by
    have h₁ := h.edges_eq
    have h₂ := h'.edges_eq
    omega
  answers := h'.answers
  extracted r hr := (List.mem_append.mp hr).elim (h.extracted r) (h'.extracted r)

variable (uuid5)

/-- The nodes that the answers of requests to IndraDB count. -/
def nodesCounted (answers : List (Call × Run U)) : ℕ :=
  (answers.map fun answer => answer.1.onIndradb answer.2.nodes 0).sum

/-- The edges that the answers of requests to IndraDB count. -/
def edgesCounted (answers : List (Call × Run U)) : ℕ :=
  (answers.map fun answer => answer.1.onIndradb answer.2.edges 0).sum

/-- **What a history of requests leaves:** all that has been exported is loaded, and all that is
stored has been counted. -/
theorem leaves_ingestAll (calls : List Call) {servers : Servers U}
    (hanswers : ∀ k, servers.indradb.fault k = none) :
    Leaves uuid5 (recordsAll uuid5 calls servers) (nodesCounted (ingestAll uuid5 calls servers).1)
      (edgesCounted (ingestAll uuid5 calls servers).1) servers
      (ingestAll uuid5 calls servers).2 := by
  induction calls generalizing servers with
  | nil => exact .of_store_eq rfl hanswers
  | cons c calls ih =>
    have hcall := leaves_call uuid5 c hanswers rfl
    exact hcall.trans (ih hcall.answers)

end Ingest
end CppMcp
