/-
# Whether a file is exported all at once

The docstrings of `exporter.py` and `neo4j_driver.py` promise one transaction for each file.  But
`export_file` calls the driver twice: on Neo4j the nodes are committed before the
transaction of the edges begins, and on IndraDB each request stays as it is sent.  So a call that
fails may leave a file half exported (`half_exported`).

When it does not is a question of the call that fails (`Backend.HarmlessAt`): on Neo4j it belongs
to the transaction of the nodes, or one of the two transactions finds everything
as it would write it; on IndraDB the requests before it find everything so, or those from it
on do.  `export_atomic_iff` says that this is exact.
-/

import CppMcp.Graph.Failure
import CppMcp.Ingest.Edges

namespace CppMcp
namespace Ingest

open Py (Path)
open Export (Exc Cursor NodeRecord EdgeRecord)
open CppMcp.Graph (Action Client GraphDriver Backend Servers Writes after after_of_ok after_of_error)

/-- The records of a file, its nodes and its edges. -/
abbrev Records := List NodeRecord × List EdgeRecord

section Definitions

variable {U : Type} [DecidableEq U] (uuid5 : String → U)

/-- The store with all nodes and edges of the file. -/
def written (b : Backend) (records : Records) (s : Servers U) :
    PropertyGraph (b.Vertex U) Export.EdgeType b.VertexData Graph.Properties :=
  match b with
  | .neo4j => (Graph.Neo4j.Store.putEdges records.2
      (Graph.Neo4j.Store.putNodes records.1 s.neo4j.store).2).2
  | .indradb => (Graph.IndraDB.Store.putEdges uuid5 records.2
      (Graph.IndraDB.Store.putNodes uuid5 records.1 s.indradb.store).2).2

/-- How many calls write the file. -/
def fileCalls (b : Backend) (records : Records) (s : Servers U) : ℕ :=
  match b with
  | .neo4j => Graph.Neo4j.txCalls records.1 + Graph.Neo4j.txCalls records.2
  | .indradb =>
    (Graph.IndraDB.fileRequests uuid5 records.1 records.2 s.indradb.store).length

/-- Of the next `n` calls of the backend, call `i` is the first that fails. -/
def FailsAt (b : Backend) (s : Servers U) (n i : ℕ) : Prop :=
  match b with
  | .neo4j => s.neo4j.FailsAt n i
  | .indradb => s.indradb.FailsAt n i

/-- **The file is not left half exported if call `i` fails.** -/
def HarmlessAt (b : Backend) (records : Records) (s : Servers U) (i : ℕ) : Prop :=
  match b with
  | .neo4j =>
    let nodes := (Graph.Neo4j.Store.putNodes records.1 s.neo4j.store).2
    i < Graph.Neo4j.txCalls records.1 ∨
      PropertyGraph.Idle (Graph.Neo4j.nodesWrites records.1) s.neo4j.store ∨
      PropertyGraph.Idle (Graph.Neo4j.edgesWrites records.2 nodes) nodes
  | .indradb =>
    let requests := Graph.IndraDB.fileRequests uuid5 records.1 records.2 s.indradb.store
    PropertyGraph.Idle (requests.take i) s.indradb.store ∨
      PropertyGraph.Idle (requests.drop i)
        (PropertyGraph.runAll (requests.take i) s.indradb.store)

end Definitions

/-! ### From the servers to the client -/

section Export

variable {σ : Type} {sha1 : Py.Sha1} {driver : GraphDriver σ} {file_path : Path} {tu : Cursor}
  {records : Records} {s s' : σ} {exc : Exc}

/-- What does not raise goes on with its value. -/
theorem ofAcc_ok {α : Type} {x : Export.Acc α} {a : α} (h : x = .ok a) (s : σ) :
    ofAcc x s = .ok a s := by
  rw [h]
  rfl

/-- What raises ends the program with its exception. -/
theorem ofAcc_error {α : Type} {x : Export.Acc α} (h : x = .error exc) (s : σ) :
    ofAcc x s = .error exc s := by
  rw [h]
  rfl

/-- `export_file` is a pass over the records that it extracts. -/
theorem exportFile_of_pass_ok {counts : ℕ × ℕ}
    (hrecords : Export.extractNodesAndEdges sha1 file_path.str tu = .ok records)
    (h : driver.pass records.1 records.2 s = .ok counts s') :
    exportFile sha1 driver file_path tu s =
      .ok ⟨counts.1, counts.2, records.1.length, records.2.length⟩ s' := by
  obtain ⟨n, s₁, hnodes, h⟩ := Graph.bind_eq_ok.mp h
  obtain ⟨m, s₂, hedges, h⟩ := Graph.bind_eq_ok.mp h
  cases h
  exact (Graph.bind_of_ok (ofAcc_ok hrecords s)).trans
    ((Graph.bind_of_ok hnodes).trans (Graph.bind_of_ok hedges))

/-- Where the pass over the records raises, so does `export_file`, and leaves what the pass leaves.
-/
theorem exportFile_of_pass_error
    (hrecords : Export.extractNodesAndEdges sha1 file_path.str tu = .ok records)
    (h : driver.pass records.1 records.2 s = .error exc s') :
    exportFile sha1 driver file_path tu s = .error exc s' := by
  refine (Graph.bind_of_ok (ofAcc_ok hrecords s)).trans ?_
  unfold GraphDriver.pass at h
  cases hnodes : driver.upsert_nodes records.1 s with
  | error exc' s₁ =>
    rw [Graph.bind_of_error hnodes] at h ⊢
    cases h
    rfl
  | ok n s₁ =>
    rw [Graph.bind_of_ok hnodes] at h ⊢
    cases hedges : driver.upsert_edges records.2 s₁ with
    | error exc' s₂ =>
      rw [Graph.bind_of_error hedges] at h ⊢
      cases h
      rfl
    | ok m s₂ =>
      rw [Graph.bind_of_ok hedges] at h
      exact absurd h (by simp [pure, EStateM.pure])

/-- `export_file` leaves what the pass over its records leaves, whether it returns or raises. -/
theorem after_exportFile
    (hrecords : Export.extractNodesAndEdges sha1 file_path.str tu = .ok records) (s : σ) :
    after (exportFile sha1 driver file_path tu) s = after (driver.pass records.1 records.2) s := by
  cases h : driver.pass records.1 records.2 s with
  | ok counts s' => rw [after_of_ok (exportFile_of_pass_ok hrecords h), after_of_ok h]
  | error exc s' => rw [after_of_error (exportFile_of_pass_error hrecords h), after_of_error h]

/-- Where the extraction raises nothing is written, since it comes before the first call of the
driver. -/
theorem exportFile_of_extract_error
    (herr : Export.extractNodesAndEdges sha1 file_path.str tu = .error exc) (s : σ) :
    exportFile sha1 driver file_path tu s = .error exc s :=
  Graph.bind_of_error (ofAcc_error herr s)

end Export

/-! ### What a file leaves -/

/-- What has been done is nothing or everything exactly when no failing call does harm. -/
theorem atomic_iff_of_writes {σ α : Type} {x : Action (Client σ) α} {c : Client σ} {n : ℕ} {a : α}
    {done : σ} {left : ℕ → σ} (h : Writes x c n a done left) {harmless : ℕ → Prop}
    (hleft : ∀ i, left i = c.store ∨ left i = done ↔ harmless i) :
    ((after x c).store = c.store ∨ (after x c).store = done) ↔
      ∀ i, c.FailsAt n i → harmless i := by
  rcases Graph.store_after_of_writes h with ⟨hnone, hstore⟩ | ⟨i, hi, hstore⟩
  · exact ⟨fun _ i hi => absurd hi (hnone i), fun _ => Or.inr hstore⟩
  · rw [hstore, hleft]
    exact ⟨fun hharm j hj => hi.unique hj ▸ hharm, fun hall => hall i hi⟩

variable {U : Type} [DecidableEq U] {uuid5 : String → U}

/-- **On Neo4j** a file is all there or not at all exactly if a failing call is one of the nodes'
transaction, or one of the two transactions would write nothing. -/
theorem neo4j_atomic_iff {c : Client Graph.Neo4j.Store} (records : Records)
    (hc : c.connected = true) :
    let nodes := (Graph.Neo4j.Store.putNodes records.1 c.store).2
    ((after (Graph.Neo4j.driver.pass records.1 records.2) c).store = c.store ∨
        (after (Graph.Neo4j.driver.pass records.1 records.2) c).store =
          (Graph.Neo4j.Store.putEdges records.2 nodes).2) ↔
      ∀ i, c.FailsAt (Graph.Neo4j.txCalls records.1 + Graph.Neo4j.txCalls records.2) i →
        i < Graph.Neo4j.txCalls records.1 ∨
          PropertyGraph.Idle (Graph.Neo4j.nodesWrites records.1) c.store ∨
          PropertyGraph.Idle (Graph.Neo4j.edgesWrites records.2 nodes) nodes := by
  intro nodes
  refine atomic_iff_of_writes (Graph.Neo4j.writes_pass records.1 records.2 hc) fun i => ?_
  rw [← PropertyGraph.runAll_eq_self_iff, ← PropertyGraph.runAll_eq_self_iff,
    Graph.Neo4j.runAll_nodesWrites, Graph.Neo4j.runAll_edgesWrites]
  split_ifs with hi
  · exact ⟨fun _ => Or.inl hi, fun _ => Or.inl rfl⟩
  · rw [or_iff_right hi]
    exact or_congr_right eq_comm

/-- **On IndraDB** a file is all there or not at all exactly if the requests before a failing call
write nothing, or those from it on. -/
theorem indradb_atomic_iff {c : Client (Graph.IndraDB.Store U)} (records : Records)
    (hc : c.connected = true) :
    let requests := Graph.IndraDB.fileRequests uuid5 records.1 records.2 c.store
    ((after ((Graph.IndraDB.driver uuid5).pass records.1 records.2) c).store = c.store ∨
        (after ((Graph.IndraDB.driver uuid5).pass records.1 records.2) c).store =
          (Graph.IndraDB.Store.putEdges uuid5 records.2
            (Graph.IndraDB.Store.putNodes uuid5 records.1 c.store).2).2) ↔
      ∀ i, c.FailsAt requests.length i →
        PropertyGraph.Idle (requests.take i) c.store ∨
          PropertyGraph.Idle (requests.drop i)
            (PropertyGraph.runAll (requests.take i) c.store) := by
  intro requests
  refine atomic_iff_of_writes (Graph.IndraDB.writes_pass uuid5 records.1 records.2 hc) fun i => ?_
  rw [← PropertyGraph.runAll_eq_self_iff, ← PropertyGraph.runAll_eq_self_iff,
    ← PropertyGraph.runAll_append, List.take_append_drop, Graph.IndraDB.runAll_fileRequests]
  exact or_congr_right eq_comm

/-- Without a client nothing is written, and the pass returns two zeros. -/
theorem store_after_pass_of_not_connected {b : Backend} {s : Servers U} (records : Records)
    (hc : b.connected s = false) :
    b.store (after ((b.driver uuid5).pass records.1 records.2) s) = b.store s := by
  cases b with
  | neo4j =>
    have hpass : Graph.Neo4j.driver.pass records.1 records.2 s.neo4j = .ok (0, 0) s.neo4j :=
      GraphDriver.pass_of_eq_ok (Graph.unlessIdle_of_not_connected hc)
        (Graph.unlessIdle_of_not_connected hc)
    rw [Graph.pass_neo4j uuid5]
    change (after _ s).neo4j.store = _
    rw [Graph.neo4j_after_onNeo4j, after_of_ok hpass]
    rfl
  | indradb =>
    have hpass : (Graph.IndraDB.driver uuid5).pass records.1 records.2 s.indradb =
        .ok (0, 0) s.indradb :=
      GraphDriver.pass_of_eq_ok (Graph.unlessIdle_of_not_connected hc)
        (Graph.unlessIdle_of_not_connected hc)
    rw [Graph.pass_indradb uuid5]
    change (after _ s).indradb.store = _
    rw [Graph.indradb_after_onIndradb, after_of_ok hpass]
    rfl

/-- On either backend a pass is all or nothing exactly if the first call that fails, whichever it
is, does no harm. -/
theorem pass_atomic_iff {b : Backend} {s : Servers U} (records : Records)
    (hc : b.connected s = true) :
    (b.store (after ((b.driver uuid5).pass records.1 records.2) s) = b.store s ∨
        b.store (after ((b.driver uuid5).pass records.1 records.2) s) =
          written uuid5 b records s) ↔
      ∀ i, FailsAt b s (fileCalls uuid5 b records s) i → HarmlessAt uuid5 b records s i := by
  cases b with
  | neo4j =>
    rw [Graph.pass_neo4j uuid5]
    change (after _ s).neo4j.store = _ ∨ (after _ s).neo4j.store = _ ↔ _
    rw [Graph.neo4j_after_onNeo4j]
    exact neo4j_atomic_iff records hc
  | indradb =>
    rw [Graph.pass_indradb uuid5]
    change (after _ s).indradb.store = _ ∨ (after _ s).indradb.store = _ ↔ _
    rw [Graph.indradb_after_onIndradb]
    exact indradb_atomic_iff records hc

/-- **When a file is exported all at once or not at all:** if and only if the call that fails,
should one fail, is harmless. -/
theorem export_atomic_iff (sha1 : Py.Sha1) (uuid5 : String → U) (b : Backend) (file_path : Path)
    (tu : Cursor) (s : Servers U) :
    (b.store (after (exportFile sha1 (b.driver uuid5) file_path tu) s) = b.store s ∨
        ∃ records, Export.extractNodesAndEdges sha1 file_path.str tu = .ok records ∧
          b.store (after (exportFile sha1 (b.driver uuid5) file_path tu) s) =
            written uuid5 b records s) ↔
      (b.connected s = true →
        ∀ records, Export.extractNodesAndEdges sha1 file_path.str tu = .ok records →
          ∀ i, FailsAt b s (fileCalls uuid5 b records s) i → HarmlessAt uuid5 b records s i) := by
  cases hextract : Export.extractNodesAndEdges sha1 file_path.str tu with
  | error exc =>
    rw [after_of_error (exportFile_of_extract_error hextract s)]
    exact ⟨fun _ _ records h => absurd h (by simp), fun _ => Or.inl rfl⟩
  | ok records =>
    simp only [after_exportFile hextract, Except.ok.injEq, exists_eq_left', forall_eq']
    cases hc : b.connected s with
    | false =>
      exact ⟨fun _ h => absurd h (by simp),
        fun _ => Or.inl (store_after_pass_of_not_connected records hc)⟩
    | true => exact (pass_atomic_iff records hc).trans ⟨fun h _ => h, fun h => h rfl⟩

/-- Two empty databases; the Neo4j one fails at its fourth call. -/
def failingServers : Servers String :=
  { emptyServers with
    neo4j :=
      { emptyServers.neo4j with
        fault := fun k => if k = 3 then some ⟨"ServiceUnavailable", "connection lost"⟩ else none } }

/-- **A file is left half exported:** the transaction of the edges fails, and the two nodes
stay without the edge between them. -/
theorem half_exported :
    ¬(Backend.neo4j.store (after (exportFile default (Backend.neo4j.driver fun usr => usr)
          ["proj", "b.cpp"] calleeTree) failingServers) = Backend.neo4j.store failingServers ∨
      ∃ records, Export.extractNodesAndEdges default (Py.Path.str ["proj", "b.cpp"]) calleeTree =
          .ok records ∧
        Backend.neo4j.store (after (exportFile default (Backend.neo4j.driver fun usr => usr)
          ["proj", "b.cpp"] calleeTree) failingServers) =
            written (fun usr => usr) .neo4j records failingServers) := by
  rintro (h | ⟨records, hrecords, h⟩)
  · have hkeys := congrArg (fun store => store.vertices.keys.length) h
    revert hkeys
    decide +kernel
  · have hrec : recordsOf default (["proj", "b.cpp"], calleeTree) = records :=
      congrArg (fun x => Export.Acc.getD x ([], [])) hrecords
    have hkeys := congrArg (fun store => store.edges.keys.length) h
    rw [← hrec] at hkeys
    revert hkeys
    decide +kernel

end Ingest
end CppMcp
