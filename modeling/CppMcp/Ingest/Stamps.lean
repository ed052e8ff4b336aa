/-
# Who stamped a File node

Every File node that an export writes carries the `SCHEMA_VERSION` of the code that writes it: the
node of the exported file, and those of the files that it includes.  Both drivers write properties
over those that are stored.

So a File node has the version of the last export that wrote it, be it an export of that file
or of one that includes it (`schema_version_of_last_writer`).  A header that is exported
by old code, or by none, has the current version as soon as a file that includes it is
exported (`included_not_honest`).
-/

import CppMcp.Export.Emitted
import CppMcp.Export.Typed
import CppMcp.Graph.Converge
import CppMcp.Graph.Relabel
import CppMcp.Ingest.Atomic
import CppMcp.Ingest.Includes
import CppMcp.Lib.Overwrites

namespace CppMcp
namespace Ingest

open Py (Path)
open Export (Exc Cursor NodeRecord EdgeRecord NodeSite PropVal fileUsr fileNode)
open CppMcp.Graph (Action Client GraphDriver Backend Servers Writes after after_of_ok after_of_error
  withUsr)

/-! ### Code of another version -/

/-- The record as code whose `SCHEMA_VERSION` is `version` makes it. -/
def stamped (version : String) (rec : NodeRecord) : NodeRecord :=
  { rec with
    props := rec.props.map fun item =>
      if item.1 = "schema_version" then ("schema_version", .str version) else item }

/-- `export_file` of such code. -/
def exportFileAs {σ : Type} (version : String) (sha1 : Py.Sha1) (driver : GraphDriver σ)
    (file_path : Path) (tu : Cursor) : Action σ (ℕ × ℕ) := do
  let records ← ofAcc (Export.extractNodesAndEdges sha1 file_path.str tu)
  driver.pass (records.1.map (stamped version)) records.2

/-- What the sites make is what code of the current version makes. -/
theorem stamped_of_site {sha1 : Py.Sha1} {n : NodeRecord} (h : NodeSite sha1 n) :
    stamped Export.SCHEMA_VERSION n = n := by
  obtain ⟨label, usr, props⟩ := n
  refine congrArg (NodeRecord.mk label usr)
    ((List.map_congr_left fun item hitem => ?_).trans props.map_id)
  obtain ⟨key, value⟩ := item
  split_ifs with hkey
  · cases hkey
    rw [(h.version hitem).2]
    rfl
  · rfl

section Export

variable {σ : Type} {version : String} {sha1 : Py.Sha1} {driver : GraphDriver σ} {file_path : Path}
  {tu : Cursor} {records : Records} {exc : Exc}

/-- Where the extraction raises, code of any version raises, and writes nothing. -/
theorem exportFileAs_of_error
    (herr : Export.extractNodesAndEdges sha1 file_path.str tu = .error exc) (s : σ) :
    exportFileAs version sha1 driver file_path tu s = .error exc s :=
  Graph.bind_of_error (ofAcc_error herr s)

/-- Where it does not, code of any version passes over the records with its own stamp on them. -/
theorem exportFileAs_of_ok
    (hrecords : Export.extractNodesAndEdges sha1 file_path.str tu = .ok records) (s : σ) :
    exportFileAs version sha1 driver file_path tu s =
      driver.pass (records.1.map (stamped version)) records.2 s :=
  Graph.bind_of_ok (ofAcc_ok hrecords s)

/-- **The code under `src/` is the code of the current version.** -/
theorem after_exportFileAs_current (s : σ) :
    after (exportFileAs Export.SCHEMA_VERSION sha1 driver file_path tu) s =
      after (exportFile sha1 driver file_path tu) s := by
  cases hextract : Export.extractNodesAndEdges sha1 file_path.str tu with
  | error exc =>
    rw [after_of_error (exportFile_of_extract_error hextract s),
      after_of_error (exportFileAs_of_error hextract s)]
  | ok records =>
    have hsame : records.1.map (stamped Export.SCHEMA_VERSION) = records.1 :=
      (List.map_congr_left fun n hn =>
        stamped_of_site ((Export.site_of_mem_extract hextract).1 n hn)).trans (List.map_id _)
    rw [after_exportFile hextract, after, exportFileAs_of_ok hextract, hsame, after]

end Export

/-! ### What a pass over the records does to a stamp -/

/-- The program returns. -/
def returns {σ α : Type} (x : Action σ α) (s : σ) : Bool :=
  match x s with
  | .ok _ _ => true
  | .error _ _ => false

/-- A program on the Neo4j client returns on both servers exactly if it returns there. -/
theorem returns_onNeo4j {U α : Type} (x : Action (Client Graph.Neo4j.Store) α) (s : Servers U) :
    returns (Graph.onNeo4j x) s = returns x s.neo4j := by
  unfold returns Graph.onNeo4j
  cases x s.neo4j <;> rfl

/-- A program on the IndraDB client returns on both servers exactly if it returns there. -/
theorem returns_onIndradb {U α : Type} (x : Action (Client (Graph.IndraDB.Store U)) α)
    (s : Servers U) : returns (Graph.onIndradb x) s = returns x s.indradb := by
  unfold returns Graph.onIndradb
  cases x s.indradb <;> rfl

/-- A stamp after a program that has to set it to `value` if `sets` holds: it is set, or it has
stayed, which is possible if there was nothing to set or the program has been broken off. -/
inductive Restamped {γ : Type} (sets : Prop) (returned : Bool) (value : γ) (old : Option γ) :
    Option γ → Prop
  | stayed (h : sets → returned = false) : Restamped sets returned value old old
  | set (h : sets) : Restamped sets returned value old (some value)

section Pass

variable {U : Type} [DecidableEq U] {uuid5 : String → U}

/-- One of the records sets the version of vertex `v`. -/
def Stamps (uuid5 : String → U) (b : Backend) (nodes : List NodeRecord) (v : b.Vertex U) : Prop :=
  ∃ n ∈ nodes, b.vertexOf uuid5 n = v ∧ "schema_version" ∈ n.props.map Prod.fst

/-- All records have the same version. -/
def OneVersion (nodes : List NodeRecord) (version : PropVal) : Prop :=
  ∀ n ∈ nodes, ∀ value, ("schema_version", value) ∈ n.props → value = version

/-- Setting the USR leaves the other properties as they are. -/
theorem mem_withUsr {props : Export.Props} {usr key : String} {value : PropVal}
    (hkey : key ≠ "usr") : (key, value) ∈ withUsr props usr ↔ (key, value) ∈ props := by
  unfold withUsr
  split_ifs
  · rw [List.mem_map]
    constructor
    · rintro ⟨item, hitem, heq⟩
      split_ifs at heq with h
      · exact absurd (congrArg Prod.fst heq).symm hkey
      · exact heq ▸ hitem
    · exact fun h => ⟨_, h, if_neg hkey⟩
  · rw [List.mem_append, List.mem_singleton]
    exact or_iff_left fun heq => hkey (congrArg Prod.fst heq)

/-- Setting the USR neither adds nor takes away a version. -/
theorem version_mem_withUsr {props : Export.Props} {usr : String} :
    "schema_version" ∈ (withUsr props usr).map Prod.fst ↔
      "schema_version" ∈ props.map Prod.fst := by
  simp only [List.mem_map, Prod.exists, exists_and_right, exists_eq_right,
    mem_withUsr (by decide : "schema_version" ≠ "usr")]

/-- Where all records are written the stamp is theirs, if one of them has a version. -/
theorem restamped_upsertAll {V A : Type} [DecidableEq V] [PropertyGraph.HasProps A String PropVal]
    (vertex : NodeRecord → V) (start : NodeRecord → A)
    (hstart : ∀ n, PropertyGraph.HasProps.props (start n) = .empty) {nodes : List NodeRecord}
    {version : PropVal} (hone : OneVersion nodes version) (d : OrderedDict V A) (v : V)
    (returned : Bool) :
    Restamped (∃ n ∈ nodes, vertex n = v ∧ "schema_version" ∈ n.props.map Prod.fst) returned version
      (PropertyGraph.propOf d v "schema_version")
      (PropertyGraph.propOf (OrderedDict.upsertAll (nodes.map fun n =>
        PropertyGraph.writeProps (vertex n) (start n) (withUsr n.props n.usr)) d) v
        "schema_version") := by
  by_cases hsets : ∃ n ∈ nodes, vertex n = v ∧ "schema_version" ∈ n.props.map Prod.fst
  · rw [PropertyGraph.propOf_upsertAll_of_mem hstart
      (fun n hn _ value hvalue => hone n hn value ((mem_withUsr (by decide)).mp hvalue))
      (by simpa only [version_mem_withUsr] using hsets)]
    exact .set hsets
  · rw [PropertyGraph.propOf_upsertAll_of_not_mem hstart
      fun n hn hv hmem => hsets ⟨n, hn, hv, version_mem_withUsr.mp hmem⟩]
    exact .stayed fun h => absurd h hsets

/-- A program is judged by the stores that it may leave. -/
theorem restamped_of_writes {σ α γ : Type} {x : Action (Client σ) α} {c : Client σ} {n : ℕ} {a : α}
    {done : σ} {left : ℕ → σ} (h : Writes x c n a done left) (stamp : σ → Option γ) {sets : Prop}
    {value : γ} (hdone : Restamped sets true value (stamp c.store) (stamp done))
    (hleft : ∀ i, Restamped sets false value (stamp c.store) (stamp (left i))) :
    Restamped sets (returns x c) value (stamp c.store) (stamp (after x c).store) ∧
      (after x c).connected = c.connected := by
  rcases c.failsAt_or n with hok | ⟨i, hi⟩
  · rw [returns, after, h.ok hok]
    exact ⟨hdone, rfl⟩
  · obtain ⟨exc, hexc⟩ := h.error i hi
    rw [returns, after, hexc]
    exact ⟨hleft i, rfl⟩

omit [DecidableEq U] in
/-- On Neo4j the nodes of a file are one transaction: if it is committed all of them are restamped,
and if not, none. -/
theorem neo4j_restamped (uuid5 : String → U) {c : Client Graph.Neo4j.Store} (records : Records)
    {version : PropVal} (hc : c.connected = true) (hone : OneVersion records.1 version)
    (v : Graph.Neo4j.NodeKey) :
    let pass := Graph.Neo4j.driver.pass records.1 records.2
    Restamped (Stamps uuid5 .neo4j records.1 v) (returns pass c) version
      (PropertyGraph.propOf c.store.vertices v "schema_version")
      (PropertyGraph.propOf (after pass c).store.vertices v "schema_version") ∧
    (after pass c).connected = c.connected := by
  have hnodes : ∀ returned, Restamped (Stamps uuid5 .neo4j records.1 v) returned version
      (PropertyGraph.propOf c.store.vertices v "schema_version")
      (PropertyGraph.propOf (Graph.Neo4j.Store.putNodes records.1 c.store).2.vertices v
        "schema_version") := by
    rw [Graph.Neo4j.Store.putNodes, Graph.Neo4j.vertices_mergeNodes]
    exact restamped_upsertAll (fun n => (n.label, n.usr)) (fun _ => .empty) (fun _ => rfl) hone
      c.store.vertices v
  refine restamped_of_writes (Graph.Neo4j.writes_pass records.1 records.2 hc)
    (fun s => PropertyGraph.propOf s.vertices v "schema_version") ?_ fun i => ?_
  · rw [Graph.Neo4j.vertices_putEdges]
    exact hnodes true
  · split_ifs
    · exact .stayed fun _ => rfl
    · exact hnodes false

/-- A request as writing the nodes leads to: a vertex is made without properties, and a property is
one of a node. -/
def NodeRequest (uuid5 : String → U) (nodes : List NodeRecord) : Graph.IndraDB.Request U → Prop
  | .addVertex _ a => a.2 = .empty
  | .setVertex v key value => ∃ n ∈ nodes, uuid5 n.usr = v ∧ (key, value) ∈ withUsr n.props n.usr
  | _ => True

/-- Every request that a file leads to is of that kind: those of its edges touch no vertex. -/
theorem nodeRequest_of_mem {records : Records} {s : Graph.IndraDB.Store U}
    {r : Graph.IndraDB.Request U}
    (h : r ∈ Graph.IndraDB.fileRequests uuid5 records.1 records.2 s) :
    NodeRequest uuid5 records.1 r := by
  rcases List.mem_append.mp h with h | h
  · obtain ⟨n, hn, s', h⟩ := Graph.mem_requestsAll h
    rcases List.mem_cons.mp h with rfl | h
    · trivial
    rcases List.mem_append.mp h with h | h
    · split_ifs at h
      · exact absurd h List.not_mem_nil
      · rw [List.mem_singleton.mp h]
        exact rfl
    · obtain ⟨item, hitem, rfl⟩ := List.mem_map.mp h
      exact ⟨n, hn, rfl, hitem⟩
  · obtain ⟨e, -, s', h⟩ := Graph.mem_requestsAll h
    rcases List.mem_cons.mp h with rfl | h
    · trivial
    rcases List.mem_append.mp h with h | h
    · split_ifs at h
      · exact absurd h List.not_mem_nil
      · rcases List.mem_pair.mp h with rfl | rfl <;> trivial
    · obtain ⟨item, -, rfl⟩ := List.mem_map.mp h
      trivial

/-- Each request to IndraDB stays as it is sent. -/
theorem indradb_restamped (uuid5 : String → U) {c : Client (Graph.IndraDB.Store U)}
    (records : Records) {version : PropVal} (hc : c.connected = true)
    (hone : OneVersion records.1 version) (v : U) :
    let pass := (Graph.IndraDB.driver uuid5).pass records.1 records.2
    Restamped (Stamps uuid5 .indradb records.1 v) (returns pass c) version
      (PropertyGraph.propOf c.store.vertices v "schema_version")
      (PropertyGraph.propOf (after pass c).store.vertices v "schema_version") ∧
    (after pass c).connected = c.connected := by
  refine restamped_of_writes (Graph.IndraDB.writes_pass uuid5 records.1 records.2 hc)
    (fun s => PropertyGraph.propOf s.vertices v "schema_version") ?_ fun i => ?_
  · rw [Graph.IndraDB.vertices_putEdges, Graph.IndraDB.vertices_putNodes]
    exact restamped_upsertAll (fun n => uuid5 n.usr) (fun n => (n.label, .empty)) (fun _ => rfl)
      hone c.store.vertices v true
  · have hrequests : ∀ r ∈ (Graph.IndraDB.fileRequests uuid5 records.1 records.2 c.store).take i,
        NodeRequest uuid5 records.1 r := fun r hr => nodeRequest_of_mem (List.mem_of_mem_take hr)
    rcases PropertyGraph.propOf_runAll_cases (fun v a h => hrequests _ h) c.store v
      "schema_version" with h | ⟨value, hmem, h⟩
    · rw [h]
      exact .stayed fun _ => rfl
    · obtain ⟨n, hn, hv, hvalue⟩ := hrequests _ hmem
      have hvalue := (mem_withUsr (by decide)).mp hvalue
      rw [h, hone n hn value hvalue]
      exact .set ⟨n, hn, hv, List.mem_map_of_mem hvalue⟩

end Pass

/-! ### One export -/

/-- A call of `export_file`, with the version of the code that makes it. -/
structure FileExport where
  version : String
  file_path : Path
  tu : Cursor

/-- The call writes the File node of the path, if it gets so far. -/
def FileExport.writes (sha1 : Py.Sha1) (e : FileExport) (path : String) : Bool :=
  match Export.extractNodesAndEdges sha1 e.file_path.str e.tu with
  | .ok records => records.1.any fun n => n.label = .file ∧ n.usr = fileUsr path
  | .error _ => false

/-- What a call writes is the node of its file or that of a file it includes. -/
theorem FileExport.isFile_of_writes {sha1 : Py.Sha1} {e : FileExport} {path : String}
    (h : e.writes sha1 path = true) :
    Export.IsFile e.file_path.str (Export.visits e.file_path.str e.tu) path := by
  unfold FileExport.writes at h
  split at h
  next records hrecords =>
    obtain ⟨n, hn, hnode⟩ := List.any_eq_true.mp h
    obtain ⟨hlabel, husr⟩ := of_decide_eq_true hnode
    obtain ⟨-, rfl⟩ := (Export.extract_eq_ok_iff sha1 e.file_path.str).mp hrecords
    cases Export.made_of_mem hn with
    | file _ hfile =>
      rw [← fileUsr_injective husr]
      exact hfile
    | type => exact absurd hlabel (by simp)
    | symbol _ hord _ hs =>
      cases hlabel
      exact absurd List.mem_cons_self (hord.schema_ne hs)
    | param => exact absurd hlabel (by simp)
  next => cases h

/-- A call that extracts its records writes the node of its own file. -/
theorem FileExport.writes_self {sha1 : Py.Sha1} {e : FileExport} {records : Records}
    (h : Export.extractNodesAndEdges sha1 e.file_path.str e.tu = .ok records) :
    e.writes sha1 e.file_path.str = true := by
  rw [FileExport.writes, h]
  exact List.any_eq_true.mpr
    ⟨fileNode e.file_path.str, List.mem_of_head? (head?_extract h), by simp [fileNode]⟩

/-- A stamp changes no name of a property. -/
theorem names_stamped (version : String) (n : NodeRecord) :
    (stamped version n).props.map Prod.fst = n.props.map Prod.fst := by
  rw [stamped, List.map_map]
  refine List.map_congr_left fun item _ => ?_
  rw [Function.comp_apply]
  split_ifs with h
  · exact h.symm
  · rfl

/-- All records that code of a version writes have this one version. -/
theorem oneVersion_stamped (version : String) (nodes : List NodeRecord) :
    OneVersion (nodes.map (stamped version)) (.str version) := by
  intro n hn value hvalue
  obtain ⟨n, -, rfl⟩ := List.mem_map.mp hn
  obtain ⟨item, -, heq⟩ := List.mem_map.mp hvalue
  split_ifs at heq with h
  · exact (congrArg Prod.snd heq).symm
  · exact absurd (congrArg Prod.fst heq) h

section Export

variable {U : Type} [DecidableEq U] {uuid5 : String → U} {sha1 : Py.Sha1}

omit [DecidableEq U] in
/-- The records of a call that set the version of a File node are the File records of its path. -/
theorem stamps_iff_writes (huuid5 : Function.Injective uuid5) (b : Backend) {e : FileExport}
    {records : Records} (h : Export.extractNodesAndEdges sha1 e.file_path.str e.tu = .ok records)
    (path : String) :
    Stamps uuid5 b (records.1.map (stamped e.version)) (b.vertexOf uuid5 (fileNode path)) ↔
      e.writes sha1 path = true := by
  have hvertex : ∀ n : NodeRecord, n.label = .file →
      (b.vertexOf uuid5 n = b.vertexOf uuid5 (fileNode path) ↔ n.usr = fileUsr path) := by
    intro n hlabel
    cases b with
    | neo4j => exact Prod.mk_inj.trans (and_iff_right hlabel)
    | indradb => exact huuid5.eq_iff
  have hstamped : ∀ n, b.vertexOf uuid5 (stamped e.version n) = b.vertexOf uuid5 n := by
    intro n
    cases b <;> rfl
  rw [FileExport.writes, h, List.any_eq_true]
  constructor
  · rintro ⟨m, hm, hv, hname⟩
    obtain ⟨n, hn, rfl⟩ := List.mem_map.mp hm
    rw [names_stamped, ((Export.site_of_mem_extract h).1 n hn).names] at hname
    have hlabel := Export.eq_file_of_version_mem hname
    exact ⟨n, hn, decide_eq_true ⟨hlabel, (hvertex n hlabel).mp ((hstamped n).symm.trans hv)⟩⟩
  · rintro ⟨n, hn, hnode⟩
    obtain ⟨hlabel, husr⟩ := of_decide_eq_true hnode
    refine ⟨_, List.mem_map_of_mem hn, (hstamped n).trans ((hvertex n hlabel).mpr husr), ?_⟩
    rw [names_stamped, ((Export.site_of_mem_extract h).1 n hn).names, hlabel]
    exact List.mem_cons_of_mem _ (List.mem_cons_of_mem _ List.mem_cons_self)

end Export

/-! ### Many exports -/

section Run

variable {U : Type} [DecidableEq U] (uuid5 : String → U) (sha1 : Py.Sha1)

/-- The call, with the driver of a backend. -/
def FileExport.run (b : Backend) (e : FileExport) : Action (Servers U) (ℕ × ℕ) :=
  exportFileAs e.version sha1 (b.driver uuid5) e.file_path e.tu

/-- The calls are made one after the other; of each it is kept whether it returns. -/
def exportAll (b : Backend) : List FileExport → Servers U → List (FileExport × Bool) × Servers U
  | [], s => ([], s)
  | e :: exports, s =>
    let rest := exportAll b exports (after (e.run uuid5 sha1 b) s)
    ((e, returns (e.run uuid5 sha1 b) s) :: rest.1, rest.2)

/-- The `schema_version` of the node of a file. -/
def stampOf (b : Backend) (path : String) (s : Servers U) : Option PropVal :=
  match b with
  | .neo4j =>
    PropertyGraph.propOf s.neo4j.store.vertices (.file, fileUsr path) "schema_version"
  | .indradb =>
    PropertyGraph.propOf s.indradb.store.vertices (uuid5 (fileUsr path)) "schema_version"

variable {uuid5}

/-- **One call sets the stamps of the nodes that it writes** to its version, unless it raises. -/
theorem restamped_run (huuid5 : Function.Injective uuid5) {b : Backend} {s : Servers U}
    (hc : b.connected s = true) (e : FileExport) (path : String) :
    Restamped (e.writes sha1 path = true) (returns (e.run uuid5 sha1 b) s) (.str e.version)
        (stampOf uuid5 b path s) (stampOf uuid5 b path (after (e.run uuid5 sha1 b) s)) ∧
      b.connected (after (e.run uuid5 sha1 b) s) = true := by
  cases hextract : Export.extractNodesAndEdges sha1 e.file_path.str e.tu with
  | error exc =>
    have hrun : e.run uuid5 sha1 b s = .error exc s := exportFileAs_of_error hextract s
    rw [returns, after_of_error hrun, hrun]
    exact ⟨.stayed fun _ => rfl, hc⟩
  | ok records =>
    have hone := oneVersion_stamped e.version records.1
    have hrun : e.run uuid5 sha1 b s =
        (b.driver uuid5).pass (records.1.map (stamped e.version)) records.2 s :=
      exportFileAs_of_ok hextract s
    rw [returns, after, hrun, ← returns, ← after, ← stamps_iff_writes huuid5 b hextract path]
    cases b with
    | neo4j =>
      obtain ⟨hstamp, hconn⟩ := neo4j_restamped uuid5 (_, records.2) hc hone
        (.file, fileUsr path)
      rw [Graph.pass_neo4j, returns_onNeo4j, stampOf, stampOf, Backend.connected,
        Graph.neo4j_after_onNeo4j]
      exact ⟨hstamp, hconn.trans hc⟩
    | indradb =>
      obtain ⟨hstamp, hconn⟩ := indradb_restamped uuid5 (_, records.2) hc hone
        (uuid5 (fileUsr path))
      rw [Graph.pass_indradb, returns_onIndradb, stampOf, stampOf, Backend.connected,
        Graph.indradb_after_onIndradb]
      exact ⟨hstamp, hconn.trans hc⟩

variable {sha1}

/-- The version of the call that is last in a list. -/
def lastVersion (calls : List (FileExport × Bool)) : Option PropVal :=
  calls.getLast?.map fun call => .str call.1.version

/-- The last version of some calls is that of the last, so one more before them counts only if there
is no other. -/
theorem lastVersion_cons (call : FileExport × Bool) (calls : List (FileExport × Bool))
    (old : Option PropVal) :
    (lastVersion (call :: calls)).or old = (lastVersion calls).or (some (.str call.1.version)) := by
  cases calls with
  | nil => rfl
  | cons c cs =>
    rw [lastVersion, List.getLast?_cons_cons, ← lastVersion, lastVersion]
    rw [List.getLast?_cons]
    rfl

/-- A call that returns has written the node of its file. -/
theorem writes_self_of_returned {b : Backend} {exports : List FileExport} {s : Servers U}
    {call : FileExport × Bool} (hcall : call ∈ (exportAll uuid5 sha1 b exports s).1)
    (hreturned : call.2 = true) : call.1.writes sha1 call.1.file_path.str = true := by
  induction exports generalizing s with
  | nil => exact absurd hcall List.not_mem_nil
  | cons e exports ih =>
    rcases List.mem_cons.mp hcall with rfl | hcall
    · cases hextract : Export.extractNodesAndEdges sha1 e.file_path.str e.tu with
      | ok records => exact FileExport.writes_self hextract
      | error exc =>
        have hrun : e.run uuid5 sha1 b s = .error exc s := exportFileAs_of_error hextract s
        rw [returns, hrun] at hreturned
        cases hreturned
    · exact ih hcall

/-- The calls that have set the stamp of a path: some of those that write it, and at least the ones
of them that return. -/
structure Writers (sha1 : Py.Sha1) (path : String) (calls writers : List (FileExport × Bool)) :
    Prop where
  returned : (calls.filter fun call => call.1.writes sha1 path && call.2).Sublist writers
  writes : writers.Sublist (calls.filter fun call => call.1.writes sha1 path)

/-- For any sequence of calls there are those that have written the node, and the version that it
has is that of the last of them. -/
theorem exists_writers (huuid5 : Function.Injective uuid5) {b : Backend} {s : Servers U}
    (hc : b.connected s = true) (exports : List FileExport) (path : String) :
    ∃ writers, Writers sha1 path (exportAll uuid5 sha1 b exports s).1 writers ∧
      stampOf uuid5 b path (exportAll uuid5 sha1 b exports s).2 =
        (lastVersion writers).or (stampOf uuid5 b path s) := by
  induction exports generalizing s with
  | nil => exact ⟨[], ⟨List.nil_sublist _, List.nil_sublist _⟩, rfl⟩
  | cons e exports ih =>
    obtain ⟨hstamp, hconn⟩ := restamped_run sha1 huuid5 hc e path
    obtain ⟨writers, ⟨hreturned, hwrites⟩, hlast⟩ := ih hconn
    generalize hold : stampOf uuid5 b path s = old at hstamp ⊢
    generalize hnew : stampOf uuid5 b path (after (e.run uuid5 sha1 b) s) = new at hstamp hlast
    rw [exportAll, hlast]
    cases hstamp with
    | stayed h =>
      refine ⟨writers, ⟨?_, hwrites.trans ((List.sublist_cons_self _ _).filter _)⟩, rfl⟩
      rw [List.filter_cons_of_neg]
      · exact hreturned
      · intro hboth
        obtain ⟨hw, hreturns⟩ := Bool.and_eq_true_iff.mp hboth
        rw [h hw] at hreturns
        exact Bool.false_ne_true hreturns
    | set h =>
      refine ⟨(e, returns (e.run uuid5 sha1 b) s) :: writers, ⟨?_, ?_⟩,
        (lastVersion_cons (e, _) writers old).symm⟩
      · rw [List.filter_cons]
        split_ifs
        · exact hreturned.cons_cons _
        · exact hreturned.cons _
      · rw [List.filter_cons_of_pos (p := fun call : FileExport × Bool => call.1.writes sha1 path) h]
        exact hwrites.cons_cons _

/-- **A File node has the version of the last call that wrote it.**  Such a call exports the file
or a file that includes it; a call that returns has written the node of its file. -/
theorem schema_version_of_last_writer (huuid5 : Function.Injective uuid5) {b : Backend}
    {s : Servers U} (hc : b.connected s = true) (exports : List FileExport) (path : String) :
    (∃ writers, Writers sha1 path (exportAll uuid5 sha1 b exports s).1 writers ∧
      stampOf uuid5 b path (exportAll uuid5 sha1 b exports s).2 =
        (lastVersion writers).or (stampOf uuid5 b path s)) ∧
    (∀ e : FileExport, e.writes sha1 path = true →
      Export.IsFile e.file_path.str (Export.visits e.file_path.str e.tu) path) ∧
    ∀ call ∈ (exportAll uuid5 sha1 b exports s).1, call.2 = true →
      call.1.writes sha1 call.1.file_path.str = true := by
  exact ⟨exists_writers huuid5 hc exports path, fun e => e.isFile_of_writes,
    fun call => writes_self_of_returned⟩

/-- The stamps say what has been exported: a file that has been exported has the version of its last
export, and no other file has the current one. -/
structure HonestStamps (uuid5 : String → U) (b : Backend) (calls : List (FileExport × Bool))
    (s : Servers U) : Prop where
  exported : ∀ path, (∃ call ∈ calls, call.1.file_path.str = path) →
    stampOf uuid5 b path s = lastVersion (calls.filter fun call => call.1.file_path.str = path)
  included : ∀ path, (∀ call ∈ calls, call.1.file_path.str ≠ path) →
    stampOf uuid5 b path s ≠ some (.str Export.SCHEMA_VERSION)

end Run

/-! ### A header of an old version -/

/-- The header is exported by old code, and then a file that includes it and another header. -/
def headerExports : List FileExport :=
  [⟨"v1", ["proj", "b.h"], includingTree []⟩,
    ⟨"v2", ["proj", "a.cpp"], includingTree ["/proj/b.h", "/proj/c.h"]⟩]

/-- Both calls, with an empty database that answers. -/
def headerRun (b : Backend) : List (FileExport × Bool) × Servers String :=
  exportAll (fun usr => usr) default b headerExports emptyServers

/-- After the run both headers have the current stamp, on either backend. -/
theorem stamps_headerRun (b : Backend) : ∀ path ∈ ["/proj/b.h", "/proj/c.h"],
    stampOf (fun usr => usr) b path (headerRun b).2 = some (.str Export.SCHEMA_VERSION) := by
  cases b <;> decide +kernel

/-- The header has been exported by old code, and once. -/
theorem lastVersion_headerRun (b : Backend) :
    (∃ call ∈ (headerRun b).1, call.1.file_path.str = "/proj/b.h") ∧
      lastVersion ((headerRun b).1.filter fun call => call.1.file_path.str = "/proj/b.h") =
        some (.str "v1") := by
  have hpath : Py.Path.str ["proj", "b.h"] = "/proj/b.h" := by decide
  refine ⟨⟨_, List.mem_cons_self, hpath⟩, ?_⟩
  cases b <;> decide +kernel

/-- `schema_version_of_last_writer` for the header that has been exported by old code, and then only
included. -/
theorem schema_version_of_last_writer_header :
    ∃ writers, Writers default "/proj/b.h" (headerRun .neo4j).1 writers ∧
      stampOf (fun usr => usr) .neo4j "/proj/b.h" (headerRun .neo4j).2 =
        (lastVersion writers).or (stampOf (fun usr => usr) .neo4j "/proj/b.h" emptyServers) :=
  (schema_version_of_last_writer Function.injective_id rfl headerExports "/proj/b.h").1

/-- **An include makes the stamps of both headers current:** that of the header that old code has
exported last, and that of the header that nothing has exported. -/
theorem included_not_honest :
    ¬HonestStamps (fun usr => usr) .neo4j (headerRun .neo4j).1 (headerRun .neo4j).2 ∧
      ¬HonestStamps (fun usr => usr) .indradb (headerRun .indradb).1 (headerRun .indradb).2 ∧
      (∀ call ∈ (headerRun .neo4j).1, call.1.file_path.str ≠ "/proj/c.h") ∧
      stampOf (fun usr => usr) .neo4j "/proj/c.h" (headerRun .neo4j).2 =
        some (.str Export.SCHEMA_VERSION) := by
  have hdishonest : ∀ b, ¬HonestStamps (fun usr => usr) b (headerRun b).1 (headerRun b).2 := by
    intro b h
    obtain ⟨hexported, hlast⟩ := lastVersion_headerRun b
    have hstamp := h.exported "/proj/b.h" hexported
    rw [stamps_headerRun b _ List.mem_cons_self, hlast] at hstamp
    exact absurd hstamp (by decide)
  exact ⟨hdishonest .neo4j, hdishonest .indradb, by decide +kernel,
    stamps_headerRun .neo4j _ (List.mem_cons_of_mem _ List.mem_cons_self)⟩

end Ingest
end CppMcp
