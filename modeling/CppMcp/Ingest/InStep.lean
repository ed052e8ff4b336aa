/-
# The answer does not depend on the database

The two drivers have nothing in common but the protocol, and know a vertex by different names.
But a run on Neo4j and the same run on IndraDB take the same turns: they get the same translation
units from the session, count the same nodes and edges, record the same errors, and leave stores
of one content (`Graph.Twin`).  So the client is answered alike (`backends_agree`), as long as no
call fails, no symbol has two labels and `uuid5` tells the symbols apart.
-/

import CppMcp.Graph.Twin
import CppMcp.Ingest.Accounting

namespace CppMcp
namespace Ingest

open Py (Path)
open Cache (ClangSession)
open Export (Exc Cursor)
open CppMcp.Graph (Backend Client Naming Servers Twin)

/-- The driver has a client, and no call fails. -/
structure Ready {σ : Type} (c : Client σ) : Prop where
  connected : c.connected = true
  answers : ∀ k, c.fault k = none

/-- A client that answers every call is ready once it is connected. -/
theorem Ready.setConnected {σ : Type} {c : Client σ} (h : ∀ k, c.fault k = none) :
    Ready { c with connected := true } := ⟨rfl, h⟩

/-- What is exported is never taken back: a turn adds its unit to those before it, or nothing. -/
theorem exported_processFile {σ : Type} (o : Outside) (driver : Graph.GraphDriver σ) (build : Path)
    (default_flags : List String) (p : Progress σ) (f : Path) :
    p.exported <+: (processFile o driver build default_flags p f).exported := by
  unfold processFile
  split
  · exact List.prefix_rfl
  · dsimp only
    split
    · exact List.prefix_rfl
    · split
      · exact List.prefix_rfl
      · exact List.prefix_append _ _

/-- Nor does the loop take anything back. -/
theorem exported_processFiles {σ : Type} (o : Outside) (driver : Graph.GraphDriver σ) (build : Path)
    (default_flags : List String) (p : Progress σ) (files : List Path) :
    p.exported <+: (processFiles o driver build default_flags p files).exported := by
  induction files generalizing p with
  | nil => exact List.prefix_rfl
  | cons f files ih =>
    exact (exported_processFile o driver build default_flags p f).trans (ih _)

variable {U : Type} {uuid5 : String → U}

/-- **The two runs are in step:** `p` on Neo4j and `p'` on IndraDB differ in the databases only, and
these have one content. -/
structure InStep (N : Naming uuid5) (p p' : Progress (Servers U)) : Prop where
  same : p' = { p with db := p'.db }
  twin : Twin N p.db.neo4j.store p'.db.indradb.store
  neo4j : Ready p.db.neo4j
  indradb : Ready p'.db.indradb

namespace InStep

variable {N : Naming uuid5} {p p' : Progress (Servers U)}

/-- A file that is recorded as an error changes no database. -/
theorem answered_fail (h : InStep N p p') (answer : Cache.Answer Cursor) (f : Path) (exc : Exc) :
    InStep N ((p.answered answer).fail f exc) ((p'.answered answer).fail f exc) where
  same := by
    rw [h.same]
    rfl
  twin := h.twin
  neo4j := h.neo4j
  indradb := h.indradb

/-- An error that is recorded in both runs keeps them in step. -/
theorem fail (h : InStep N p p') (f : Path) (exc : Exc) :
    InStep N (p.fail f exc) (p'.fail f exc) where
  same := by
    rw [h.same]
    rfl
  twin := h.twin
  neo4j := h.neo4j
  indradb := h.indradb

variable [DecidableEq U]

/-- A database that answers every call lets each file through. -/
theorem pass_neo4j_of_ready {s : Servers U} (h : Ready s.neo4j) (records : Records) :
    ∃ counts db, (Backend.neo4j.driver uuid5).pass records.1 records.2 s = .ok counts db := by
  rw [Graph.pass_neo4j uuid5]
  exact ⟨_, _, Graph.onNeo4j_of_ok
    ((Graph.Neo4j.writes_pass records.1 records.2 h.connected).ok fun i _ => h.answers _)⟩

/-- **The records of a file** are written alike: both passes return, with the same counts, and the
stores keep one content. -/
theorem pass (h : InStep N p p') {records : Records} (hrecords : N.Knows records) :
    ∃ counts db db', (Backend.neo4j.driver uuid5).pass records.1 records.2 p.db = .ok counts db ∧
      (Backend.indradb.driver uuid5).pass records.1 records.2 p'.db = .ok counts db' ∧
      Twin N db.neo4j.store db'.indradb.store ∧ Ready db.neo4j ∧ Ready db'.indradb := by
  obtain ⟨hcounts, htwin⟩ := h.twin.pass hrecords
  have hneo4j := Graph.onNeo4j_of_ok (s := p.db)
    ((Graph.Neo4j.writes_pass records.1 records.2 h.neo4j.connected).ok fun i _ =>
      h.neo4j.answers _)
  have hindradb := Graph.onIndradb_of_ok (s := p'.db)
    ((Graph.IndraDB.writes_pass uuid5 records.1 records.2 h.indradb.connected).ok fun i _ =>
      h.indradb.answers _)
  rw [← Graph.pass_neo4j uuid5] at hneo4j
  rw [← Graph.pass_indradb uuid5, ← hcounts] at hindradb
  exact ⟨_, _, _, hneo4j, hindradb, htwin, ⟨h.neo4j.connected, h.neo4j.answers⟩,
    h.indradb.connected, h.indradb.answers⟩

variable (o : Outside) (build : Path) (default_flags : List String)

/-- **A turn keeps the runs in step** if the records of its file keep to the names. -/
theorem turn (h : InStep N p p') {f : Path}
    (hknows : ∀ r ∈ (processFile o (Backend.neo4j.driver uuid5) build default_flags p f).records
      o.sha1, N.Knows r) :
    InStep N (processFile o (Backend.neo4j.driver uuid5) build default_flags p f)
      (processFile o (Backend.indradb.driver uuid5) build default_flags p' f) := by
  have hsession : p'.session = p.session := by rw [h.same]
  unfold processFile at hknows ⊢
  rw [hsession]
  split
  · exact h.fail f _
  · rename_i flags _source hflags
    dsimp only
    split
    · exact h.answered_fail _ f _
    · rename_i tu _hit hresult
      rw [hflags] at hknows
      dsimp only at hknows
      rw [hresult] at hknows
      dsimp only at hknows
      cases hextract : Export.extractNodesAndEdges o.sha1 f.str tu with
      | error exc =>
        rw [exportFile_of_extract_error hextract, exportFile_of_extract_error hextract]
        exact h.answered_fail _ f exc
      | ok records =>
        have hrecords : recordsOf o.sha1 (f, tu) = records := by
          change Export.Acc.getD (Export.extractNodesAndEdges o.sha1 f.str tu) ([], []) = records
          rw [hextract]
          rfl
        obtain ⟨counts, db, hok⟩ := pass_neo4j_of_ready h.neo4j records
        rw [exportFile_of_pass_ok hextract hok] at hknows
        have hfile : N.Knows records :=
          hrecords ▸ hknows _ (List.mem_map_of_mem (List.mem_append_right _ (List.mem_singleton_self _)))
        obtain ⟨counts', db₁, db', hok₁, hok', htwin, hready, hready'⟩ := h.pass hfile
        obtain ⟨rfl, rfl⟩ := EStateM.Result.ok.inj (hok₁.symm.trans hok)
        rw [exportFile_of_pass_ok hextract hok, exportFile_of_pass_ok hextract hok']
        refine ⟨?_, htwin, hready, hready'⟩
        rw [h.same]
        rfl

/-- **A whole run keeps them in step,** if the records of all its files keep to the names. -/
theorem run (h : InStep N p p') {files : List Path}
    (hknows : ∀ r ∈ (processFiles o (Backend.neo4j.driver uuid5) build default_flags p files).records
      o.sha1, N.Knows r) :
    InStep N (processFiles o (Backend.neo4j.driver uuid5) build default_flags p files)
      (processFiles o (Backend.indradb.driver uuid5) build default_flags p' files) := by
  induction files generalizing p p' with
  | nil => exact h
  | cons f files ih =>
    refine ih (h.turn o build default_flags fun r hr => hknows r ?_) hknows
    exact List.map_subset _ (exported_processFiles o _ build default_flags _ files).subset hr

end InStep

/-! ### The request -/

/-- With another URI a request is checked as before, and the driver is the one of that URI. -/
theorem checkRequest_with_db_uri {o : Outside} {req : Request} {db_uri : String} {b b' : Backend}
    (hselect : Graph.selectDriver o.urlparse_raises (req.db_uri.getD "") = .ok b)
    (hselect' : Graph.selectDriver o.urlparse_raises db_uri = .ok b') :
    checkRequest o { req with db_uri := some db_uri } =
      (checkRequest o req).map fun checked => { checked with backend := b' } := by
  have hne : ∀ {uri b}, Graph.selectDriver o.urlparse_raises uri = .ok b → uri ≠ "" := by
    rintro uri b hselect rfl
    exact absurd hselect (by simp [Graph.selectDriver])
  unfold checkRequest
  rw [hselect, Option.getD_some, hselect', if_neg (hne hselect), if_neg (hne hselect')]
  split
  · rfl
  · dsimp only
    split
    · rfl
    · split <;> rfl

variable [DecidableEq U]

/-- **The answer does not depend on the database:** of two databases of one content, the one on
Neo4j and the other on IndraDB, the same request gets the same answer, parses the same files and
leaves the same session, and the databases again have one content. -/
theorem backends_agree {N : Naming uuid5} (o : Outside) (req : Request) {db_uri : String}
    (session : ClangSession Cursor) {servers servers' : Servers U}
    (hselect : Graph.selectDriver o.urlparse_raises (req.db_uri.getD "") = .ok .neo4j)
    (hselect' : Graph.selectDriver o.urlparse_raises db_uri = .ok .indradb)
    (hconnect : o.connect (req.db_uri.getD "") = .ok ()) (hconnect' : o.connect db_uri = .ok ())
    (hanswers : ∀ k, servers.neo4j.fault k = none)
    (hanswers' : ∀ k, servers'.indradb.fault k = none)
    (htwin : Twin N servers.neo4j.store servers'.indradb.store)
    (hknows : ∀ checked cpp_files, checkRequest o req = .ok checked →
      collectCppFiles o.host.fs checked.validated_input req.recursive = some cpp_files →
      ∀ r ∈ (ingestFiles o .neo4j uuid5 checked.validated_build req.default_flags session
        (Backend.neo4j.setConnected true servers) cpp_files).records o.sha1, N.Knows r) :
    let run := doIngestCode uuid5 o req session servers
    let run' := doIngestCode uuid5 o { req with db_uri := some db_uri } session servers'
    run'.result = run.result ∧ run'.session = run.session ∧ run'.parse_calls = run.parse_calls ∧
      Twin N run.servers.neo4j.store run'.servers.indradb.store := by
  have hcheck := checkRequest_with_db_uri hselect hselect'
  unfold doIngestCode
  rw [hcheck]
  cases hchecked : checkRequest o req with
  | error exc => exact ⟨rfl, rfl, rfl, htwin⟩
  | ok checked =>
    have hbackend : checked.backend = .neo4j :=
      Except.ok.inj ((checkRequest_eq_ok_iff.mp hchecked).2.2.1.symm.trans hselect)
    dsimp only [Except.map]
    rw [hconnect, Option.getD_some, hconnect', hbackend]
    dsimp only
    cases hfiles : collectCppFiles o.host.fs checked.validated_input req.recursive with
    | none => exact ⟨rfl, rfl, rfl, htwin⟩
    | some cpp_files =>
      have hstart : InStep N
          { session := session, db := Backend.neo4j.setConnected true servers }
          { session := session, db := Backend.indradb.setConnected true servers' } :=
        ⟨rfl, htwin, .setConnected hanswers, .setConnected hanswers'⟩
      have hrun := hstart.run o checked.validated_build req.default_flags
        (hknows checked cpp_files hchecked hfiles)
      obtain ⟨hsame, htwin', -, -⟩ := hrun
      dsimp only [ingestFiles]
      rw [hsame]
      exact ⟨rfl, rfl, rfl, htwin'⟩

/-- The symbols of `/proj`: its two files and their functions. -/
def projNaming : Naming fun usr : String => usr where
  usrs := Set.univ
  label usr := if usr ∈ ["file:///proj/a.cpp", "file:///proj/b.cpp"] then .file else .function
  injOn _ _ _ _ h := h

/-- `backends_agree` for the two files of `/proj` and empty databases. -/
theorem backends_agree_proj :
    (doIngestCode (fun usr => usr) projOutside projRequest .new emptyServers).result =
      (doIngestCode (fun usr => usr) projOutside
        { projRequest with db_uri := some "bolt://localhost" } .new emptyServers).result := by
  refine (backends_agree (N := projNaming) projOutside
    { projRequest with db_uri := some "bolt://localhost" } .new (by decide +kernel)
    (by decide +kernel) rfl rfl (fun _ => rfl) (fun _ => rfl) (Twin.empty _) ?_).1
  intro checked cpp_files hchecked hfiles r hr
  have hproj : checkRequest projOutside { projRequest with db_uri := some "bolt://localhost" } =
      .ok ⟨.neo4j, ["proj"], ["proj"]⟩ := checkRequest_eq_ok_iff.mpr (by decide +kernel)
  obtain rfl := Except.ok.inj (hproj.symm.trans hchecked)
  have hcollect : collectCppFiles projOutside.host.fs ["proj"] false =
      some [["proj", "a.cpp"], ["proj", "b.cpp"]] := by decide +kernel
  obtain rfl := Option.some.inj (hcollect.symm.trans hfiles)
  have hlabels : ∀ r ∈ (ingestFiles projOutside .neo4j (fun usr => usr) ["proj"] [] .new
      (Backend.neo4j.setConnected true emptyServers)
      [["proj", "a.cpp"], ["proj", "b.cpp"]]).records projOutside.sha1,
      ∀ rec ∈ r.1, rec.label = projNaming.label rec.usr := by decide +kernel
  exact ⟨fun rec hrec => ⟨Set.mem_univ _, hlabels r hr rec hrec⟩,
    fun rec _ => ⟨Set.mem_univ _, Set.mem_univ _⟩⟩

end Ingest
end CppMcp
