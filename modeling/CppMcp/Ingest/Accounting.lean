/-
# Whether an ingest run adds up

The payload of `_do_ingest_code` counts the files that were exported, the errors, and the nodes
and edges that were created.  Every file is processed or has one error.  But the nodes and
edges of a file are counted when the whole file has been written: what a file has
created in IndraDB before one of its calls fails stays and is not counted
(`uncounted_vertex`).

`accounts_iff` says that the totals are those of the store exactly when no file that fails has
created anything before (`QuietTurn`).
-/

import CppMcp.Graph.Converge
import CppMcp.Ingest.Atomic

namespace CppMcp
namespace Ingest

open Py (Path)
open Cache (ClangSession)
open Export (Exc Cursor)
open CppMcp.Graph (Backend GraphDriver Servers)

/-! ### The turns of a run -/

section Turns

variable {σ : Type} (o : Outside) (driver : GraphDriver σ) (build : Path)
  (default_flags : List String)

/-- The translation unit that is exported in the turn of `cpp_file`. -/
def exportedUnit (p : Progress σ) (cpp_file : Path) : Option Cursor :=
  match resolveFlags o.host.fs o.load_compile_db cpp_file (some build) default_flags with
  | .error _ => none
  | .ok (flags, _source) =>
    match (p.session.getOrParseSync o.world cpp_file (some build) flags 0).result with
    | .error _ => none
    | .ok (tu, _hit) => some tu

/-- What raises in the turn, if anything does. -/
def raised (p : Progress σ) (cpp_file : Path) : Option Exc :=
  match resolveFlags o.host.fs o.load_compile_db cpp_file (some build) default_flags with
  | .error exc => some exc
  | .ok (flags, _source) =>
    match (p.session.getOrParseSync o.world cpp_file (some build) flags 0).result with
    | .error exc => some exc
    | .ok (tu, _hit) =>
      match exportFile o.sha1 driver cpp_file tu p.db with
      | .error exc _ => some exc
      | .ok _ _ => none

/-- The turn has failed: there is one error more, and nothing more is counted. -/
structure Failed (p : Progress σ) (cpp_file : Path) (exc : Exc) (p' : Progress σ) : Prop where
  errors : p'.errors = p.errors ++ [⟨cpp_file.str, exc.typeName, exc.message⟩]
  files_processed : p'.files_processed = p.files_processed
  nodes_written : p'.nodes_written = p.nodes_written
  edges_written : p'.edges_written = p.edges_written

/-- **What a turn does:** it fails before the export, or in it, or the file is exported. -/
theorem turn_cases (p : Progress σ) (cpp_file : Path) :
    (∃ exc, raised o driver build default_flags p cpp_file = some exc ∧
      Failed p cpp_file exc (processFile o driver build default_flags p cpp_file) ∧
      ((exportedUnit o build default_flags p cpp_file = none ∧
          (processFile o driver build default_flags p cpp_file).db = p.db) ∨
        ∃ tu, exportedUnit o build default_flags p cpp_file = some tu ∧
          exportFile o.sha1 driver cpp_file tu p.db =
            .error exc (processFile o driver build default_flags p cpp_file).db)) ∨
    (raised o driver build default_flags p cpp_file = none ∧ ∃ answer tu counts db,
      exportedUnit o build default_flags p cpp_file = some tu ∧
      exportFile o.sha1 driver cpp_file tu p.db = .ok counts db ∧
      processFile o driver build default_flags p cpp_file =
        (p.answered answer).succeed cpp_file tu counts db) := by
  unfold raised exportedUnit processFile
  cases resolveFlags o.host.fs o.load_compile_db cpp_file (some build) default_flags with
  | error exc => exact Or.inl ⟨exc, rfl, ⟨rfl, rfl, rfl, rfl⟩, Or.inl ⟨rfl, rfl⟩⟩
  | ok flags =>
    dsimp only
    cases (p.session.getOrParseSync o.world cpp_file (some build) flags.1 0).result with
    | error exc => exact Or.inl ⟨exc, rfl, ⟨rfl, rfl, rfl, rfl⟩, Or.inl ⟨rfl, rfl⟩⟩
    | ok tu =>
      dsimp only
      cases hexport : exportFile o.sha1 driver cpp_file tu.1 p.db with
      | error exc db =>
        exact Or.inl ⟨exc, rfl, ⟨rfl, rfl, rfl, rfl⟩, Or.inr ⟨tu.1, rfl, hexport⟩⟩
      | ok counts db => exact Or.inr ⟨rfl, _, tu.1, counts, db, rfl, hexport, rfl⟩

/-- The error of a turn. -/
def turnError (turn : Progress σ × Path) : Option FileError :=
  (raised o driver build default_flags turn.1 turn.2).map fun exc =>
    ⟨turn.2.str, exc.typeName, exc.message⟩

/-- The turns of the loop, each with what the ones before it have left. -/
def turns (p : Progress σ) : List Path → List (Progress σ × Path)
  | [] => []
  | cpp_file :: cpp_files =>
    (p, cpp_file) :: turns (processFile o driver build default_flags p cpp_file) cpp_files

/-- **A file is processed or has one error:** each turn adds to one of the two, and never to both.
-/
theorem turn_accounts (p : Progress σ) (cpp_file : Path) :
    (processFile o driver build default_flags p cpp_file).errors =
        p.errors ++ (turnError o driver build default_flags (p, cpp_file)).toList ∧
      (processFile o driver build default_flags p cpp_file).files_processed +
          (turnError o driver build default_flags (p, cpp_file)).toList.length =
        p.files_processed + 1 := by
  unfold turnError
  rcases turn_cases o driver build default_flags p cpp_file with
    ⟨exc, hraised, hfailed, -⟩ | ⟨hraised, answer, tu, counts, db, -, -, heq⟩
  · rw [hraised]
    exact ⟨hfailed.errors, congrArg (· + 1) hfailed.files_processed⟩
  · rw [hraised, heq]
    exact ⟨(List.append_nil _).symm, rfl⟩

/-- The errors of a run are those of its turns, each once and in order. -/
theorem errors_run (p : Progress σ) (cpp_files : List Path) :
    (processFiles o driver build default_flags p cpp_files).errors =
      p.errors ++ (turns o driver build default_flags p cpp_files).filterMap
        (turnError o driver build default_flags) := by
  induction cpp_files generalizing p with
  | nil => exact (List.append_nil _).symm
  | cons cpp_file cpp_files ih =>
    refine (ih _).trans ?_
    rw [(turn_accounts o driver build default_flags p cpp_file).1, List.append_assoc, turns,
      List.filterMap_cons]
    cases turnError o driver build default_flags (p, cpp_file) <;> rfl

/-- The files processed in a run and the turns with an error are together as many as its files. -/
theorem files_processed_run (p : Progress σ) (cpp_files : List Path) :
    (processFiles o driver build default_flags p cpp_files).files_processed +
        ((turns o driver build default_flags p cpp_files).filterMap
          (turnError o driver build default_flags)).length =
      p.files_processed + cpp_files.length := by
  induction cpp_files generalizing p with
  | nil => rfl
  | cons cpp_file cpp_files ih =>
    have hstep := (turn_accounts o driver build default_flags p cpp_file).2
    have hrest := ih (processFile o driver build default_flags p cpp_file)
    have hlength : ((turns o driver build default_flags p (cpp_file :: cpp_files)).filterMap
        (turnError o driver build default_flags)).length =
          (turnError o driver build default_flags (p, cpp_file)).toList.length +
            ((turns o driver build default_flags (processFile o driver build default_flags p cpp_file)
              cpp_files).filterMap (turnError o driver build default_flags)).length := by
      rw [turns, List.filterMap_cons]
      cases turnError o driver build default_flags (p, cpp_file) with
      | none => exact (Nat.zero_add _).symm
      | some error => exact Nat.add_comm _ 1
    rw [hlength, List.length_cons]
    change (processFiles o driver build default_flags
      (processFile o driver build default_flags p cpp_file) cpp_files).files_processed + _ = _
    omega

/-- Every file of a run is processed or has an error. -/
theorem files_accounted (p : Progress σ) (cpp_files : List Path) :
    (processFiles o driver build default_flags p cpp_files).files_processed +
        (processFiles o driver build default_flags p cpp_files).errors.length =
      p.files_processed + p.errors.length + cpp_files.length := by
  have hprocessed := files_processed_run o driver build default_flags p cpp_files
  rw [errors_run, List.length_append]
  omega

end Turns

/-! ### What a turn creates -/

variable {U : Type} [DecidableEq U] (uuid5 : String → U)

section Creates

variable (o : Outside) (build : Path) (default_flags : List String)

/-- **Nothing is created before the turn fails:** none of the requests before the call that fails
adds a vertex or an edge. -/
def QuietTurn (turn : Progress (Servers U) × Path) : Prop :=
  ∀ tu records i, exportedUnit o build default_flags turn.1 turn.2 = some tu →
    Export.extractNodesAndEdges o.sha1 turn.2.str tu = .ok records →
    FailsAt .indradb turn.1.db (fileCalls uuid5 .indradb records turn.1.db) i →
    PropertyGraph.AddsNothing
      ((Graph.IndraDB.fileRequests uuid5 records.1 records.2 turn.1.db.indradb.store).take i)
      turn.1.db.indradb.store

/-- From `p` to `p'` vertices and edges are created, of which some may not be counted; all are
counted if and only if `quiet`. -/
structure Creates (p p' : Progress (Servers U)) (quiet : Prop) : Prop where
  connected : p.db.indradb.connected = true → p'.db.indradb.connected = true
  counts : ∃ vertices edges uncounted uncounted',
    p'.db.indradb.store.vertices.keys = p.db.indradb.store.vertices.keys ++ vertices ∧
    p'.db.indradb.store.edges.keys = p.db.indradb.store.edges.keys ++ edges ∧
    p'.nodes_written + uncounted = p.nodes_written + vertices.length ∧
    p'.edges_written + uncounted' = p.edges_written + edges.length ∧
    (uncounted = 0 ∧ uncounted' = 0 ↔ quiet)

end Creates

namespace Creates

variable {p p' p'' : Progress (Servers U)} {quiet quiet' : Prop}

omit [DecidableEq U] in
/-- The condition under which all is counted may be said in another way. -/
theorem congr (h : Creates p p' quiet) (hiff : quiet ↔ quiet') : Creates p p' quiet' :=
  ⟨h.connected, propext hiff ▸ h.counts⟩

omit [DecidableEq U] in
/-- Where nothing is created nothing is uncounted, so the turn is quiet. -/
theorem of_db_eq (hdb : p'.db = p.db) (hnodes : p'.nodes_written = p.nodes_written)
    (hedges : p'.edges_written = p.edges_written) (hquiet : quiet) : Creates p p' quiet where
  connected hc := hdb ▸ hc
  counts := by
    refine ⟨[], [], 0, 0, ?_, ?_, hnodes, hedges, fun _ => hquiet, fun _ => ⟨rfl, rfl⟩⟩
    · rw [hdb, List.append_nil]
    · rw [hdb, List.append_nil]

omit [DecidableEq U] in
/-- What is created in two stretches of the run is all counted if and only if it is in both. -/
theorem trans (h : Creates p p' quiet) (h' : Creates p' p'' quiet') :
    Creates p p'' (quiet ∧ quiet') where
  connected hc := h'.connected (h.connected hc)
  counts := by
    obtain ⟨vs, es, m, n, hvs, hes, hm, hn, hiff⟩ := h.counts
    obtain ⟨vs', es', m', n', hvs', hes', hm', hn', hiff'⟩ := h'.counts
    refine ⟨vs ++ vs', es ++ es', m + m', n + n', ?_, ?_, ?_, ?_, ?_⟩
    · rw [hvs', hvs, List.append_assoc]
    · rw [hes', hes, List.append_assoc]
    · rw [List.length_append]
      omega
    · rw [List.length_append]
      omega
    · rw [← hiff, ← hiff']
      omega

/-- A file that fails creates what the requests it has sent add. -/
theorem of_requests {rs : List (Graph.IndraDB.Request U)}
    (hconn : p'.db.indradb.connected = p.db.indradb.connected)
    (hstore : p'.db.indradb.store = PropertyGraph.runAll rs p.db.indradb.store)
    (hnodes : p'.nodes_written = p.nodes_written) (hedges : p'.edges_written = p.edges_written) :
    Creates p p' (PropertyGraph.AddsNothing rs p.db.indradb.store) where
  connected hc := hconn.trans hc
  counts := by
    obtain ⟨vs, hvs⟩ := PropertyGraph.vertices_prefix_runAll rs p.db.indradb.store
    obtain ⟨es, hes⟩ := PropertyGraph.edges_prefix_runAll rs p.db.indradb.store
    refine ⟨vs, es, vs.length, es.length, ?_, ?_, by rw [hnodes], by rw [hedges], ?_⟩
    · rw [hstore, hvs]
    · rw [hstore, hes]
    · rw [← PropertyGraph.keys_runAll_eq_iff, ← hvs, ← hes, List.append_right_eq_self,
        List.append_right_eq_self, List.length_eq_zero_iff, List.length_eq_zero_iff]

/-- A file that is exported creates what is counted. -/
theorem of_written {uuid5 : String → U} {records : Records}
    (hconn : p'.db.indradb.connected = p.db.indradb.connected)
    (hstore : p'.db.indradb.store = written uuid5 .indradb records p.db)
    (hnodes : p'.nodes_written =
      p.nodes_written + (Graph.IndraDB.Store.putNodes uuid5 records.1 p.db.indradb.store).1)
    (hedges : p'.edges_written = p.edges_written + (Graph.IndraDB.Store.putEdges uuid5 records.2
      (Graph.IndraDB.Store.putNodes uuid5 records.1 p.db.indradb.store).2).1)
    (hquiet : quiet) : Creates p p' quiet where
  connected hc := hconn.trans hc
  counts := by
    obtain ⟨vs, hvs, hm⟩ := Graph.IndraDB.putNodes_grows uuid5 records.1 p.db.indradb.store
    obtain ⟨es, hes, hn⟩ := Graph.IndraDB.putEdges_grows uuid5 records.2
      (Graph.IndraDB.Store.putNodes uuid5 records.1 p.db.indradb.store).2
    rw [Graph.IndraDB.edges_putNodes] at hes
    refine ⟨vs, es, 0, 0, ?_, ?_, ?_, ?_, fun _ => hquiet, fun _ => ⟨rfl, rfl⟩⟩
    · rw [hstore, ← hvs, written, Graph.IndraDB.vertices_putEdges]
    · rw [hstore, ← hes, written]
    · rw [hnodes, hm, Nat.add_zero]
    · rw [hedges, hn, Nat.add_zero]

end Creates

variable (o : Outside) (build : Path) (default_flags : List String) {p : Progress (Servers U)}

/-- The export of one file on IndraDB: all of it is written, or what has been sent before the
first call that fails. -/
theorem exportFile_indradb_cases {sha1 : Py.Sha1} {cpp_file : Path} {tu : Cursor} {records : Records}
    {s : Servers U} (hc : s.indradb.connected = true)
    (hrecords : Export.extractNodesAndEdges sha1 cpp_file.str tu = .ok records) :
    ((∀ i, ¬FailsAt .indradb s (fileCalls uuid5 .indradb records s) i) ∧ ∃ counts db,
      exportFile sha1 (Backend.indradb.driver uuid5) cpp_file tu s = .ok counts db ∧
      db.indradb.connected = s.indradb.connected ∧
      db.indradb.store = written uuid5 .indradb records s ∧
      counts.nodes_written = (Graph.IndraDB.Store.putNodes uuid5 records.1 s.indradb.store).1 ∧
      counts.edges_written = (Graph.IndraDB.Store.putEdges uuid5 records.2
        (Graph.IndraDB.Store.putNodes uuid5 records.1 s.indradb.store).2).1) ∨
    ∃ i exc db, FailsAt .indradb s (fileCalls uuid5 .indradb records s) i ∧
      exportFile sha1 (Backend.indradb.driver uuid5) cpp_file tu s = .error exc db ∧
      db.indradb.connected = s.indradb.connected ∧
      db.indradb.store = PropertyGraph.runAll ((Graph.IndraDB.fileRequests uuid5 records.1 records.2
        s.indradb.store).take i) s.indradb.store := by
  have hpass := Graph.IndraDB.writes_pass uuid5 records.1 records.2 hc
  have hlift := Graph.pass_indradb uuid5 records.1 records.2
  rcases s.indradb.failsAt_or (fileCalls uuid5 .indradb records s) with hok | ⟨i, hi⟩
  · have hrun := Graph.onIndradb_of_ok (s := s) (hpass.ok hok)
    rw [← hlift] at hrun
    exact Or.inl ⟨fun i hi => hi.fault (hok i hi.lt), _, _, exportFile_of_pass_ok hrecords hrun,
      rfl, rfl, rfl, rfl⟩
  · obtain ⟨exc, hexc⟩ := hpass.error i hi
    have hrun := Graph.onIndradb_of_error (s := s) hexc
    rw [← hlift] at hrun
    exact Or.inr ⟨i, exc, _, hi, exportFile_of_pass_error hrecords hrun, rfl, rfl⟩

/-- **What a turn creates is counted** if the turn is quiet, and only then. -/
theorem creates_turn (hc : p.db.indradb.connected = true) (cpp_file : Path) :
    Creates p (processFile o (Backend.indradb.driver uuid5) build default_flags p cpp_file)
      (QuietTurn uuid5 o build default_flags (p, cpp_file)) := by
  rcases turn_cases o (Backend.indradb.driver uuid5) build default_flags p cpp_file with
    ⟨exc, -, hfailed, hexport⟩ | ⟨-, answer, tu, counts, db, hunit, hexport, heq⟩
  · rcases hexport with ⟨hunit, hdb⟩ | ⟨tu, hunit, hexport⟩
    · refine Creates.of_db_eq hdb hfailed.nodes_written hfailed.edges_written ?_
      intro tu records i htu
      exact absurd (hunit.symm.trans htu) (by simp)
    · cases hrecords : Export.extractNodesAndEdges o.sha1 cpp_file.str tu with
      | error exc' =>
        have hnone := hexport.symm.trans (exportFile_of_extract_error hrecords p.db)
        refine Creates.of_db_eq (EStateM.Result.error.inj hnone).2 hfailed.nodes_written
          hfailed.edges_written ?_
        intro tu' records i htu hrecords'
        obtain rfl := Option.some.inj (hunit.symm.trans htu)
        exact absurd (hrecords.symm.trans hrecords') (by simp)
      | ok records =>
        rcases exportFile_indradb_cases uuid5 hc hrecords with
          ⟨-, counts, db, hok, -⟩ | ⟨i, exc', db, hi, herror, hconn, hstore⟩
        · exact absurd (hexport.symm.trans hok) (by simp)
        · obtain ⟨rfl, rfl⟩ := EStateM.Result.error.inj (herror.symm.trans hexport)
          refine (Creates.of_requests hconn hstore hfailed.nodes_written
            hfailed.edges_written).congr ⟨fun hadds => ?_, fun hquiet => ?_⟩
          · intro tu' records' j htu hrecords' hj
            obtain rfl := Option.some.inj (hunit.symm.trans htu)
            obtain rfl := Except.ok.inj (hrecords.symm.trans hrecords')
            rw [hj.unique hi]
            exact hadds
          · exact hquiet tu records i hunit hrecords hi
  · cases hrecords : Export.extractNodesAndEdges o.sha1 cpp_file.str tu with
    | error exc =>
      exact absurd ((exportFile_of_extract_error hrecords p.db).symm.trans hexport) (by simp)
    | ok records =>
      rcases exportFile_indradb_cases uuid5 hc hrecords with
        ⟨hnone, counts', db', hok, hconn, hstore, hnodes, hedges⟩ | ⟨i, exc, db', -, herror, -⟩
      · obtain ⟨rfl, rfl⟩ := EStateM.Result.ok.inj (hok.symm.trans hexport)
        rw [heq]
        refine Creates.of_written hconn hstore (congrArg (p.nodes_written + ·) hnodes)
          (congrArg (p.edges_written + ·) hedges) ?_
        intro tu' records' i htu hrecords' hi
        obtain rfl := Option.some.inj (hunit.symm.trans htu)
        obtain rfl := Except.ok.inj (hrecords.symm.trans hrecords')
        exact absurd hi (hnone i)
      · exact absurd (hexport.symm.trans herror) (by simp)

/-- **What a run creates is counted** if all its turns are quiet, and only then. -/
theorem creates_run (hc : p.db.indradb.connected = true) (cpp_files : List Path) :
    Creates p (processFiles o (Backend.indradb.driver uuid5) build default_flags p cpp_files)
      (∀ turn ∈ turns o (Backend.indradb.driver uuid5) build default_flags p cpp_files,
        QuietTurn uuid5 o build default_flags turn) := by
  induction cpp_files generalizing p with
  | nil => exact Creates.of_db_eq rfl rfl rfl fun turn hturn => absurd hturn List.not_mem_nil
  | cons cpp_file cpp_files ih =>
    have hturn := creates_turn uuid5 o build default_flags hc cpp_file
    rw [turns]
    exact (hturn.trans (ih (hturn.connected hc))).congr List.forall_mem_cons.symm

/-! ### The whole run -/

/-- **The payload accounts for the run:** every file is processed or has an error, the errors are
`errors`, and as many nodes and edges as it says have been created. -/
structure Accounts (run : Run U) (servers : Servers U) (cpp_files : List Path)
    (errors : List FileError) (payload : Payload) : Prop where
  result : run.result = .ok payload
  files : payload.files_processed + payload.errors.length = cpp_files.length
  errors_eq : payload.errors = errors
  nodes : ∃ new, run.servers.indradb.store.vertices.keys =
    servers.indradb.store.vertices.keys ++ new ∧ new.length = payload.nodes_written
  edges : ∃ new, run.servers.indradb.store.edges.keys =
    servers.indradb.store.edges.keys ++ new ∧ new.length = payload.edges_written

/-- The turns of a run on IndraDB. -/
def runTurns (uuid5 : String → U) (o : Outside) (req : Request) (validated_build : Path)
    (session : ClangSession Cursor) (servers : Servers U) (cpp_files : List Path) :
    List (Progress (Servers U) × Path) :=
  turns o (Backend.indradb.driver uuid5) validated_build req.default_flags
    { session := session, db := Backend.indradb.setConnected true servers } cpp_files

/-- A request that passes all checks runs the loop. -/
theorem doIngestCode_of_checked {o : Outside} {req : Request} (session : ClangSession Cursor)
    (servers : Servers U) {checked : Checked} {cpp_files : List Path}
    (hchecked : checkRequest o req = .ok checked)
    (hconnect : o.connect (req.db_uri.getD "") = .ok ())
    (hfiles : collectCppFiles o.host.fs checked.validated_input req.recursive = some cpp_files) :
    let p := ingestFiles o checked.backend uuid5 checked.validated_build req.default_flags session
      (checked.backend.setConnected true servers) cpp_files
    doIngestCode uuid5 o req session servers =
      ⟨.ok ⟨p.files_processed, p.nodes_written, p.edges_written, p.nodes_attempted,
          p.edges_attempted, p.errors, req.request_id⟩,
        p.session, checked.backend.setConnected false p.db, p.parse_calls⟩ := by
  unfold doIngestCode
  rw [hchecked]
  dsimp only
  rw [hconnect]
  dsimp only
  rw [hfiles]

/-- **When an ingest run adds up:** if and only if no file that fails has created anything. Every
file is processed or has one error in any case; the nodes and edges of a file are counted when all
of it has been written, so what a file has created before one of its calls fails is stored and not
counted. -/
theorem accounts_iff (uuid5 : String → U) {o : Outside} {req : Request}
    (session : ClangSession Cursor) (servers : Servers U) {checked : Checked}
    {cpp_files : List Path} (hchecked : checkRequest o req = .ok checked)
    (hbackend : checked.backend = .indradb) (hconnect : o.connect (req.db_uri.getD "") = .ok ())
    (hfiles : collectCppFiles o.host.fs checked.validated_input req.recursive = some cpp_files) :
    (∃ payload, Accounts (doIngestCode uuid5 o req session servers) servers cpp_files
        ((runTurns uuid5 o req checked.validated_build session servers cpp_files).filterMap
          (turnError o (Backend.indradb.driver uuid5) checked.validated_build req.default_flags))
        payload) ↔
      ∀ turn ∈ runTurns uuid5 o req checked.validated_build session servers cpp_files,
        QuietTurn uuid5 o checked.validated_build req.default_flags turn := by
  have hrun := doIngestCode_of_checked uuid5 session servers hchecked hconnect hfiles
  rw [hbackend] at hrun
  have hcreates := creates_run uuid5 o checked.validated_build req.default_flags
    (p := { session := session, db := Backend.indradb.setConnected true servers }) rfl cpp_files
  obtain ⟨vs, es, m, n, hvs, hes, hm, hn, hquiet⟩ := hcreates.counts
  change _ + m = 0 + vs.length at hm
  change _ + n = 0 + es.length at hn
  have hfiles := files_accounted o (Backend.indradb.driver uuid5) checked.validated_build
    req.default_flags { session := session, db := Backend.indradb.setConnected true servers } cpp_files
  have herrors := errors_run o (Backend.indradb.driver uuid5) checked.validated_build
    req.default_flags { session := session, db := Backend.indradb.setConnected true servers } cpp_files
  rw [runTurns, ← hquiet, hrun]
  constructor
  · rintro ⟨payload, hresult, -, -, ⟨new, hnew, hlen⟩, new', hnew', hlen'⟩
    obtain rfl := Except.ok.inj hresult
    obtain rfl := List.append_cancel_left (hvs.symm.trans hnew)
    obtain rfl := List.append_cancel_left (hes.symm.trans hnew')
    change _ = (processFiles o _ _ _ _ cpp_files).nodes_written at hlen
    change _ = (processFiles o _ _ _ _ cpp_files).edges_written at hlen'
    omega
  · rintro ⟨rfl, rfl⟩
    exact ⟨_, rfl, hfiles.trans (Nat.zero_add _), herrors,
      ⟨vs, hvs, by rw [← Nat.zero_add vs.length, ← hm]; rfl⟩,
      es, hes, by rw [← Nat.zero_add es.length, ← hn]; rfl⟩

/-- Both files of `/proj` are to be ingested into IndraDB. -/
def projRequest : Request :=
  ⟨"/proj", some "/proj", some "indradb://localhost", ["/proj"], [], "", false⟩

/-- Two empty databases; the IndraDB one fails at its third call. -/
def faultyServers : Servers String :=
  { emptyServers with
    indradb :=
      { emptyServers.indradb with
        fault := fun k => if k = 2 then some ⟨"RpcError", "connection lost"⟩ else none } }

/-- **A vertex that is not counted:** the first file fails when its File node has been created,
and the second file is exported; three vertices are stored and two are counted. -/
theorem uncounted_vertex :
    checkRequest projOutside projRequest = .ok ⟨.indradb, ["proj"], ["proj"]⟩ ∧
      collectCppFiles projOutside.host.fs ["proj"] false =
        some [["proj", "a.cpp"], ["proj", "b.cpp"]] ∧
      ¬∃ errors payload, Accounts
        (doIngestCode (fun usr => usr) projOutside projRequest .new faultyServers) faultyServers
        [["proj", "a.cpp"], ["proj", "b.cpp"]] errors payload := by
  refine ⟨checkRequest_eq_ok_iff.mpr (by decide +kernel), by decide +kernel, ?_⟩
  rintro ⟨errors, payload, hresult, -, -, ⟨new, hnew, hlen⟩, -⟩
  have hcounted : (doIngestCode (fun usr => usr) projOutside projRequest .new
      faultyServers).result.toOption.map Payload.nodes_written = some 2 := by decide +kernel
  have hstored : (doIngestCode (fun usr => usr) projOutside projRequest .new
      faultyServers).servers.indradb.store.vertices.keys.length = 3 := by decide +kernel
  rw [hresult] at hcounted
  rw [hnew, List.length_append, hlen] at hstored
  have hwritten : payload.nodes_written = 2 := Option.some.inj hcounted
  rw [hwritten] at hstored
  exact absurd hstored (by decide)

/-- Two empty databases; the IndraDB one fails at its first call. -/
def refusingServers : Servers String :=
  { emptyServers with
    indradb :=
      { emptyServers.indradb with
        fault := fun k => if k = 0 then some ⟨"RpcError", "connection lost"⟩ else none } }


/-- `accounts_iff` for a run whose first file fails before anything has been created, and whose second
file is exported. -/
theorem accounts_iff_failingTurn : ∃ payload,
    Accounts (doIngestCode (fun usr => usr) projOutside projRequest .new refusingServers) refusingServers
      [["proj", "a.cpp"], ["proj", "b.cpp"]] [⟨"/proj/a.cpp", "RpcError", "connection lost"⟩] payload := by
  have hchecked : checkRequest projOutside projRequest = .ok ⟨.indradb, ["proj"], ["proj"]⟩ :=
    checkRequest_eq_ok_iff.mpr (by decide +kernel)
  have hfiles : collectCppFiles projOutside.host.fs ["proj"] false =
      some [["proj", "a.cpp"], ["proj", "b.cpp"]] := by decide +kernel
  have hiff := accounts_iff (fun usr => usr) .new refusingServers hchecked rfl rfl hfiles
  have hfault : ∀ turn ∈ runTurns (fun usr => usr) projOutside projRequest ["proj"] .new refusingServers
      [["proj", "a.cpp"], ["proj", "b.cpp"]], turn.1.db.indradb.fault = refusingServers.indradb.fault := by
    intro turn hturn
    rcases List.mem_cons.mp hturn with rfl | hturn
    · rfl
    · rw [List.mem_singleton.mp hturn]
      rfl
  have herrors : (runTurns (fun usr => usr) projOutside projRequest ["proj"] .new refusingServers
      [["proj", "a.cpp"], ["proj", "b.cpp"]]).filterMap
        (turnError projOutside (Backend.indradb.driver fun usr => usr) ["proj"] []) =
      [⟨"/proj/a.cpp", "RpcError", "connection lost"⟩] := by decide +kernel
  rw [← herrors]
  refine hiff.mpr fun turn hturn tu records i _ _ hi => ?_
  -- only the first call of all fails, so none has been made before the one that does
  have hfirst : turn.1.db.indradb.calls + i = 0 := by
    have hsome := hi.fault
    rw [hfault turn hturn] at hsome
    by_contra hne
    exact hsome (if_neg hne)
  rw [(Nat.add_eq_zero_iff.mp hfirst).2, List.take_zero]
  exact PropertyGraph.keys_runAll_eq_iff.mp ⟨rfl, rfl⟩

end Ingest
end CppMcp
