/-
# What a run exports of a file

When its turn comes, a file is exported from the translation unit that the session has for it, be it
fresh or from the cache (`batchOf`).  What holds of every unit that libclang returns holds of the
units of a run, whatever order they are asked for in (`Turn.unit`).
-/

import CppMcp.Ingest.Accounting
import CppMcp.Ingest.Roots
import CppMcp.Lib.Outline

namespace CppMcp
namespace Ingest

open Py (Path)
open Files (Host)
open Cache (CacheEntry ClangSession ParseCall)
open Export (Acc Cursor extractNodesAndEdges)
open CppMcp.Graph (Backend GraphDriver Servers)

/-- The unit that a session has for a file. -/
def unitOf (o : Outside) (session : ClangSession Cursor) (build : Path) (flags : List String)
    (file : Path) : Option Cursor :=
  ((session.getOrParseSync o.world file (some build) flags 0).result.toOption).map Prod.fst

/-- What is sent to the driver for a file. -/
def batchOf (o : Outside) (session : ClangSession Cursor) (build : Path) (flags : List String)
    (file : Path) : Option Records :=
  (unitOf o session build flags file).bind fun tu =>
    (extractNodesAndEdges o.sha1 file.str tu).toOption

/-- The batch is extracted from the unit. -/
theorem batchOf_eq_some_iff {o : Outside} {session : ClangSession Cursor} {build : Path}
    {flags : List String} {file : Path} {r : Records} :
    batchOf o session build flags file = some r ↔ ∃ tu,
      unitOf o session build flags file = some tu ∧
        extractNodesAndEdges o.sha1 file.str tu = .ok r := by
  rw [batchOf, Option.bind_eq_some_iff]
  exact exists_congr fun tu => and_congr_right fun _ => Except.toOption_eq_some_iff

/-- The entry that the session holds for a file, if it is up to date. -/
def heldEntry (o : Outside) (session : ClangSession Cursor) (build : Path) (flags : List String)
    (file : Path) : Option (CacheEntry Cursor) :=
  session.cache.upToDate (Cache.makeKey o.host.fs o.sha1 file (some build) flags)
    (o.old_mtime (o.host.fs.realpath file))

/-- **The unit of a file** is the one that is held, or else what libclang returns without options. -/
theorem unitOf_eq (o : Outside) (session : ClangSession Cursor) (build : Path) (flags : List String)
    (file : Path) :
    unitOf o session build flags file =
      match heldEntry o session build flags file with
      | some entry => some entry.tu
      | none =>
        (o.index_parse (Cache.parserCall 0 (o.host.fs.realpath file) flags)).toOption := by
  have hresult := session.cache.result_getOrParse o.host.fs o.sha1 o.old_mtime o.new_mtime file
    (some build) flags fun path flags => o.index_parse (Cache.parserCall 0 path flags)
  change (session.getOrParseSync o.world file (some build) flags 0).result = _ at hresult
  rw [unitOf, hresult, heldEntry]
  cases session.cache.upToDate (Cache.makeKey o.host.fs o.sha1 file (some build) flags)
    (o.old_mtime (o.host.fs.realpath file)) with
  | some entry => rfl
  | none =>
    cases o.index_parse (Cache.parserCall 0 (o.host.fs.realpath file) flags) <;> rfl

/-- The entry that is held for a file is stored under the path that the file leads to, and up to date
there. -/
theorem of_heldEntry {o : Outside} {session : ClangSession Cursor} {Q : String → Cursor → Prop}
    (h : session.Holds o.world Q) {build : Path} {flags : List String} {file : Path}
    {entry : CacheEntry Cursor} (hentry : heldEntry o session build flags file = some entry) :
    Q (o.host.fs.realpath file).str entry.tu :=
  h _ (OrderedDict.mem_of_get (Option.eq_some_of_filter_eq_some hentry)) _ rfl
    (of_decide_eq_true (Option.filter_eq_some_iff.mp hentry).2)

/-- Where every file parses, the unit of a file is the tree of its path. -/
theorem unitOf_of_parses {o : Outside} {tree : String → Cursor}
    (hparse : ∀ call, o.index_parse call = .ok (tree call.path.str)) {session : ClangSession Cursor}
    (h : session.Holds o.world fun path tu => tu = tree path) (build : Path) (flags : List String)
    (file : Path) :
    unitOf o session build flags file = some (tree (o.host.fs.realpath file).str) := by
  rw [unitOf_eq]
  cases hentry : heldEntry o session build flags file with
  | some entry => exact congrArg some (of_heldEntry h hentry)
  | none => exact congrArg Except.toOption (hparse _)

section Loop

variable {σ : Type} {o : Outside} {driver : GraphDriver σ} {build : Path}
  {default_flags : List String} {Q : String → Cursor → Prop}

/-- A turn changes the session as a request does, or not at all. -/
theorem holds_processFile (hparse : ∀ call tu, o.index_parse call = .ok tu → Q call.path.str tu)
    {p : Progress σ} (h : p.session.Holds o.world Q) (cpp_file : Path) :
    (processFile o driver build default_flags p cpp_file).session.Holds o.world Q := by
  unfold processFile
  split
  · exact h
  · rename_i flags _ _
    have hstored := h.getOrParseSync hparse cpp_file (some build) flags 0
    dsimp only
    split
    · exact hstored
    · split <;> exact hstored

/-- At each of its turns a run is at one of its files, with a session that holds nothing else. -/
theorem holds_of_mem_turns
    (hparse : ∀ call tu, o.index_parse call = .ok tu → Q call.path.str tu) {p : Progress σ}
    (h : p.session.Holds o.world Q) {cpp_files : List Path} {turn : Progress σ × Path}
    (hturn : turn ∈ turns o driver build default_flags p cpp_files) :
    turn.2 ∈ cpp_files ∧ turn.1.session.Holds o.world Q := by
  induction cpp_files generalizing p with
  | nil => exact absurd hturn List.not_mem_nil
  | cons f cpp_files ih =>
    rcases List.mem_cons.mp hturn with rfl | hturn
    · exact ⟨List.mem_cons_self, h⟩
    · obtain ⟨hmem, hstored⟩ := ih (holds_processFile hparse h f) hturn
      exact ⟨List.mem_cons_of_mem _ hmem, hstored⟩

end Loop

variable {U : Type} [DecidableEq U]

/-- **The run comes to a file:** the request has passed the checks, the database is there, and the
loop has got as far as `progress`. -/
structure Turn (uuid5 : String → U) (o : Outside) (req : Request) (session : ClangSession Cursor)
    (servers : Servers U) (checked : Checked) (progress : Progress (Servers U)) (file : Path) :
    Prop where
  passed : checkRequest o req = .ok checked
  connected : o.connect (req.db_uri.getD "") = .ok ()
  turn : ∃ cpp_files,
    collectCppFiles o.host.fs checked.validated_input req.recursive = some cpp_files ∧
      (progress, file) ∈ turns o (checked.backend.driver uuid5) checked.validated_build
        req.default_flags
        { session := session, db := checked.backend.setConnected true servers } cpp_files

namespace Turn

variable {uuid5 : String → U} {o : Outside} {req : Request} {session : ClangSession Cursor}
  {servers : Servers U} {checked : Checked} {progress : Progress (Servers U)} {file : Path}

/-- **What holds of every unit that libclang returns holds of the unit that is exported.** -/
theorem unit (h : Turn uuid5 o req session servers checked progress file)
    {Q : String → Cursor → Prop} (hsession : session.Holds o.world Q)
    (hparse : ∀ call tu, o.index_parse call = .ok tu → Q call.path.str tu) {flags : List String}
    {tu : Cursor}
    (htu : unitOf o progress.session checked.validated_build flags file = some tu) :
    Q (o.host.fs.realpath file).str tu := by
  obtain ⟨cpp_files, -, hturn⟩ := h.turn
  have hstored := (holds_of_mem_turns hparse hsession hturn).2
  rw [unitOf_eq] at htu
  cases hentry : heldEntry o progress.session checked.validated_build flags file with
  | some entry =>
    rw [hentry] at htu
    exact Option.some.inj htu ▸ of_heldEntry hstored hentry
  | none =>
    rw [hentry] at htu
    exact hparse _ tu (Except.toOption_eq_some_iff.mp htu)

/-- In a directory the file is one that is listed. -/
theorem listed (h : Turn uuid5 o req session servers checked progress file)
    (hdir : o.host.fs.stat checked.validated_input = some .dir) :
    Listed o.host.fs checked.validated_input req.recursive file := by
  obtain ⟨cpp_files, hfiles, hturn⟩ := h.turn
  obtain ⟨files, hfiles', hmem⟩ := mem_collectCppFiles_iff hdir req.recursive
  obtain rfl := Option.some.inj (hfiles.symm.trans hfiles')
  have hany : session.Holds o.world fun _ _ => True := fun _ _ _ _ _ => trivial
  exact (hmem file).mp (holds_of_mem_turns (fun _ _ _ => trivial) hany hturn).1

end Turn

/-! ### A directory with a file and a link to it -/

/-- Nothing outside the server fails but, perhaps, libclang. -/
def parsingOutside (h : Host) (index_parse : ParseCall → Acc Cursor) : Outside where
  host := h
  sha1 := default
  old_mtime _ := some 0
  new_mtime _ := some 0
  index_parse := index_parse
  load_compile_db _ := none
  urlparse_raises _ := none
  connect _ := .ok ()

/-- The run of `/proj`, with any flags and any session, comes to the file and to the link. -/
theorem turn_proj (index_parse : ParseCall → Acc Cursor) {default_flags : List String}
    {session : ClangSession Cursor} {turn : Progress (Servers String) × Path}
    (h : turn ∈ turns (parsingOutside insideHost index_parse)
      (Backend.indradb.driver fun usr : String => usr) ["proj"] default_flags
      { session := session, db := Backend.indradb.setConnected true emptyServers }
      [["proj", "a.cpp"], ["proj", "b.cpp"]]) :
    Turn (fun usr : String => usr) (parsingOutside insideHost index_parse)
      { projRequest with default_flags := default_flags } session emptyServers
      ⟨.indradb, ["proj"], ["proj"]⟩ turn.1 turn.2 := by
  have hselect : Graph.selectDriver (fun _ => none) "indradb://localhost" = .ok .indradb := by
    decide +kernel
  have hdir : Files.validatePath insideHost "/proj" ["/proj"] "dir" = .ok ["proj"] := by
    decide +kernel
  have hfile : Files.validatePath insideHost "/proj" ["/proj"] "file" = .ok ["proj"] := by
    decide +kernel
  have hfiles : collectCppFiles insideHost.fs ["proj"] false =
      some [["proj", "a.cpp"], ["proj", "b.cpp"]] := by
    decide +kernel
  have hgiven : projRequest.db_uri.getD "" ≠ "" ∧ projRequest.build_path.getD "" ≠ "" := by decide
  exact ⟨checkRequest_eq_ok_iff.mpr ⟨hgiven.1, hgiven.2, hselect, hdir, hfile⟩, rfl, _, hfiles, h⟩

end Ingest
end CppMcp
