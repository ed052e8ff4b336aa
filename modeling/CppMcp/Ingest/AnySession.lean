/-
# The session makes no difference to an ingest run

An ingest run asks the session for one translation unit after the other.  What the session has served
before it, for this tool or another one, changes neither what is answered nor what is written
(`doIngestCode_any_session`), as long as modification times can be trusted and no flag looks like one
that the session adds: the two runs take the same turns.

Which units are asked for depends on the files and the flags alone, so the session can be followed
without the run (`session_doIngestCode`), and the units can be those that all tools share.
-/

import CppMcp.Cache.Dated
import CppMcp.Ingest.Again

namespace CppMcp
namespace Ingest

open Py (Path)
open Files (FileSystem)
open Cache (ClangSession Current Dated FlagsAmong SessionRequest World)
open Export (Acc Cursor)
open CppMcp.Graph (GraphDriver Servers)

/-- The flags of the files of the request can be told apart by the cache. -/
def CleanIngest (o : Outside) (req : Request) (M : Set String) : Prop :=
  ∀ checked cpp_files, checkRequest o req = .ok checked →
    collectCppFiles o.host.fs checked.validated_input req.recursive = some cpp_files →
    ∀ f ∈ cpp_files, CleanFlags o checked.validated_build req.default_flags M f

/-- Without a compilation database only the default flags count. -/
theorem CleanIngest.of_default {o : Outside} {req : Request} {M : Set String}
    (hload : ∀ build, o.load_compile_db build = none) (hflags : FlagsAmong M req.default_flags 0) :
    CleanIngest o req M := by
  intro checked cpp_files _ _ f _ flags source hresolve
  dsimp only [resolveFlags] at hresolve
  rw [hload] at hresolve
  split at hresolve
  · exact nomatch hresolve
  · obtain ⟨rfl, -⟩ := Prod.mk.inj (Except.ok.inj hresolve)
    exact hflags

/-! ### Two runs that take the same turns -/

/-- The runs differ in the session and in the calls of libclang only, and both sessions are current. -/
structure SameTurns {σ : Type} (W : Set (World Cursor)) (M : Set String) (p p' : Progress σ) :
    Prop where
  same : p' = { p with session := p'.session, parse_calls := p'.parse_calls }
  left : Current W M p.session
  right : Current W M p'.session

section Turns

variable {σ : Type} {W : Set (World Cursor)} {M : Set String} {o : Outside} {driver : GraphDriver σ}
  {build : Path} {default_flags : List String} {p p' : Progress σ}

/-- **A turn on any session is the same turn:** the same error or the same records, and both
sessions stay current. -/
theorem SameTurns.turn (h : SameTurns W M p p') (hdated : Dated W M) (hw : o.world ∈ W) {f : Path}
    (hf : FileSystem.Slashless f) (hclean : CleanFlags o build default_flags M f) :
    SameTurns W M (processFile o driver build default_flags p f)
      (processFile o driver build default_flags p' f) := by
  obtain ⟨hsame, hleft, hright⟩ := h
  have hdb : p'.db = p.db := by rw [hsame]
  unfold processFile
  cases hflags : resolveFlags o.host.fs o.load_compile_db f (some build) default_flags with
  | error exc =>
    refine ⟨?_, hleft, hright⟩
    rw [hsame]
    rfl
  | ok resolved =>
    obtain ⟨flags, source⟩ := resolved
    have hr : SessionRequest.Among ⟨f, some build, flags, 0, hf⟩ M := hclean flags source hflags
    have hanswer := hleft.answer hw hr
    have hanswer' := hright.answer hw hr
    have hserve := hleft.serve hdated hw hr
    have hserve' := hright.serve hdated hw hr
    change ((p.session.getOrParseSync o.world f (some build) flags 0).result).map Prod.fst =
      o.index_parse ⟨o.host.fs.realpath f, flags, 0⟩ at hanswer
    change ((p'.session.getOrParseSync o.world f (some build) flags 0).result).map Prod.fst =
      o.index_parse ⟨o.host.fs.realpath f, flags, 0⟩ at hanswer'
    change Current W M (p.session.getOrParseSync o.world f (some build) flags 0).session at hserve
    change Current W M (p'.session.getOrParseSync o.world f (some build) flags 0).session at hserve'
    rw [← hanswer'] at hanswer
    dsimp only
    rw [hdb]
    cases hresult : (p.session.getOrParseSync o.world f (some build) flags 0).result with
    | error exc =>
      cases hresult' : (p'.session.getOrParseSync o.world f (some build) flags 0).result with
      | error exc' =>
        rw [hresult, hresult'] at hanswer
        obtain rfl : exc = exc' := Except.error.inj hanswer
        refine ⟨?_, hserve, hserve'⟩
        rw [hsame]
        rfl
      | ok unit' =>
        rw [hresult, hresult'] at hanswer
        exact nomatch hanswer
    | ok unit =>
      cases hresult' : (p'.session.getOrParseSync o.world f (some build) flags 0).result with
      | error exc' =>
        rw [hresult, hresult'] at hanswer
        exact nomatch hanswer
      | ok unit' =>
        rw [hresult, hresult'] at hanswer
        have hunit : unit.1 = unit'.1 := Except.ok.inj hanswer
        dsimp only
        rw [hunit]
        cases exportFile o.sha1 driver f unit'.1 p.db with
        | error exc db =>
          refine ⟨?_, hserve, hserve'⟩
          rw [hsame]
          rfl
        | ok counts db =>
          refine ⟨?_, hserve, hserve'⟩
          rw [hsame]
          rfl

/-- **A run on any session is the same run,** by induction on its files. -/
theorem SameTurns.run (h : SameTurns W M p p') (driver : GraphDriver σ) (hdated : Dated W M)
    (hw : o.world ∈ W) {cpp_files : List Path}
    (hfiles : ∀ f ∈ cpp_files, FileSystem.Slashless f ∧ CleanFlags o build default_flags M f) :
    SameTurns W M (processFiles o driver build default_flags p cpp_files)
      (processFiles o driver build default_flags p' cpp_files) := by
  induction cpp_files generalizing p p' with
  | nil => exact h
  | cons f cpp_files ih =>
    obtain ⟨hf, hcpp_files⟩ := List.forall_mem_cons.mp hfiles
    exact ih (h.turn hdated hw hf.1 hf.2) hcpp_files

end Turns

section Request

variable {U : Type} [DecidableEq U] (uuid5 : String → U) {o : Outside} {req : Request}

/-- **The session makes no difference** to what a request answers and to what it leaves in the
databases. -/
theorem doIngestCode_any_session {W : Set (World Cursor)} {M : Set String} {s s' : ClangSession Cursor}
    (h : Current W M s) (h' : Current W M s') (hdated : Dated W M) (hw : o.world ∈ W)
    (hclean : CleanIngest o req M) (servers : Servers U) :
    (doIngestCode uuid5 o req s servers).result = (doIngestCode uuid5 o req s' servers).result ∧
      (doIngestCode uuid5 o req s servers).servers =
        (doIngestCode uuid5 o req s' servers).servers := by
  unfold doIngestCode
  cases hchecked : checkRequest o req with
  | error exc => exact ⟨rfl, rfl⟩
  | ok checked =>
    dsimp only
    cases o.connect (req.db_uri.getD "") with
    | error exc => exact ⟨rfl, rfl⟩
    | ok _ =>
      dsimp only
      cases hfiles : collectCppFiles o.host.fs checked.validated_input req.recursive with
      | none => exact ⟨rfl, rfl⟩
      | some cpp_files =>
        have hstart : SameTurns W M (σ := Servers U)
            { session := s, db := checked.backend.setConnected true servers }
            { session := s', db := checked.backend.setConnected true servers } := ⟨rfl, h, h'⟩
        have hrun := (hstart.run (checked.backend.driver uuid5) hdated hw fun f hf =>
          ⟨slashless_of_collected hfiles hf, hclean checked cpp_files hchecked hfiles f hf⟩).same
        dsimp only [ingestFiles]
        rw [hrun]
        exact ⟨rfl, rfl⟩

end Request

/-! ### The session without the run -/

/-- The session after it has been asked for the unit of a file. -/
def sessionAfterFile {TU : Type} (w : World TU) (o : Outside) (build : Path)
    (default_flags : List String) (s : ClangSession TU) (f : Path) : ClangSession TU :=
  match resolveFlags o.host.fs o.load_compile_db f (some build) default_flags with
  | .error _ => s
  | .ok (flags, _source) => (s.getOrParseSync w f (some build) flags 0).session

/-- The session after it has been asked for the units of some files. -/
def sessionAfterFiles {TU : Type} (w : World TU) (o : Outside) (build : Path)
    (default_flags : List String) (s : ClangSession TU) (cpp_files : List Path) : ClangSession TU :=
  cpp_files.foldl (sessionAfterFile w o build default_flags) s

/-- The session after a request. -/
def ingestSession {TU : Type} (w : World TU) (o : Outside) (req : Request) (s : ClangSession TU) :
    ClangSession TU :=
  match checkRequest o req, o.connect (req.db_uri.getD "") with
  | .ok checked, .ok () =>
    match collectCppFiles o.host.fs checked.validated_input req.recursive with
    | none => s
    | some cpp_files =>
      sessionAfterFiles w o checked.validated_build req.default_flags s cpp_files
  | _, _ => s

/-- A turn leaves the session as asking for the unit of its file does, whatever becomes of the
export. -/
theorem session_processFile {σ : Type} (o : Outside) (driver : GraphDriver σ) (build : Path)
    (default_flags : List String) (p : Progress σ) (f : Path) :
    (processFile o driver build default_flags p f).session =
      sessionAfterFile o.world o build default_flags p.session f := by
  unfold processFile sessionAfterFile
  cases resolveFlags o.host.fs o.load_compile_db f (some build) default_flags with
  | error exc => rfl
  | ok resolved =>
    dsimp only
    split
    · rfl
    · split <;> rfl

/-- The loop leaves the session as asking for the units of its files does. -/
theorem session_processFiles {σ : Type} (o : Outside) (driver : GraphDriver σ) (build : Path)
    (default_flags : List String) (p : Progress σ) (cpp_files : List Path) :
    (processFiles o driver build default_flags p cpp_files).session =
      sessionAfterFiles o.world o build default_flags p.session cpp_files := by
  induction cpp_files generalizing p with
  | nil => rfl
  | cons f cpp_files ih =>
    refine (ih _).trans ?_
    rw [session_processFile]
    rfl

/-- **What a request leaves in the session** depends on its files and flags alone. -/
theorem session_doIngestCode {U : Type} [DecidableEq U] (uuid5 : String → U) (o : Outside)
    (req : Request) (s : ClangSession Cursor) (servers : Servers U) :
    (doIngestCode uuid5 o req s servers).session = ingestSession o.world o req s := by
  unfold doIngestCode ingestSession
  cases checkRequest o req with
  | error exc => rfl
  | ok checked =>
    dsimp only
    cases o.connect (req.db_uri.getD "") with
    | error exc => rfl
    | ok _ =>
      dsimp only
      cases collectCppFiles o.host.fs checked.validated_input req.recursive with
      | none => rfl
      | some cpp_files => exact session_processFiles ..

section Shared

variable {TU TU' : Type} (f : TU → TU')

/-- Asking for the unit of a file leaves the view of a session as the view of what it leaves. -/
theorem sessionAfterFile_map (w : World TU) (o : Outside) (build : Path)
    (default_flags : List String) (s : ClangSession TU) (file : Path) :
    sessionAfterFile (w.map f) o build default_flags (s.map f) file =
      (sessionAfterFile w o build default_flags s file).map f := by
  unfold sessionAfterFile
  cases resolveFlags o.host.fs o.load_compile_db file (some build) default_flags with
  | error exc => rfl
  | ok resolved =>
    dsimp only
    rw [ClangSession.getOrParseSync_map]

/-- So does asking for the units of some files, one after the other. -/
theorem sessionAfterFiles_map (w : World TU) (o : Outside) (build : Path)
    (default_flags : List String) (s : ClangSession TU) (cpp_files : List Path) :
    sessionAfterFiles (w.map f) o build default_flags (s.map f) cpp_files =
      (sessionAfterFiles w o build default_flags s cpp_files).map f := by
  induction cpp_files generalizing s with
  | nil => rfl
  | cons file cpp_files ih =>
    refine Eq.trans ?_ (ih _)
    rw [← sessionAfterFile_map]
    rfl

/-- **A request to the view of a session leaves the view of what it leaves.** -/
theorem ingestSession_map (w : World TU) (o : Outside) (req : Request) (s : ClangSession TU) :
    ingestSession (w.map f) o req (s.map f) = (ingestSession w o req s).map f := by
  unfold ingestSession
  split
  · split
    · rfl
    · exact sessionAfterFiles_map f w o _ _ s _
  · rfl

/-- **A request leaves a current session current,** whichever files it asks for and whatever fails.
-/
theorem current_ingestSession {W : Set (World TU)} {M : Set String} {w : World TU} {o : Outside}
    {req : Request} {s : ClangSession TU} (h : Current W M s) (hdated : Dated W M) (hw : w ∈ W)
    (hclean : CleanIngest o req M) : Current W M (ingestSession w o req s) := by
  unfold ingestSession
  split
  · rename_i checked hchecked _
    split
    · exact h
    · rename_i cpp_files hfiles
      have hcpp_files : ∀ file ∈ cpp_files, FileSystem.Slashless file ∧
          CleanFlags o checked.validated_build req.default_flags M file := fun file hfile =>
        ⟨slashless_of_collected hfiles hfile, hclean checked cpp_files hchecked hfiles file hfile⟩
      clear hfiles
      induction cpp_files generalizing s with
      | nil => exact h
      | cons file cpp_files ih =>
        obtain ⟨⟨hslashless, hflags⟩, hrest⟩ := List.forall_mem_cons.mp hcpp_files
        refine ih ?_ hrest
        unfold sessionAfterFile
        cases hresolve : resolveFlags o.host.fs o.load_compile_db file
          (some checked.validated_build) req.default_flags with
        | error exc => exact h
        | ok resolved =>
          obtain ⟨flags, source⟩ := resolved
          have hr : SessionRequest.Among ⟨file, some checked.validated_build, flags, 0, hslashless⟩ M :=
            hflags flags source hresolve
          have hserve := h.serve hdated hw hr
          exact hserve
  · exact h

end Shared

end Ingest
end CppMcp
