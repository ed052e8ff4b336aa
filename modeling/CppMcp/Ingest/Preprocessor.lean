/-
# The preprocessor layer of the graph

The exporter makes a `Macro` node of a macro definition and an `INCLUDES` edge of an inclusion
directive.  libclang shows either only in a unit that was parsed with
`PARSE_DETAILED_PROCESSING_RECORD`, for which `get_preprocessor_state` asks; `_do_ingest_code` asks for
nothing.  A directive reaches the graph only if such a unit is in the cache already, under the very
key that ingesting has (`preprocessor_exported_iff`): which takes a flag that looks like the
session's own mark for options.  Without one the layer is empty (`not_exported_of_faithful`).
-/

import CppMcp.Cache.Transparent
import CppMcp.Export.Symbols
import CppMcp.Ingest.Includes
import CppMcp.Ingest.Units

namespace CppMcp
namespace Ingest

open Py (Path)
open Cache (CacheEntry ClangSession ParseCall)
open Export (Cursor Native NodeType extractNodesAndEdges fileUsr safeLocation symbolNodes symbolsOf)
open CppMcp.Graph (Backend Servers)

/-- A `#define`, by the USR of its macro, or an `#include`, by the name of the file that it includes
if there is one. -/
inductive Directive where
  | define (usr : String)
  | include (file : Option String)
  deriving DecidableEq, Repr

/-- `PARSE_DETAILED_PROCESSING_RECORD`, the lowest bit, is among the options. -/
def detailed (options : ℤ) : Bool := options % 2 = 1

/-- A cursor of the preprocessing record. -/
def OfRecord (s : Cursor) : Prop :=
  s.label.kindName = some .macroDefinition ∨ s.label.kindName = some .inclusionDirective

/-- **A unit parsed from a path,** with the preprocessing record or without it; `standing` are the
directives in each file. -/
structure Preprocessed (standing : String → List Directive) (record : Bool) (path : String)
    (t : Cursor) : Prop where
  root : t.label.stopsWalk = false
  native : ∀ s ∈ t.subtrees, s.label.safeUsr = "" ∨ Native s.label.safeUsr
  absent : record = false → ∀ s ∈ t.subtrees, ¬OfRecord s
  macros : ∀ usr, .define usr ∈ standing path → usr ≠ "" ∧ ∀ s ∈ t.subtrees,
    s.label.safeUsr = usr →
      s.label.kindName = some .macroDefinition ∧ (safeLocation s.label.location).1 = path
  defines : record = true → ∀ usr, .define usr ∈ standing path →
    ∃ s ∈ t.children, s.label.safeUsr = usr
  includes : record = true → ∀ file, .include file ∈ standing path →
    ∃ s ∈ t.children, s.label.kindName = some .inclusionDirective ∧
      s.label.get_included_file = .ok (file.map .ok)

/-- The directive has its node or its edge in the batch. -/
def Exported (file_path : String) (r : Records) : Directive → Prop
  | .define usr => (usr, .macro_) ∈ symbolNodes r.1
  | .include file => ∃ name, file = some name ∧
      ⟨fileUsr file_path, fileUsr name, .includes, []⟩ ∈ r.2

/-- Nothing but the missing record keeps the directive from the batch: macros are kept if the file
is exported under the path it was parsed from, includes if there is a file. -/
def Directive.Kept (file_path path : String) : Directive → Prop
  | .define _ => file_path = path
  | .include file => file.isSome

/-- **The session holds a unit with the preprocessing record** for the file, under the key that
ingesting has. -/
def HoldsRecord (o : Outside) (session : ClangSession Cursor) (build : Path) (flags : List String)
    (file : Path) : Prop :=
  ∃ entry, heldEntry o session build flags file = some entry ∧ ∃ s ∈ entry.tu.subtrees, OfRecord s

section Unit

variable {standing : String → List Directive} {record : Bool} {path file_path : String}
  {t : Cursor} {sha1 : Py.Sha1} {r : Records}

/-- What is exported has been seen by the walk. -/
theorem ofRecord_of_exported (ht : Preprocessed standing record path t) (hpath : path ≠ "")
    (hr : extractNodesAndEdges sha1 file_path t = .ok r) {d : Directive} (hd : d ∈ standing path)
    (hexported : Exported file_path r d) :
    (∃ s ∈ t.subtrees, OfRecord s) ∧ d.Kept file_path path := by
  cases d with
  | define usr =>
    have hlookup := (Export.mem_symbolNodes_iff sha1 file_path hr ht.native usr .macro_).mp hexported
    obtain ⟨l₁, l₂, heq, -⟩ := List.lookup_eq_some_iff.mp hlookup
    have hmem : (usr, NodeType.macro_) ∈ symbolsOf file_path t := by
      rw [heq]
      exact List.mem_append_right _ List.mem_cons_self
    obtain ⟨s, hs, hsymbol⟩ := List.mem_filterMap.mp hmem
    have hsub := Export.mem_subtrees_of_mem_reached hs
    obtain ⟨husr, -, hforeign⟩ := Export.of_symbol_eq_some file_path hsymbol
    obtain ⟨hkind, hlocation⟩ := (ht.macros usr hd).2 s hsub husr
    refine ⟨⟨s, hsub, Or.inl hkind⟩, ?_⟩
    have hhere : path = "" ∨ path = file_path := by
      simpa [Export.CursorInfo.foreign, hlocation, Classical.or_iff_not_imp_left] using hforeign
    exact (hhere.resolve_left hpath).symm
  | «include» file =>
    obtain ⟨name, rfl, hedge⟩ := hexported
    have hincludes : (⟨fileUsr file_path, fileUsr name, .includes, []⟩ : Export.EdgeRecord) ∈
        includesEdges r.2 := List.mem_filter.mpr ⟨hedge, rfl⟩
    rw [includes_extract hr] at hincludes
    obtain ⟨name', hname', -⟩ := List.mem_map.mp hincludes
    obtain ⟨s, hs, hincluded⟩ := List.mem_filterMap.mp hname'
    refine ⟨⟨s, Export.mem_subtrees_of_mem_reached hs, Or.inr ?_⟩, rfl⟩
    unfold includedName at hincluded
    split_ifs at hincluded with hkind
    exact hkind

/-- **With the record every directive that is kept is exported:** a macro as a node, an include as
an edge. -/
theorem exported_of_record (ht : Preprocessed standing true path t)
    (hr : extractNodesAndEdges sha1 file_path t = .ok r) {d : Directive} (hd : d ∈ standing path)
    (hkept : d.Kept file_path path) : Exported file_path r d := by
  cases d with
  | define usr =>
    obtain rfl : file_path = path := hkept
    obtain ⟨hne, hmacros⟩ := ht.macros usr hd
    obtain ⟨s, hs, husr⟩ := ht.defines rfl usr hd
    have hreached := Export.mem_reached_of_mem_children ht.root hs
    -- every cursor that has the USR is a definition of the macro, in this file
    have hsymbol : ∀ s ∈ Export.reached t, s.label.safeUsr = usr →
        s.label.symbol file_path = some (usr, .macro_) := by
      intro s hs husr
      obtain ⟨hkind, hlocation⟩ := hmacros s (Export.mem_subtrees_of_mem_reached hs) husr
      have hforeign : s.label.foreign file_path = false := by
        simp [Export.CursorInfo.foreign, hlocation]
      have hord : s.label.Ordinary := ⟨by rw [hkind]; decide, by rw [hkind]; decide,
        by rw [hkind]; decide⟩
      have hschema : s.label.schema = some .macro_ := by
        rw [Export.CursorInfo.schema, husr, if_neg hne, Export.classifyNode, hkind]
        rfl
      rw [Export.symbol_of_ordinary file_path hord hforeign, hschema, husr]
      rfl
    refine (Export.mem_symbolNodes_iff sha1 file_path hr ht.native usr .macro_).mpr
      (Export.lookup_symbolsOf file_path hreached (hsymbol s hreached husr) ?_)
    intro s' hs' l' hl'
    have hmacro := hsymbol s' hs' (Export.of_symbol_eq_some file_path hl').1
    exact (Prod.mk.inj (Option.some.inj (hl'.symm.trans hmacro))).2
  | «include» file =>
    obtain ⟨name, rfl⟩ := Option.isSome_iff_exists.mp hkept
    obtain ⟨s, hs, hkind, hfile⟩ := ht.includes rfl _ hd
    have hincluded : includedName s.label = some name := by
      rw [includedName, if_pos hkind, hfile]
      rfl
    have hname : name ∈ includedNames t :=
      List.mem_filterMap.mpr ⟨s, Export.mem_reached_of_mem_children ht.root hs, hincluded⟩
    have hedge : (⟨fileUsr file_path, fileUsr name, .includes, []⟩ : Export.EdgeRecord) ∈
        includesEdges r.2 := by
      rw [includes_extract hr]
      exact List.mem_map_of_mem hname
    exact ⟨name, rfl, (List.mem_filter.mp hedge).1⟩

end Unit

section Run

variable {U : Type} [DecidableEq U] {uuid5 : String → U} {o : Outside} {req : Request}
  {session : ClangSession Cursor} {servers : Servers U} {checked : Checked}
  {progress : Progress (Servers U)} {file : Path} {standing : String → List Directive}
  {flags : List String} {r : Records}

/-- Of a unit with the record the session has an entry: it does not parse one itself. -/
theorem holdsRecord_of_unit
    (hparse : ∀ call tu, o.index_parse call = .ok tu →
      Preprocessed standing (detailed call.options) call.path.str tu) {build : Path} {tu : Cursor}
    (htu : unitOf o session build flags file = some tu) (hrecord : ∃ s ∈ tu.subtrees, OfRecord s) :
    HoldsRecord o session build flags file := by
  rw [unitOf_eq] at htu
  cases hentry : heldEntry o session build flags file with
  | some entry =>
    rw [hentry] at htu
    obtain rfl := Option.some.inj htu
    exact ⟨entry, hentry, hrecord⟩
  | none =>
    rw [hentry] at htu
    obtain ⟨s, hs, hof⟩ := hrecord
    have hok := Except.toOption_eq_some_iff.mp htu
    exact absurd hof ((hparse _ tu hok).absent rfl s hs)

/-- **When the preprocessor layer of a file is exported:** when for each of its directives the
session holds a unit with the record already, and nothing else keeps the directive back. -/
theorem preprocessor_exported_iff (h : Turn uuid5 o req session servers checked progress file)
    (hparse : ∀ call tu, o.index_parse call = .ok tu →
      Preprocessed standing (detailed call.options) call.path.str tu)
    (hsession : session.Holds o.world fun path tu => ∃ record, Preprocessed standing record path tu)
    (hr : batchOf o progress.session checked.validated_build flags file = some r) :
    (∀ d ∈ standing (o.host.fs.realpath file).str, Exported file.str r d) ↔
      ∀ d ∈ standing (o.host.fs.realpath file).str,
        HoldsRecord o progress.session checked.validated_build flags file ∧
          d.Kept file.str (o.host.fs.realpath file).str := by
  obtain ⟨tu, htu, hextract⟩ := batchOf_eq_some_iff.mp hr
  obtain ⟨record, hunit⟩ := h.unit hsession (fun call tu hok => ⟨_, hparse call tu hok⟩) htu
  refine forall₂_congr fun d hd => ⟨fun hexported => ?_, fun ⟨hholds, hkept⟩ => ?_⟩
  · obtain ⟨hrecord, hkept⟩ := ofRecord_of_exported hunit (Py.str_ne_empty _) hextract hd hexported
    exact ⟨holdsRecord_of_unit hparse htu hrecord, hkept⟩
  · obtain ⟨entry, hentry, s, hs, hof⟩ := hholds
    rw [unitOf_eq, hentry] at htu
    obtain rfl := Option.some.inj htu
    cases record with
    | false => exact absurd hof (hunit.absent rfl s hs)
    | true => exact exported_of_record hunit hextract hd hkept

/-- No request with options shares a key with ingesting, if no flag looks like the mark for
options. -/
theorem not_holdsRecord_of_faithful {M : Set String} (hfaithful : Cache.Faithful M o.world session)
    (hparse : ∀ call tu, o.index_parse call = .ok tu →
      Preprocessed standing (detailed call.options) call.path.str tu)
    (hfile : Files.FileSystem.Slashless file)
    (hflags : Cache.FlagsAmong M flags 0) (build : Path) :
    ¬HoldsRecord o session build flags file := by
  rintro ⟨entry, hentry, s, hs, hof⟩
  have hitem := OrderedDict.mem_of_get (Option.eq_some_of_filter_eq_some hentry)
  have hok := hfaithful _ hitem ⟨file, some build, flags, 0, hfile⟩ hflags rfl
  exact (hparse _ _ hok).absent rfl s hs hof

/-- **No directive is exported** where no flag looks like the mark for options. -/
theorem not_exported_of_faithful {M : Set String}
    (h : Turn uuid5 o req session servers checked progress file)
    (hparse : ∀ call tu, o.index_parse call = .ok tu →
      Preprocessed standing (detailed call.options) call.path.str tu)
    (hsession : session.Holds o.world fun path tu => ∃ record, Preprocessed standing record path tu)
    (hfaithful : Cache.Faithful M o.world progress.session)
    (hfile : Files.FileSystem.Slashless file)
    (hflags : Cache.FlagsAmong M flags 0)
    (hr : batchOf o progress.session checked.validated_build flags file = some r) :
    ∀ d ∈ standing (o.host.fs.realpath file).str, ¬Exported file.str r d := by
  obtain ⟨tu, htu, hextract⟩ := batchOf_eq_some_iff.mp hr
  obtain ⟨record, hunit⟩ := h.unit hsession (fun call tu hok => ⟨_, hparse call tu hok⟩) htu
  intro d hd hexported
  obtain ⟨hrecord, -⟩ := ofRecord_of_exported hunit (Py.str_ne_empty _) hextract hd hexported
  exact not_holdsRecord_of_faithful hfaithful hparse hfile hflags _
    (holdsRecord_of_unit hparse htu hrecord)

end Run

/-! ### A file with a macro and an include -/

/-- `#define N …` and `#include <stdlib.h>`. -/
def twoDirectives (_path : String) : List Directive :=
  [.define "c:a.cpp@8@macro@N", .include "/usr/include/stdlib.h"]

def macroCursor (path : String) : Cursor :=
  .node { kind := .ok .macroDefinition, get_usr := .ok "c:a.cpp@8@macro@N", spelling := .ok "N",
          location := .ok { file := path, line := 1, column := 9 } } []

def inclusionCursor (path : String) : Cursor :=
  .node { kind := .ok .inclusionDirective, location := .ok { file := path, line := 2, column := 1 },
          get_included_file := .ok (some (.ok "/usr/include/stdlib.h")) } []

/-- A unit of that file, with the record or without it. -/
def recordTree (record : Bool) (path : String) : Cursor :=
  .node { kind := .ok (.other 350) }
    (if record then [macroCursor path, inclusionCursor path] else [])

/-- In the example tree there is the unit and, with the record, the two cursors of the directives.
-/
theorem mem_subtrees_recordTree {record : Bool} {path : String} {s : Cursor}
    (h : s ∈ (recordTree record path).subtrees) :
    s = recordTree record path ∨ record = true ∧ (s = macroCursor path ∨ s = inclusionCursor path) := by
  cases record <;> simpa [recordTree, macroCursor, inclusionCursor] using h

/-- The example tree is that of a unit parsed with the record or without it. -/
theorem preprocessed_recordTree (record : Bool) (path : String) :
    Preprocessed twoDirectives record path (recordTree record path) where
  root := rfl
  native s hs := by
    rcases mem_subtrees_recordTree hs with rfl | ⟨-, rfl | rfl⟩
    · exact Or.inl rfl
    · exact Or.inr (by decide : Native "c:a.cpp@8@macro@N")
    · exact Or.inl rfl
  absent hno s hs := by
    obtain rfl := (mem_subtrees_recordTree hs).resolve_right fun h => by
      rw [hno] at h
      exact nomatch h.1
    exact fun hof => hof.elim (fun h => nomatch h) (fun h => nomatch h)
  macros usr hd := by
    obtain rfl : usr = "c:a.cpp@8@macro@N" := by simpa [twoDirectives] using hd
    refine ⟨by decide, fun s hs husr => ?_⟩
    rcases mem_subtrees_recordTree hs with rfl | ⟨-, rfl | rfl⟩
    · exact absurd husr (by decide : "" ≠ "c:a.cpp@8@macro@N")
    · exact ⟨rfl, rfl⟩
    · exact absurd husr (by decide : "" ≠ "c:a.cpp@8@macro@N")
  defines hrecord usr hd := by
    obtain rfl : usr = "c:a.cpp@8@macro@N" := by simpa [twoDirectives] using hd
    subst hrecord
    exact ⟨macroCursor path, List.mem_cons_self, rfl⟩
  includes hrecord file hd := by
    obtain rfl : file = some "/usr/include/stdlib.h" := by simpa [twoDirectives] using hd
    subst hrecord
    exact ⟨inclusionCursor path, List.mem_cons_of_mem _ List.mem_cons_self, rfl, rfl⟩

/-- Files of `/proj` parse to that, with the record if it is asked for. -/
def recordingOutside : Outside :=
  parsingOutside insideHost fun call => .ok (recordTree (detailed call.options) call.path.str)

/-- So is whatever libclang returns in the example, as the options ask for. -/
theorem preprocessed_recordingOutside (call : ParseCall) (tu : Cursor)
    (h : recordingOutside.index_parse call = .ok tu) :
    Preprocessed twoDirectives (detailed call.options) call.path.str tu :=
  Except.ok.inj h ▸ preprocessed_recordTree _ _

/-- The run of `/proj` comes to the file first. -/
theorem exists_batch_directives : ∃ progress r,
    Turn (fun usr : String => usr) recordingOutside projRequest .new emptyServers
      ⟨.indradb, ["proj"], ["proj"]⟩ progress ["proj", "a.cpp"] ∧
    batchOf recordingOutside progress.session ["proj"] [] ["proj", "a.cpp"] = some r ∧
    extractNodesAndEdges default "/proj/a.cpp" (recordTree false "/proj/a.cpp") = .ok r := by
  have hreal : insideHost.fs.realpath ["proj", "a.cpp"] = ["proj", "a.cpp"] := by decide +kernel
  obtain ⟨r, hr⟩ := Export.exists_extract_of_children default "/proj/a.cpp"
    (t := recordTree false "/proj/a.cpp") fun s hs => by
      rcases mem_subtrees_recordTree hs with rfl | ⟨-, rfl | rfl⟩ <;> rfl
  refine ⟨_, r, turn_proj _ List.mem_cons_self, batchOf_eq_some_iff.mpr ⟨_, ?_, hr⟩, hr⟩
  rw [unitOf_eq]
  change some (recordTree false (insideHost.fs.realpath ["proj", "a.cpp"]).str) = _
  rw [hreal]
  rfl

/-- **A macro and an include are lost:** ingesting the file asks libclang for no preprocessing
record, and exports neither. -/
theorem directives_not_exported : ∃ progress r,
    Turn (fun usr : String => usr) recordingOutside projRequest .new emptyServers
      ⟨.indradb, ["proj"], ["proj"]⟩ progress ["proj", "a.cpp"] ∧
    batchOf recordingOutside progress.session ["proj"] [] ["proj", "a.cpp"] = some r ∧
    (∀ call tu, recordingOutside.index_parse call = .ok tu →
      Preprocessed twoDirectives (detailed call.options) call.path.str tu) ∧
    (∀ d ∈ twoDirectives "/proj/a.cpp", ¬Exported "/proj/a.cpp" r d) ∧
    ¬∀ d ∈ twoDirectives "/proj/a.cpp", Exported "/proj/a.cpp" r d := by
  obtain ⟨progress, r, hturn, hbatch, hr⟩ := exists_batch_directives
  have hunit := preprocessed_recordTree false "/proj/a.cpp"
  have hnone : ∀ d ∈ twoDirectives "/proj/a.cpp", ¬Exported "/proj/a.cpp" r d := by
    intro d hd hexported
    obtain ⟨⟨s, hs, hof⟩, -⟩ := ofRecord_of_exported hunit (by decide) hr hd hexported
    exact hunit.absent rfl s hs hof
  exact ⟨progress, r, hturn, hbatch, preprocessed_recordingOutside, hnone,
    fun hall => hnone _ List.mem_cons_self (hall _ List.mem_cons_self)⟩

/-- A session that has been asked for the file with the record before, as `get_preprocessor_state` asks. -/
def recordingSession : ClangSession Cursor :=
  (ClangSession.new.getOrParseSync recordingOutside.world ["proj", "a.cpp"] (some ["proj"]) [] 1).session

/-- **The mark as a flag:** with `__options=1` among its flags, the run of `/proj` is given the unit of
that session, in which both directives are, and exports them. -/
theorem preprocessor_exported_iff_directives : ∃ progress r,
    Turn (fun usr : String => usr) recordingOutside
      { projRequest with default_flags := ["__options=1"] } recordingSession emptyServers
      ⟨.indradb, ["proj"], ["proj"]⟩ progress ["proj", "a.cpp"] ∧
    batchOf recordingOutside progress.session ["proj"] ["__options=1"] ["proj", "a.cpp"] = some r ∧
    ∀ d ∈ twoDirectives "/proj/a.cpp", Exported "/proj/a.cpp" r d := by
  have hreal : insideHost.fs.realpath ["proj", "a.cpp"] = ["proj", "a.cpp"] := by decide +kernel
  have hsession : recordingSession.Holds recordingOutside.world fun path tu =>
      ∃ record, Preprocessed twoDirectives record path tu :=
    ClangSession.Holds.getOrParseSync (ClangSession.holds_new _ _)
      (fun call tu h => ⟨_, preprocessed_recordingOutside call tu h⟩) _ _ _ _
  have hheld : heldEntry recordingOutside recordingSession ["proj"] ["__options=1"] ["proj", "a.cpp"] =
      some ⟨recordTree true (insideHost.fs.realpath ["proj", "a.cpp"]).str, 0, ["__options=1"],
        insideHost.fs.realpath ["proj", "a.cpp"]⟩ := rfl
  rw [hreal] at hheld
  obtain ⟨r, hr⟩ := Export.exists_extract_of_children default "/proj/a.cpp"
    (t := recordTree true "/proj/a.cpp") fun s hs => by
      rcases mem_subtrees_recordTree hs with rfl | ⟨-, rfl | rfl⟩ <;> rfl
  have hbatch : batchOf recordingOutside recordingSession ["proj"] ["__options=1"] ["proj", "a.cpp"] =
      some r := batchOf_eq_some_iff.mpr ⟨recordTree true "/proj/a.cpp", by rw [unitOf_eq, hheld]; rfl, hr⟩
  have hturn : Turn (fun usr : String => usr) recordingOutside
      { projRequest with default_flags := ["__options=1"] } recordingSession emptyServers
      ⟨.indradb, ["proj"], ["proj"]⟩
      { session := recordingSession, db := Backend.indradb.setConnected true emptyServers }
      ["proj", "a.cpp"] := turn_proj _ List.mem_cons_self
  refine ⟨_, r, hturn, hbatch, ?_⟩
  have hiff := preprocessor_exported_iff hturn preprocessed_recordingOutside hsession hbatch
  change (∀ d ∈ twoDirectives (insideHost.fs.realpath ["proj", "a.cpp"]).str, _) ↔
    ∀ d ∈ twoDirectives (insideHost.fs.realpath ["proj", "a.cpp"]).str,
      HoldsRecord recordingOutside recordingSession ["proj"] ["__options=1"] ["proj", "a.cpp"] ∧
        d.Kept "/proj/a.cpp" (insideHost.fs.realpath ["proj", "a.cpp"]).str at hiff
  rw [hreal] at hiff
  refine hiff.mpr fun d hd => ⟨⟨_, hheld, macroCursor "/proj/a.cpp",
    List.mem_cons_of_mem _ List.mem_cons_self, Or.inl rfl⟩, ?_⟩
  rcases List.mem_cons.mp hd with rfl | hd
  · rfl
  · rw [List.mem_singleton.mp hd]
    rfl

end Ingest
end CppMcp
