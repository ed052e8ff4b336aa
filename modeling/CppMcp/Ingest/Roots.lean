/-
# Which files a run parses

The path guard is passed by the directory of a request, not by the files found in it.
They are found by name, so a symbolic link counts if a regular file is behind it, and
the cache resolves it before libclang is called.

`stays_under_roots_iff` says when every parsed file is under a root nevertheless: when
all that is behind symbolic links is.  `linkHost_leaves_roots` is a directory where it is not.
-/

import CppMcp.Ingest.IngestCode

namespace CppMcp
namespace Ingest

open Py (Path Plain)
open Files (Host FileSystem Under)
open Cache (ClangSession ParseCall)
open Export (Exc)
open CppMcp.Graph (GraphDriver Servers)

section Loop

variable {σ : Type} (o : Outside) (driver : GraphDriver σ) (validated_build : Path)
  (default_flags : List String)

/-- For one file `index.parse` is called at most once, with the file's `realpath`. -/
theorem parse_calls_processFile (p : Progress σ) (cpp_file : Path) :
    ∃ calls, (processFile o driver validated_build default_flags p cpp_file).parse_calls =
      p.parse_calls ++ calls ∧ ∀ call ∈ calls, call.path = o.host.fs.realpath cpp_file := by
  unfold processFile
  split
  · exact ⟨[], (List.append_nil _).symm, fun call hc => absurd hc List.not_mem_nil⟩
  · rename_i flags _ _
    have hpath : ∀ call ∈ (p.session.getOrParseSync o.world cpp_file (some validated_build) flags
        0).parse_call.toList, call.path = o.host.fs.realpath cpp_file := fun call hc =>
      ClangSession.path_of_parse_call (Option.mem_toList.mp hc)
    refine ⟨_, ?_, hpath⟩
    dsimp only
    split
    · rfl
    · split <;> rfl

variable {o driver validated_build default_flags}

/-- In the loop nothing is parsed but the `realpath` of collected files. -/
theorem mem_parse_calls_processFiles {p : Progress σ} {cpp_files : List Path} {call : ParseCall}
    (h : call ∈ (processFiles o driver validated_build default_flags p cpp_files).parse_calls) :
    call ∈ p.parse_calls ∨ ∃ f ∈ cpp_files, call.path = o.host.fs.realpath f := by
  induction cpp_files generalizing p with
  | nil => exact Or.inl h
  | cons f cpp_files ih =>
    rcases ih h with h | ⟨f', hf', hcall⟩
    · obtain ⟨calls, hcalls, hpath⟩ :=
        parse_calls_processFile o driver validated_build default_flags p f
      rw [hcalls] at h
      rcases List.mem_append.mp h with h | h
      · exact Or.inl h
      · exact Or.inr ⟨f, List.mem_cons_self, hpath call h⟩
    · exact Or.inr ⟨f', List.mem_cons_of_mem _ hf', hcall⟩

end Loop

variable {U : Type} [DecidableEq U] {uuid5 : String → U}

/-- A run that parses has been let through by the guard, and parses collected files. -/
theorem mem_parse_calls_doIngestCode {o : Outside} {req : Request} {session : ClangSession Export.Cursor}
    {servers : Servers U} {call : ParseCall}
    (h : call ∈ (doIngestCode uuid5 o req session servers).parse_calls) :
    ∃ input files, Files.validatePath o.host req.file_path_or_dir req.allowed_roots "file" =
      .ok input ∧ collectCppFiles o.host.fs input req.recursive = some files ∧
      ∃ f ∈ files, call.path = o.host.fs.realpath f := by
  obtain ⟨checked, files, hchecked, -, hfiles, h⟩ := mem_parse_calls_doIngestCode_iff.mp h
  refine ⟨checked.validated_input, files, (checkRequest_eq_ok_iff.mp hchecked).2.2.2.2, hfiles, ?_⟩
  rcases mem_parse_calls_processFiles h with h | h
  · exact absurd h List.not_mem_nil
  · exact h

/-! ### A run in which every parse fails -/

/-- `index.parse` always raises, no flags are found, and the database is there. -/
def failingOutside (h : Host) : Outside where
  host := h
  sha1 := default
  old_mtime _ := none
  new_mtime _ := none
  index_parse _ := .error ⟨"TranslationUnitLoadError", "Error parsing translation unit."⟩
  load_compile_db _ := none
  urlparse_raises _ := none
  connect _ := .ok ()

section Failing

variable {σ : Type} {h : Host} (driver : GraphDriver σ) {build : Path}

/-- A session that is empty looks in vain, hands the file to libclang and stays empty. -/
theorem processFile_failing (hbuild : h.fs.isFile build = false) {p : Progress σ}
    (hempty : p.session.cache.store = .empty) (f : Path) :
    (processFile (failingOutside h) driver build [] p f).session.cache.store = .empty ∧
      (processFile (failingOutside h) driver build [] p f).parse_calls =
        p.parse_calls ++ [⟨h.fs.realpath f, [], 0⟩] := by
  have hflags : resolveFlags (failingOutside h).host.fs (failingOutside h).load_compile_db f
      (some build) [] = .ok ([], .default_) := by
    change (if h.fs.isFile build = true then _ else _) = _
    rw [hbuild]
    rfl
  have hanswer : p.session.getOrParseSync (failingOutside h).world f (some build) [] 0 =
      ⟨.error ⟨"TranslationUnitLoadError", "Error parsing translation unit."⟩,
        ⟨{ p.session.cache with misses := p.session.cache.misses + 1 }⟩,
        some ⟨h.fs.realpath f, [], 0⟩⟩ := by
    unfold ClangSession.getOrParseSync Cache.TUCache.getOrParse
    rw [Cache.TUCache.lookupSection_of_get_eq_none _ (by rw [hempty]; rfl)]
    rfl
  unfold processFile
  rw [hflags]
  dsimp only
  rw [hanswer]
  exact ⟨hempty, rfl⟩

/-- **Every file is handed to libclang,** one after the other, where the cache is empty and every
parse fails. -/
theorem parse_calls_failing (hbuild : h.fs.isFile build = false) {p : Progress σ}
    (hempty : p.session.cache.store = .empty) (files : List Path) :
    (processFiles (failingOutside h) driver build [] p files).parse_calls =
      p.parse_calls ++ files.map fun f => ⟨h.fs.realpath f, [], 0⟩ := by
  induction files generalizing p with
  | nil => exact (List.append_nil _).symm
  | cons f files ih =>
    obtain ⟨hempty', hcalls⟩ := processFile_failing driver hbuild hempty f
    rw [List.map_cons, List.append_cons, ← hcalls]
    exact ih hempty'

end Failing

/-! ### Staying under the roots -/

/-- **Every file that a run parses is under a root,** whatever the rest of the request and the
world outside are. -/
def StaysUnderRoots (uuid5 : String → U) (h : Host) (raw : String) (allowed_roots : List String)
    (recursive : Bool) : Prop :=
  ∀ (o : Outside) (req : Request) (session : ClangSession Export.Cursor) (servers : Servers U),
    o.host = h → req.file_path_or_dir = raw → req.allowed_roots = allowed_roots →
    req.recursive = recursive →
    ∀ call ∈ (doIngestCode uuid5 o req session servers).parse_calls,
      Under allowed_roots (h.fs.realpath call.path)

/-- What the guard has let through is made of plain names and under a root. -/
theorem plain_of_validatePath {h : Host} {raw : String} {allowed_roots : List String}
    {kind : String} {p : Path} (hok : Files.validatePath h raw allowed_roots kind = .ok p) :
    (∀ c ∈ p, Plain c) ∧ Under allowed_roots p := by
  obtain ⟨-, -, ⟨hunder, hexists, -⟩, hp⟩ := Files.validatePath_eq_ok_iff.mp hok
  obtain ⟨kind', hk⟩ := Option.isSome_iff_exists.mp hexists
  obtain ⟨q, ht, -⟩ := Option.bind_eq_some_iff.mp hk
  have hplain : ∀ c ∈ p, Plain c := by
    intro c hc
    have hslash := FileSystem.slash_not_mem_of_target ht c hc
    rw [← hp, Files.resolvedPath, FileSystem.realpath] at hc
    have hnames : c ≠ "" ∧ c ≠ "." ∧ c ≠ ".." := by
      split at hc <;> exact (Py.mem_normpath hc).2
    exact ⟨hnames.1, hnames.2.1, hnames.2.2, hslash⟩
  exact ⟨hplain, (Files.underAnyRoot_iff hplain).mp hunder⟩

/-- What is below a path under a root is under that root. -/
theorem Under.append {allowed_roots : List String} {p : Path} (h : Under allowed_roots p)
    (rel : Path) : Under allowed_roots (p ++ rel) :=
  let ⟨root, hmem, hroot, hpre⟩ := h
  ⟨root, hmem, hroot, hpre.trans (List.prefix_append p rel)⟩

/-- A listed file leads to a file, and that is what libclang is given. -/
theorem Listed.target {fs : FileSystem} {path : Path} {recursive : Bool} {f : Path}
    (hf : Listed fs path recursive f) :
    ∃ t, fs.target f = some t ∧ fs.realpath f = t ∧ fs.realpath t = t := by
  have hstat : fs.stat f = some .file := beq_iff_eq.mp hf.isFile
  obtain ⟨t, ht, -⟩ := Option.bind_eq_some_iff.mp hstat
  exact ⟨t, ht, FileSystem.realpath_of_target ht, FileSystem.realpath_realpath ht⟩

/-- What is listed below plain names has a path of plain names. -/
theorem Listed.plain {fs : FileSystem} {path : Path} {recursive : Bool} {f : Path}
    (hf : Listed fs path recursive f) (hpath : ∀ c ∈ path, Plain c) : ∀ c ∈ f, Plain c := by
  obtain ⟨⟨dir, rel, -, hentry, rfl, -⟩, -⟩ := hf
  obtain ⟨⟨e, k⟩, hmem, heq⟩ := List.mem_map.mp hentry
  obtain rfl : e = dir ++ rel := heq
  intro c hc
  rcases List.mem_append.mp hc with hc | hc
  · exact hpath c hc
  · exact fs.plain _ hmem c (List.mem_append_right dir hc)

/-- A listed file without a link in its path is where it has been found. -/
theorem Listed.target_eq {fs : FileSystem} {path : Path} {recursive : Bool} {f t : Path}
    (hf : Listed fs path recursive f) (hpath : ∀ c ∈ path, Plain c) (hfree : fs.LinkFree f)
    (ht : fs.target f = some t) : ∃ rel, t = path ++ rel := by
  obtain ⟨dir, rel, -, -, heq, -⟩ := hf.below
  exact ⟨rel, (hfree.target_eq (hf.plain hpath) ht).trans heq⟩

variable (uuid5)

/-- **Some run parses every listed file:** one that finds no flags and in which every parse
fails. -/
theorem exists_run_of_listed {h : Host} {raw : String} {allowed_roots : List String} {p : Path}
    (hok : Files.validatePath h raw allowed_roots "file" = .ok p)
    (hdir : h.fs.stat p = some .dir) {recursive : Bool} {f : Path}
    (hf : Listed h.fs p recursive f) :
    ∃ (o : Outside) (req : Request) (session : ClangSession Export.Cursor) (servers : Servers U),
      o.host = h ∧ req.file_path_or_dir = raw ∧ req.allowed_roots = allowed_roots ∧
        req.recursive = recursive ∧
        ⟨h.fs.realpath f, [], 0⟩ ∈ (doIngestCode uuid5 o req session servers).parse_calls := by
  obtain ⟨files, hfiles, hmem⟩ := mem_collectCppFiles_iff hdir recursive
  have hfile : h.fs.isFile p = false := by
    rw [FileSystem.isFile, hdir]
    decide
  obtain ⟨hne, hdot, ⟨hunder, hexists, -⟩, hp⟩ := Files.validatePath_eq_ok_iff.mp hok
  have hbuild : Files.validatePath h raw allowed_roots "dir" = .ok p := by
    refine Files.validatePath_eq_ok_iff.mpr ⟨hne, hdot, ⟨hunder, hexists, ?_⟩, hp⟩
    rw [hfile]
    simp
  have hselect : Graph.selectDriver (fun _ => none) "bolt://localhost" = .ok .neo4j := by
    decide +kernel
  have hchecked : checkRequest (failingOutside h)
      ⟨raw, some raw, some "bolt://localhost", allowed_roots, [], "", recursive⟩ =
        .ok ⟨.neo4j, p, p⟩ :=
    checkRequest_eq_ok_iff.mpr ⟨(by decide : "bolt://localhost" ≠ ""), hne, hselect, hbuild, hok⟩
  refine ⟨failingOutside h,
    ⟨raw, some raw, some "bolt://localhost", allowed_roots, [], "", recursive⟩, .new,
    ⟨⟨.empty, false, 0, fun _ => none⟩, ⟨.empty, false, 0, fun _ => none⟩⟩, rfl, rfl, rfl, rfl,
    mem_parse_calls_doIngestCode_iff.mpr ⟨_, files, hchecked, rfl, hfiles, ?_⟩⟩
  rw [ingestFiles, parse_calls_failing _ hfile rfl]
  exact List.mem_append_right _ (List.mem_map_of_mem ((hmem f).mpr hf))

/-- **When a run stays under the roots:** when every listed file whose path has a symbolic
link in it leads to a place under a root. -/
theorem stays_under_roots_iff {h : Host} {raw : String} {allowed_roots : List String}
    {p : Path} (hok : Files.validatePath h raw allowed_roots "file" = .ok p)
    (hdir : h.fs.stat p = some .dir) (recursive : Bool) :
    StaysUnderRoots uuid5 h raw allowed_roots recursive ↔
      ∀ f, Listed h.fs p recursive f → ¬h.fs.LinkFree f →
        ∃ t, h.fs.target f = some t ∧ Under allowed_roots t := by
  obtain ⟨hplain, hunder⟩ := plain_of_validatePath hok
  constructor
  · intro hstays f hf _
    obtain ⟨t, ht, hreal, hreal'⟩ := hf.target
    obtain ⟨o, req, session, servers, ho, hraw, hroots, hrec, hcall⟩ :=
      exists_run_of_listed uuid5 hok hdir hf
    have hunder' := hstays o req session servers ho hraw hroots hrec _ hcall
    rw [hreal, hreal'] at hunder'
    exact ⟨t, ht, hunder'⟩
  · rintro hlinks o req session servers rfl rfl rfl rfl call hcall
    obtain ⟨input, files, hinput, hfiles, f, hf, hpath⟩ := mem_parse_calls_doIngestCode hcall
    obtain rfl := Except.ok.inj (hok.symm.trans hinput)
    have hlisted : Listed o.host.fs p req.recursive f := by
      obtain ⟨files', hfiles', hmem⟩ := mem_collectCppFiles_iff hdir req.recursive
      obtain rfl := Option.some.inj (hfiles.symm.trans hfiles')
      exact (hmem f).mp hf
    obtain ⟨t, ht, hreal, hreal'⟩ := hlisted.target
    rw [hpath, hreal, hreal']
    by_cases hfree : o.host.fs.LinkFree f
    · obtain ⟨rel, rfl⟩ := hlisted.target_eq hplain hfree ht
      exact Under.append hunder rel
    · obtain ⟨t', ht', hunder'⟩ := hlinks f hlisted hfree
      obtain rfl := Option.some.inj (ht.symm.trans ht')
      exact hunder'

/-- In `/proj` a source file and a link to it. -/
def insideHost : Host where
  fs :=
    { entries := [(["proj"], .dir), (["proj", "a.cpp"], .file),
        (["proj", "b.cpp"], .link "a.cpp")]
      nodup := by decide
      plain := by decide
      below := by decide }
  cwd := []
  cwd_dir := rfl

/-- Links that stay inside do no harm: every run over this directory stays under its root. -/
theorem insideHost_stays_under_roots :
    StaysUnderRoots (fun usr : String => usr) insideHost "/proj" ["/proj"] false := by
  have hok : Files.validatePath insideHost "/proj" ["/proj"] "file" = .ok ["proj"] := by
    decide +kernel
  refine (stays_under_roots_iff _ hok (by decide +kernel) false).mpr fun f hf _ => ?_
  obtain ⟨t, ht, -, -⟩ := hf.target
  refine ⟨t, ht, "/proj", List.mem_cons_self, by decide, ?_⟩
  obtain ⟨⟨dir, rel, hd, hentry, rfl, hne, -⟩, -⟩ := hf
  obtain rfl : ["proj"] = dir := Option.some.inj ((by decide +kernel :
    insideHost.fs.target ["proj"] = some ["proj"]).symm.trans hd)
  have hrel : rel = ["a.cpp"] ∨ rel = ["b.cpp"] := by
    simpa [insideHost, hne] using hentry
  have htarget : insideHost.fs.target (["proj"] ++ rel) = some ["proj", "a.cpp"] := by
    rcases hrel with rfl | rfl <;> decide +kernel
  obtain rfl := Option.some.inj (htarget.symm.trans ht)
  decide

/-- In `/proj` a link to a source file elsewhere. -/
def linkHost : Host where
  fs :=
    { entries := [(["proj"], .dir), (["proj", "link.cpp"], .link "/out/secret.cpp"),
        (["out"], .dir), (["out", "secret.cpp"], .file)]
      nodup := by decide
      plain := by decide
      below := by decide }
  cwd := []
  cwd_dir := rfl

/-- **A link leads libclang out of the roots:** ingesting `/proj` parses `/out/secret.cpp`, while
the link itself is refused as an argument. -/
theorem linkHost_leaves_roots :
    Files.validatePath linkHost "/proj" ["/proj"] "file" = .ok ["proj"] ∧
      linkHost.fs.stat ["proj"] = some .dir ∧
      Files.validatePath linkHost "/proj/link.cpp" ["/proj"] "file" =
        .error (.pathViolation
          "Path '/proj/link.cpp' resolves outside the configured allowed roots.") ∧
      ¬StaysUnderRoots (fun usr : String => usr) linkHost "/proj" ["/proj"] false := by
  refine ⟨by decide +kernel, by decide +kernel, by decide +kernel, fun hstays => ?_⟩
  have hcall := hstays (failingOutside linkHost)
    ⟨"/proj", some "/proj", some "bolt://localhost", ["/proj"], [], "", false⟩ .new
    ⟨⟨.empty, false, 0, fun _ => none⟩, ⟨.empty, false, 0, fun _ => none⟩⟩ rfl rfl rfl rfl
    ⟨["out", "secret.cpp"], [], 0⟩ (by decide +kernel)
  obtain ⟨root, hroot, -, hpre⟩ := hcall
  obtain rfl := List.mem_singleton.mp hroot
  revert hpre
  decide +kernel

end Ingest
end CppMcp
