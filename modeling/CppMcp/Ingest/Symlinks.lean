/-
# Sources behind symbolic links

A directory is listed by name, and the exporter keeps the cursors that stand in the file of that
name.  But the session resolves the name, and libclang is given what the link leads to: in the unit
no cursor stands at the link.  What is exported for the link are the cursors that stand in no file
(`same_symbols_iff`); `link_exports_nothing` is a directory in which a function is lost.

A file that is itself the argument of a request has been resolved by the path guard.
-/

import CppMcp.Export.Symbols
import CppMcp.Files.Lookup
import CppMcp.Ingest.Roots
import CppMcp.Ingest.Units

namespace CppMcp
namespace Ingest

open Py (Path Plain)
open Files (Host FileSystem)
open Cache (ClangSession)
open Export (Cursor Native NodeType extractNodesAndEdges safeLocation symbolNodes symbolsOf
  unplacedSymbols)
open CppMcp.Graph (Servers)

/-- **A unit parsed from a path.**  A cursor in the file that is parsed is located at the path that
libclang was given, and USRs are libclang's own. -/
structure ParsedFrom (h : Host) (path : String) (t : Cursor) : Prop where
  located : ∀ s ∈ t.subtrees, ∀ file, h.lookup (safeLocation s.label.location).1 = some file →
    h.lookup path = some file → (safeLocation s.label.location).1 = path
  native : ∀ s ∈ t.subtrees, s.label.safeUsr = "" ∨ Native s.label.safeUsr

/-- The batches have the same symbol nodes, with their USRs and labels. -/
def SameSymbols (r r' : Records) : Prop := ∀ symbol, symbol ∈ symbolNodes r.1 ↔
  symbol ∈ symbolNodes r'.1

/-- A file that is listed behind a link is not what it leads to. -/
theorem Listed.ne_realpath {fs : FileSystem} {path : Path} {recursive : Bool} {f : Path}
    (hf : Listed fs path recursive f) (hplain : ∀ c ∈ path, Plain c) (hlink : ¬fs.LinkFree f) :
    f.str ≠ (fs.realpath f).str := by
  obtain ⟨t, ht, hreal, -⟩ := hf.target
  intro hstr
  rw [hreal] at hstr
  obtain rfl := Py.str_inj (hf.plain hplain) (FileSystem.plain_of_target ht) hstr
  exact hlink ((FileSystem.resolves_of_target ht).linkFree
    (FileSystem.slash_not_mem_of_target ht)).1

section Link

variable {U : Type} [DecidableEq U] {uuid5 : String → U} {o : Outside} {req : Request}
  {session : ClangSession Cursor} {servers : Servers U} {checked : Checked}
  {progress : Progress (Servers U)} {file : Path}

/-- **Nothing stands at a link** in the unit that is exported for it. -/
theorem not_located_at_link (h : Turn uuid5 o req session servers checked progress file)
    (hdir : o.host.fs.stat checked.validated_input = some .dir) (hlink : ¬o.host.fs.LinkFree file)
    {t : Cursor} (ht : ParsedFrom o.host (o.host.fs.realpath file).str t) :
    ∀ s ∈ t.subtrees, (safeLocation s.label.location).1 ≠ file.str := by
  have hlisted := h.listed hdir
  have hplain := (plain_of_validatePath (checkRequest_eq_ok_iff.mp h.passed).2.2.2.2).1
  obtain ⟨q, hq, hreal, -⟩ := hlisted.target
  intro s hs hname
  have hat : o.host.lookup (safeLocation s.label.location).1 = some q := by
    rw [hname]
    exact Files.lookup_str_of_target (hlisted.plain hplain) hq
  have hsame := ht.located s hs q hat (by rw [hreal]; exact Files.lookup_str hq)
  exact hlisted.ne_realpath hplain hlink (hname.symm.trans hsame)

/-- **Which links export their symbols:** those to files whose symbols are all among the cursors
that stand in no file. -/
theorem same_symbols_iff (h : Turn uuid5 o req session servers checked progress file)
    (hdir : o.host.fs.stat checked.validated_input = some .dir) (hlink : ¬o.host.fs.LinkFree file)
    (hparse : ∀ call tu, o.index_parse call = .ok tu → ParsedFrom o.host call.path.str tu)
    (hsession : session.Holds o.world (ParsedFrom o.host)) {flags : List String} {t : Cursor}
    (ht : unitOf o progress.session checked.validated_build flags file = some t)
    {r r' : Records}
    (hr : batchOf o progress.session checked.validated_build flags file = some r)
    (hr' : batchOf o progress.session checked.validated_build flags (o.host.fs.realpath file) =
      some r') :
    SameSymbols r r' ↔
      ∀ u l, (symbolsOf (o.host.fs.realpath file).str t).lookup u = some l →
        (unplacedSymbols t).lookup u = some l := by
  have hunit := h.unit hsession hparse ht
  -- the session has the same unit for the link and for what it leads to
  have ht' : unitOf o progress.session checked.validated_build flags (o.host.fs.realpath file) =
      some t := by
    obtain ⟨q, -, hreal, hreal'⟩ := (h.listed hdir).target
    have hpath : o.world.fs.realpath (o.world.fs.realpath file) = o.world.fs.realpath file := by
      change o.host.fs.realpath (o.host.fs.realpath file) = o.host.fs.realpath file
      rw [hreal, hreal']
    have hsame := progress.session.getOrParseSync_realpath o.world hpath
      (some checked.validated_build) flags 0
    unfold unitOf at ht ⊢
    rw [← ht, ← hsame]
    rfl
  obtain ⟨_, h₁, hextract⟩ := batchOf_eq_some_iff.mp hr
  obtain ⟨_, h₂, hextract'⟩ := batchOf_eq_some_iff.mp hr'
  obtain rfl := Option.some.inj (ht.symm.trans h₁)
  obtain rfl := Option.some.inj (ht'.symm.trans h₂)
  have hplace : ∀ s ∈ Export.reached t, (safeLocation s.label.location).1 ≠ file.str := fun s hs =>
    not_located_at_link h hdir hlink hunit s (Export.mem_subtrees_of_mem_reached hs)
  rw [← Export.lookup_symbolsOf_iff hplace]
  constructor
  · intro hsame u l
    rw [← Export.mem_symbolNodes_iff o.sha1 _ hextract hunit.native,
      ← Export.mem_symbolNodes_iff o.sha1 _ hextract' hunit.native]
    exact hsame (u, l)
  · rintro hsame ⟨u, l⟩
    rw [Export.mem_symbolNodes_iff o.sha1 _ hextract hunit.native,
      Export.mem_symbolNodes_iff o.sha1 _ hextract' hunit.native]
    exact hsame u l

end Link

/-! ### A link beside its target -/

/-- A function at the top of a file. -/
def functionTree (path : String) : Cursor :=
  .node { kind := .ok (.other 350) } [
    .node { kind := .ok .functionDecl, get_usr := .ok "c:@F@f#", spelling := .ok "f",
            location := .ok { file := path, line := 1, column := 6 } } []]

/-- In the unit of the example no cursor raises, all have a place in the file or none, and the USRs
are native. -/
theorem functionTree_subtrees {path : String} {s : Cursor} (h : s ∈ (functionTree path).subtrees) :
    s.label.children_raise = none ∧
      ((safeLocation s.label.location).1 = "" ∨ (safeLocation s.label.location).1 = path) ∧
      (s.label.safeUsr = "" ∨ Native s.label.safeUsr) := by
  have hcases : s = functionTree path ∨ s ∈ (functionTree path).children := by
    simpa [functionTree] using h
  rcases hcases with rfl | h
  · exact ⟨rfl, Or.inl rfl, Or.inl rfl⟩
  · obtain rfl := List.mem_singleton.mp h
    exact ⟨rfl, Or.inr rfl, Or.inr (by decide : Native "c:@F@f#")⟩

/-- The unit of the example is one that is parsed from that path. -/
theorem parsedFrom_functionTree (h : Host) (path : String) : ParsedFrom h path (functionTree path)
    where
  located s hs file hname _ := by
    refine (functionTree_subtrees hs).2.1.resolve_left fun hempty => ?_
    rw [hempty] at hname
    exact nomatch hname
  native s hs := (functionTree_subtrees hs).2.2

/-- Every file of `/proj` parses, each to its own tree. -/
def functionOutside : Outside :=
  parsingOutside insideHost fun call => .ok (functionTree call.path.str)

/-- What is exported for the link and for the file. -/
theorem batchOf_functionTree {session : ClangSession Cursor}
    (hsession : session.Holds functionOutside.world fun path tu => tu = functionTree path) (file : Path) :
    ∃ r, extractNodesAndEdges default file.str
        (functionTree (insideHost.fs.realpath file).str) = .ok r ∧
      batchOf functionOutside session ["proj"] [] file = some r := by
  obtain ⟨r, hr⟩ := Export.exists_extract_of_children default file.str
    fun s (hs : s ∈ (functionTree (insideHost.fs.realpath file).str).subtrees) =>
      (functionTree_subtrees hs).1
  exact ⟨r, hr, batchOf_eq_some_iff.mpr
    ⟨_, unitOf_of_parses (o := functionOutside) (fun _ => rfl) hsession _ _ _, hr⟩⟩

/-- The unit and the two batches, for the link. -/
theorem exists_batches_link : ∃ progress r r',
    Turn (fun usr : String => usr) functionOutside projRequest .new emptyServers
      ⟨.indradb, ["proj"], ["proj"]⟩ progress ["proj", "b.cpp"] ∧
    unitOf functionOutside progress.session ["proj"] [] ["proj", "b.cpp"] =
      some (functionTree "/proj/a.cpp") ∧
    batchOf functionOutside progress.session ["proj"] [] ["proj", "b.cpp"] = some r ∧
    batchOf functionOutside progress.session ["proj"] []
      (insideHost.fs.realpath ["proj", "b.cpp"]) = some r' ∧
    extractNodesAndEdges default "/proj/b.cpp" (functionTree "/proj/a.cpp") = .ok r ∧
    extractNodesAndEdges default "/proj/a.cpp" (functionTree "/proj/a.cpp") = .ok r' := by
  obtain ⟨progress, hturn⟩ : ∃ progress, Turn (fun usr : String => usr) functionOutside projRequest
      .new emptyServers ⟨.indradb, ["proj"], ["proj"]⟩ progress ["proj", "b.cpp"] :=
    ⟨_, turn_proj _ (List.mem_cons_of_mem _ List.mem_cons_self)⟩
  have hreal : insideHost.fs.realpath ["proj", "b.cpp"] = ["proj", "a.cpp"] := by decide +kernel
  have hreal' : insideHost.fs.realpath ["proj", "a.cpp"] = ["proj", "a.cpp"] := by decide +kernel
  have hsession : progress.session.Holds functionOutside.world fun path tu => tu = functionTree path := by
    obtain ⟨_, -, hmem⟩ := hturn.turn
    exact (holds_of_mem_turns (fun call tu htu => (Except.ok.inj htu).symm)
      (ClangSession.holds_new _ _) hmem).2
  have hunit := unitOf_of_parses (o := functionOutside) (fun _ => rfl) hsession ["proj"] []
    ["proj", "b.cpp"]
  obtain ⟨r, hr, hbatch⟩ := batchOf_functionTree hsession ["proj", "b.cpp"]
  obtain ⟨r', hr', hbatch'⟩ := batchOf_functionTree hsession ["proj", "a.cpp"]
  rw [hreal] at hr
  rw [hreal'] at hr'
  refine ⟨progress, r, r', hturn, ?_, hbatch, ?_, hr, hr'⟩
  · rw [hunit]
    change some (functionTree (insideHost.fs.realpath ["proj", "b.cpp"]).str) = _
    rw [hreal]
    rfl
  · rw [hreal]
    exact hbatch'

/-- **A link exports nothing:** in the batch of `/proj/b.cpp`, a link to `/proj/a.cpp`, there is no
symbol node, and in that of the file there is the function. -/
theorem link_exports_nothing : ∃ progress r r',
    Turn (fun usr : String => usr) functionOutside projRequest .new emptyServers
      ⟨.indradb, ["proj"], ["proj"]⟩ progress ["proj", "b.cpp"] ∧
    insideHost.fs.lstat ["proj", "b.cpp"] = some (.link "a.cpp") ∧
    batchOf functionOutside progress.session ["proj"] [] ["proj", "b.cpp"] = some r ∧
    batchOf functionOutside progress.session ["proj"] []
      (insideHost.fs.realpath ["proj", "b.cpp"]) = some r' ∧
    (∀ symbol, symbol ∉ symbolNodes r.1) ∧ ("c:@F@f#", .function) ∈ symbolNodes r'.1 ∧
    ¬SameSymbols r r' := by
  obtain ⟨progress, r, r', hturn, -, hbatch, hbatch', hr, hr'⟩ := exists_batches_link
  have hnative : ∀ s ∈ (functionTree "/proj/a.cpp").subtrees,
      s.label.safeUsr = "" ∨ Native s.label.safeUsr :=
    fun s hs => (functionTree_subtrees hs).2.2
  have hnone : ∀ symbol, symbol ∉ symbolNodes r.1 := by
    rintro ⟨u, l⟩ hmem
    rw [Export.mem_symbolNodes_iff default "/proj/b.cpp" hr hnative] at hmem
    exact nomatch hmem
  have hfunction : ("c:@F@f#", .function) ∈ symbolNodes r'.1 := by
    rw [Export.mem_symbolNodes_iff default "/proj/a.cpp" hr' hnative]
    decide
  exact ⟨progress, r, r', hturn, by decide +kernel, hbatch, hbatch', hnone, hfunction,
    fun hsame => hnone _ ((hsame _).mpr hfunction)⟩

/-- `same_symbols_iff` at the link, where the function of the file is not among the cursors without
a place. -/
theorem same_symbols_iff_link : ∃ r r', SameSymbols r r' ↔
    ∀ u l, (symbolsOf "/proj/a.cpp" (functionTree "/proj/a.cpp")).lookup u = some l →
      (unplacedSymbols (functionTree "/proj/a.cpp")).lookup u = some l := by
  obtain ⟨progress, r, r', hturn, hunit, hbatch, hbatch', -, -⟩ := exists_batches_link
  have hlink : ¬insideHost.fs.LinkFree ["proj", "b.cpp"] := fun hfree =>
    hfree _ List.prefix_rfl "a.cpp" (by decide +kernel)
  have hreal : insideHost.fs.realpath ["proj", "b.cpp"] = ["proj", "a.cpp"] := by decide +kernel
  have hiff := same_symbols_iff hturn (by decide +kernel) hlink
    (fun call tu htu => Except.ok.inj htu ▸ parsedFrom_functionTree _ _)
    (ClangSession.holds_new _ _) hunit hbatch hbatch'
  change _ ↔ ∀ u l, (symbolsOf (insideHost.fs.realpath ["proj", "b.cpp"]).str _).lookup u = some l →
    _ at hiff
  rw [hreal] at hiff
  exact ⟨r, r', hiff⟩

end Ingest
end CppMcp
