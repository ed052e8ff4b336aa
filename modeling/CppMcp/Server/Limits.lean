/-
# The server keeps within its configuration

What the configuration limits is limited in every interleaving of calls (`keeps_within`).  The cache
never holds more units than it may, and none of a file that no call has asked for by a path under an
allowed root.  No answer of `get_ast` has more nodes than is allowed, nor more than one node after the
bytes are spent, and no answer of `query_graphdb` more rows than `_ROW_LIMIT_MAX`.

A path under a root may lead out of it: the guard leaves a link in a path behind a loop, and a directory
is listed without looking behind the links in it.  A unit is that of the file that the path leads to.
-/

import CppMcp.Cache.Concurrent
import CppMcp.Ingest.Roots
import CppMcp.Server.Config
import CppMcp.Server.Interleaved

namespace CppMcp
namespace Server

open Ast (AstNode GraphAst JsonAst IsPrefixUpTo limitReached)
open Cache (ClangSession World)
open CppMcp.Graph (Servers)
open Export (Acc)
open Files (FileSystem Under)
open Ingest (collectCppFiles ingestSession)
open Py (Path Plain Uuid)
open Tools (OpenedUnit SharedUnit UnitAnswer)
open Worker (Event Pool submitted)

/-! ### What a session holds -/

/-- The session has room for this many units, and holds no more, of these files only. -/
structure Holds {TU : Type} (capacity : ℕ) (P : Path → Prop) (s : ClangSession TU) : Prop where
  capacity_eq : s.cache.capacity = capacity
  size_le : s.cache.store.len ≤ capacity
  files : ∀ item ∈ s.cache.store.items, ∃ path, P path ∧ item.1.file_realpath = path.str

section Session

variable {TU : Type} {capacity : ℕ} {P : Path → Prop} {w : World TU} {s : ClangSession TU}

/-- A request leaves no more units than there is room for. -/
theorem len_getOrParse_le (c : Cache.TUCache TU) (hlen : c.store.len ≤ c.capacity) (fs : FileSystem)
    (sha1 : Py.Sha1) (old_mtime new_mtime : Path → Option ℤ) (file_path : Path)
    (build_path : Option Path) (flags : List String) (parser : Path → List String → Acc TU) :
    let c' := (c.getOrParse fs sha1 old_mtime new_mtime file_path build_path flags parser).cache
    c'.capacity = c.capacity ∧ c'.store.len ≤ c.capacity := by
  unfold Cache.TUCache.getOrParse
  split
  · rename_i tu c' hlookup
    obtain ⟨hcapacity, hsize, -⟩ := Cache.counters_of_hit hlookup
    exact ⟨hcapacity, hsize.trans_le hlen⟩
  · rename_i c' hlookup
    obtain ⟨hcapacity, hsize, -⟩ := Cache.counters_of_miss hlookup
    split
    · exact ⟨hcapacity, hsize.trans hlen⟩
    · exact ⟨hcapacity, (Cache.len_insertSection_le c' _ _).trans_eq hcapacity⟩

/-- **A session that is asked for a file holds the file at most.** -/
theorem Holds.getOrParseSync (h : Holds capacity P s) {file_path : Path}
    (hfile : P (w.fs.realpath file_path)) (build_path : Option Path) (flags : List String)
    (options : ℤ) :
    Holds capacity P (s.getOrParseSync w file_path build_path flags options).session := by
  obtain ⟨rfl, hsize, hfiles⟩ := h
  obtain ⟨hcapacity, hsize'⟩ := len_getOrParse_le s.cache hsize w.fs w.sha1 w.old_mtime w.new_mtime
    file_path build_path (Cache.effectiveFlags flags options)
    fun path flags => w.index_parse (Cache.parserCall options path flags)
  refine ⟨hcapacity, hsize', ?_⟩
  obtain ⟨-, -, -, hkeep⟩ | ⟨-, -, -, hkeep⟩ | ⟨entry, -, -, hkeep⟩ :=
    s.cache.getOrParse_cases w.fs w.sha1 w.old_mtime w.new_mtime
      ⟨file_path, build_path, Cache.effectiveFlags flags options⟩
      (fun path flags => w.index_parse (Cache.parserCall options path flags)) rfl
  · exact fun item hitem => hfiles item (hkeep item hitem)
  · exact fun item hitem => hfiles item (hkeep item hitem)
  · intro item hitem
    rcases hkeep item hitem with hitem | rfl
    · exact hfiles item hitem
    · exact ⟨_, hfile, rfl⟩

/-- A new session holds nothing, so it is within any bound. -/
theorem holds_ofCapacity (capacity_pos : 0 < capacity) (P : Path → Prop) :
    Holds capacity P (⟨.ofCapacity capacity capacity_pos⟩ : ClangSession TU) :=
  ⟨rfl, Nat.zero_le _, fun _ hitem => absurd hitem List.not_mem_nil⟩

/-- A session whose cache has been cleared holds nothing. -/
theorem Holds.clear (h : Holds capacity P s) : Holds capacity P ⟨s.cache.clear⟩ :=
  ⟨h.capacity_eq, Nat.zero_le _, fun _ hitem => absurd hitem List.not_mem_nil⟩

/-- An ingest request asks for what it has collected. -/
theorem Holds.ingestSession (h : Holds capacity P s) {o : Ingest.Outside} {req : Ingest.Request}
    (hfiles : ∀ checked files flags source, Ingest.checkRequest o req = .ok checked →
      o.connect (req.db_uri.getD "") = .ok () →
      collectCppFiles o.host.fs checked.validated_input req.recursive = some files → ∀ f ∈ files,
      Ingest.resolveFlags o.host.fs o.load_compile_db f (some checked.validated_build)
        req.default_flags = .ok (flags, source) → P (w.fs.realpath f)) :
    Holds capacity P (ingestSession w o req s) := by
  unfold Ingest.ingestSession
  split
  · rename_i checked hchecked hconnect
    split
    · exact h
    · rename_i cpp_files hcollected
      have hall := fun f hf flags source =>
        hfiles checked cpp_files flags source hchecked hconnect hcollected f hf
      clear hcollected
      induction cpp_files generalizing s with
      | nil => exact h
      | cons f cpp_files ih =>
        obtain ⟨hf, hrest⟩ := List.forall_mem_cons.mp hall
        refine ih ?_ hrest
        unfold Ingest.sessionAfterFile
        split
        · exact h
        · rename_i flags source hresolve
          exact h.getOrParseSync (hf flags source hresolve) ..
  · exact h

end Session

/-! ### What a call asks for -/

variable {ν ρ δ : Type}

/-- A path for which a call asks the session. -/
def Call.Asks (c : Call ν ρ δ) (f : Path) : Prop :=
  match c.task with
  | .unit task => (task.tool c.outside.tools).check = .ok () ∧ ∃ build flags source,
    Tools.resolveUnit c.outside.tools (task.tool c.outside.tools).req = .ok (f, build, flags, source)
  | .ingest_code req => ∃ checked files flags source,
    Ingest.checkRequest c.outside.ingest req = .ok checked ∧
      c.outside.connect (req.db_uri.getD "") = .ok () ∧
      collectCppFiles c.outside.tools.host.fs checked.validated_input req.recursive = some files ∧
      f ∈ files ∧ Ingest.resolveFlags c.outside.tools.host.fs c.outside.tools.load_compile_db f
        (some checked.validated_build) req.default_flags = .ok (flags, source)
  | .query_graphdb _ => False

/-- What the resolvers of `core/deps.py` inject into a call is what the configuration says. -/
def Call.Injected (config : ServerConfig) (c : Call ν ρ δ) : Prop :=
  match c.task with
  | .unit task =>
    (task.tool c.outside.tools).req.allowed_roots = config.allowed_roots ∧
      (task.tool c.outside.tools).req.default_flags = config.default_flags ∧
      ∀ req, task = .get_ast req → (req.max_nodes : ℤ) = config.ast_max_nodes ∧
        (req.max_bytes : ℤ) = config.ast_max_bytes
  | .ingest_code req =>
    req.allowed_roots = config.allowed_roots ∧ req.default_flags = config.default_flags
  | .query_graphdb _ => True

/-- What is collected is the path that is given, or has names after it. -/
theorem exists_append_of_collected {fs : FileSystem} {path : Path} {recursive : Bool}
    {files : List Path} (h : collectCppFiles fs path recursive = some files) {f : Path}
    (hf : f ∈ files) : ∃ rel, f = path ++ rel ∧ ∀ name ∈ rel, Plain name := by
  have hbelow : ∀ {p : Path → Bool} {n : ℕ},
      f ∈ ((fs.entries.map Prod.fst).filter p).map (fun e => path ++ e.drop n) →
      ∃ rel, f = path ++ rel ∧ ∀ name ∈ rel, Plain name := by
    intro p n hf
    obtain ⟨e, he, rfl⟩ := List.mem_map.mp hf
    obtain ⟨entry, hentry, rfl⟩ := List.mem_map.mp (List.mem_filter.mp he).1
    exact ⟨_, rfl, fun name hname => fs.plain _ hentry name (List.mem_of_mem_drop hname)⟩
  unfold collectCppFiles at h
  split_ifs at h with hpath hsuffix hrec
  · obtain rfl := Option.some.inj h
    exact ⟨[], (List.mem_singleton.mp hf).trans (List.append_nil path).symm,
      fun _ hname => absurd hname List.not_mem_nil⟩
  · obtain rfl := Option.some.inj h
    exact absurd hf List.not_mem_nil
  · obtain rfl := Option.some.inj h
    rw [Ingest.sortedPaths, List.mem_insertionSort] at hf
    obtain ⟨hf, -⟩ := List.mem_filter.mp hf
    unfold FileSystem.rglob at hf
    cases ht : fs.target path with
    | none =>
      rw [ht] at hf
      exact absurd hf List.not_mem_nil
    | some dir =>
      rw [ht] at hf
      dsimp only at hf
      split_ifs at hf
      · exact hbelow hf
      · exact absurd hf List.not_mem_nil
  · obtain ⟨paths, hpaths, rfl⟩ := Option.map_eq_some_iff.mp h
    rw [Ingest.sortedPaths, List.mem_insertionSort] at hf
    obtain ⟨hf, -⟩ := List.mem_filter.mp hf
    unfold FileSystem.iterdir at hpaths
    cases ht : fs.target path with
    | none =>
      rw [ht] at hpaths
      exact absurd hpaths (by simp)
    | some dir =>
      rw [ht] at hpaths
      dsimp only at hpaths
      split_ifs at hpaths
      obtain rfl := Option.some.inj hpaths
      exact hbelow hf

/-- A path under a root that leads somewhere; without links in it, to itself. -/
structure Rooted (fs : FileSystem) (roots : List String) (f path : Path) : Prop where
  under : Under roots f
  target : fs.target f = some path
  path_eq : fs.LinkFree f → path = f

/-- **What a call asks for is spelled under a root,** and leads to what is parsed. -/
theorem Call.Asks.rooted {config : ServerConfig} {c : Call ν ρ δ} (hinjected : c.Injected config)
    {f : Path} (h : c.Asks f) : Rooted c.outside.tools.host.fs config.allowed_roots f
      (c.outside.tools.host.fs.realpath f) := by
  have hrooted : ∀ {t}, Under config.allowed_roots f → (∀ name ∈ f, Plain name) →
      c.outside.tools.host.fs.target f = some t →
      Rooted c.outside.tools.host.fs config.allowed_roots f
        (c.outside.tools.host.fs.realpath f) := by
    intro t hunder hplain ht
    rw [FileSystem.realpath_of_target ht]
    exact ⟨hunder, ht, fun hfree => hfree.target_eq hplain ht⟩
  obtain ⟨o, task⟩ := c
  cases task with
  | unit task =>
    obtain ⟨-, build, flags, source, hresolve⟩ := h
    obtain ⟨hplain, hunder⟩ :=
      Ingest.plain_of_validatePath (Tools.validatePath_of_resolveUnit hresolve)
    obtain ⟨t, ht⟩ := Tools.exists_target_of_resolveUnit hresolve
    exact hrooted (hinjected.1 ▸ hunder) hplain ht
  | ingest_code req =>
    obtain ⟨checked, files, -, -, hchecked, -, hfiles, hf, -⟩ := h
    obtain ⟨hplain, hunder⟩ :=
      Ingest.plain_of_validatePath (Ingest.checkRequest_eq_ok_iff.mp hchecked).2.2.2.2
    obtain ⟨t, ht⟩ := Ingest.exists_target_of_collected hfiles hf
    obtain ⟨rel, rfl, hrel⟩ := exists_append_of_collected hfiles hf
    refine hrooted (hinjected.1 ▸ Ingest.Under.append hunder rel) (fun name hname => ?_) ht
    exact (List.mem_append.mp hname).elim (hplain name) (hrel name)
  | query_graphdb job => exact h.elim

/-- **A call leaves in the session what it has asked for.** -/
theorem Holds.run {capacity : ℕ} {P : Path → Prop} {s : Shared} (h : Holds capacity P s.session)
    (uuid5 : String → Uuid) {c : Call ν ρ δ}
    (hc : ∀ f, c.Asks f → P (c.outside.tools.host.fs.realpath f)) :
    Holds capacity P (run uuid5 s c).2.session := by
  obtain ⟨o, task⟩ := c
  cases task with
  | unit task =>
    change Holds capacity P ((task.tool o.tools).run o.tools s.session).2
    unfold Tools.Tool.run
    split
    · exact h
    · rename_i hcheck
      unfold Tools.onUnit
      split
      · exact h
      · rename_i file build flags source hresolve
        exact h.getOrParseSync (hc file ⟨hcheck, build, flags, source, hresolve⟩) build flags _
  | ingest_code req =>
    exact h.ingestSession fun checked files flags source hchecked hconnect hfiles f hf hresolve =>
      hc f ⟨checked, files, flags, source, hchecked, hconnect, hfiles, hf, hresolve⟩
  | query_graphdb job => exact h

/-! ### How much a call answers -/

/-- The nodes of an answer of `get_ast`, in their order. -/
def astNodes : GraphAst ⊕ JsonAst → List AstNode
  | .inl graph => graph.nodes
  | .inr json => json.toGraph.nodes

/-- No more nodes than this; and before the last one there were bytes left. -/
structure FewNodes (max_nodes max_bytes : ℕ) (nodes : List AstNode) : Prop where
  length_le : nodes.length ≤ max_nodes
  sum_lt : (nodes.dropLast.map AstNode.size).sum < max_bytes

/-- A prefix of the preorder that ends at a limit has no more nodes than are allowed, and stays
below the bytes that are allowed until its last node. -/
theorem fewNodes_of_isPrefixUpTo {nodes : List (Rose.Entry Ast.CursorInfo)} {max_nodes max_bytes : ℕ}
    {r : GraphAst} {n : ℕ} (hbytes : 1 ≤ max_bytes) (h : IsPrefixUpTo nodes max_nodes max_bytes r n) :
    FewNodes max_nodes max_bytes r.nodes := by
  have hlength : r.nodes.length = n := by
    rw [← List.length_map AstNode.id, h.ids, List.length_range']
  rcases Nat.eq_zero_or_pos n with rfl | hpos
  · rw [List.eq_nil_of_length_eq_zero hlength]
    exact ⟨Nat.zero_le _, hbytes⟩
  · -- the limits are not reached before the last node
    have hbefore := h.before (n - 1) (Nat.sub_lt hpos Nat.one_pos)
    rw [← hlength, ← List.dropLast_eq_take] at hbefore
    unfold limitReached at hbefore
    split_ifs at hbefore with hnodes hsize
    rw [List.length_dropLast] at hnodes
    exact ⟨by omega, not_le.mp hsize⟩

/-- The graph format has no more nodes than is allowed. -/
theorem fewNodes_of_walkGraph {tu : Ast.TranslationUnit} {start_line end_line : Option ℤ}
    {max_nodes max_bytes : ℕ} (hnodes : 1 ≤ max_nodes) (hbytes : 1 ≤ max_bytes) {r : GraphAst}
    (h : Ast.walkGraph tu start_line end_line max_nodes max_bytes = .ok r) :
    FewNodes max_nodes max_bytes r.nodes :=
  let ⟨_, hprefix⟩ := Ast.exists_isPrefixUpTo hnodes hbytes h
  fewNodes_of_isPrefixUpTo hbytes hprefix

/-- **Neither format has more nodes than is allowed,** and up to the last node both stay below the
bytes that are allowed. -/
theorem fewNodes_of_walk {req : Tools.AstRequest} (hnodes : 1 ≤ req.max_nodes)
    (hbytes : 1 ≤ req.max_bytes) {tu : Ast.TranslationUnit} {ast : GraphAst ⊕ JsonAst}
    (h : req.walk tu = .ok ast) : FewNodes req.max_nodes req.max_bytes (astNodes ast) := by
  unfold Tools.AstRequest.walk at h
  cases hfatal : Tools.hasZeroAstNodes tu && Tools.hasFatalDiagnostics tu.diagnostics with
  | true =>
    rw [hfatal] at h
    exact nomatch h
  | false =>
    rw [hfatal] at h
    by_cases hgraph : Py.lower (if req.format = "" then "json" else req.format) = "graph"
    · simp only [if_pos hgraph] at h
      obtain ⟨graph, hwalk, h⟩ := Except.bind_eq_ok.mp h
      obtain rfl := Except.ok.inj h
      exact fewNodes_of_walkGraph hnodes hbytes hwalk
    · simp only [if_neg hgraph] at h
      obtain ⟨json, hwalk, h⟩ := Except.bind_eq_ok.mp h
      obtain rfl := Except.ok.inj h
      exact fewNodes_of_walkGraph hnodes hbytes
        ((Ast.walkGraph_follows_walkJson tu _ _ _ _ _).eq_ok hwalk)

/-- An answer of a tool is within the configuration. -/
def UnitWithin (config : ServerConfig) : UnitAnswer → Prop
  | .ast answer => FewNodes config.ast_max_nodes.1.toNat config.ast_max_bytes.1.toNat
    (astNodes answer.payload)
  | _ => True

/-- A reply is within the configuration. -/
def Reply.Within (config : ServerConfig) : Reply δ → Prop
  | .unit (.ok answer) => UnitWithin config answer
  | .query_graphdb (.ok payload) =>
    payload.rows.length ≤ 500 ∧ payload.rows_returned = payload.rows.length
  | _ => True

/-- What a tool answers it has found in a unit. -/
theorem look_of_run {t : Tools.Tool} {o : Tools.SharedOutside} {s : ClangSession SharedUnit}
    {answer : UnitAnswer} (h : (t.run o s).1 = .ok answer) :
    ∃ opened, t.look opened = .ok answer := by
  unfold Tools.Tool.run at h
  split at h
  · exact nomatch h
  · unfold Tools.onUnit at h
    split at h
    · exact nomatch h
    · obtain ⟨unit, -, h⟩ := Except.bind_eq_ok.mp h
      exact ⟨_, h⟩

/-- What a tool answers about a unit it has read off the unit that was opened. -/
theorem found_of_answering {α : Type} {answer : Tools.Answered α → UnitAnswer}
    {found : Path → SharedUnit → Acc α} {opened : OpenedUnit} {a : UnitAnswer}
    (h : Tools.answering answer found opened = .ok a) :
    ∃ payload, found opened.resolved_file opened.tu = .ok payload ∧
      a = answer ⟨payload, opened.flags_source, opened.cache_hit⟩ := by
  obtain ⟨payload, hfound, h⟩ := Except.bind_eq_ok.mp h
  exact ⟨payload, hfound, (Except.ok.inj h).symm⟩

/-- **Every reply is within the configuration:** an AST keeps to the limits for nodes and bytes, and
the rows of a query are as many as are reported and no more than 500. -/
theorem within_run (uuid5 : String → Uuid) {config : ServerConfig} {c : Call ν ρ δ}
    (hinjected : c.Injected config) (s : Shared) : (run uuid5 s c).1.Within config := by
  obtain ⟨o, task⟩ := c
  cases task with
  | unit task =>
    change Reply.Within config (.unit ((task.tool o.tools).run o.tools s.session).1)
    cases hanswer : ((task.tool o.tools).run o.tools s.session).1 with
    | error exc => trivial
    | ok answer =>
      obtain ⟨opened, hlook⟩ := look_of_run hanswer
      cases task with
      | get_ast req =>
        change Tools.answering .ast (fun _ tu => req.walk tu.walked) opened = .ok answer at hlook
        obtain ⟨ast, hwalk, rfl⟩ := found_of_answering hlook
        obtain ⟨hnodes, hbytes⟩ := hinjected.2.2 req rfl
        have hnodes_pos := config.ast_max_nodes.2
        have hbytes_pos := config.ast_max_bytes.2
        have hfew := fewNodes_of_walk (by omega) (by omega) hwalk
        rw [show req.max_nodes = config.ast_max_nodes.1.toNat by omega,
          show req.max_bytes = config.ast_max_bytes.1.toNat by omega] at hfew
        exact hfew
      | get_references req =>
        obtain ⟨cursor, -, hlook⟩ := Except.bind_eq_ok.mp hlook
        obtain ⟨found, -, hlook⟩ := Except.bind_eq_ok.mp hlook
        obtain rfl := Except.ok.inj hlook
        trivial
      | get_definition req | get_type_info req | get_header_info req | get_preprocessor_state req =>
        obtain ⟨payload, -, hlook⟩ := Except.bind_eq_ok.mp hlook
        obtain rfl := Except.ok.inj hlook
        trivial
  | ingest_code req => trivial
  | query_graphdb job =>
    change Reply.Within config (.query_graphdb (Tools.doQueryGraphdb (o.query s.servers) job).outcome)
    cases hquery : (Tools.doQueryGraphdb (o.query s.servers) job).outcome with
    | error exc => trivial
    | ok payload =>
      obtain ⟨-, hcount, hle, -⟩ :=
        (Tools.leaves_doQueryGraphdb (o.query s.servers) job).answered payload hquery
      have hmax : (job.row_limit : ℤ) ≤ 500 := job.row_limit_le
      exact ⟨by omega, hcount⟩

/-! ### The server -/

/-- **A server keeps within its configuration:** so many units and no more, each of a file that a call
has asked for under a root; so many nodes and rows and no more. -/
structure KeepsWithin (config : ServerConfig) (es : List (Event (Call ν ρ δ) (Reply δ)))
    (p : Pool Shared (Call ν ρ δ) (Reply δ)) : Prop where
  size : (p.shared.session.cache.store.len : ℤ) ≤ config.cache_capacity
  files : ∀ item ∈ p.shared.session.cache.store.items, ∃ c ∈ submitted es, ∃ f path, c.Asks f ∧
    Rooted c.outside.tools.host.fs config.allowed_roots f path ∧ item.1.file_realpath = path.str
  replies : ∀ i reply, .deliver i reply ∈ es → reply.Within config

/-- The cache is as large as the configuration says. -/
theorem ServerConfig.capacity_pos (config : ServerConfig) : 0 < config.cache_capacity.1.toNat :=
  Int.pos_iff_toNat_pos.mp config.cache_capacity.2

/-- **In every interleaving a server keeps within its configuration,** whatever the calls ask for, and
whatever the files, libclang and the databases answer. -/
theorem keeps_within (uuid5 : String → Uuid) {config : ServerConfig} {servers : Servers Uuid}
    {es : List (Event (Call ν ρ δ) (Reply δ))} {p : Pool Shared (Call ν ρ δ) (Reply δ)}
    (hrun : ServerRun uuid5 config.cache_capacity.1.toNat config.capacity_pos servers es p)
    (hinjected : ∀ c ∈ submitted es, c.Injected config) : KeepsWithin config es p := by
  have hholds := Worker.invariant_of_run
    (P := fun s : Shared => Holds config.cache_capacity.1.toNat (fun path => ∃ c ∈ submitted es,
      ∃ f, c.Asks f ∧ Rooted c.outside.tools.host.fs config.allowed_roots f path) s.session)
    hrun
    (fun c hc s hs => hs.run uuid5 fun f hf => ⟨c, hc, f, hf, hf.rooted (hinjected c hc)⟩)
    (fun s hs => hs.clear) (holds_ofCapacity config.capacity_pos _)
  refine ⟨?_, fun item hitem => ?_, fun i reply hdeliver => ?_⟩
  · have hpos := config.cache_capacity.2
    have hsize := hholds.size_le
    omega
  · obtain ⟨path, ⟨c, hc, f, hf, hrooted⟩, heq⟩ := hholds.files item hitem
    exact ⟨c, hc, f, path, hf, hrooted, heq⟩
  · have hreply := Worker.answer_of_deliver hrun hdeliver
    rw [Worker.getElem?_answers] at hreply
    obtain ⟨c, hc, rfl⟩ := Option.map_eq_some_iff.mp hreply
    exact within_run uuid5 (hinjected c (List.mem_of_getElem? hc)) _

/-- A server for `/proj` with room for one unit. -/
def projConfig : ServerConfig where
  allowed_roots := ["/proj"]
  default_flags := []
  cache_capacity := ⟨1, by decide⟩
  ast_max_nodes := ⟨5000, by decide⟩
  ast_max_bytes := ⟨1048576, by decide⟩
  transport := "stdio"
  http_bind := "127.0.0.1"
  http_port := ⟨8000, by decide⟩
  roots_ne_nil := by decide
  transport_known := by decide

/-- `keeps_within` for the run of the two calls of the example. -/
theorem keeps_within_proj : ∃ p, KeepsWithin projConfig projEvents p := by
  obtain ⟨p, hrun⟩ := projEvents_run
  refine ⟨p, keeps_within Ingest.projUuid5 hrun fun c hc => ?_⟩
  rcases List.mem_cons.mp hc with rfl | hc
  · exact ⟨rfl, rfl⟩
  · rw [List.mem_singleton.mp hc]
    trivial

end Server
end CppMcp
