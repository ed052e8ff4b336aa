/-
# The database keeps to the schema

`src/cpp_mcp/graphdb/schema.py` gives the labels that each type of edge joins (`Export.EdgeType.leaves`
and `Export.EdgeType.enters`), but IndraDB checks none of it, and an edge may join vertices that have come
with different files and different requests.  Whatever requests have come in whatever order, every edge
that is stored joins vertices of those labels (`database_conforms`), as long as USRs tell the kinds of
symbols and `uuid5` tells the USRs apart.  So a hop along edges of one type ends at vertices of the labels
of that type (`hop_conforms`).
-/

import CppMcp.Export.Conforms
import CppMcp.IndraDB.Pipe
import CppMcp.Ingest.Found
import CppMcp.Ingest.Units
import CppMcp.Lib.Visitor

namespace CppMcp
namespace Ingest

open Py (Path Uuid)
open Export (Cursor EdgeRecord EdgeType Labelled Native NodeRecord NodeType TellsKinds kindToNodeType)
open CppMcp.Graph (Servers)

/-! ### What the units of a history have in common -/

/-- Whatever the request can be given for a file has the property: what its session holds and what
libclang returns. -/
structure Call.Gives (P : Cursor → Prop) (c : Call) : Prop where
  held : c.session.Holds c.outside.world fun _ => P
  parsed : ∀ call tu, c.outside.index_parse call = .ok tu → P tu

section Units

variable {P : Cursor → Prop} {σ : Type} {o : Outside} {driver : Graph.GraphDriver σ} {build : Path}
  {default_flags : List String}

/-- A turn exports a unit that has the property, or none. -/
theorem exported_turn (hparse : ∀ call tu, o.index_parse call = .ok tu → P tu) {p : Progress σ}
    (h : p.session.Holds o.world fun _ => P) (hp : ∀ x ∈ p.exported, P x.2) (f : Path) :
    ∀ x ∈ (processFile o driver build default_flags p f).exported, P x.2 := by
  unfold processFile
  split
  · exact hp
  · rename_i flags _ _
    dsimp only
    split
    · exact hp
    · rename_i tu _ hresult
      split
      · exact hp
      · intro x hx
        rcases List.mem_append.mp hx with hx | hx
        · exact hp x hx
        · rw [List.mem_singleton.mp hx]
          have hunit : unitOf o p.session build flags f = some tu := by rw [unitOf, hresult]; rfl
          rw [unitOf_eq] at hunit
          cases hentry : heldEntry o p.session build flags f with
          | some entry =>
            rw [hentry] at hunit
            exact Option.some.inj hunit ▸ of_heldEntry h hentry
          | none =>
            rw [hentry] at hunit
            exact hparse _ tu (Except.toOption_eq_some_iff.mp hunit)

/-- A run holds what it has parsed, beside what its session has held before. -/
theorem holds_run (hparse : ∀ call tu, o.index_parse call = .ok tu → P tu) {p : Progress σ}
    (h : p.session.Holds o.world fun _ => P) (files : List Path) :
    (processFiles o driver build default_flags p files).session.Holds o.world fun _ => P := by
  induction files generalizing p with
  | nil => exact h
  | cons f files ih => exact ih (holds_processFile (Q := fun _ => P) hparse h f)

/-- The units that a run exports have the property too, if those of the session do and libclang
returns no others. -/
theorem exported_run (hparse : ∀ call tu, o.index_parse call = .ok tu → P tu) {p : Progress σ}
    (h : p.session.Holds o.world fun _ => P) (hp : ∀ x ∈ p.exported, P x.2) (files : List Path) :
    ∀ x ∈ (processFiles o driver build default_flags p files).exported, P x.2 := by
  induction files generalizing p with
  | nil => exact hp
  | cons f files ih =>
    exact ih (holds_processFile (Q := fun _ => P) hparse h f) (exported_turn hparse h hp f)

end Units

variable {U : Type} [DecidableEq U] {uuid5 : String → U}

/-- **The records of a history** are extracted from units that have the property. -/
theorem extracted_recordsAll {P : Cursor → Prop} (calls : List Call) (h : ∀ c ∈ calls, c.Gives P)
    (servers : Servers U) : ∀ r ∈ recordsAll uuid5 calls servers,
      ∃ sha1 x, P x.2 ∧ r = recordsOf sha1 x := by
  induction calls generalizing servers with
  | nil => exact fun r hr => absurd hr List.not_mem_nil
  | cons c calls ih =>
    obtain ⟨hc, hcalls⟩ := List.forall_mem_cons.mp h
    intro r hr
    rcases List.mem_append.mp hr with hr | hr
    · unfold Call.onIndradb exportedRecords at hr
      split at hr
      · split at hr
        · exact absurd hr List.not_mem_nil
        · split at hr
          · obtain ⟨x, hx, rfl⟩ := List.mem_map.mp hr
            refine ⟨c.outside.sha1, x, ?_, rfl⟩
            exact exported_run hc.parsed hc.held (fun _ hx => absurd hx List.not_mem_nil) _ x hx
          · exact absurd hr List.not_mem_nil
      · exact absurd hr List.not_mem_nil
    · exact ih hcalls _ r hr

/-! ### The invariant of the store -/

variable {kind : String → NodeType} {S : Set String}

/-- All USRs in the records are among `S`. -/
def UsrsAmong (S : Set String) (r : Records) : Prop :=
  (∀ n ∈ r.1, n.usr ∈ S) ∧ ∀ e ∈ r.2, e.source_usr ∈ S ∧ e.target_usr ∈ S

/-- The records of a file conform: the nodes have the labels of their USRs, the edges join labels that
their types allow, and all USRs are among `S`. -/
structure RecordsConform (kind : String → NodeType) (S : Set String) (r : Records) : Prop where
  nodes : ∀ n ∈ r.1, n.usr ∈ S ∧ Labelled kind n.usr n.label
  edges : ∀ e ∈ r.2, (e.source_usr ∈ S ∧ e.target_usr ∈ S) ∧ e.Conforms kind

/-- What is extracted from a unit whose USRs tell the kinds conforms. -/
theorem recordsConform_of_tellsKinds {sha1 : Py.Sha1} {x : Path × Cursor} (h : TellsKinds kind x.2)
    (husrs : UsrsAmong S (recordsOf sha1 x)) : RecordsConform kind S (recordsOf sha1 x) := by
  have hrecords : recordsOf sha1 x = ([], []) ∨
      Export.extractNodesAndEdges sha1 x.1.str x.2 = .ok (recordsOf sha1 x) := by
    unfold recordsOf
    cases Export.extractNodesAndEdges sha1 x.1.str x.2 with
    | error exc => exact Or.inl rfl
    | ok r => exact Or.inr rfl
  rcases hrecords with hnone | hr
  · rw [hnone]
    exact ⟨fun _ hn => absurd hn List.not_mem_nil, fun _ he => absurd he List.not_mem_nil⟩
  · have hcollected := ((Export.extract_eq_ok_iff sha1 x.1.str).mp hr).2
    refine ⟨fun n hn => ⟨husrs.1 n hn, ?_⟩, fun e he => ⟨husrs.2 e he, ?_⟩⟩
    · rw [hcollected] at hn
      exact Export.labelled_collected sha1 x.1.str h hn
    · rw [hcollected] at he
      exact Export.conforms_collected sha1 x.1.str h e he

/-- **The store conforms:** the label of a vertex is that of the USR it is made of, and an edge is made
of an edge record that conforms. -/
structure StoreConforms (uuid5 : String → U) (kind : String → NodeType) (S : Set String)
    (s : Graph.IndraDB.Store U) : Prop where
  vertices : ∀ v a, s.vertices.get v = some a → ∃ usr ∈ S, v = uuid5 usr ∧ Labelled kind usr a.1
  edges : ∀ e ∈ s.edges.keys, ∃ rec : EdgeRecord, e = Graph.IndraDB.edgeOf uuid5 rec ∧
    (rec.source_usr ∈ S ∧ rec.target_usr ∈ S) ∧ rec.Conforms kind

omit [DecidableEq U] in
/-- An empty store conforms. -/
theorem storeConforms_empty [DecidableEq U] (uuid5 : String → U) (kind : String → NodeType)
    (S : Set String) : StoreConforms uuid5 kind S .empty where
  vertices _ _ h := absurd h (by simp [PropertyGraph.empty, OrderedDict.get, OrderedDict.empty])
  edges _ he := absurd he List.not_mem_nil

/-- **Loading keeps the invariant,** whatever files with records that conform are loaded. -/
theorem StoreConforms.loadAll {s : Graph.IndraDB.Store U} (h : StoreConforms uuid5 kind S s)
    {rs : List Records} (hrs : ∀ r ∈ rs, RecordsConform kind S r) :
    StoreConforms uuid5 kind S ((Graph.IndraDB.loader uuid5).loadAll rs s) where
  vertices := by
    have hnode : ∀ u ∈ rs.flatMap (Graph.IndraDB.loader uuid5).nodes, ∃ n : NodeRecord,
        (n.usr ∈ S ∧ Labelled kind n.usr n.label) ∧ u = Graph.IndraDB.nodeUpsert uuid5 n := by
      intro u hu
      obtain ⟨r, hr, hu⟩ := List.mem_flatMap.mp hu
      obtain ⟨n, hn, rfl⟩ := List.mem_map.mp hu
      exact ⟨n, (hrs r hr).nodes n hn, rfl⟩
    intro v a hget
    rw [PropertyGraph.FileLoader.vertices_loadAll] at hget
    refine OrderedDict.forall_get_upsertAll h.vertices (fun u hu new hnew => ?_)
      (fun u hu value hold => ?_) hget
    · obtain ⟨n, ⟨husr, hlabel⟩, rfl⟩ := hnode u hu
      obtain rfl := Option.some.inj hnew
      exact ⟨n.usr, husr, rfl, hlabel⟩
    · obtain ⟨n, -, rfl⟩ := hnode u hu
      exact hold
  edges := by
    intro e he
    rcases PropertyGraph.FileLoader.exists_of_mem_edges_loadAll _ he with
      he | ⟨r, hr, vs, u, hu, rfl⟩
    · exact h.edges e he
    · obtain ⟨rec, hrec, rfl⟩ := List.mem_map.mp hu
      exact ⟨rec, rfl, (hrs r hr).edges rec hrec⟩

/-- An edge and the labels of its ends. -/
def Joins (s : Graph.IndraDB.Store U) (e : U × EdgeType × U) : Prop :=
  ∃ a b, s.vertices.get e.1 = some a ∧ s.vertices.get e.2.2 = some b ∧
    e.2.1.leaves a.1 = true ∧ e.2.1.enters b.1 = true

/-- **In a store that conforms every edge joins what it may.** -/
theorem StoreConforms.joins (hinj : Set.InjOn uuid5 S) {s : Graph.IndraDB.Store U}
    (h : StoreConforms uuid5 kind S s) {e : U × EdgeType × U} (he : e ∈ s.edges.keys) : Joins s e := by
  obtain ⟨rec, rfl, ⟨hsource, htarget⟩, hconf⟩ := h.edges e he
  have hlabel : ∀ {usr v}, usr ∈ S → v ∈ s.vertices.keys → v = uuid5 usr →
      ∃ a, s.vertices.get v = some a ∧ Labelled kind usr a.1 := by
    rintro usr _ husr hv rfl
    obtain ⟨a, ha⟩ := Option.isSome_iff_exists.mp (OrderedDict.isSome_get_iff.mpr hv)
    obtain ⟨usr', husr', heq, hl⟩ := h.vertices _ a ha
    exact ⟨a, ha, hinj husr husr' heq ▸ hl⟩
  obtain ⟨a, ha, hla⟩ := hlabel hsource (s.ends _ he).1 rfl
  obtain ⟨b, hb, hlb⟩ := hlabel htarget (s.ends _ he).2 rfl
  obtain ⟨l, hl, hleaves⟩ := hconf.source
  refine ⟨a, b, ha, hb, hla.unique hl ▸ hleaves, ?_⟩
  change rec.edge_type.enters b.1 = true
  cases htargets : rec.edge_type.targetsNode with
  | true =>
    obtain ⟨l', hl', henters⟩ := hconf.target htargets
    exact hlb.unique hl' ▸ henters
  | false =>
    revert htargets
    cases rec.edge_type <;> simp [EdgeType.targetsNode, EdgeType.enters]

/-! ### A history of requests -/

/-- The store after a history conforms, if the one before it does and IndraDB answers every call. -/
theorem storeConforms_ingestAll (calls : List Call) {servers : Servers U}
    (hanswers : ∀ k, servers.indradb.fault k = none)
    (hstore : StoreConforms uuid5 kind S servers.indradb.store)
    (hkinds : ∀ c ∈ calls, c.Gives (TellsKinds kind))
    (husrs : ∀ r ∈ recordsAll uuid5 calls servers, UsrsAmong S r) :
    StoreConforms uuid5 kind S (ingestAll uuid5 calls servers).2.indradb.store := by
  rw [(leaves_ingestAll uuid5 calls hanswers).store]
  refine hstore.loadAll fun r hr => ?_
  obtain ⟨sha1, x, hx, rfl⟩ := extracted_recordsAll calls hkinds servers r hr
  exact recordsConform_of_tellsKinds hx (husrs _ hr)

/-- **Every edge that is stored joins vertices of the labels that the schema gives its type,** after any
history of requests. -/
theorem database_conforms (hinj : Set.InjOn uuid5 S) (calls : List Call) {servers : Servers U}
    (hanswers : ∀ k, servers.indradb.fault k = none)
    (hstore : StoreConforms uuid5 kind S servers.indradb.store)
    (hkinds : ∀ c ∈ calls, c.Gives (TellsKinds kind))
    (husrs : ∀ r ∈ recordsAll uuid5 calls servers, UsrsAmong S r) :
    ∀ e ∈ (ingestAll uuid5 calls servers).2.indradb.store.edges.keys,
      Joins (ingestAll uuid5 calls servers).2.indradb.store e := fun _ he =>
  (storeConforms_ingestAll calls hanswers hstore hkinds husrs).joins hinj he

/-- The symbols of `/proj` are functions. -/
def projKind (_ : String) : NodeType := .function

/-- The trees of `/proj` tell their kinds: both have functions only. -/
theorem projTrees_tellKinds : TellsKinds projKind callerTree ∧ TellsKinds projKind calleeTree := by
  have husrs : Native "c:@F@f#" ∧ Native "c:@F@g#" := by decide
  constructor
  · simp [TellsKinds, callerTree, Export.CursorInfo.schema, Export.CursorInfo.safeUsr,
      Export.classifyNode, Export.CursorInfo.kindName, Export.Acc.getD, husrs,
      kindToNodeType, projKind]
  · simp [TellsKinds, calleeTree, Export.CursorInfo.schema, Export.CursorInfo.safeUsr,
      Export.classifyNode, Export.CursorInfo.kindName, Export.Acc.getD, husrs,
      kindToNodeType, projKind]

/-- Whatever libclang is asked for in `/proj`, it returns one of the two trees. -/
theorem projOutside_parses (call : Cache.ParseCall) (tu : Cursor)
    (h : projOutside.index_parse call = .ok tu) : TellsKinds projKind tu := by
  obtain ⟨hcaller, hcallee⟩ := projTrees_tellKinds
  obtain rfl := Except.ok.inj h
  split_ifs
  · exact hcaller
  · exact hcallee

/-- So a request to `/proj` is given nothing else, if its session holds nothing else. -/
theorem projCall_gives {session : Cache.ClangSession Cursor}
    (h : session.Holds projOutside.world fun _ => TellsKinds projKind) :
    (⟨projOutside, projRequest, session⟩ : Call).Gives (TellsKinds projKind) :=
  ⟨h, projOutside_parses⟩

/-- Both requests of the history are given units that tell their kinds, the second from the session
that the first has left. -/
theorem projCalls_give : ∀ c ∈ projCalls, c.Gives (TellsKinds projKind) := by
  have hnew := Cache.ClangSession.holds_new projOutside.world fun _ => TellsKinds projKind
  have hfirst : firstRun.session.Holds projOutside.world fun _ => TellsKinds projKind := by
    unfold firstRun ingestFiles
    exact holds_run projOutside_parses hnew _
  unfold projCalls
  intro c hc
  simp only [List.mem_cons, List.not_mem_nil, or_false] at hc
  rcases hc with rfl | rfl
  · exact projCall_gives hnew
  · exact projCall_gives hfirst

/-- The records of the history have the USRs of `/proj` and no others. -/
theorem projCalls_usrs : ∀ r ∈ recordsAll projUuid5 projCalls freshServers,
    UsrsAmong {usr | usr ∈ projUsrs} r := by
  have h : ∀ r ∈ recordsAll projUuid5 projCalls freshServers, (∀ n ∈ r.1, n.usr ∈ projUsrs) ∧
      ∀ e ∈ r.2, e.source_usr ∈ projUsrs ∧ e.target_usr ∈ projUsrs := by decide +kernel
  exact h

/-- `database_conforms` for the edge between the functions of `/proj`, ingested twice. -/
theorem database_conforms_proj :
    Joins (ingestAll projUuid5 projCalls freshServers).2.indradb.store
      (projUuid5 "c:@F@f#", .references, projUuid5 "c:@F@g#") :=
  database_conforms injOn_projUuid5 projCalls (fun _ => rfl) (storeConforms_empty _ _ _)
    projCalls_give projCalls_usrs _ (by decide +kernel)

/-! ### A hop -/

/-- The labels at the other end of a hop. -/
def meets (t : EdgeType) (direction : IndraDB.Direction) (label : NodeType) : Bool :=
  match direction with
  | .outbound => t.enters label
  | .inbound => t.leaves label

/-- The row of a hop in a store whose edges join what they may. -/
theorem row_of_hop {s : Graph.IndraDB.Store Uuid} (hjoins : ∀ e ∈ s.edges.keys, Joins s e) {id : Uuid}
    {direction : IndraDB.Direction} {t : EdgeType} {e : IndraDB.Edge}
    (he : e ∈ (IndraDB.stored s).hops direction id (some t.text)) {row : IndraDB.Row}
    (hrow : IndraDB.IsNeighborRow (IndraDB.stored s) direction e row) :
    ∃ (id : String) (label : NodeType) (props : _),
      row = .vertex id label.text props ∧ meets t direction label = true := by
  obtain ⟨hitem, hask⟩ := List.mem_filter.mp he
  rw [IndraDB.edgeItems_stored] at hitem
  obtain ⟨key, hkey, rfl⟩ := List.mem_map.mp hitem
  obtain ⟨-, hname⟩ := of_decide_eq_true hask
  have htype : key.2.1 = t := IndraDB.edgeText_injective (of_decide_eq_true hname)
  obtain ⟨a, b, ha, hb, hleaves, henters⟩ := hjoins key hkey
  rw [htype] at hleaves henters
  obtain ⟨v, hv, props, rfl, -⟩ := hrow
  cases direction with
  | outbound =>
    change (IndraDB.stored s).vertex key.2.2 = some v at hv
    rw [IndraDB.Store.vertex, IndraDB.get_vertices_stored, hb] at hv
    cases hv
    exact ⟨_, b.1, props, rfl, henters⟩
  | inbound =>
    change (IndraDB.stored s).vertex key.1 = some v at hv
    rw [IndraDB.Store.vertex, IndraDB.get_vertices_stored, ha] at hv
    cases hv
    exact ⟨_, a.1, props, rfl, hleaves⟩

/-- **A hop along edges of one type ends at vertices of the labels of that type,** after any history of
requests and whichever way the client resolves it. -/
theorem hop_conforms {uuid5 : String → Uuid} (hinj : Set.InjOn uuid5 S) (calls : List Call)
    {servers : Servers Uuid} (hanswers : ∀ k, servers.indradb.fault k = none)
    (hstore : StoreConforms uuid5 kind S servers.indradb.store)
    (hkinds : ∀ c ∈ calls, c.Gives (TellsKinds kind))
    (husrs : ∀ r ∈ recordsAll uuid5 calls servers, UsrsAmong S r) {client : IndraDB.Client}
    (hlooks : IndraDB.LooksUp client
      (IndraDB.stored (ingestAll uuid5 calls servers).2.indradb.store)) {library : IndraDB.Library}
    {args : IndraDB.Args} {query : String} {id : Uuid} {direction : IndraDB.Direction} {t : EdgeType}
    (hargs : IndraDB.AsksPipe library args id direction (some t.text))
    (hask : IndraDB.Asks library query .pipe args) {hops : List IndraDB.Edge}
    (hhops : hops.Perm ((IndraDB.stored (ingestAll uuid5 calls servers).2.indradb.store).hops
      direction id (some t.text)))
    (hedges : IndraDB.Enumerates client
      (IndraDB.stored (ingestAll uuid5 calls servers).2.indradb.store) direction id (some t.text) hops)
    (row_limit : ℕ) :
    ∃ r, IndraDB.execute client library row_limit query = .ok r ∧
      ∀ row ∈ r.rows, ∃ (id : String) (label : NodeType) (props : _),
        row = .vertex id label.text props ∧ meets t direction label = true := by
  have hconforms := storeConforms_ingestAll calls hanswers hstore hkinds husrs
  obtain ⟨r, hr, hanswer⟩ := IndraDB.execute_pipe row_limit hargs hask hlooks hhops hedges
  refine ⟨r, hr, fun row hrow => ?_⟩
  obtain ⟨e, he, hneighbor⟩ := hanswer.rows.exists_mem hrow
  have hhop := hhops.mem_iff.mp (List.mem_of_mem_take he)
  exact row_of_hop (fun k hk => hconforms.joins hinj hk) hhop hneighbor

/-- `{"query": "pipe", "args": {"vertex_id": "…", "direction": "outbound", "t": "DEFINES"}}` -/
def definesQuery : String := "\x7b\"query\": \"pipe\", \"args\": \x7b\"vertex_id\": " ++
  "\"00000000-0000-0000-0000-000000000000\", \"direction\": \"outbound\", \"t\": \"DEFINES\"\x7d\x7d"

/-- The arguments of that query. -/
def definesArgs : IndraDB.Args :=
  [("vertex_id", .str "00000000-0000-0000-0000-000000000000"), ("direction", .str "outbound"),
    ("t", .str "DEFINES")]

/-- `json.loads` and `uuid.UUID`, as far as that query goes. -/
def definesLibrary : IndraDB.Library where
  loads text :=
    if text = definesQuery then
      .ok (.dict [("query", .str "pipe"), ("args", .dict definesArgs)])
    else .error (.valueError "Expecting value: line 1 column 1 (char 0)")
  UUID text :=
    if text = "00000000-0000-0000-0000-000000000000" then .ok ⟨0⟩
    else .error "badly formed hexadecimal UUID string"

/-- The text of the example is a query that its library reads as a pipe. -/
theorem definesQuery_asks : IndraDB.Asks definesLibrary definesQuery .pipe definesArgs :=
  ⟨[("query", .str "pipe"), ("args", .dict definesArgs)],
    by simp only [definesLibrary, if_true], rfl, rfl⟩

/-- The arguments of the example ask for what `/proj/a.cpp` defines. -/
theorem definesArgs_asksPipe :
    IndraDB.AsksPipe definesLibrary definesArgs ⟨0⟩ .outbound (some EdgeType.defines.text) where
  keys := by
    unfold IndraDB.HasKeys
    decide
  vertex_id := ⟨_, rfl, by simp only [definesLibrary, if_true]⟩
  direction_eq := rfl
  t_eq := Or.inr ⟨_, rfl, rfl, by decide⟩

/-- `hop_conforms` for what `/proj/a.cpp` defines, after it has been ingested twice. -/
theorem hop_conforms_proj : ∃ r,
    IndraDB.execute (IndraDB.fakeClient
        (IndraDB.stored (ingestAll projUuid5 projCalls freshServers).2.indradb.store))
      definesLibrary 10 definesQuery = .ok r ∧
      ∀ row ∈ r.rows, ∃ (id : String) (label : NodeType) (props : _),
        row = .vertex id label.text props ∧ meets .defines .outbound label = true :=
  hop_conforms injOn_projUuid5 projCalls (fun _ => rfl) (storeConforms_empty _ _ _)
    projCalls_give projCalls_usrs (IndraDB.looksUp_fakeClient _) definesArgs_asksPipe
    definesQuery_asks (List.Perm.refl _) (IndraDB.enumerates_fakeClient _ .outbound ⟨0⟩ _) 10

end Ingest
end CppMcp
