/-
# From a file to its symbols, hop by hop

A client that knows the vertex of a file and asks the executor for nothing but hops comes to every
symbol that the file has been exported with: the exporter links each node to what it belongs to, the
driver stores the edges of a file whose nodes it has just stored, no later request takes an edge away,
and a hop that is not cut off answers with every neighbour (`file_navigable`).
-/

import CppMcp.Export.Reachable
import CppMcp.IndraDB.Pipe
import CppMcp.Ingest.Found
import CppMcp.Lib.Visitor

namespace CppMcp

/-! ### What the exporter links -/

namespace Export

/-- Every node that the walk collects is reachable from the File node. -/
theorem reach_collected (sha1 : Py.Sha1) (file_path : String) {t : Cursor} (h : NonRaising t) :
    ∀ u ∈ (collected sha1 file_path t).usrs,
      Reach (collected sha1 file_path t).edges (fileUsr file_path) u := by
  have hL : ∀ t : TypeInfo, ¬False := fun _ => id
  exact (Rose.foldl_visit_induct (emit sha1 file_path)
    (fun b => b.Closed file_path (fun _ => False) ∧
      ∀ u ∈ b.usrs, Reach b.edges (fileUsr file_path) u)
    Ctx.Among
    (fun v => v.2.label.Clear (fun _ => False) ∧
      ∀ p ∈ v.2.label.get_arguments, ∃ spelling, p.spelling = .ok spelling)
    (fun b v hv hb hg => by
      have hnew := newFrom_emit sha1 hv.2 hb.2 hg
      refine ⟨closed_emit sha1 hL hv.1 hb.1 hg, fun u hu => ?_⟩
      exact (hnew.reach u hu).elim (fun hu => (hb.2 u hu).mono hnew.le.edges.subset) id)
    (fun b v _ _ _ _ hk => hk.mono ((covers_le sha1).emit file_path b v))
    (fun _ _ _ hv hb hg hd => among_emit sha1 hL hv.1 hb.1 hg hd) t ⟨none, none, none⟩
    (fun v hv => ⟨h.clear v.2 (Rose.mem_subtrees_of_mem_visit hv),
      h.spelling v.2 (Rose.mem_subtrees_of_mem_visit hv)⟩)
    (initialBatch file_path)
    ⟨Batch.closed_initialBatch _, fun u hu => by
      obtain rfl := List.mem_singleton.mp hu
      exact .refl⟩
    ⟨fun _ h => absurd h (by simp), fun _ h => absurd h (by simp)⟩).1.2

/-- The ends of an edge that leads somewhere are nodes of the export. -/
theorem EdgeRecord.Leads.targetsNode {e : EdgeRecord} {u v : String} (h : e.Leads u v) :
    e.edge_type.targetsNode = true := by
  unfold EdgeRecord.Leads at h
  cases he : e.edge_type <;> rw [he] at h <;> first | rfl | exact absurd h id

end Export

namespace Ingest

open Py (Path Uuid)
open Export (Cursor EdgeRecord NodeRecord NonRaising Reach fileUsr)
open IndraDB (Args Asks AsksPipe Client Direction Enumerates Library LooksUp execute execute_pipe stored)
open CppMcp.Graph (Servers)

/-! ### What the driver stores -/

/-- **An edge between nodes of its own file is stored,** whatever has been exported before and after. -/
theorem mem_edges_of_exported {U : Type} [DecidableEq U] {uuid5 : String → U} {rs : List Records}
    {s : Graph.IndraDB.Store U} {r : Records} (hr : r ∈ rs) {e : EdgeRecord} (he : e ∈ r.2)
    (hsource : e.source_usr ∈ r.1.map NodeRecord.usr) (htarget : e.target_usr ∈ r.1.map NodeRecord.usr) :
    Graph.IndraDB.edgeOf uuid5 e ∈ ((Graph.IndraDB.loader uuid5).loadAll rs s).edges.keys := by
  refine PropertyGraph.FileLoader.mem_edges_loadAll_of_write _ hr fun vs hvs => ?_
  have hthere : ∀ usr ∈ r.1.map NodeRecord.usr, uuid5 usr ∈ vs := by
    intro usr husr
    obtain ⟨n, hn, rfl⟩ := List.mem_map.mp husr
    exact hvs _ (List.mem_map_of_mem hn) rfl
  refine ⟨_, List.mem_map_of_mem he, ?_, rfl⟩
  rw [Graph.IndraDB.edgeUpsert, if_pos ⟨hthere _ hsource, hthere _ htarget⟩]
  rfl

/-! ### What the executor answers -/

/-- The client enumerates or resolves all hops and looks up what is at their ends. -/
structure ServesHops (client : Client) (store : IndraDB.Store) : Prop where
  looks : LooksUp client store
  hops : ∀ direction id, ∃ hops, hops.Perm (store.hops direction id none) ∧
    Enumerates client store direction id none hops

/-- The executor is asked for a hop from one vertex, and the other is in the answer. -/
def Hop (client : Client) (library : Library) (row_limit : ℕ) (u v : Uuid) : Prop :=
  ∃ query args direction r label props, AsksPipe library args u direction none ∧
    Asks library query .pipe args ∧ execute client library row_limit query = .ok r ∧
    .vertex v.str label props ∈ r.rows

section Hops

variable {client : Client} {library : Library} {row_limit : ℕ} {s : Graph.IndraDB.Store Uuid}

/-- **A stored edge is a hop,** in either direction, if the answer is not cut off. -/
theorem hop_of_edge (hserves : ServesHops client (stored s)) (hlimit : s.edges.keys.length ≤ row_limit)
    {e : Uuid × Export.EdgeType × Uuid} (he : e ∈ s.edges.keys) (direction : Direction)
    {query : String} {args : Args}
    (hargs : AsksPipe library args (direction.origin (IndraDB.edgeOfKey e)) direction none)
    (hask : Asks library query .pipe args) :
    Hop client library row_limit (direction.origin (IndraDB.edgeOfKey e))
      (direction.neighbor (IndraDB.edgeOfKey e)) := by
  obtain ⟨hops, hperm, henumerates⟩ :=
    hserves.hops direction (direction.origin (IndraDB.edgeOfKey e))
  obtain ⟨r, hr, hanswers⟩ := execute_pipe row_limit hargs hask hserves.looks hperm henumerates
  have hall : hops.take row_limit = hops := by
    refine List.take_of_length_le (hperm.length_eq.trans_le ?_)
    refine (List.length_filter_le _ _).trans ?_
    rw [IndraDB.edgeItems_stored, List.length_map]
    exact hlimit
  have hmem : IndraDB.edgeOfKey e ∈ hops := by
    refine hperm.mem_iff.mpr (List.mem_filter.mpr ⟨?_, decide_eq_true ⟨rfl, rfl⟩⟩)
    rw [IndraDB.edgeItems_stored]
    exact List.mem_map_of_mem he
  rw [← hall] at hmem
  obtain ⟨row, hrow, v, hv, props, rfl, -⟩ := hanswers.rows.flip.exists_mem hmem
  rw [IndraDB.id_of_vertex hv] at hrow
  exact ⟨query, args, direction, r, _, props, hargs, hask, hr, hrow⟩

/-- **A link between the nodes of a file is a hop.** -/
theorem hop_of_leads (hserves : ServesHops client (stored s)) (hlimit : s.edges.keys.length ≤ row_limit)
    (hqueries : ∀ id ∈ s.vertices.keys, ∀ direction, ∃ query args,
      AsksPipe library args id direction none ∧ Asks library query .pipe args)
    {uuid5 : String → Uuid} {e : EdgeRecord} (he : Graph.IndraDB.edgeOf uuid5 e ∈ s.edges.keys)
    {u v : String} (hleads : e.Leads u v) : Hop client library row_limit (uuid5 u) (uuid5 v) := by
  have hends := s.ends _ he
  have hforward : e.source_usr = u ∧ e.target_usr = v →
      Hop client library row_limit (uuid5 u) (uuid5 v) := by
    rintro ⟨rfl, rfl⟩
    obtain ⟨query, args, hargs, hask⟩ := hqueries _ hends.1 .outbound
    exact hop_of_edge hserves hlimit he .outbound hargs hask
  have hbackward : e.target_usr = u ∧ e.source_usr = v →
      Hop client library row_limit (uuid5 u) (uuid5 v) := by
    rintro ⟨rfl, rfl⟩
    obtain ⟨query, args, hargs, hask⟩ := hqueries _ hends.2 .inbound
    exact hop_of_edge hserves hlimit he .inbound hargs hask
  unfold EdgeRecord.Leads at hleads
  split at hleads
  all_goals first
    | exact hforward hleads
    | exact hbackward hleads
    | exact absurd hleads id

end Hops

/-- **Every symbol of an exported file is found from the file by hops,** after any history of
requests. If IndraDB has answered every call and no answer is cut off, a client that begins at the
vertex of the file and asks for nothing but hops comes to every node that was exported with it. -/
theorem file_navigable {uuid5 : String → Uuid} (calls : List Call) {servers : Servers Uuid}
    (hanswers : ∀ k, servers.indradb.fault k = none) {client : Client}
    (hserves : ServesHops client (stored (ingestAll uuid5 calls servers).2.indradb.store))
    {library : Library}
    (hqueries : ∀ id ∈ (ingestAll uuid5 calls servers).2.indradb.store.vertices.keys,
      ∀ direction, ∃ query args, AsksPipe library args id direction none ∧ Asks library query .pipe args)
    {row_limit : ℕ}
    (hlimit : (ingestAll uuid5 calls servers).2.indradb.store.edges.keys.length ≤ row_limit)
    {sha1 : Py.Sha1} {x : Path × Cursor} (hexported : recordsOf sha1 x ∈ recordsAll uuid5 calls servers)
    (hraise : NonRaising x.2) :
    ∀ n ∈ (recordsOf sha1 x).1, Relation.ReflTransGen (Hop client library row_limit)
      (uuid5 (fileUsr x.1.str)) (uuid5 n.usr) := by
  obtain ⟨r, hr⟩ := Export.exists_extract_of_children sha1 x.1.str hraise.get_children
  have hrecords : recordsOf sha1 x = r := by
    unfold recordsOf
    rw [hr]
    rfl
  obtain ⟨-, rfl⟩ := (Export.extract_eq_ok_iff sha1 x.1.str).mp hr
  have hclosed := Export.closed_collected sha1 x.1.str (L := fun _ => False) (fun _ => id) hraise.clear
  rw [hrecords] at hexported ⊢
  intro n hn
  refine (Export.reach_collected sha1 x.1.str hraise n.usr (List.mem_map_of_mem hn)).lift uuid5 ?_
  rintro u v ⟨e, he, hleads⟩
  refine hop_of_leads hserves hlimit hqueries ?_ hleads
  rw [(leaves_ingestAll uuid5 calls hanswers).store]
  exact mem_edges_of_exported hexported he (hclosed.edges e he).source
    ((hclosed.edges e he).target hleads.targetsNode)

/-- The ids of the vertices of `/proj`. -/
def projIds : List Uuid := projUsrs.map projUuid5

/-- `{"query": "pipe", "args": {"vertex_id": "…", "direction": "…"}}` -/
def hopQuery (id : Uuid) (direction : Direction) : String :=
  "\x7b\"query\": \"pipe\", \"args\": \x7b\"vertex_id\": \"" ++ id.str ++ "\", \"direction\": \"" ++
    direction.name ++ "\"\x7d\x7d"

/-- The arguments of that query. -/
def hopArgs (id : Uuid) (direction : Direction) : Args :=
  [("vertex_id", .str id.str), ("direction", .str direction.name)]

/-- The hops of `/proj`. -/
def projHops : List (Uuid × Direction) :=
  projIds.flatMap fun id => [(id, .outbound), (id, .inbound)]

/-- `json.loads` and `uuid.UUID`, as far as these hops go. -/
def hopLibrary : Library where
  loads text :=
    match projHops.find? fun hop => hopQuery hop.1 hop.2 = text with
    | some hop => .ok (.dict [("query", .str "pipe"), ("args", .dict (hopArgs hop.1 hop.2))])
    | none => .error (.valueError "Expecting value: line 1 column 1 (char 0)")
  UUID text :=
    match projIds.find? fun id => id.str = text with
    | some id => .ok id
    | none => .error "badly formed hexadecimal UUID string"

/-- The hops of the example are queries that its library reads as such, with arguments that are in
order. -/
theorem hopQuery_asks {hop : Uuid × Direction} (h : hop ∈ projHops) :
    AsksPipe hopLibrary (hopArgs hop.1 hop.2) hop.1 hop.2 none ∧
      Asks hopLibrary (hopQuery hop.1 hop.2) .pipe (hopArgs hop.1 hop.2) := by
  have hquery : ∀ hop ∈ projHops,
      projHops.find? (fun hop' => hopQuery hop'.1 hop'.2 = hopQuery hop.1 hop.2) = some hop := by
    decide +kernel
  have hid : ∀ hop ∈ projHops, projIds.find? (fun id => id.str = hop.1.str) = some hop.1 := by
    decide +kernel
  refine ⟨⟨⟨?_, ?_⟩, ⟨_, rfl, ?_⟩, rfl, Or.inl ⟨rfl, Or.inl rfl⟩⟩,
    [("query", .str "pipe"), ("args", .dict (hopArgs hop.1 hop.2))], ?_, rfl, rfl⟩
  · simp [hopArgs]
  · simp [hopArgs]
  · simp only [hopLibrary, hid hop h]
  · simp only [hopLibrary, hquery hop h]

/-- `file_navigable` for the function of `/proj/a.cpp`, with a limit of 10. -/
theorem file_navigable_proj :
    Relation.ReflTransGen (Hop (IndraDB.fakeClient
        (stored (ingestAll projUuid5 projCalls freshServers).2.indradb.store)) hopLibrary 10)
      (projUuid5 (fileUsr (Path.str ["proj", "a.cpp"]))) (projUuid5 "c:@F@f#") := by
  have hall : ∀ n ∈ (recordsOf default (["proj", "a.cpp"], callerTree)).1,
      Relation.ReflTransGen (Hop (IndraDB.fakeClient
          (stored (ingestAll projUuid5 projCalls freshServers).2.indradb.store)) hopLibrary 10)
        (projUuid5 (fileUsr (Path.str ["proj", "a.cpp"]))) (projUuid5 n.usr) := by
    refine file_navigable projCalls (fun _ => rfl)
      ⟨IndraDB.looksUp_fakeClient _, fun direction id =>
        ⟨_, List.Perm.refl _, IndraDB.enumerates_fakeClient _ direction id none⟩⟩
      (fun id hid direction => ?_) (by decide +kernel) (by decide +kernel) ⟨?_, ?_⟩
    · have hids : ∀ id ∈ (ingestAll projUuid5 projCalls freshServers).2.indradb.store.vertices.keys,
          (id, Direction.outbound) ∈ projHops ∧ (id, Direction.inbound) ∈ projHops := by decide +kernel
      cases direction with
      | outbound => exact ⟨_, _, hopQuery_asks (hids id hid).1⟩
      | inbound => exact ⟨_, _, hopQuery_asks (hids id hid).2⟩
    · simp [callerTree]
    · simp [callerTree]
  obtain ⟨n, hn, husr⟩ : ∃ n ∈ (recordsOf default (["proj", "a.cpp"], callerTree)).1,
      n.usr = "c:@F@f#" := by decide +kernel
  have hreach := hall n hn
  rw [husr] at hreach
  exact hreach

end Ingest
end CppMcp
