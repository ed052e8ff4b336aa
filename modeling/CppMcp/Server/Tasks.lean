/-
# What the worker runs

All tools but `describe_graph_schema` submit their work to the executor of the session, which has one
worker.  A call is one of the six tools on a translation unit, an ingest request or a query; `run` is
what the worker does with it, on what all calls share: the session, and the databases behind the
drivers.

`alone` is a server that caches nothing and has nothing but the databases.  As long as modification
times can be trusted, a call is answered as it answers it, `cache_hit` apart, and leaves the
databases as it leaves them (`run_same`); and only the ingest requests change the databases
(`after_alone`).
-/

import CppMcp.Ingest.AnySession
import CppMcp.Ingest.Found
import CppMcp.Lib.Worker
import CppMcp.Tools.GraphTools
import CppMcp.Tools.UnitTools

namespace CppMcp
namespace Server

open Cache (ClangSession Current Dated World)
open CppMcp.Graph (Servers)
open Export (Acc Exc)
open Ingest (CleanIngest ingestAll ingestSession)
open Py (Uuid)
open Tools (CleanUnit Database QueryJob QueryOutside QueryPayload SharedOutside SharedUnit UnitAnswer UnitTask)

/-! ### Calls and replies -/

/-- What a call meets outside, when the worker runs it. -/
structure Outside (ν ρ δ : Type) where
  tools : SharedOutside
  urlparse_raises : String → Option Exc
  /-- `driver.connect`. -/
  connect : String → Acc Unit
  /-- What `executor.connect` meets. -/
  database : CppMcp.Graph.Backend → Database
  timeout : Option String
  library : IndraDB.Library
  /-- How the server of IndraDB answers, by what it stores. -/
  indradb : Graph.IndraDB.Store Uuid → IndraDB.Client
  /-- How the server of Neo4j answers, by what it stores. -/
  neo4j : Graph.Neo4j.Store → Neo4j.Session ν ρ
  coerceRecord : ρ → Except Neo4j.DriverExc δ

namespace Outside

variable {ν ρ δ : Type} (o : Outside ν ρ δ)

/-- The part of it that `ingest_code` sees. -/
def ingest : Ingest.Outside where
  host := o.tools.host
  sha1 := o.tools.sha1
  old_mtime := o.tools.old_mtime
  new_mtime := o.tools.new_mtime
  index_parse call := (o.tools.index_parse call).map SharedUnit.exported
  load_compile_db := o.tools.load_compile_db
  urlparse_raises := o.urlparse_raises
  connect := o.connect

/-- The part of it that `query_graphdb` sees, with what the databases store. -/
def query (servers : Servers Uuid) : QueryOutside ν ρ δ where
  urlparse_raises := o.urlparse_raises
  database := o.database
  timeout := o.timeout
  library := o.library
  indradb := o.indradb servers.indradb.store
  neo4j := o.neo4j servers.neo4j.store
  coerceRecord := o.coerceRecord

end Outside

/-- What is submitted to the executor. -/
inductive Task (ν : Type) where
  | unit (task : UnitTask)
  | ingest_code (req : Ingest.Request)
  | query_graphdb (job : QueryJob ν)

/-- A submitted call. -/
structure Call (ν ρ δ : Type) where
  outside : Outside ν ρ δ
  task : Task ν

/-- What a future holds: a value, or the exception. -/
inductive Reply (δ : Type) where
  | unit (answer : Acc UnitAnswer)
  | ingest_code (result : Except Exc Ingest.Payload)
  | query_graphdb (result : Acc (QueryPayload δ))

/-- The reply with the flag set, where there is one. -/
def Reply.withHit {δ : Type} (cache_hit : Bool) : Reply δ → Reply δ
  | .unit answer => .unit (answer.map (UnitAnswer.withHit cache_hit))
  | reply => reply

/-- What the calls share. -/
structure Shared where
  session : ClangSession SharedUnit
  servers : Servers Uuid

/-- `_cache.clear()`. -/
def Shared.clear (s : Shared) : Shared := { s with session := ⟨s.session.cache.clear⟩ }

/-! ### What the worker does -/

variable {ν ρ δ : Type} (uuid5 : String → Uuid)

/-- A call, on what is shared. -/
def run (s : Shared) (c : Call ν ρ δ) : Reply δ × Shared :=
  match c.task with
  | .unit task =>
    let answer := (task.tool c.outside.tools).run c.outside.tools s.session
    (.unit answer.1, { s with session := answer.2 })
  | .ingest_code req =>
    let run := Ingest.doIngestCode uuid5 c.outside.ingest req (s.session.map SharedUnit.exported)
      s.servers
    (.ingest_code run.result,
      ⟨ingestSession c.outside.tools.world c.outside.ingest req s.session, run.servers⟩)
  | .query_graphdb job =>
    (.query_graphdb (Tools.doQueryGraphdb (c.outside.query s.servers) job).outcome, s)

/-- **A call, without a session.** -/
def alone (servers : Servers Uuid) (c : Call ν ρ δ) : Reply δ × Servers Uuid :=
  match c.task with
  | .unit task => (.unit ((task.tool c.outside.tools).uncached c.outside.tools false), servers)
  | .ingest_code req =>
    let run := Ingest.doIngestCode uuid5 c.outside.ingest req .new servers
    (.ingest_code run.result, run.servers)
  | .query_graphdb job =>
    (.query_graphdb (Tools.doQueryGraphdb (c.outside.query servers) job).outcome, servers)

/-- The session that `ingest_code` leaves is the one that is shared, as it reads the units. -/
theorem session_ingest (s : Shared) (o : Outside ν ρ δ) (req : Ingest.Request) :
    (Ingest.doIngestCode uuid5 o.ingest req (s.session.map SharedUnit.exported) s.servers).session =
      (run uuid5 s ⟨o, .ingest_code req⟩).2.session.map SharedUnit.exported := by
  rw [Ingest.session_doIngestCode]
  exact Ingest.ingestSession_map SharedUnit.exported o.tools.world o.ingest req s.session

/-! ### The session makes no difference -/

/-- The flags of the call can be told apart by the cache. -/
def Call.Clean (c : Call ν ρ δ) (M : Set String) : Prop :=
  match c.task with
  | .unit task =>
    CleanUnit c.outside.tools (task.tool c.outside.tools).req (task.tool c.outside.tools).options M
  | .ingest_code req => CleanIngest c.outside.ingest req M
  | .query_graphdb _ => True

/-- The reply is the other one, but for the flag. -/
def SameReply (reply reply' : Reply δ) : Prop := ∃ cache_hit, reply = reply'.withHit cache_hit

/-- What is shared is current, and the databases are these. -/
structure Keeps (W : Set (World SharedUnit)) (M : Set String) (s : Shared) (servers : Servers Uuid) :
    Prop where
  servers_eq : s.servers = servers
  current : Current W M s.session

/-- **A call is answered the same, and leaves the same:** with the shared session or alone, the
reply differs in `cache_hit` at most, and the databases not at all. -/
theorem run_same {W : Set (World SharedUnit)} {M : Set String} (hdated : Dated W M) {c : Call ν ρ δ}
    (hworld : c.outside.tools.world ∈ W) (hclean : c.Clean M) {s : Shared} {servers : Servers Uuid}
    (h : Keeps W M s servers) :
    SameReply (run uuid5 s c).1 (alone uuid5 servers c).1 ∧
      Keeps W M (run uuid5 s c).2 (alone uuid5 servers c).2 := by
  obtain ⟨rfl, hcurrent⟩ := h
  obtain ⟨o, task⟩ := c
  cases task with
  | unit task =>
    obtain ⟨⟨cache_hit, hanswer⟩, hcurrent⟩ :=
      Tools.Tool.run_eq_uncached (task.passesOn o.tools) hcurrent hdated hworld hclean
    exact ⟨⟨cache_hit, congrArg Reply.unit hanswer⟩, rfl, hcurrent⟩
  | ingest_code req =>
    -- `ingest_code` reads the session through its view of the units
    have hworld' : o.ingest.world ∈ World.map SharedUnit.exported '' W :=
      Set.mem_image_of_mem (World.map SharedUnit.exported) hworld
    have hnew : Current (World.map SharedUnit.exported '' W) M .new := .of_empty rfl
    obtain ⟨hresult, hservers⟩ := Ingest.doIngestCode_any_session uuid5 (o := o.ingest)
      (hcurrent.map SharedUnit.exported) hnew (hdated.map SharedUnit.exported) hworld' hclean s.servers
    exact ⟨⟨false, congrArg Reply.ingest_code hresult⟩, hservers,
      Ingest.current_ingestSession hcurrent hdated hworld hclean⟩
  | query_graphdb job => exact ⟨⟨false, rfl⟩, rfl, hcurrent⟩

/-! ### Only ingest requests write -/

/-- The call as an ingest request, with a session of its own. -/
def Call.ingest (c : Call ν ρ δ) : Option Ingest.Call :=
  match c.task with
  | .ingest_code req => some ⟨c.outside.ingest, req, .new⟩
  | _ => none

/-- The ingest requests among the calls. -/
def ingests (calls : List (Call ν ρ δ)) : List Ingest.Call := calls.filterMap Call.ingest

/-- **What calls leave in the databases** is what the ingest requests among them leave. -/
theorem after_alone (calls : List (Call ν ρ δ)) (servers : Servers Uuid) :
    Worker.after (alone uuid5) servers calls = (ingestAll uuid5 (ingests calls) servers).2 := by
  induction calls generalizing servers with
  | nil => rfl
  | cons c calls ih =>
    refine (ih _).trans ?_
    obtain ⟨o, task⟩ := c
    cases task <;> rfl

end Server
end CppMcp
