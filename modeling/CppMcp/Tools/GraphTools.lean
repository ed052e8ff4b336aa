/-
# The tools that read a graph database

`tools/query_graphdb.py` and `tools/describe_graph_schema.py`.  Both check their arguments, choose a
backend by the scheme, connect, do their work and close again, whatever becomes of the work
(`connected`).  `connect` makes a driver or client and then asks the server whether it is there; if it
is not, what has been made is not closed, since `connect` stands before the `try` that closes.  That is
the one way in which a connection is left open (`handled_connected`).

How many rows and how large a sample a caller may ask for is clamped before anything is done, so no
answer has more rows than `_ROW_LIMIT_MAX`, whatever the query and the database (`query_bounded`).

The row's elapsed time `ms` is left out.
-/

import CppMcp.Graph.Backend
import CppMcp.Ingest.IngestCode
import CppMcp.IndraDB.Introspector
import CppMcp.IndraDB.Limited
import CppMcp.Lib.Logged
import CppMcp.Neo4j.Protocol
import CppMcp.Neo4j.Introspector
import CppMcp.Py.Parse

namespace CppMcp
namespace Tools

open Export (Acc Exc)
open Ingest (connectExc)
open CppMcp.Graph (Backend)

/-! ### What both tools do -/

/-- `resolve_query_timeout_s`, and `_resolve_timeout_s`; `raw` is the environment variable. -/
def resolveQueryTimeout (raw : Option String) : ℤ :=
  max 1 (min 120 ((Py.parseInt (raw.getD "30")).getD 30))

/-- `select_executor`, and `select_introspector`: the choice of `select_driver`. -/
def selectExecutor (urlparse_raises : String → Option Exc) (db_uri : String) : Acc Backend :=
  Graph.selectDriver urlparse_raises db_uri

/-- What a tool does with a connection: a driver or client is made, the server is asked whether it is
there, the work is done, and what has been made is closed. -/
inductive Contact where
  | opened (db_uri : String)
  | verify
  | work
  | close
  deriving DecidableEq, Repr

/-- What `connect` meets of a backend: whether its package is there, and what it raises to read the
address, to make the driver or client and to ask the server. -/
structure Database where
  installed : Bool
  /-- `parsed.hostname` and `parsed.port`. -/
  address_raises : String → Option Exc
  /-- `neo4j.GraphDatabase.driver`, or `indradb.Client`. -/
  driver_raises : String → Option String
  /-- `verify_connectivity`, or `ping`. -/
  verify_raises : String → Option String

/-- The `DependencyMissingError` of a backend whose package is not there. -/
def missingDriver : Backend → Exc
  | .neo4j => ⟨"DependencyMissingError", "neo4j Python driver is not installed. " ++
    "Install with: uv sync --extra graphdb-neo4j  or: pip install \"cpp-mcp[graphdb-neo4j]\""⟩
  | .indradb => ⟨"DependencyMissingError", "indradb Python driver is not installed. " ++
    "Install with: uv sync --extra graphdb-indradb  or: pip install \"cpp-mcp[graphdb-indradb]\""⟩

/-- The `DBUnreachableError` of a database that the message calls so. -/
def unreachable (called db_uri text : String) : Exc :=
  ⟨"DBUnreachableError", "Cannot reach " ++ called ++ " at " ++ Py.repr db_uri ++ ": " ++ text⟩

/-- What reading the address raises: only for IndraDB is it read before the client is made. -/
def Database.addressRaises (db : Database) : Backend → String → Option Exc
  | .neo4j, _ => none
  | .indradb, db_uri => db.address_raises db_uri

/-- `connect` of an executor or an introspector.  What reading the address raises is not caught there. -/
def connect (b : Backend) (db : Database) (called db_uri : String) : Logged Contact Exc Unit :=
  if db.installed = false then .lift (.error (missingDriver b))
  else
    match db.addressRaises b db_uri with
    | some exc => .lift (.error exc)
    | none =>
      match db.driver_raises db_uri with
      | some text => .lift (.error (unreachable called db_uri text))
      | none =>
        match db.verify_raises db_uri with
        | some text => ⟨[.opened db_uri, .verify], .error (unreachable called db_uri text)⟩
        | none => ⟨[.opened db_uri, .verify], .ok ()⟩

/-- The work between `connect` and `close`.  What `close` raises is suppressed, and it is called only if
`connect` has not raised. -/
def connected {α : Type} (db_uri : String) (connecting : Logged Contact Exc Unit) (work : Acc α) :
    Logged Contact Exc α :=
  match connecting.outcome with
  | .error exc => ⟨connecting.texts, .error (connectExc db_uri exc)⟩
  | .ok () => ⟨connecting.texts ++ [.work, .close], work⟩

/-- **What becomes of a connection:** none has been made; or the server does not answer, and what has
been made stays open; or the work is done and it is closed again. -/
inductive Handled {α : Type} (db : Database) (db_uri : String) (run : Logged Contact Exc α) : Prop
  | refused (texts : run.texts = []) (raised : ∃ exc, run.outcome = .error exc)
  | unverified (texts : run.texts = [.opened db_uri, .verify])
      (silent : ∃ text, db.verify_raises db_uri = some text) (raised : ∃ exc, run.outcome = .error exc)
  | closed (texts : run.texts = [.opened db_uri, .verify, .work, .close])
      (answers : db.verify_raises db_uri = none)

/-- **A connection is left open in one case only,** that the server does not answer `verify_connectivity`
or `ping`; from then on it is closed, whether the work succeeds or raises. -/
theorem handled_connected {α : Type} (b : Backend) (db : Database) (called db_uri : String)
    (work : Acc α) : Handled db db_uri (connected db_uri (connect b db called db_uri) work) := by
  unfold connect
  split_ifs with hinstalled
  · exact .refused rfl ⟨_, rfl⟩
  · cases db.addressRaises b db_uri with
    | some exc => exact .refused rfl ⟨_, rfl⟩
    | none =>
      cases db.driver_raises db_uri with
      | some text => exact .refused rfl ⟨_, rfl⟩
      | none =>
        dsimp only
        cases hverify : db.verify_raises db_uri with
        | some text => exact .unverified rfl ⟨text, hverify⟩ ⟨_, rfl⟩
        | none => exact .closed rfl hverify

/-- Where `connect` does not raise, the outcome is that of the work. -/
theorem outcome_connected {α : Type} {db_uri : String} {connecting : Logged Contact Exc Unit}
    (h : connecting.outcome = .ok ()) (work : Acc α) :
    (connected db_uri connecting work).outcome = work := by
  unfold connected
  rw [h]

/-- What is answered comes from the work, so `connect` has not raised. -/
theorem work_of_connected {α : Type} {db_uri : String} {connecting : Logged Contact Exc Unit}
    {work : Acc α} {a : α} (h : (connected db_uri connecting work).outcome = .ok a) :
    work = .ok a := by
  unfold connected at h
  cases hconnect : connecting.outcome with
  | error exc =>
    rw [hconnect] at h
    exact absurd h (by simp)
  | ok _ =>
    rw [hconnect] at h
    exact h

/-- An answer shows that the connection has been closed. -/
theorem Handled.texts_of_ok {α : Type} {db : Database} {db_uri : String} {run : Logged Contact Exc α}
    (h : Handled db db_uri run) {a : α} (ha : run.outcome = .ok a) :
    run.texts = [.opened db_uri, .verify, .work, .close] := by
  cases h with
  | refused _ raised =>
    obtain ⟨exc, hexc⟩ := raised
    exact absurd (ha.symm.trans hexc) (by simp)
  | unverified _ _ raised =>
    obtain ⟨exc, hexc⟩ := raised
    exact absurd (ha.symm.trans hexc) (by simp)
  | closed texts _ => exact texts

/-! ### `query_graphdb` -/

def ROW_LIMIT_MAX : ℤ := 500

/-- What is handed to the worker: the arguments after the checks. -/
structure QueryJob (ν : Type) where
  db_uri : String
  query : String
  parameters : Option (List (String × ν))
  row_limit : ℕ
  request_id : String
  db_uri_ne : db_uri ≠ ""
  query_ne : query ≠ ""
  row_limit_pos : 0 < row_limit
  row_limit_le : (row_limit : ℤ) ≤ ROW_LIMIT_MAX

/-- The exceptions of the executor for IndraDB, by the names of their classes. -/
def indradbExc : IndraDB.Error → Exc
  | .queryParse message => ⟨"QueryParseError", message⟩
  | .queryUnsupported message => ⟨"QueryUnsupportedError", message⟩
  | .unmapped exc => exc

/-- The exceptions of the executor for Neo4j; of those of the driver the class is as far as it is
told apart. -/
def neo4jExc : Neo4j.Error → Exc
  | .readOnlyViolation message => ⟨"ReadOnlyViolationError", message⟩
  | .queryParse message => ⟨"QueryParseError", message⟩
  | .queryTimeout message => ⟨"QueryTimeoutError", message⟩
  | .dbUnreachable message => ⟨"DBUnreachableError", message⟩
  | .unmapped exc =>
    match exc.cls with
    | .cypherSyntaxError => ⟨"CypherSyntaxError", exc.text⟩
    | .clientError => ⟨"ClientError", exc.text⟩
    | .serviceUnavailable => ⟨"ServiceUnavailable", exc.text⟩
    | .other => ⟨"Exception", exc.text⟩

/-- The success payload, without the elapsed time. -/
structure QueryPayload (δ : Type) where
  rows : List (δ ⊕ IndraDB.Row)
  backend : String
  rows_returned : ℕ
  truncated : Bool
  request_id : String

/-- What the tool meets outside: the database of each backend, and the libraries. -/
structure QueryOutside (ν ρ δ : Type) where
  urlparse_raises : String → Option Exc
  database : Backend → Database
  timeout : Option String
  library : IndraDB.Library
  indradb : IndraDB.Client
  neo4j : Neo4j.Session ν ρ
  coerceRecord : ρ → Except Neo4j.DriverExc δ

section Query

variable {ν ρ δ : Type} (o : QueryOutside ν ρ δ) (job : QueryJob ν)

/-- `executor.execute` of the backend. -/
def executeOn : Backend → Acc (QueryPayload δ)
  | .neo4j =>
    match (Neo4j.execute o.coerceRecord (some o.neo4j) job.query job.parameters job.row_limit
      (resolveQueryTimeout o.timeout).toNat).outcome with
    | .error e => .error (neo4jExc e)
    | .ok r => .ok ⟨r.rows.map .inl, "neo4j", r.rows_returned, r.truncated, job.request_id⟩
  | .indradb =>
    match IndraDB.execute o.indradb o.library job.row_limit job.query with
    | .error e => .error (indradbExc e)
    | .ok r => .ok ⟨r.rows.map .inr, "indradb", r.rows_returned, r.truncated, job.request_id⟩

/-- What the executors call their databases. -/
def executorTitle : Backend → String
  | .neo4j => "Neo4j"
  | .indradb => "IndraDB"

/-- `executor.connect`. -/
def QueryOutside.connect (backend : Backend) (db_uri : String) : Logged Contact Exc Unit :=
  Tools.connect backend (o.database backend) (executorTitle backend) db_uri

/-- `_do_query_graphdb`. -/
def doQueryGraphdb : Logged Contact Exc (QueryPayload δ) :=
  match selectExecutor o.urlparse_raises job.db_uri with
  | .error exc => .lift (.error exc)
  | .ok backend => connected job.db_uri (o.connect backend job.db_uri) (executeOn o job backend)

/-- A query that IndraDB answers is answered with its rows, their number and whether there are more.
-/
theorem outcome_of_indradb {o : QueryOutside ν ρ δ} {job : QueryJob ν}
    (hselect : selectExecutor o.urlparse_raises job.db_uri = .ok .indradb)
    (hconnect : (o.connect .indradb job.db_uri).outcome = .ok ()) {r : IndraDB.QueryResult}
    (hexecute : IndraDB.execute o.indradb o.library job.row_limit job.query = .ok r) :
    (doQueryGraphdb o job).outcome =
      .ok ⟨r.rows.map .inr, "indradb", r.rows_returned, r.truncated, job.request_id⟩ := by
  unfold doQueryGraphdb
  rw [hselect]
  dsimp only
  rw [outcome_connected hconnect]
  dsimp only [executeOn]
  rw [hexecute]

end Query

/-! ### What a query leaves behind -/

section Bounded

variable {ν ρ δ : Type}

/-- The loop over the records stops at the limit. -/
theorem length_le_of_neo4j {coerceRecord : ρ → Except Neo4j.DriverExc δ}
    {session : Neo4j.Session ν ρ} {query : String} {parameters : Option (List (String × ν))}
    {row_limit timeout_s : ℕ} {r : Neo4j.QueryResult δ}
    (h : (Neo4j.execute coerceRecord (some session) query parameters row_limit timeout_s).outcome =
      .ok r) : r.rows.length ≤ row_limit ∧ r.rows_returned = r.rows.length := by
  unfold Neo4j.execute at h
  dsimp only at h
  split at h
  · exact nomatch h
  · split at h
    · exact nomatch h
    · rename_i result _
      split at h
      · exact nomatch h
      · rename_i pulled rows truncated hfetch
        obtain rfl := Except.ok.inj h
        obtain ⟨new, hnew, hmore⟩ := Neo4j.coerced_of_fetchRows (Nat.zero_le row_limit) hfetch
        rw [Neo4j.fetchRows_of_coerced [] (Nat.zero_le row_limit) hnew hmore] at hfetch
        obtain rfl := (Prod.mk.inj (Except.ok.inj (Prod.mk.inj hfetch).2)).1
        refine ⟨?_, rfl⟩
        rw [List.nil_append, ← hnew.length_eq]
        exact List.length_take_le ..

/-- **What a job leaves behind:** no backend is chosen, or what becomes of the connection to it is one of
the three; and an answer comes after the connection has been closed, with no more rows than the job
allows. -/
structure JobLeaves (o : QueryOutside ν ρ δ) (job : QueryJob ν)
    (run : Logged Contact Exc (QueryPayload δ)) : Prop where
  handled : (run.texts = [] ∧ ∃ exc, run.outcome = .error exc) ∨
    ∃ backend, selectExecutor o.urlparse_raises job.db_uri = .ok backend ∧
      Handled (o.database backend) job.db_uri run
  answered : ∀ payload, run.outcome = .ok payload →
    run.texts = [.opened job.db_uri, .verify, .work, .close] ∧
      payload.rows_returned = payload.rows.length ∧ payload.rows.length ≤ job.row_limit ∧
      payload.request_id = job.request_id

/-- Either executor gives as many rows as it says, and no more than the job allows. -/
theorem length_le_of_executeOn {o : QueryOutside ν ρ δ} {job : QueryJob ν} {backend : Backend}
    {payload : QueryPayload δ} (h : executeOn o job backend = .ok payload) :
    payload.rows_returned = payload.rows.length ∧ payload.rows.length ≤ job.row_limit ∧
      payload.request_id = job.request_id := by
  cases backend with
  | neo4j =>
    dsimp only [executeOn] at h
    split at h
    · exact nomatch h
    · rename_i r hr
      obtain rfl := Except.ok.inj h
      obtain ⟨hle, hcount⟩ := length_le_of_neo4j hr
      exact ⟨hcount.trans (List.length_map ..).symm, (List.length_map ..).trans_le hle, rfl⟩
  | indradb =>
    dsimp only [executeOn] at h
    split at h
    · exact nomatch h
    · rename_i r hr
      obtain rfl := Except.ok.inj h
      obtain ⟨hle, hcount⟩ := IndraDB.length_le_of_execute hr
      exact ⟨hcount.trans (List.length_map ..).symm, (List.length_map ..).trans_le hle, rfl⟩

/-- **Every job leaves behind what is described,** whatever backend is chosen and whatever fails. -/
theorem leaves_doQueryGraphdb (o : QueryOutside ν ρ δ) (job : QueryJob ν) :
    JobLeaves o job (doQueryGraphdb o job) := by
  unfold doQueryGraphdb
  cases hselect : selectExecutor o.urlparse_raises job.db_uri with
  | error exc => exact ⟨Or.inl ⟨rfl, exc, rfl⟩, fun payload h => nomatch h⟩
  | ok backend =>
    dsimp only
    have hhandled : Handled (o.database backend) job.db_uri
        (connected job.db_uri (o.connect backend job.db_uri) (executeOn o job backend)) :=
      handled_connected ..
    exact ⟨Or.inr ⟨backend, hselect, hhandled⟩, fun payload h =>
      ⟨hhandled.texts_of_ok h, length_le_of_executeOn (work_of_connected h)⟩⟩

end Bounded

/-! ### `describe_graph_schema` -/

def SAMPLE_MIN : ℤ := 10

def SAMPLE_MAX : ℤ := 1000

def SAMPLE_DEFAULT : ℤ := 100

/-- The sample size, clamped. -/
def clampSample (sample_size : ℤ) : ℤ := max SAMPLE_MIN (min SAMPLE_MAX sample_size)

/-- What the tool meets outside. -/
structure DescribeOutside where
  urlparse_raises : String → Option Exc
  database : Backend → Database
  timeout : Option String
  indradb : IndraDB.Client
  neo4j : Neo4j.SchemaSession
  /-- Whether `describe` takes longer than the timeout. -/
  times_out : ℤ → Bool

/-- `introspector.describe` of the backend. -/
def describeOn (o : DescribeOutside) (sample_size : ℤ) : Backend → Acc IndraDB.Description
  | .neo4j => (Neo4j.describe (some o.neo4j) sample_size).outcome
  | .indradb => IndraDB.describe (some o.indradb) sample_size

/-- `describe` with the timeout. -/
def describeInTime (o : DescribeOutside) (sample_size : ℤ) (backend : Backend) :
    Acc IndraDB.Description :=
  if o.times_out (resolveQueryTimeout o.timeout) then .error ⟨"QueryTimeoutError",
    "describe_graph_schema timed out after " ++ toString (resolveQueryTimeout o.timeout) ++ "s"⟩
  else describeOn o sample_size backend

/-- `describe_graph_schema`; `request_id`, which the tool adds, is left out. -/
def describeGraphSchema (o : DescribeOutside) (db_uri : String) (sample_size : ℤ := SAMPLE_DEFAULT) :
    Logged Contact Exc IndraDB.Description :=
  if db_uri = "" then .lift (.error ⟨"InvalidArgumentError",
    "db_uri is required and must be a non-empty string."⟩)
  else
    match selectExecutor o.urlparse_raises db_uri with
    | .error exc => .lift (.error exc)
    | .ok backend =>
      connected db_uri (connect backend (o.database backend) "graph database" db_uri)
        (describeInTime o (clampSample sample_size) backend)

/-- **What a description leaves behind.**  Whatever the arguments and the backend, the connection is
handled as that of a query is; and a description that is answered is the introspector's, made in time
from a sample that is the caller's clamped to `[10, 1000]`. -/
theorem describe_handled (o : DescribeOutside) (db_uri : String) (sample_size : ℤ) :
    ((describeGraphSchema o db_uri sample_size).texts = [] ∨
      ∃ backend, Handled (o.database backend) db_uri (describeGraphSchema o db_uri sample_size)) ∧
    ∀ description, (describeGraphSchema o db_uri sample_size).outcome = .ok description →
      ∃ backend n, selectExecutor o.urlparse_raises db_uri = .ok backend ∧ n = clampSample sample_size ∧
        10 ≤ n ∧ n ≤ 1000 ∧ describeOn o n backend = .ok description := by
  unfold describeGraphSchema
  split_ifs with hempty
  · exact ⟨Or.inl rfl, fun description h => nomatch h⟩
  · cases selectExecutor o.urlparse_raises db_uri with
    | error exc => exact ⟨Or.inl rfl, fun description h => nomatch h⟩
    | ok backend =>
      refine ⟨Or.inr ⟨backend, handled_connected ..⟩, fun description h => ?_⟩
      have hwork := work_of_connected h
      unfold describeInTime at hwork
      split_ifs at hwork
      refine ⟨backend, _, rfl, rfl, ?_, ?_, hwork⟩
      all_goals
        dsimp only [clampSample, SAMPLE_MIN, SAMPLE_MAX]
        omega

end Tools
end CppMcp
