/-
# The server under interleaved calls

Callers submit calls from any thread, the one worker runs them over what they share, a caller may give
up, and at the end the executor is shut down and the cache is cleared: the pool of `Lib.Worker`, with
`run` as what its worker does.

No caller notices the others, but for what ingest requests have written: in every interleaving a call is
answered as a server without a cache answers it that has run the ingest requests submitted before it and
nothing else (`answered_as_alone`).  So a query sees each of those as a whole and no later one
(`query_sees_ingests`).  And `aclose` forgets nothing: what has been accepted is answered before the
cache is cleared, and the worker can always get there (`aclose_answers_all`).
-/

import CppMcp.Ast.Truncation
import CppMcp.Server.Tasks
import CppMcp.Tools.Exported

namespace CppMcp
namespace Server

open Cache (ClangSession Current Dated World)
open CppMcp.Graph (Servers)
open IndraDB (Args Asks AsksProperty IsEntry Serves WellKeyed stored symbolAfter)
open Ingest (ingestAll nodesAll)
open Py (Uuid)
open Tools (QueryJob SharedUnit)
open Worker (Event Pool Step answers submitted)

variable {ν ρ δ : Type} (uuid5 : String → Uuid)

/-- The server has just started: nothing has been parsed, and the databases are these. -/
def started (capacity : ℕ) (capacity_pos : 0 < capacity) (servers : Servers Uuid) : Shared :=
  ⟨.ofCapacity capacity capacity_pos, servers⟩

/-- The runs of the server. -/
abbrev ServerRun (capacity : ℕ) (capacity_pos : 0 < capacity) (servers : Servers Uuid)
    (es : List (Event (Call ν ρ δ) (Reply δ))) (p : Pool Shared (Call ν ρ δ) (Reply δ)) : Prop :=
  Trace.Run (Step (run uuid5) Shared.clear) (.new (started capacity capacity_pos servers)) es p

/-- The worlds that the calls meet. -/
def worlds (calls : List (Call ν ρ δ)) : Set (World SharedUnit) :=
  {w | ∃ c ∈ calls, c.outside.tools.world = w}

/-! ### Every call is answered as if alone -/

/-- The databases that a call finds: those that the ingest requests before it leave. -/
def found (calls : List (Call ν ρ δ)) (servers : Servers Uuid) : Servers Uuid :=
  (ingestAll uuid5 (ingests calls) servers).2

section Alone

variable {capacity : ℕ} {capacity_pos : 0 < capacity} {servers : Servers Uuid}
  {es : List (Event (Call ν ρ δ) (Reply δ))} {p : Pool Shared (Call ν ρ δ) (Reply δ)} {M : Set String}

/-- Every call of the run is answered the same, and leaves the same. -/
theorem same_of_mem (hdated : Dated (worlds (submitted es)) M) (hclean : ∀ c ∈ submitted es, c.Clean M) :
    ∀ c ∈ submitted es, ∀ s t, Keeps (worlds (submitted es)) M s t →
      SameReply (run uuid5 s c).1 (alone uuid5 t c).1 ∧
        Keeps (worlds (submitted es)) M (run uuid5 s c).2 (alone uuid5 t c).2 :=
  fun c hc _ _ h => run_same uuid5 hdated ⟨c, hc, rfl⟩ (hclean c hc) h

/-- The server starts with nothing in its session, so nothing in it can be out of date. -/
theorem keeps_started (W : Set (World SharedUnit)) (M : Set String) :
    Keeps W M (started capacity capacity_pos servers) servers :=
  ⟨rfl, .of_empty rfl⟩

/-- To clear the cache leaves the databases as they are. -/
theorem Keeps.clear {W : Set (World SharedUnit)} {M : Set String} {s : Shared}
    (h : Keeps W M s servers) : Keeps W M s.clear servers := ⟨h.servers_eq, .of_empty rfl⟩

/-- The answer that a caller is given is the one that a server without a cache gives, in the state
that the calls before leave there. -/
theorem same_of_deliver (hrun : ServerRun uuid5 capacity capacity_pos servers es p)
    (hdated : Dated (worlds (submitted es)) M) (hclean : ∀ c ∈ submitted es, c.Clean M) {i : ℕ}
    {reply : Reply δ} (hdeliver : .deliver i reply ∈ es) :
    ∃ c, (submitted es)[i]? = some c ∧
      SameReply reply (alone uuid5 (found uuid5 ((submitted es).take i) servers) c).1 := by
  obtain ⟨c, hc, hreply⟩ := Worker.answer_of_simulation _ (same_of_mem uuid5 hdated hclean)
    (keeps_started _ _) (Worker.answer_of_deliver hrun hdeliver)
  rw [after_alone] at hreply
  exact ⟨c, hc, hreply⟩

end Alone

/-- What a run of the server does, as its callers and the databases see it. -/
structure AsIfAlone (servers : Servers Uuid) (es : List (Event (Call ν ρ δ) (Reply δ)))
    (p : Pool Shared (Call ν ρ δ) (Reply δ)) : Prop where
  /-- A call is answered as by a server without a cache, on what the ingest requests before it leave. -/
  answers : ∀ i reply, .deliver i reply ∈ es → ∃ c, (submitted es)[i]? = some c ∧
    SameReply reply (alone uuid5 (found uuid5 ((submitted es).take i) servers) c).1
  /-- The databases hold what the ingest requests leave that have been run, each of them whole. -/
  databases : p.shared.servers =
    found uuid5 ((submitted es).take (es.countP Event.isFinish)) servers

/-- **No caller notices the others.**  In every interleaving, a call is answered as by a server that
caches nothing, on the databases that the ingest requests submitted before it leave, and the databases
only ever hold what a first part of the ingest requests has left.  Files may change from call to call,
as long as modification times can be trusted. -/
theorem answered_as_alone (uuid5 : String → Uuid) {capacity : ℕ} {capacity_pos : 0 < capacity}
    {servers : Servers Uuid} {es : List (Event (Call ν ρ δ) (Reply δ))}
    {p : Pool Shared (Call ν ρ δ) (Reply δ)}
    (hrun : ServerRun uuid5 capacity capacity_pos servers es p) {M : Set String}
    (hdated : Dated (worlds (submitted es)) M) (hclean : ∀ c ∈ submitted es, c.Clean M) :
    AsIfAlone uuid5 servers es p where
  answers _ _ hdeliver := same_of_deliver uuid5 hrun hdated hclean hdeliver
  databases := by
    have hkeeps := Worker.related_of_run hrun
      (fun c hc s t h => (same_of_mem uuid5 hdated hclean c hc s t h).2)
      (fun _ _ => Keeps.clear) (keeps_started _ _)
    rw [after_alone] at hkeeps
    exact hkeeps.servers_eq

/-- A unit of which only `ingest_code` reads something. -/
def exportedUnit (exported : Export.Cursor) : SharedUnit where
  exported := exported
  spelling := ""
  located := ⟨exported, fun _ => .ok true, fun _ _ _ => .ok none⟩
  walked := Ast.emptyUnit
  header := Tools.emptyUnit
  definition_at _ _ _ := .ok none
  type_at _ _ _ := .error ⟨"TranslationUnitLoadError", "Error parsing translation unit."⟩

/-- `/proj`, where both files have this modification time and are parsed so. -/
def projAt (mtime : ℤ) (index_parse : Cache.ParseCall → Export.Cursor) :
    Outside Unit Unit Unit where
  tools := {
    host := Ingest.projOutside.host
    sha1 := Cache.collisionFree
    old_mtime := fun _ => some mtime
    new_mtime := fun _ => some mtime
    index_parse := fun call => .ok (exportedUnit (index_parse call))
    load_compile_db := fun _ => none
    read_text := fun _ => .ok ""
    read_file := fun _ => .ok ""
    alnum := fun _ => false }
  urlparse_raises _ := none
  connect _ := .ok ()
  database _ := ⟨true, fun _ => none, fun _ => none, fun _ => none⟩
  timeout := none
  library := Ingest.usrLibrary
  indradb store := IndraDB.fakeClient (stored store)
  neo4j _ := ⟨fun _ _ => .ok none, fun _ _ => .ok ⟨[], none⟩⟩
  coerceRecord _ := .ok ()

/-- Both files of `/proj` are ingested. -/
def projIngest : Call Unit Unit Unit where
  outside := projAt 1 fun call =>
    if call.path = ["proj", "a.cpp"] then Ingest.callerTree else Ingest.calleeTree
  task := .ingest_code Ingest.projRequest

/-- The vertex of `g` is asked for. -/
def projJob : QueryJob Unit where
  db_uri := "indradb://localhost"
  query := Ingest.usrQuery
  parameters := none
  row_limit := 200
  request_id := ""
  db_uri_ne := by decide
  query_ne := by decide
  row_limit_pos := by decide
  row_limit_le := by decide

/-- That query, after both files have been written again. -/
def projQuery : Call Unit Unit Unit where
  outside := projAt 2 fun _ => Ingest.callerTree
  task := .query_graphdb projJob

/-- What the caller of the query is given. -/
def projReply : Reply Unit :=
  (run Ingest.projUuid5
    (run Ingest.projUuid5 (started 1 Nat.one_pos Ingest.freshServers) projIngest).2 projQuery).1

/-- The ingest request and the query; the first caller gives up, and then the server ends. -/
def projEvents : List (Event (Call Unit Unit Unit) (Reply Unit)) :=
  [.submit projIngest, .submit projQuery, .start, .giveUp 0, .finish, .start, .finish,
    .deliver 1 projReply, .shutdown, .refuse projQuery, .clear]

/-- The run of the two calls of the example, step by step. -/
theorem projEvents_run : ∃ p, ServerRun Ingest.projUuid5 1 Nat.one_pos Ingest.freshServers projEvents p :=
  ⟨_, .cons (.submit rfl) <| .cons (.submit rfl) <| .cons (.start rfl rfl) <| .cons (.giveUp rfl) <|
    .cons (.finish rfl) <| .cons (.start rfl rfl) <| .cons (.finish rfl) <| .cons (.deliver rfl) <|
    .cons .shutdown <| .cons (.refuse rfl) <| .cons (.clear rfl rfl rfl) .nil⟩

/-- The one text that the calls have digested: that of no flags and no options. -/
def projDigests : Set String := {Py.reprTuple (Cache.effectiveFlags [] 0)}

/-- Between the two calls the files get a later modification time, so what was parsed before is not
found again, and within each call they are parsed the same. -/
theorem projEvents_dated : Dated (worlds (submitted projEvents)) projDigests := by
  have hworlds : ∀ w ∈ worlds (submitted projEvents),
      w = projIngest.outside.tools.world ∨ w = projQuery.outside.tools.world := by
    rintro w ⟨c, hc, rfl⟩
    rcases List.mem_cons.mp hc with rfl | hc
    · exact Or.inl rfl
    · exact Or.inr (List.mem_singleton.mp hc ▸ rfl)
  refine ⟨fun w hw w' hw' => ?_, fun w hw => ?_, fun w hw w' hw' call hm => ?_⟩
  · rcases hworlds w hw with rfl | rfl <;> rcases hworlds w' hw' with rfl | rfl <;> rfl
  · exact Set.injOn_singleton _ _
  · rcases hworlds w hw with rfl | rfl <;> rcases hworlds w' hw' with rfl | rfl
    · rfl
    · exact absurd (show (2 : ℤ) = 1 from hm) (by decide)
    · exact absurd (show (1 : ℤ) = 2 from hm) (by decide)
    · rfl

/-- There is no compilation database, and the request has no default flags. -/
theorem projEvents_clean : ∀ c ∈ submitted projEvents, c.Clean projDigests := by
  intro c hc
  rcases List.mem_cons.mp hc with rfl | hc
  · exact Ingest.CleanIngest.of_default (fun _ => rfl) ⟨fun _ h => absurd h List.not_mem_nil, rfl⟩
  · rw [List.mem_singleton.mp hc]
    trivial

/-- `answered_as_alone` for the run of an ingest request and a query, handed out in another order
than they came. -/
theorem answered_as_alone_proj :
    ∃ p, AsIfAlone Ingest.projUuid5 Ingest.freshServers projEvents p := by
  obtain ⟨p, hrun⟩ := projEvents_run
  exact ⟨p, answered_as_alone Ingest.projUuid5 hrun projEvents_dated projEvents_clean⟩

/-! ### A query sees whole ingest requests -/

/-- **A query sees the ingest requests submitted before it,** whole, and none submitted after it.  In
every interleaving, a caller who asks IndraDB for the vertex of a symbol by its USR is given the entry
that the records of those requests make of it. -/
theorem query_sees_ingests {uuid5 : String → Uuid} {S : Set String} (hinj : Set.InjOn uuid5 S)
    {capacity : ℕ} {capacity_pos : 0 < capacity} {servers : Servers Uuid}
    (hanswers : ∀ k, servers.indradb.fault k = none)
    (hkeyed : WellKeyed uuid5 S servers.indradb.store.vertices)
    {es : List (Event (Call ν ρ δ) (Reply δ))} {p : Pool Shared (Call ν ρ δ) (Reply δ)}
    (hrun : ServerRun uuid5 capacity capacity_pos servers es p) {M : Set String}
    (hdated : Dated (worlds (submitted es)) M) (hclean : ∀ c ∈ submitted es, c.Clean M) {i : ℕ}
    {reply : Reply δ} (hdeliver : .deliver i reply ∈ es)
    (hnodes : ∀ rec ∈ nodesAll uuid5 (ingests ((submitted es).take i)) servers, rec.usr ∈ S)
    {o : Outside ν ρ δ} {job : QueryJob ν}
    (hcall : (submitted es)[i]? = some ⟨o, .query_graphdb job⟩)
    (hselect : Tools.selectExecutor o.urlparse_raises job.db_uri = .ok .indradb)
    (hconnect : ((o.query (found uuid5 ((submitted es).take i) servers)).connect .indradb
      job.db_uri).outcome = .ok ())
    (hserves : ∀ store, Serves (o.indradb store) (stored store)) {args : Args} {usr : String}
    (husr : usr ∈ S) (hargs : AsksProperty args "usr" (.str usr))
    (hask : Asks o.library job.query .vertex_with_property_equal args) :
    ∃ r, reply = .query_graphdb (.ok
        ⟨r.rows.map .inr, "indradb", r.rows_returned, r.truncated, job.request_id⟩) ∧
      IsEntry (uuid5 usr) (symbolAfter (servers.indradb.store.vertices.get (uuid5 usr))
        ((nodesAll uuid5 (ingests ((submitted es).take i)) servers).filter
          fun rec => rec.usr = usr)) r := by
  obtain ⟨c, hc, cache_hit, hreply⟩ := same_of_deliver uuid5 hrun hdated hclean hdeliver
  obtain rfl := Option.some.inj (hcall.symm.trans hc)
  have hvertices := Ingest.vertices_ingestAll uuid5 (ingests ((submitted es).take i)) hanswers
  have hkeyed' : WellKeyed uuid5 S
      (found uuid5 ((submitted es).take i) servers).indradb.store.vertices := by
    rw [found, hvertices]
    exact hkeyed.upsertAll hnodes
  obtain ⟨r, hr, hentry⟩ := IndraDB.execute_usrEqual hinj hkeyed' (hserves _) husr hargs hask
    job.row_limit_pos
  rw [found, hvertices, IndraDB.get_nodeUpserts hinj hnodes husr] at hentry
  refine ⟨r, hreply.trans ?_, hentry⟩
  exact congrArg Reply.query_graphdb (Tools.outcome_of_indradb hselect hconnect hr)

/-- `query_sees_ingests` for that run: the caller of the query is told of `g`, which the request
before it has ingested. -/
theorem query_sees_ingests_proj : ∃ r, projReply = .query_graphdb (.ok
      ⟨r.rows.map .inr, "indradb", r.rows_returned, r.truncated, ""⟩) ∧
    IsEntry (Ingest.projUuid5 "c:@F@g#") (symbolAfter
      (Ingest.freshServers.indradb.store.vertices.get (Ingest.projUuid5 "c:@F@g#"))
      ((nodesAll Ingest.projUuid5 (ingests [projIngest]) Ingest.freshServers).filter
        fun rec => rec.usr = "c:@F@g#")) r := by
  obtain ⟨p, hrun⟩ := projEvents_run
  exact query_sees_ingests Ingest.injOn_projUuid5 (fun _ => rfl) (IndraDB.wellKeyed_empty _ _) hrun
    projEvents_dated projEvents_clean (i := 1) (by simp [projEvents]) (by decide +kernel) rfl
    (by decide +kernel) rfl (fun _ => IndraDB.serves_fakeClient _) (by decide)
    Ingest.usrArgs_asksProperty Ingest.usrQuery_asks

/-! ### The end -/

/-- Once the cache has been cleared it stays empty. -/
theorem empty_of_clear {uuid5 : String → Uuid} {capacity : ℕ} {capacity_pos : 0 < capacity}
    {servers : Servers Uuid} {es : List (Event (Call ν ρ δ) (Reply δ))}
    {p : Pool Shared (Call ν ρ δ) (Reply δ)}
    (hrun : ServerRun uuid5 capacity capacity_pos servers es p) (hclear : .clear ∈ es) :
    p.shared.session.cache.store = .empty := by
  induction hrun with
  | nil => exact absurd hclear List.not_mem_nil
  | @concat es e p p' hrun hstep ih =>
    rcases List.mem_append.mp hclear with hbefore | hlast
    · cases hstep with
      | finish at_ =>
        -- nothing runs any more
        obtain ⟨ran, waiting, hinv⟩ := Worker.in_order_of_run hrun
        obtain ⟨-, hnone⟩ := hinv.cleared (List.any_eq_true.mpr ⟨_, hbefore, rfl⟩)
        have hpending := hinv.pending
        rw [hnone, at_] at hpending
        exact absurd hpending (by simp [Worker.numbered])
      | clear _ _ _ => rfl
      | _ => exact ih hbefore
    · rw [List.mem_singleton] at hlast
      subst hlast
      cases hstep with
      | clear _ _ _ => rfl

/-- **`aclose` forgets nothing.**  The cache is cleared only when every call that has been accepted has
been answered; and from every state that has been reached, once the executor is shut down the worker gets
there without any of the callers.  Where modification times can be trusted, the answers are those of a
server that caches nothing. -/
theorem aclose_answers_all (uuid5 : String → Uuid) {capacity : ℕ} {capacity_pos : 0 < capacity}
    {servers : Servers Uuid} {es : List (Event (Call ν ρ δ) (Reply δ))}
    {p : Pool Shared (Call ν ρ δ) (Reply δ)}
    (hrun : ServerRun uuid5 capacity capacity_pos servers es p) :
    (.clear ∈ es → p.shared.session.cache.store = .empty ∧
      ∃ replies, p.futures = replies.map some ∧
        ∀ M, Dated (worlds (submitted es)) M → (∀ c ∈ submitted es, c.Clean M) →
          List.Forall₂ SameReply replies (answers (alone uuid5) servers (submitted es))) ∧
    ∃ es' p', (∀ e ∈ es', e = .start ∨ e = .finish) ∧
      Trace.Run (Step (run uuid5) Shared.clear) p (.shutdown :: (es' ++ [.clear])) p' := by
  refine ⟨fun hclear => ⟨empty_of_clear hrun hclear, _, Worker.futures_of_clear hrun hclear,
    fun M hdated hclean => ?_⟩, Worker.closes_of_run hrun⟩
  exact Worker.answers_of_simulation _ (same_of_mem uuid5 hdated hclean) (keeps_started _ _)

/-- `aclose_answers_all` for the same two calls, behind which the server has been closed. -/
theorem aclose_answers_all_proj : ∃ p : Pool Shared (Call Unit Unit Unit) (Reply Unit),
    p.shared.session.cache.store = .empty ∧ ∃ replies, p.futures = replies.map some ∧
      List.Forall₂ SameReply replies
        (answers (alone Ingest.projUuid5) Ingest.freshServers [projIngest, projQuery]) := by
  obtain ⟨p, hrun⟩ := projEvents_run
  obtain ⟨hempty, replies, hfutures, hsame⟩ :=
    (aclose_answers_all Ingest.projUuid5 hrun).1 (by simp [projEvents])
  exact ⟨p, hempty, replies, hfutures, hsame _ projEvents_dated projEvents_clean⟩

end Server
end CppMcp
