/-
# Finding what has been ingested

A client of the executor serves what the ingest runs have stored.  Whatever requests have come before,
in whatever order, asking for the vertex whose property `usr` is the USR of a symbol gives the vertex
of that symbol and no other: with the label of the first record of the symbol that was exported, with
the last value of each of its properties, and with what was there before (`symbol_found`).
-/

import CppMcp.IndraDB.Stored
import CppMcp.Ingest.History

namespace CppMcp
namespace Ingest

open Export (NodeRecord)
open IndraDB (Args Asks AsksProperty IsEntry Library Serves WellKeyed execute execute_usrEqual
  fakeClient get_nodeUpserts serves_fakeClient stored symbolAfter wellKeyed_empty)
open Py (Uuid)
open CppMcp.Graph (Servers)

variable {U : Type} [DecidableEq U] (uuid5 : String → U)

/-- The node records that the requests export to IndraDB, in their order. -/
def nodesAll (calls : List Call) (servers : Servers U) : List NodeRecord :=
  (recordsAll uuid5 calls servers).flatMap Prod.fst

/-- **The vertices after a history** are those before it, written by all records. -/
theorem vertices_ingestAll (calls : List Call) {servers : Servers U}
    (hanswers : ∀ k, servers.indradb.fault k = none) :
    (ingestAll uuid5 calls servers).2.indradb.store.vertices =
      OrderedDict.upsertAll ((nodesAll uuid5 calls servers).map (Graph.IndraDB.nodeUpsert uuid5))
        servers.indradb.store.vertices := by
  rw [(leaves_ingestAll uuid5 calls hanswers).store, PropertyGraph.FileLoader.vertices_loadAll,
    nodesAll, List.map_flatMap]
  rfl

/-- **A symbol is found by its USR after any history of requests.** If IndraDB has answered every
call and `uuid5` tells the USRs apart, the query for the vertex whose property `usr` is the USR of a
symbol is answered with the vertex that all records of the symbol have made, and with no other. -/
theorem symbol_found {uuid5 : String → Uuid} {S : Set String} (hinj : Set.InjOn uuid5 S)
    (calls : List Call) {servers : Servers Uuid} (hanswers : ∀ k, servers.indradb.fault k = none)
    (hkeyed : WellKeyed uuid5 S servers.indradb.store.vertices)
    (hnodes : ∀ rec ∈ nodesAll uuid5 calls servers, rec.usr ∈ S) {client : IndraDB.Client}
    (hserves : Serves client (stored (ingestAll uuid5 calls servers).2.indradb.store))
    {library : Library} {query : String} {args : Args} {usr : String} (husr : usr ∈ S)
    (hargs : AsksProperty args "usr" (.str usr))
    (hask : Asks library query .vertex_with_property_equal args) {row_limit : ℕ}
    (hlimit : 0 < row_limit) :
    ∃ r, execute client library row_limit query = .ok r ∧
      IsEntry (uuid5 usr) (symbolAfter (servers.indradb.store.vertices.get (uuid5 usr))
        ((nodesAll uuid5 calls servers).filter fun rec => rec.usr = usr)) r := by
  have hvertices := vertices_ingestAll uuid5 calls hanswers
  have hkeyed' : WellKeyed uuid5 S (ingestAll uuid5 calls servers).2.indradb.store.vertices := by
    rw [hvertices]
    exact hkeyed.upsertAll hnodes
  obtain ⟨r, hr, hentry⟩ := execute_usrEqual hinj hkeyed' hserves husr hargs hask hlimit
  rw [hvertices, get_nodeUpserts hinj hnodes husr] at hentry
  exact ⟨r, hr, hentry⟩

/-- Two empty databases. -/
def freshServers : Servers Uuid :=
  ⟨⟨.empty, false, 0, fun _ => none⟩, ⟨.empty, false, 0, fun _ => none⟩⟩

/-- The symbols of `/proj`: its two files and their functions. -/
def projUsrs : List String :=
  ["file:///proj/a.cpp", "file:///proj/b.cpp", "c:@F@f#", "c:@F@g#"]

/-- Different ids for them. -/
def projUuid5 (usr : String) : Uuid := ⟨BitVec.ofNat 128 (projUsrs.idxOf usr)⟩

/-- The ids of the symbols of `/proj` are all different. -/
theorem injOn_projUuid5 : Set.InjOn projUuid5 {usr | usr ∈ projUsrs} := by
  have h : ∀ usr ∈ projUsrs, ∀ usr' ∈ projUsrs, projUuid5 usr = projUuid5 usr' → usr = usr' := by
    decide +kernel
  exact fun usr husr usr' husr' => h usr husr usr' husr'

/-- `/proj` is ingested twice, the second time into a session that has parsed it. -/
def projCalls : List Call :=
  [⟨projOutside, projRequest, .new⟩, ⟨projOutside, projRequest, firstRun.session⟩]

/-- `{"query": "vertex_with_property_equal", "args": {"name": "usr", "value": "c:@F@g#"}}` -/
def usrQuery : String := "\x7b\"query\": \"vertex_with_property_equal\", \"args\": " ++
  "\x7b\"name\": \"usr\", \"value\": \"c:@F@g#\"\x7d\x7d"

/-- The arguments of that query. -/
def usrArgs : Args := [("name", .str "usr"), ("value", .str "c:@F@g#")]

/-- `json.loads`, as far as that query goes. -/
def usrLibrary : Library where
  loads text :=
    if text = usrQuery then
      .ok (.dict [("query", .str "vertex_with_property_equal"), ("args", .dict usrArgs)])
    else .error (.valueError "Expecting value: line 1 column 1 (char 0)")
  UUID _ := .error "badly formed hexadecimal UUID string"

/-- The text of the example is a query that its library reads as one for a property. -/
theorem usrQuery_asks : Asks usrLibrary usrQuery .vertex_with_property_equal usrArgs :=
  ⟨[("query", .str "vertex_with_property_equal"), ("args", .dict usrArgs)],
    by simp only [usrLibrary, if_true], rfl, rfl⟩

/-- The arguments of the example ask for the property `usr` with the USR of `g`. -/
theorem usrArgs_asksProperty : AsksProperty usrArgs "usr" (.str "c:@F@g#") where
  keys := by
    unfold IndraDB.HasKeys
    decide
  name_eq := rfl
  value_eq := rfl
  scalar := rfl

/-- `symbol_found` for the function `g` of `/proj`, which has been ingested twice. -/
theorem symbol_found_proj : ∃ r,
    execute (fakeClient (stored (ingestAll projUuid5 projCalls freshServers).2.indradb.store))
        usrLibrary 1 usrQuery = .ok r ∧
      IsEntry (projUuid5 "c:@F@g#") (symbolAfter (freshServers.indradb.store.vertices.get
          (projUuid5 "c:@F@g#"))
        ((nodesAll projUuid5 projCalls freshServers).filter fun rec => rec.usr = "c:@F@g#")) r :=
  symbol_found injOn_projUuid5 projCalls (fun _ => rfl) (wellKeyed_empty _ _) (by decide +kernel)
    (serves_fakeClient _) (by decide +kernel) usrArgs_asksProperty usrQuery_asks Nat.one_pos

end Ingest
end CppMcp
