/-
# What the verbs of the IndraDB executor answer

The abstract side is a property graph whose properties are JSON values, `Store`.  A client
serves a store if its streams, in whatever batches, have the vertices and the edges in the
order of the store, and if a stream of properties says of every vertex or edge asked for what
the store says of it, in any order and in any number of pieces (`Serves`).

The four verbs that list vertices or edges then answer with the first of those that satisfy
the verb, each with its own properties (`Answers`).
-/

import CppMcp.IndraDB.Executor
import CppMcp.Lib.PropertyGraph

namespace CppMcp
namespace IndraDB

open Export (Acc)
open Py (Json Uuid)

/-- What a database holds: vertices with a type and properties, edges with properties. -/
abbrev Store := PropertyGraph Uuid Identifier (Identifier × Properties) Properties

namespace Store

variable (store : Store)

/-- The vertices in the order of the store. -/
def vertexItems : List Vertex := store.vertices.items.map fun item => ⟨item.1, item.2.1⟩

/-- The edges in the order of the store. -/
def edgeItems : List Edge := store.edges.keys.map fun e => ⟨e.1, e.2.1, e.2.2⟩

/-- The properties of a vertex. -/
def vertexProps (id : Uuid) : Properties := ((store.vertices.get id).map Prod.snd).getD .empty

/-- The properties of an edge. -/
def edgeProps (edge : Edge) : Properties :=
  (store.edges.get (edge.outbound_id, edge.t, edge.inbound_id)).getD .empty

end Store

/-! ### A client that serves a store -/

/-- What a stream says of a vertex is what the store says of it. -/
def Tells (store : Store) (stream : List VertexProperties) (id : Uuid) : Prop :=
  ∀ name value, (∃ vp ∈ stream, vp.vertex.id = id ∧ ⟨name, value⟩ ∈ vp.props) ↔
    (store.vertexProps id).get name = some value

/-- What a stream says of an edge is what the store says of it. -/
def TellsEdge (store : Store) (stream : List EdgeProperties) (edge : Edge) : Prop :=
  ∀ name value, (∃ ep ∈ stream, ep.edge = edge ∧ ⟨name, value⟩ ∈ ep.props) ↔
    (store.edgeProps edge).get name = some value

/-- The client answers from the store. -/
structure Serves (client : Client) (store : Store) : Prop where
  vertices : ∃ batches, client.vertices .all = .ok batches ∧ batches.flatten = store.vertexItems
  edges : ∃ batches, client.edges .all = .ok batches ∧ batches.flatten = store.edgeItems
  vertexProperties : ∃ batches, client.vertexProperties .all = .ok batches ∧
    ∀ v ∈ store.vertexItems, Tells store batches.flatten v.id
  specificVertices : ∀ ids, ∃ batches, client.vertexProperties (.specific ids) = .ok batches ∧
    ∀ id ∈ ids, Tells store batches.flatten id
  edgeProperties : ∃ batches, client.edgeProperties .all = .ok batches ∧
    ∀ e ∈ store.edgeItems, TellsEdge store batches.flatten e
  specificEdges : ∀ edges, ∃ batches, client.edgeProperties (.specific edges) = .ok batches ∧
    ∀ e ∈ edges, TellsEdge store batches.flatten e

/-! ### The join -/

/-- An edge is known by its key: ends and type have the texts of one edge only. -/
theorem Edge.key_injective : Function.Injective Edge.key := by
  rintro ⟨o, ⟨t, _⟩, i⟩ ⟨o', ⟨t', _⟩, i'⟩ h
  obtain ⟨ho, hrest⟩ := Prod.mk.inj h
  obtain ⟨ht, hi⟩ := Prod.mk.inj hrest
  cases Uuid.str_injective ho
  cases Uuid.str_injective hi
  cases ht
  rfl

/-- The triples of a stream of vertex properties. -/
def vertexTriples (stream : List VertexProperties) : List (String × String × Json) :=
  stream.flatMap fun vp => vp.props.map fun np => (vp.vertex.id.str, np.name, np.value)

/-- The triples of a stream of edge properties. -/
def edgeTriples (stream : List EdgeProperties) : List ((String × String × String) × String × Json) :=
  stream.flatMap fun ep => ep.props.map fun np => (ep.edge.key, np.name, np.value)

/-- The two nested loops of `_collect_vertex_props` collect the triples of the stream, whatever the
batches. -/
theorem collectVertexProps_eq (batches : List (List VertexProperties)) :
    collectVertexProps batches = .collect (vertexTriples batches.flatten) := by
  simp only [collectVertexProps, OrderedDict.collect, vertexTriples, List.foldl_flatMap,
    List.foldl_flatten, List.foldl_map]

/-- The two nested loops of `_collect_edge_props` collect the triples of the stream, whatever the
batches. -/
theorem collectEdgeProps_eq (batches : List (List EdgeProperties)) :
    collectEdgeProps batches = .collect (edgeTriples batches.flatten) := by
  have hkey : ∀ e : Edge,
      e.outbound_id.str ≠ "" ∧ e.inbound_id.str ≠ "" ∧ e.t.name ≠ "" := fun e =>
    ⟨Uuid.str_ne_empty _, Uuid.str_ne_empty _, e.t.nonempty⟩
  simp only [collectEdgeProps, OrderedDict.collect, edgeTriples, List.foldl_flatMap,
    List.foldl_flatten, List.foldl_map, if_pos (hkey _)]

/-- A triple with the text of an identifier comes from a piece of the stream about that vertex. -/
theorem mem_vertexTriples_iff {stream : List VertexProperties} {id : Uuid} {name : String}
    {value : Json} : (id.str, name, value) ∈ vertexTriples stream ↔
      ∃ vp ∈ stream, vp.vertex.id = id ∧ ⟨name, value⟩ ∈ vp.props := by
  simp only [vertexTriples, List.mem_flatMap, List.mem_map]
  constructor
  · rintro ⟨vp, hvp, ⟨name', value'⟩, hnp, heq⟩
    obtain ⟨hid, hrest⟩ := Prod.mk.inj heq
    cases hrest
    exact ⟨vp, hvp, Uuid.str_injective hid, hnp⟩
  · rintro ⟨vp, hvp, rfl, hnp⟩
    exact ⟨vp, hvp, _, hnp, rfl⟩

/-- A triple with the key of an edge comes from a piece of the stream about that edge. -/
theorem mem_edgeTriples_iff {stream : List EdgeProperties} {edge : Edge} {name : String}
    {value : Json} : (edge.key, name, value) ∈ edgeTriples stream ↔
      ∃ ep ∈ stream, ep.edge = edge ∧ ⟨name, value⟩ ∈ ep.props := by
  simp only [edgeTriples, List.mem_flatMap, List.mem_map]
  constructor
  · rintro ⟨ep, hep, ⟨name', value'⟩, hnp, heq⟩
    obtain ⟨hkey, hrest⟩ := Prod.mk.inj heq
    cases hrest
    exact ⟨ep, hep, Edge.key_injective hkey, hnp⟩
  · rintro ⟨ep, hep, rfl, hnp⟩
    exact ⟨ep, hep, _, hnp, rfl⟩

/-- **The join finds the properties of a vertex,** however the stream brings them. -/
theorem get_collectVertexProps {store : Store} {batches : List (List VertexProperties)} {id : Uuid}
    (h : Tells store batches.flatten id) (name : String) :
    ((collectVertexProps batches).getIn id.str).get name = (store.vertexProps id).get name := by
  rw [collectVertexProps_eq]
  exact OrderedDict.getIn_collect_eq (fun n v => mem_vertexTriples_iff.trans (h n v)) name

/-- **The join finds the properties of an edge,** however the stream brings them. -/
theorem get_collectEdgeProps {store : Store} {batches : List (List EdgeProperties)} {edge : Edge}
    (h : TellsEdge store batches.flatten edge) (name : String) :
    ((collectEdgeProps batches).getIn edge.key).get name = (store.edgeProps edge).get name := by
  rw [collectEdgeProps_eq]
  exact OrderedDict.getIn_collect_eq (fun n v => mem_edgeTriples_iff.trans (h n v)) name

/-! ### Rows -/

/-- The row of a vertex, with its own properties and no others. -/
def IsVertexRow (store : Store) (v : Vertex) (row : Row) : Prop :=
  ∃ props, row = .vertex v.id.str v.t.name props ∧
    ∀ name, props.get name = (store.vertexProps v.id).get name

/-- The row of an edge, with its own properties and no others. -/
def IsEdgeRow (store : Store) (e : Edge) (row : Row) : Prop :=
  ∃ props, row = .edge e.outbound_id.str e.inbound_id.str e.t.name props ∧
    ∀ name, props.get name = (store.edgeProps e).get name

/-- A list zipped with its own image has the relation item by item if every item has it with what
becomes of it. -/
theorem forall₂_zipWith_map {α β γ : Type} {R : α → γ → Prop} {f : α → β → γ} {g : α → β} :
    ∀ {items : List α}, (∀ a ∈ items, R a (f a (g a))) →
      List.Forall₂ R items (List.zipWith f items (items.map g))
  | [], _ => .nil
  | _ :: _, h => .cons (h _ List.mem_cons_self)
      (forall₂_zipWith_map fun a ha => h a (List.mem_cons_of_mem _ ha))

/-- The rows of some vertices are theirs, item by item, if the stream of their properties tells what
is stored of them. -/
theorem vertexRows_eq_ok {client : Client} {store : Store} {query : VertexQuery}
    (items : List Vertex) {batches : List (List VertexProperties)}
    (hquery : client.vertexProperties query = .ok batches)
    (h : ∀ v ∈ items, Tells store batches.flatten v.id) :
    ∃ rows, vertexRows client query items = .ok rows ∧
      List.Forall₂ (IsVertexRow store) items rows := by
  refine ⟨_, by rw [vertexRows, fetchVertexProps, hquery]; rfl, ?_⟩
  exact forall₂_zipWith_map fun v hv => ⟨_, rfl, get_collectVertexProps (h v hv)⟩

/-- The rows of some edges are theirs, item by item, if the stream of their properties tells what is
stored of them. -/
theorem edgeRows_eq_ok {client : Client} {store : Store} {query : EdgeQuery}
    (items : List Edge) {batches : List (List EdgeProperties)}
    (hquery : client.edgeProperties query = .ok batches)
    (h : ∀ e ∈ items, TellsEdge store batches.flatten e) :
    ∃ rows, edgeRows client query items = .ok rows ∧
      List.Forall₂ (IsEdgeRow store) items rows := by
  refine ⟨_, by rw [edgeRows, fetchEdgeProps, hquery]; rfl, ?_⟩
  exact forall₂_zipWith_map fun e he => ⟨_, rfl, get_collectEdgeProps (h e he)⟩

/-! ### The answers -/

/-- The text of a query is an object with a verb and its arguments. -/
def Asks (library : Library) (query : String) (verb : Verb) (args : Args) : Prop :=
  ∃ payload, library.loads query = .ok (.dict payload) ∧
    payload.lookup "query" = some (.str verb.name) ∧
    (payload.lookup "args").getD (.dict []) = .dict args

/-- A verb is known by its name. -/
theorem ofName_name (verb : Verb) : Verb.ofName verb.name = some verb := by
  cases verb <;> decide

/-- A query that asks for a verb is parsed to it, with its arguments, or the empty ones where there
are none. -/
theorem parseQuery_of_asks {library : Library} {query : String} {verb : Verb} {args : Args}
    (h : Asks library query verb args) : parseQuery library query = .ok (verb, args) := by
  obtain ⟨payload, hloads, hverb, hargs⟩ := h
  have hparse : parseVerb (.str verb.name) = .ok verb := by
    simp only [parseVerb, hashableStr, bind, Except.bind, Option.bind, ofName_name]
    rfl
  simp only [parseQuery, hloads, pure_bind, hverb, hargs, Option.getD_some, hparse]
  rfl

/-- **What a verb is to answer:** the first `row_limit` of the items that satisfy it, each with its
row, and whether there are more. -/
structure Answers {α : Type} (satisfying : List α) (IsRow : α → Row → Prop) (row_limit : ℕ)
    (r : QueryResult) : Prop where
  rows : List.Forall₂ IsRow (satisfying.take row_limit) r.rows
  rows_returned : r.rows_returned = r.rows.length
  truncated : r.truncated = true ↔ row_limit < satisfying.length

/-- A verb that gives the rows of the first items and counts all of them answers. -/
theorem answers_of_dispatch {α : Type} {satisfying : List α} {IsRow : α → Row → Prop}
    {row_limit : ℕ} {client : Client} {library : Library} {query : String} {rows : List Row}
    (hdispatch : dispatchQuery client library row_limit query = .ok (rows, satisfying.length))
    (hrows : List.Forall₂ IsRow (satisfying.take row_limit) rows) :
    ∃ r, execute client library row_limit query = .ok r ∧ Answers satisfying IsRow row_limit r := by
  refine ⟨_, by rw [execute, hdispatch]; rfl, hrows, rfl, ?_⟩
  have hlength := hrows.length_eq
  rw [List.length_take] at hlength
  rw [decide_eq_true_eq, ← hlength]
  omega

section Verbs

variable {client : Client} {store : Store} {library : Library} {row_limit : ℕ} {query : String}

/-- `all_vertices` answers with the first vertices of the store. -/
theorem execute_allVertices (h : Serves client store) (hask : Asks library query .all_vertices []) :
    ∃ r, execute client library row_limit query = .ok r ∧
      Answers store.vertexItems (IsVertexRow store) row_limit r := by
  obtain ⟨batches, hbatches, hflat⟩ := h.vertices
  obtain ⟨stream, hstream, htells⟩ := h.vertexProperties
  obtain ⟨rows, hok, hrows⟩ := vertexRows_eq_ok (store.vertexItems.take row_limit) hstream
    fun v hv => htells v (List.mem_of_mem_take hv)
  refine answers_of_dispatch ?_ hrows
  rw [dispatchQuery, parseQuery_of_asks hask]
  change allVertices client [] row_limit = _
  rw [allVertices, hbatches]
  change (vertexRows client .all (batches.flatten.take row_limit)).bind _ = _
  rw [hflat, hok]
  change Except.ok (rows, batches.flatten.length) = _
  rw [hflat]

/-- `all_edges` answers with the first edges of the store. -/
theorem execute_allEdges (h : Serves client store) (hask : Asks library query .all_edges []) :
    ∃ r, execute client library row_limit query = .ok r ∧
      Answers store.edgeItems (IsEdgeRow store) row_limit r := by
  obtain ⟨batches, hbatches, hflat⟩ := h.edges
  obtain ⟨stream, hstream, htells⟩ := h.edgeProperties
  obtain ⟨rows, hok, hrows⟩ := edgeRows_eq_ok (store.edgeItems.take row_limit) hstream
    fun e he => htells e (List.mem_of_mem_take he)
  refine answers_of_dispatch ?_ hrows
  rw [dispatchQuery, parseQuery_of_asks hask]
  change allEdges client [] row_limit = _
  rw [allEdges, hbatches]
  change (edgeRows client .all (batches.flatten.take row_limit)).bind _ = _
  rw [hflat, hok]
  change Except.ok (rows, batches.flatten.length) = _
  rw [hflat]

/-- The argument `t` of a verb is read and validated. -/
theorem readT {t : String} (ht : matchesTypeIdent t = true) {α : Type}
    (f : String → Except Error α) : (do
      requireArgs [("t", .str t)] ["t"] []
      let t ← validateT (← Args.get [("t", .str t)] "t")
      f t) = f t := by
  have hargs : requireArgs [("t", Json.str t)] ["t"] [] = .ok () := by simp [requireArgs]
  have hget : Args.get [("t", Json.str t)] "t" = .ok (.str t) := rfl
  have hvalid : validateT (.str t) = .ok t := by rw [validateT, if_pos ht]
  rw [hargs, hget]
  change (validateT (.str t)).bind f = f t
  rw [hvalid]
  rfl

/-- A verb that asks for no rows where it keeps no item gives the rows of the items it keeps. -/
theorem rows_unless_empty {α : Type} {items : List α} {IsRow : α → Row → Prop} {rows : List Row}
    {x : Except Error (List Row)} (n : ℕ) (hok : x = .ok rows)
    (hrows : List.Forall₂ IsRow items rows) :
    (if items.isEmpty then .ok ([], n) else x.bind fun rows => .ok (rows, n)) =
      (.ok (rows, n) : Except Error (List Row × ℕ)) := by
  rw [hok]
  split_ifs with hempty
  · rw [List.isEmpty_iff.mp hempty] at hrows
    cases hrows
    rfl
  · rfl

/-- `vertex_with_type` answers with the first vertices of the type, if its name is one that the
executor lets pass. -/
theorem execute_vertexWithType (h : Serves client store) {t : String}
    (ht : matchesTypeIdent t = true)
    (hask : Asks library query .vertex_with_type [("t", .str t)]) :
    ∃ r, execute client library row_limit query = .ok r ∧
      Answers (store.vertexItems.filter fun v => v.t.name = t) (IsVertexRow store) row_limit r := by
  obtain ⟨batches, hbatches, hflat⟩ := h.vertices
  generalize hsat : (store.vertexItems.filter fun v => v.t.name = t) = satisfying
  have hverb : vertexWithType client [("t", .str t)] row_limit =
      if (satisfying.take row_limit).isEmpty then .ok ([], satisfying.length)
      else (vertexRows client (.specific ((satisfying.take row_limit).map Vertex.id))
        (satisfying.take row_limit)).bind fun rows => .ok (rows, satisfying.length) := by
    rw [vertexWithType, readT ht, hbatches, ← hsat, ← hflat]
    rfl
  obtain ⟨stream, hstream, htells⟩ := h.specificVertices ((satisfying.take row_limit).map Vertex.id)
  obtain ⟨rows, hok, hrows⟩ := vertexRows_eq_ok (satisfying.take row_limit) hstream
    fun v hv => htells v.id (List.mem_map_of_mem hv)
  refine answers_of_dispatch ?_ hrows
  rw [dispatchQuery, parseQuery_of_asks hask]
  change vertexWithType client [("t", .str t)] row_limit = _
  rw [hverb]
  exact rows_unless_empty satisfying.length hok hrows

/-- `edge_with_type` answers with the first edges of the type, if its name is one that the executor
lets pass. -/
theorem execute_edgeWithType (h : Serves client store) {t : String}
    (ht : matchesTypeIdent t = true) (hask : Asks library query .edge_with_type [("t", .str t)]) :
    ∃ r, execute client library row_limit query = .ok r ∧
      Answers (store.edgeItems.filter fun e => e.t.name = t) (IsEdgeRow store) row_limit r := by
  obtain ⟨batches, hbatches, hflat⟩ := h.edges
  generalize hsat : (store.edgeItems.filter fun e => e.t.name = t) = satisfying
  have hverb : edgeWithType client [("t", .str t)] row_limit =
      if (satisfying.take row_limit).isEmpty then .ok ([], satisfying.length)
      else (edgeRows client (.specific (satisfying.take row_limit))
        (satisfying.take row_limit)).bind fun rows => .ok (rows, satisfying.length) := by
    rw [edgeWithType, readT ht, hbatches, ← hsat, ← hflat]
    rfl
  obtain ⟨stream, hstream, htells⟩ := h.specificEdges (satisfying.take row_limit)
  obtain ⟨rows, hok, hrows⟩ := edgeRows_eq_ok (satisfying.take row_limit) hstream htells
  refine answers_of_dispatch ?_ hrows
  rw [dispatchQuery, parseQuery_of_asks hask]
  change edgeWithType client [("t", .str t)] row_limit = _
  rw [hverb]
  exact rows_unless_empty satisfying.length hok hrows

end Verbs

/-! ### The client of the tests -/

/-- The properties of a dictionary, one after the other. -/
def namedProperties (props : Properties) : List NamedProperty :=
  props.items.map fun item => ⟨item.1, item.2⟩

/-- A stored vertex. -/
def Store.vertex (store : Store) (id : Uuid) : Option Vertex :=
  (store.vertices.get id).map fun data => ⟨id, data.1⟩

/-- `tests/fixtures/fake_indradb.py`: every answer is one batch, a pipe gives vertices, and the
vertex queries have no method `outbound`. -/
def fakeClient (store : Store) : Client where
  vertices
    | .all => .ok [store.vertexItems]
    | .specific ids => .ok [ids.filterMap store.vertex]
    | .pipe id direction t =>
      let hops := store.edgeItems.filter fun e => t.all fun t => e.t.name = t
      if direction = "outbound" then
        .ok [(hops.filter fun e => e.outbound_id = id).filterMap fun e => store.vertex e.inbound_id]
      else if direction = "inbound" then
        .ok [(hops.filter fun e => e.inbound_id = id).filterMap fun e => store.vertex e.outbound_id]
      else .ok [[]]
  edges
    | .all => .ok [store.edgeItems]
    | .specific edges => .ok [edges.filter fun e => e ∈ store.edgeItems]
    | _ => .ok [[]]
  vertexProperties
    | .all => .ok [store.vertexItems.map fun v => ⟨v, namedProperties (store.vertexProps v.id)⟩]
    | .specific ids => .ok [(ids.filterMap store.vertex).map fun v =>
        ⟨v, namedProperties (store.vertexProps v.id)⟩]
    | .pipe .. => .ok [[]]
  edgeProperties
    | .all => .ok [store.edgeItems.map fun e => ⟨e, namedProperties (store.edgeProps e)⟩]
    | .specific edges => .ok [(edges.filter fun e => e ∈ store.edgeItems).map fun e =>
        ⟨e, namedProperties (store.edgeProps e)⟩]
    | _ => .ok [[]]
  has_outbound := false

/-- The named properties of a dictionary are its items. -/
theorem mem_namedProperties_iff {props : Properties} {name : String} {value : Json} :
    (⟨name, value⟩ : NamedProperty) ∈ namedProperties props ↔ props.get name = some value := by
  rw [namedProperties, List.mem_map, OrderedDict.get_eq_some_iff]
  constructor
  · rintro ⟨item, hitem, heq⟩
    cases heq
    exact hitem
  · exact fun h => ⟨_, h, rfl⟩

section Fake

variable {store : Store}

/-- A stream that has every vertex with properties, with its own ones, tells them. -/
theorem tells_map {vs : List Vertex} {id : Uuid}
    (h : ∀ name value, (store.vertexProps id).get name = some value → ∃ v ∈ vs, v.id = id) :
    Tells store (vs.map fun v => ⟨v, namedProperties (store.vertexProps v.id)⟩) id := by
  intro name value
  constructor
  · rintro ⟨vp, hvp, hid, hmem⟩
    obtain ⟨v, -, rfl⟩ := List.mem_map.mp hvp
    rw [← hid]
    exact mem_namedProperties_iff.mp hmem
  · intro hget
    obtain ⟨v, hv, rfl⟩ := h name value hget
    exact ⟨_, List.mem_map_of_mem hv, rfl, mem_namedProperties_iff.mpr hget⟩

/-- The same of edges: a stream that has every edge with properties, with its own ones, tells them.
-/
theorem tellsEdge_map {es : List Edge} {edge : Edge}
    (h : ∀ name value, (store.edgeProps edge).get name = some value → edge ∈ es) :
    TellsEdge store (es.map fun e => ⟨e, namedProperties (store.edgeProps e)⟩) edge := by
  intro name value
  constructor
  · rintro ⟨ep, hep, hedge, hmem⟩
    obtain ⟨e, -, rfl⟩ := List.mem_map.mp hep
    rw [← hedge]
    exact mem_namedProperties_iff.mp hmem
  · intro hget
    exact ⟨_, List.mem_map_of_mem (h name value hget), rfl, mem_namedProperties_iff.mpr hget⟩

/-- Where a property of a vertex is found, the vertex is stored. -/
theorem exists_vertex_of_get {id : Uuid} {name : String} {value : Json}
    (h : (store.vertexProps id).get name = some value) :
    ∃ v, store.vertex id = some v ∧ v.id = id := by
  unfold Store.vertexProps at h
  unfold Store.vertex
  cases hget : store.vertices.get id with
  | none =>
    rw [hget] at h
    exact nomatch h
  | some data => exact ⟨_, rfl, rfl⟩

/-- Where a property of an edge is found, the edge is stored. -/
theorem mem_edgeItems_of_get {edge : Edge} {name : String} {value : Json}
    (h : (store.edgeProps edge).get name = some value) : edge ∈ store.edgeItems := by
  unfold Store.edgeProps at h
  cases hget : store.edges.get (edge.outbound_id, edge.t, edge.inbound_id) with
  | none =>
    rw [hget] at h
    exact nomatch h
  | some props =>
    exact List.mem_map.mpr ⟨_, OrderedDict.mem_keys_iff.mpr ⟨_, OrderedDict.mem_of_get hget⟩, rfl⟩

/-- **The client of the tests serves its store,** whatever the store is. -/
theorem serves_fakeClient (store : Store) : Serves (fakeClient store) store where
  vertices := ⟨_, rfl, List.flatten_singleton⟩
  edges := ⟨_, rfl, List.flatten_singleton⟩
  vertexProperties := by
    refine ⟨_, rfl, fun v hv => ?_⟩
    rw [List.flatten_singleton]
    exact tells_map fun _ _ _ => ⟨v, hv, rfl⟩
  specificVertices := fun ids => by
    refine ⟨_, rfl, fun id hid => ?_⟩
    rw [List.flatten_singleton]
    refine tells_map fun name value hget => ?_
    obtain ⟨v, hv, hvid⟩ := exists_vertex_of_get hget
    exact ⟨v, List.mem_filterMap.mpr ⟨id, hid, hv⟩, hvid⟩
  edgeProperties := by
    refine ⟨_, rfl, fun e he => ?_⟩
    rw [List.flatten_singleton]
    exact tellsEdge_map fun _ _ _ => he
  specificEdges := fun edges => by
    refine ⟨_, rfl, fun e he => ?_⟩
    rw [List.flatten_singleton]
    exact tellsEdge_map fun _ _ hget =>
      List.mem_filter.mpr ⟨he, decide_eq_true (mem_edgeItems_of_get hget)⟩

end Fake

/-! ### The listing verbs -/

/-- **The listing verbs answer with the first items that satisfy them,** each with its own
properties, and `truncated` says whether there are more. -/
theorem listing_verbs_answer {client : Client} {store : Store} (h : Serves client store)
    (library : Library) (row_limit : ℕ) :
    (∀ query, Asks library query .all_vertices [] →
      ∃ r, execute client library row_limit query = .ok r ∧
        Answers store.vertexItems (IsVertexRow store) row_limit r) ∧
    (∀ query, Asks library query .all_edges [] →
      ∃ r, execute client library row_limit query = .ok r ∧
        Answers store.edgeItems (IsEdgeRow store) row_limit r) ∧
    (∀ query t, matchesTypeIdent t = true →
      Asks library query .vertex_with_type [("t", .str t)] →
      ∃ r, execute client library row_limit query = .ok r ∧
        Answers (store.vertexItems.filter fun v => v.t.name = t) (IsVertexRow store) row_limit r) ∧
    (∀ query t, matchesTypeIdent t = true →
      Asks library query .edge_with_type [("t", .str t)] →
      ∃ r, execute client library row_limit query = .ok r ∧
        Answers (store.edgeItems.filter fun e => e.t.name = t) (IsEdgeRow store) row_limit r) :=
  ⟨fun _ hask => execute_allVertices h hask, fun _ hask => execute_allEdges h hask,
    fun _ _ ht hask => execute_vertexWithType h ht hask,
    fun _ _ ht hask => execute_edgeWithType h ht hask⟩

/-- Two functions and a class. -/
def threeVertices : Store :=
  let functionType : Identifier := ⟨"Function", by decide⟩
  let classType : Identifier := ⟨"Class", by decide⟩
  ((PropertyGraph.empty.addVertex ⟨1⟩ (functionType, .empty)).addVertex ⟨2⟩
    (classType, .empty)).addVertex ⟨3⟩ (functionType, OrderedDict.empty.set "spelling" (.str "f"))

/-- `{"query": "vertex_with_type", "args": {"t": "Function"}}` -/
def functionsQuery : String :=
  "\x7b\"query\": \"vertex_with_type\", \"args\": \x7b\"t\": \"Function\"\x7d\x7d"

/-- `json.loads` and `uuid.UUID`, as far as that query goes. -/
def functionsLibrary : Library where
  loads text :=
    if text = functionsQuery then
      .ok (.dict [("query", .str "vertex_with_type"), ("args", .dict [("t", .str "Function")])])
    else .error (.valueError "Expecting value: line 1 column 1 (char 0)")
  UUID _ := .error "badly formed hexadecimal UUID string"

/-- The text of the example is a query that the library of the example reads as one for the
functions. -/
theorem functionsQuery_asks : Asks functionsLibrary functionsQuery .vertex_with_type
    [("t", .str "Function")] :=
  ⟨[("query", .str "vertex_with_type"), ("args", .dict [("t", .str "Function")])],
    by simp only [functionsLibrary, if_true], rfl, rfl⟩

/-- `listing_verbs_answer` at a store with two functions, where the limit lets one of them through.
-/
theorem listing_verbs_answer_threeVertices :
    ∃ r, execute (fakeClient threeVertices) functionsLibrary 1 functionsQuery = .ok r ∧
      Answers (threeVertices.vertexItems.filter fun v => v.t.name = "Function")
        (IsVertexRow threeVertices) 1 r :=
  (listing_verbs_answer (serves_fakeClient threeVertices) functionsLibrary 1).2.2.1 functionsQuery
    "Function" (by decide) functionsQuery_asks

end IndraDB
end CppMcp
