/-
# A hop to the neighbours

The verb `pipe` of `src/cpp_mcp/graphdb/indradb_query_executor.py` follows the edges that leave or
enter a vertex.  A client whose pipe gives edges is asked three times: for the edges, for the vertices
at their other ends, and for the properties of those.  The client of the tests resolves the pipe to
vertices itself.

However the vertices that are looked up come back, both paths give one row for each of the first
`row_limit` edges, in the order of the edges, with the neighbour and its own properties, and the same
flag (`pipe_answers`).
-/

import CppMcp.IndraDB.Validate

namespace CppMcp
namespace IndraDB

open Export (Acc)
open Py (Json Uuid)

/-! ### The edges of a hop -/

/-- The end of a hop that it begins at. -/
def Direction.origin (direction : Direction) (e : Edge) : Uuid :=
  match direction with
  | .outbound => e.outbound_id
  | .inbound => e.inbound_id

/-- The stored edges that leave (or enter) the vertex, of a type if one is asked for. -/
def Store.hops (store : Store) (direction : Direction) (id : Uuid) (t : Option String) : List Edge :=
  store.edgeItems.filter fun e => direction.origin e = id ∧ t.all fun t => e.t.name = t

/-- The row of an edge: the neighbour, with its own properties. -/
def IsNeighborRow (store : Store) (direction : Direction) (e : Edge) (row : Row) : Prop :=
  ∃ v, store.vertex (direction.neighbor e) = some v ∧ IsVertexRow store v row

/-- Two rows of the same vertex with the same properties, in whatever order. -/
def Row.Same : Row → Row → Prop
  | .vertex id t props, .vertex id' t' props' =>
    id = id' ∧ t = t' ∧ ∀ name, props.get name = props'.get name
  | _, _ => False

/-- The client looks up vertices and their properties, in any order and in any batches; a vertex that
is asked for twice may come once. -/
structure LooksUp (client : Client) (store : Store) : Prop where
  vertices : ∀ ids, ∃ batches, client.vertices (.specific ids) = .ok batches ∧
    ∀ v, v ∈ batches.flatten ↔ v.id ∈ ids ∧ store.vertex v.id = some v
  properties : ∀ ids, ∃ batches, client.vertexProperties (.specific ids) = .ok batches ∧
    ∀ id ∈ ids, Tells store batches.flatten id

/-- The client enumerates the edges of a hop, or resolves each of them to the neighbour. -/
def Enumerates (client : Client) (store : Store) (direction : Direction) (id : Uuid)
    (t : Option String) (hops : List Edge) : Prop :=
  if client.has_outbound then
    ∃ batches, client.edges (direction.query id t) = .ok batches ∧ batches.flatten = hops
  else
    ∃ batches, client.vertices (.pipe id direction.name t) = .ok batches ∧
      batches.flatten = hops.filterMap fun e => store.vertex (direction.neighbor e)

/-- The arguments ask for a hop. -/
structure AsksPipe (library : Library) (args : Args) (id : Uuid) (direction : Direction)
    (t : Option String) : Prop where
  keys : HasKeys args ["direction", "vertex_id"] ["t"]
  vertex_id : ∃ s, args.lookup "vertex_id" = some (.str s) ∧ library.UUID s = .ok id
  direction_eq : args.lookup "direction" = some (.str direction.name)
  t_eq : (t = none ∧ (args.lookup "t" = none ∨ args.lookup "t" = some .null)) ∨
    ∃ s, t = some s ∧ args.lookup "t" = some (.str s) ∧ matchesTypeIdent s = true

section Read

variable {client : Client} {library : Library} {args : Args} {row_limit : ℕ} {id : Uuid}
  {direction : Direction} {t : Option String}

/-- The arguments are read and validated, and then the client decides on the path. -/
theorem AsksPipe.pipe_eq (h : AsksPipe library args id direction t) :
    pipe client library args row_limit =
      if client.has_outbound then pipeEdges client row_limit id direction t
      else pipeVertices client row_limit id direction t := by
  obtain ⟨s, hs, huuid⟩ := h.vertex_id
  have hargs : requireArgs args ["direction", "vertex_id"] ["t"] = .ok () :=
    (checks_requireArgs ..).eq_ok h.keys
  have hid : args.get "vertex_id" = .ok (.str s) := by rw [Args.get, hs]
  have hvalid : validateUuid library (.str s) = .ok id := by rw [validateUuid, huuid]
  have hdirection : args.get "direction" = .ok (.str direction.name) := by
    rw [Args.get, h.direction_eq]
  have hparse : parseDirection (.str direction.name) = .ok direction :=
    (checks_parseDirection _).eq_ok rfl
  unfold pipe
  rw [hargs, hid, hdirection]
  simp only [bind, Except.bind, hvalid, hparse]
  obtain ⟨rfl, ht | ht⟩ | ⟨s, rfl, ht, hmatch⟩ := h.t_eq
  · rw [ht]
    rfl
  · rw [ht]
    rfl
  · have ht' : validateT (.str s) = .ok s := by rw [validateT, if_pos hmatch]
    rw [ht]
    simp only [ht']
    rfl

end Read

/-! ### The neighbours -/

section Neighbors

variable {store : Store} {direction : Direction}

/-- A vertex that is found under an id has that id. -/
theorem id_of_vertex {id : Uuid} {v : Vertex} (h : store.vertex id = some v) : v.id = id := by
  obtain ⟨data, -, rfl⟩ := Option.map_eq_some_iff.mp h
  rfl

/-- The neighbour of a stored edge is stored, since no edge hangs in the air. -/
theorem exists_neighbor {e : Edge} (he : e ∈ store.edgeItems) :
    ∃ v, store.vertex (direction.neighbor e) = some v := by
  obtain ⟨key, hkey, rfl⟩ := List.mem_map.mp he
  have hends := store.ends key hkey
  have hstored : ∀ id ∈ store.vertices.keys, ∃ v, store.vertex id = some v := by
    intro id hid
    obtain ⟨data, hdata⟩ := Option.isSome_iff_exists.mp (OrderedDict.isSome_get_iff.mpr hid)
    exact ⟨⟨id, data.1⟩, by rw [Store.vertex, hdata]; rfl⟩
  cases direction with
  | outbound => exact hstored _ hends.2
  | inbound => exact hstored _ hends.1

/-- The edges of a hop are stored, in whatever order they come. -/
theorem mem_edgeItems_of_mem_hops {id : Uuid} {t : Option String} {hops : List Edge}
    (hhops : hops.Perm (store.hops direction id t)) {e : Edge} (he : e ∈ hops) :
    e ∈ store.edgeItems :=
  (List.mem_filter.mp (hhops.subset he)).1

/-- The vertices by their ids: each of those that came is found under its own. -/
theorem get_vid_to_vertex {vs : List Vertex} (h : ∀ v ∈ vs, store.vertex v.id = some v)
    (id : Uuid) :
    (vs.foldl (fun d v => d.set v.id.str v) (.empty : OrderedDict String Vertex)).get id.str =
      if id ∈ vs.map Vertex.id then store.vertex id else none := by
  induction vs using List.reverseRecOn with
  | nil => rfl
  | append_singleton vs v ih =>
    have hih := ih fun w hw => h w (List.mem_append_left _ hw)
    have hv := h v (List.mem_append_right _ (List.mem_singleton_self v))
    rw [List.foldl_append, List.foldl_cons, List.foldl_nil]
    rw [List.map_append, List.map_singleton]
    by_cases hid : id = v.id
    · rw [hid, OrderedDict.get_set_self, hv]
      rw [if_pos (List.mem_append_right _ (List.mem_singleton_self _))]
    · have hstr : id.str ≠ v.id.str := fun heq => hid (Uuid.str_injective heq)
      have hmem : id ∈ vs.map Vertex.id ++ [v.id] ↔ id ∈ vs.map Vertex.id := by
        rw [List.mem_append, List.mem_singleton, or_iff_left hid]
      rw [OrderedDict.get_set_of_ne hstr, hih]
      simp only [hmem]

/-- A lookup brings each vertex that it was asked for. -/
theorem get_looked_up {ids : List Uuid} {vs : List Vertex}
    (h : ∀ v, v ∈ vs ↔ v.id ∈ ids ∧ store.vertex v.id = some v) {id : Uuid} (hid : id ∈ ids) :
    (vs.foldl (fun d v => d.set v.id.str v) (.empty : OrderedDict String Vertex)).get id.str =
      store.vertex id := by
  rw [get_vid_to_vertex fun v hv => ((h v).mp hv).2]
  split_ifs with hmem
  · rfl
  · cases hv : store.vertex id with
    | none => rfl
    | some v =>
      have hvid := id_of_vertex hv
      have hvs : v ∈ vs := (h v).mpr ⟨by rwa [hvid], by rwa [hvid]⟩
      exact absurd (List.mem_map.mpr ⟨v, hvs, hvid⟩) hmem

end Neighbors

/-! ### The rows -/

/-- Where nothing is dropped, a filter keeps the items in their places. -/
theorem forall₂_filterMap {α β : Type} {f : α → Option β} :
    ∀ {items : List α}, (∀ a ∈ items, ∃ b, f a = some b) →
      List.Forall₂ (fun a b => f a = some b) items (items.filterMap f)
  | [], _ => .nil
  | a :: items, h => by
    obtain ⟨b, hb⟩ := h a List.mem_cons_self
    rw [List.filterMap_cons_some hb]
    exact .cons hb (forall₂_filterMap fun a' ha' => h a' (List.mem_cons_of_mem _ ha'))

/-- Each edge leads to its neighbour, and none is dropped on the way. -/
theorem forall₂_neighbors {store : Store} (direction : Direction) (edges : List Edge)
    (h : ∀ e ∈ edges, e ∈ store.edgeItems) :
    List.Forall₂ (fun e v => store.vertex (direction.neighbor e) = some v) edges
      (edges.filterMap fun e => store.vertex (direction.neighbor e)) :=
  forall₂_filterMap fun e he => exists_neighbor (h e he)

/-- Two relations along lists, item by item, compose. -/
theorem forall₂_comp {α β γ : Type} {R : α → β → Prop} {S : β → γ → Prop} {T : α → γ → Prop}
    (h : ∀ a b c, R a b → S b c → T a c) {as : List α} {bs : List β} {cs : List γ}
    (hR : List.Forall₂ R as bs) (hS : List.Forall₂ S bs cs) : List.Forall₂ T as cs := by
  induction hR generalizing cs with
  | nil =>
    cases hS
    exact .nil
  | cons hab _ ih =>
    cases hS with
    | cons hbc hS => exact .cons (h _ _ _ hab hbc) (ih hS)

section Rows

variable {client : Client} {store : Store} {direction : Direction} {row_limit : ℕ} {id : Uuid}
  {t : Option String} {hops : List Edge}

/-- The neighbours of the edges give the rows of the edges. -/
theorem neighborRows (h : LooksUp client store) {edges : List Edge} {items : List Vertex}
    (hitems : List.Forall₂ (fun e v => store.vertex (direction.neighbor e) = some v) edges items)
    (n : ℕ) :
    ∃ rows, (if items.isEmpty then .ok ([], n)
        else (vertexRows client (.specific (items.map Vertex.id)) items).bind
          fun rows => .ok (rows, n)) = (.ok (rows, n) : Except Error Dispatched) ∧
      List.Forall₂ (IsNeighborRow store direction) edges rows := by
  obtain ⟨stream, hstream, htells⟩ := h.properties (items.map Vertex.id)
  obtain ⟨rows, hok, hrows⟩ := vertexRows_eq_ok items hstream
    fun v hv => htells v.id (List.mem_map_of_mem hv)
  exact ⟨rows, rows_unless_empty n hok hrows,
    forall₂_comp (fun _ _ _ hv hrow => ⟨_, hv, hrow⟩) hitems hrows⟩

/-- A pipe of vertices gives the rows of the first edges. -/
theorem pipeVertices_eq_ok (h : LooksUp client store)
    (hhops : hops.Perm (store.hops direction id t)) {batches : List (List Vertex)}
    (hpipe : client.vertices (.pipe id direction.name t) = .ok batches)
    (hflat : batches.flatten = hops.filterMap fun e => store.vertex (direction.neighbor e)) :
    ∃ rows, pipeVertices client row_limit id direction t = .ok (rows, hops.length) ∧
      List.Forall₂ (IsNeighborRow store direction) (hops.take row_limit) rows := by
  have hraw := forall₂_neighbors direction hops fun e he => mem_edgeItems_of_mem_hops hhops he
  rw [← hflat] at hraw
  obtain ⟨rows, hok, hrows⟩ := neighborRows h (List.forall₂_take row_limit hraw) hops.length
  refine ⟨rows, ?_, hrows⟩
  rw [pipeVertices, hpipe, ← hok, hraw.length_eq]
  rfl

/-- A pipe of edges gives the same, by a lookup of the neighbours. -/
theorem pipeEdges_eq_ok (h : LooksUp client store)
    (hhops : hops.Perm (store.hops direction id t)) {batches : List (List Edge)}
    (hpipe : client.edges (direction.query id t) = .ok batches) (hflat : batches.flatten = hops) :
    ∃ rows, pipeEdges client row_limit id direction t = .ok (rows, hops.length) ∧
      List.Forall₂ (IsNeighborRow store direction) (hops.take row_limit) rows := by
  generalize hedges : hops.take row_limit = edges
  obtain ⟨found, hfound, hmem⟩ := h.vertices (edges.map direction.neighbor)
  have hneighbors := forall₂_neighbors direction edges fun e he =>
    mem_edgeItems_of_mem_hops hhops (List.mem_of_mem_take (hedges ▸ he))
  -- a repeated neighbour is looked up once and found under its id each time
  have hitems : (edges.map direction.neighbor).filterMap (fun nid =>
      (found.flatten.foldl (fun d v => d.set v.id.str v)
        (.empty : OrderedDict String Vertex)).get nid.str) =
      edges.filterMap fun e => store.vertex (direction.neighbor e) := by
    rw [List.filterMap_map]
    exact List.filterMap_congr fun e he => get_looked_up hmem (List.mem_map_of_mem he)
  obtain ⟨rows, hok, hrows⟩ := neighborRows h hneighbors hops.length
  refine ⟨rows, ?_, hrows⟩
  have hpath : pipeEdges client row_limit id direction t =
      if edges.isEmpty then .ok ([], hops.length) else .ok (rows, hops.length) := by
    rw [← hok, ← hitems, pipeEdges, hpipe]
    simp only [flattenResults, call, Except.mapError, bind, Except.bind, hflat, hedges, hfound]
    rfl
  rw [hpath]
  split_ifs with hempty
  · rw [List.isEmpty_iff.mp hempty] at hrows
    cases hrows
    rfl
  · rfl

/-- **Both paths give the rows of the first edges.** -/
theorem pipe_eq_ok {library : Library} {args : Args} (hargs : AsksPipe library args id direction t)
    (h : LooksUp client store) (hhops : hops.Perm (store.hops direction id t))
    (hedges : Enumerates client store direction id t hops) :
    ∃ rows, pipe client library args row_limit = .ok (rows, hops.length) ∧
      List.Forall₂ (IsNeighborRow store direction) (hops.take row_limit) rows := by
  rw [hargs.pipe_eq]
  unfold Enumerates at hedges
  split_ifs at hedges ⊢ with hpath
  · obtain ⟨batches, hpipe, hflat⟩ := hedges
    exact pipeEdges_eq_ok h hhops hpipe hflat
  · obtain ⟨batches, hpipe, hflat⟩ := hedges
    exact pipeVertices_eq_ok h hhops hpipe hflat

/-- The verb answers with the edges of the hop. -/
theorem execute_pipe (row_limit : ℕ) {library : Library} {args : Args} {query : String}
    (hargs : AsksPipe library args id direction t) (hask : Asks library query .pipe args)
    (h : LooksUp client store) (hhops : hops.Perm (store.hops direction id t))
    (hedges : Enumerates client store direction id t hops) :
    ∃ r, execute client library row_limit query = .ok r ∧
      Answers hops (IsNeighborRow store direction) row_limit r := by
  obtain ⟨rows, hok, hrows⟩ := pipe_eq_ok hargs h hhops hedges
  refine answers_of_dispatch ?_ hrows
  rw [dispatchQuery, parseQuery_of_asks hask]
  exact hok

end Rows

/-! ### The two paths -/

/-- Two rows of one edge show the same vertex with the same properties. -/
theorem IsNeighborRow.same {store : Store} {direction : Direction} {e : Edge} {row row' : Row}
    (h : IsNeighborRow store direction e row) (h' : IsNeighborRow store direction e row') :
    row.Same row' := by
  obtain ⟨v, hv, props, rfl, hprops⟩ := h
  obtain ⟨v', hv', props', rfl, hprops'⟩ := h'
  cases hv.symm.trans hv'
  exact ⟨rfl, rfl, fun name => (hprops name).trans (hprops' name).symm⟩

/-- **A hop answers with the neighbours of its first edges,** one row for each edge, whichever of the
two paths the client takes. -/
theorem pipe_answers {store : Store} {library : Library} {args : Args} {query : String} {id : Uuid}
    {direction : Direction} {t : Option String} {hops : List Edge}
    (hargs : AsksPipe library args id direction t) (hask : Asks library query .pipe args)
    (hhops : hops.Perm (store.hops direction id t)) {client client' : Client}
    (hlooks : LooksUp client store) (hlooks' : LooksUp client' store)
    (hedges : Enumerates client store direction id t hops)
    (hedges' : Enumerates client' store direction id t hops) (row_limit : ℕ) :
    ∃ r r', execute client library row_limit query = .ok r ∧
      execute client' library row_limit query = .ok r' ∧
      Answers hops (IsNeighborRow store direction) row_limit r ∧
      Answers hops (IsNeighborRow store direction) row_limit r' ∧
      List.Forall₂ Row.Same r.rows r'.rows ∧ r.truncated = r'.truncated := by
  obtain ⟨r, hr, hanswers⟩ := execute_pipe row_limit hargs hask hlooks hhops hedges
  obtain ⟨r', hr', hanswers'⟩ := execute_pipe row_limit hargs hask hlooks' hhops hedges'
  have hrows : List.Forall₂ (fun row e => IsNeighborRow store direction e row) r.rows
      (hops.take row_limit) := List.Forall₂.flip hanswers.rows
  have hsame : List.Forall₂ Row.Same r.rows r'.rows := by
    refine forall₂_comp ?_ hrows hanswers'.rows
    intro row e row' hrow hrow'
    exact hrow.same hrow'
  have htruncated : r.truncated = r'.truncated :=
    Bool.eq_iff_iff.mpr (hanswers.truncated.trans hanswers'.truncated.symm)
  exact ⟨r, r', hr, hr', hanswers, hanswers', hsame, htruncated⟩

/-! ### A client for each path -/

/-- The client of the tests looks vertices up in the order of the ids. -/
theorem looksUp_fakeClient (store : Store) : LooksUp (fakeClient store) store where
  vertices := fun ids => by
    refine ⟨_, rfl, fun v => ?_⟩
    rw [List.flatten_singleton, List.mem_filterMap]
    constructor
    · rintro ⟨id, hid, hv⟩
      have hvid := id_of_vertex hv
      exact ⟨by rwa [hvid], by rwa [hvid]⟩
    · exact fun ⟨hid, hv⟩ => ⟨v.id, hid, hv⟩
  properties := (serves_fakeClient store).specificVertices

/-- The client of the tests resolves a pipe in the order of the store. -/
theorem enumerates_fakeClient (store : Store) (direction : Direction) (id : Uuid)
    (t : Option String) :
    Enumerates (fakeClient store) store direction id t (store.hops direction id t) := by
  have hfilter : store.hops direction id t =
      (store.edgeItems.filter fun e => t.all fun t => e.t.name = t).filter
        fun e => direction.origin e = id := by
    rw [List.filter_filter]
    exact List.filter_congr fun e _ => by rw [Bool.decide_and, Bool.decide_eq_true]
  have hpath : (fakeClient store).has_outbound = false := rfl
  simp only [Enumerates, hpath, Bool.false_eq_true, if_false, hfilter]
  cases direction with
  | outbound => exact ⟨_, rfl, List.flatten_singleton⟩
  | inbound => exact ⟨_, rfl, List.flatten_singleton⟩

/-- A client whose pipe gives edges.  It looks vertices up once each, last id first, in batches of
one. -/
def edgeClient (store : Store) : Client where
  vertices
    | .specific ids => .ok ((ids.eraseDups.reverse.filterMap store.vertex).map fun v => [v])
    | query => (fakeClient store).vertices query
  edges
    | .outbound id t => .ok [store.hops .outbound id t]
    | .inbound id t => .ok [store.hops .inbound id t]
    | query => (fakeClient store).edges query
  vertexProperties := (fakeClient store).vertexProperties
  edgeProperties := (fakeClient store).edgeProperties
  has_outbound := true

/-- A client whose pipe gives edges looks vertices up too, each of them once and the last id first.
-/
theorem looksUp_edgeClient (store : Store) : LooksUp (edgeClient store) store where
  vertices := fun ids => by
    refine ⟨_, rfl, fun v => ?_⟩
    have hflat : ∀ vs : List Vertex, (vs.map fun v => [v]).flatten = vs := fun vs => by
      rw [← List.flatMap_def, List.flatMap_singleton']
    rw [hflat, List.mem_filterMap]
    constructor
    · rintro ⟨id, hid, hv⟩
      have hvid := id_of_vertex hv
      rw [List.mem_reverse, List.mem_eraseDups] at hid
      exact ⟨by rwa [hvid], by rwa [hvid]⟩
    · rintro ⟨hid, hv⟩
      exact ⟨v.id, List.mem_reverse.mpr (List.mem_eraseDups.mpr hid), hv⟩
  properties := (serves_fakeClient store).specificVertices

/-- It enumerates the edges of a hop in the order of the store. -/
theorem enumerates_edgeClient (store : Store) (direction : Direction) (id : Uuid)
    (t : Option String) :
    Enumerates (edgeClient store) store direction id t (store.hops direction id t) := by
  have hpath : (edgeClient store).has_outbound = true := rfl
  simp only [Enumerates, hpath, if_true]
  cases direction with
  | outbound => exact ⟨_, rfl, List.flatten_singleton⟩
  | inbound => exact ⟨_, rfl, List.flatten_singleton⟩

/-- A function that calls itself, and another one that it also refers to. -/
def recursiveCalls : Store :=
  let calls : Identifier := ⟨"CALLS", by decide⟩
  let refersTo : Identifier := ⟨"REFERS_TO", by decide⟩
  ((threeVertices.addEdge (⟨1⟩, calls, ⟨3⟩) .empty).addEdge (⟨1⟩, refersTo, ⟨3⟩) .empty).addEdge
    (⟨1⟩, calls, ⟨1⟩) .empty

/-- `{"query": "pipe", "args": {"vertex_id": "…", "direction": "outbound"}}` -/
def pipeQuery : String := "\x7b\"query\": \"pipe\", \"args\": \x7b\"vertex_id\": " ++
  "\"00000000-0000-0000-0000-000000000001\", \"direction\": \"outbound\"\x7d\x7d"

/-- The arguments of that query. -/
def pipeArgs : Args :=
  [("vertex_id", .str "00000000-0000-0000-0000-000000000001"), ("direction", .str "outbound")]

/-- `json.loads` and `uuid.UUID`, as far as that query goes. -/
def pipeLibrary : Library where
  loads text :=
    if text = pipeQuery then .ok (.dict [("query", .str "pipe"), ("args", .dict pipeArgs)])
    else .error (.valueError "Expecting value: line 1 column 1 (char 0)")
  UUID text :=
    if text = "00000000-0000-0000-0000-000000000001" then .ok ⟨1⟩
    else .error "badly formed hexadecimal UUID string"

/-- The text of the example is a query that the library of the example reads as a pipe. -/
theorem pipeQuery_asks : Asks pipeLibrary pipeQuery .pipe pipeArgs :=
  ⟨[("query", .str "pipe"), ("args", .dict pipeArgs)],
    by simp only [pipeLibrary, if_true], rfl, rfl⟩

/-- The arguments of the example ask for the hops that leave vertex 1, of any type. -/
theorem pipeArgs_asksPipe : AsksPipe pipeLibrary pipeArgs ⟨1⟩ .outbound none where
  keys := by
    unfold HasKeys
    decide
  vertex_id := ⟨_, rfl, by simp only [pipeLibrary, if_true]⟩
  direction_eq := rfl
  t_eq := Or.inl ⟨rfl, Or.inl rfl⟩

/-- `pipe_answers` at a function that calls itself and refers to another one, by both paths and with
a limit of two. -/
theorem pipe_answers_recursiveCalls :
    ∃ r r', execute (edgeClient recursiveCalls) pipeLibrary 2 pipeQuery = .ok r ∧
      execute (fakeClient recursiveCalls) pipeLibrary 2 pipeQuery = .ok r' ∧
      Answers (recursiveCalls.hops .outbound ⟨1⟩ none) (IsNeighborRow recursiveCalls .outbound) 2 r ∧
      Answers (recursiveCalls.hops .outbound ⟨1⟩ none) (IsNeighborRow recursiveCalls .outbound) 2
        r' ∧
      List.Forall₂ Row.Same r.rows r'.rows ∧ r.truncated = r'.truncated :=
  pipe_answers pipeArgs_asksPipe pipeQuery_asks (List.Perm.refl _)
    (looksUp_edgeClient recursiveCalls) (looksUp_fakeClient recursiveCalls)
    (enumerates_edgeClient recursiveCalls .outbound ⟨1⟩ none)
    (enumerates_fakeClient recursiveCalls .outbound ⟨1⟩ none) 2

end IndraDB
end CppMcp
