/-
# Requests to a graph store

What a client of a property graph asks for: whether a vertex or an edge is there, that it
be added, that one of its properties be set.  The data of a vertex may be more than its
properties (`HasProps`).

Requests that are sent one after the other may undo each other.  `Idle` says, of each request by
itself, when a list of them leaves the graph as it is (`runAll_eq_self_iff`).
-/

import CppMcp.Lib.PropertyGraph
import CppMcp.Lib.Upsert

namespace PropertyGraph

/-- The data `A` hold a dictionary of properties. -/
class HasProps (A : Type*) (K P : outParam Type*) where
  props : A → OrderedDict K P
  withProps : A → OrderedDict K P → A
  props_withProps : ∀ a d, props (withProps a d) = d
  withProps_props : ∀ a, withProps a (props a) = a
  withProps_withProps : ∀ a d d', withProps (withProps a d) d' = withProps a d'

instance {K P : Type*} : HasProps (OrderedDict K P) K P where
  props d := d
  withProps _ d := d
  props_withProps _ _ := rfl
  withProps_props _ := rfl
  withProps_withProps _ _ _ := rfl

instance {A K P : Type*} : HasProps (A × OrderedDict K P) K P where
  props a := a.2
  withProps a d := (a.1, d)
  props_withProps _ _ := rfl
  withProps_props _ := rfl
  withProps_withProps _ _ _ := rfl

open HasProps

/-- A request; vertices have data `A`, and properties have keys `K` and values `P`. -/
inductive Request (V T A K P : Type*) where
  | hasVertex (v : V)
  | addVertex (v : V) (a : A)
  | setVertex (v : V) (key : K) (value : P)
  | hasEdge (e : V × T × V)
  | addEdge (e : V × T × V)
  | setEdge (e : V × T × V) (key : K) (value : P)

section Parts

variable {V T A B : Type*}

/-- A graph is its vertices and its edges: two that have the same of both are the same. -/
theorem ext_parts {g g' : PropertyGraph V T A B} (hv : g.vertices = g'.vertices)
    (he : g.edges = g'.edges) : g = g' := by
  cases g
  cases g'
  cases hv
  cases he
  rfl

/-- Two changes to the data of a vertex are one, the second after the first. -/
theorem modifyVertex_modifyVertex [DecidableEq V] (g : PropertyGraph V T A B) (v : V)
    (f f' : A → A) : (g.modifyVertex v f).modifyVertex v f' = g.modifyVertex v fun a => f' (f a) :=
  ext_parts (OrderedDict.modify_modify ..) rfl

/-- Two changes to the data of an edge are one, the second after the first. -/
theorem modifyEdge_modifyEdge [DecidableEq V] [DecidableEq T] (g : PropertyGraph V T A B)
    (e : V × T × V) (f f' : B → B) :
    (g.modifyEdge e f).modifyEdge e f' = g.modifyEdge e fun b => f' (f b) :=
  ext_parts rfl (OrderedDict.modify_modify ..)

end Parts

variable {V T A K P : Type*} [DecidableEq V] [DecidableEq T] [DecidableEq K] [HasProps A K P]

/-- What a request does. -/
def Request.run : Request V T A K P → PropertyGraph V T A (OrderedDict K P) →
    PropertyGraph V T A (OrderedDict K P)
  | hasVertex _, g => g
  | addVertex v a, g => g.addVertex v a
  | setVertex v key value, g => g.modifyVertex v fun a => withProps a ((props a).set key value)
  | hasEdge _, g => g
  | addEdge e, g => g.addEdge e .empty
  | setEdge e key value, g => g.modifyEdge e fun stored => stored.set key value

/-- One request after the other. -/
def runAll (rs : List (Request V T A K P)) (g : PropertyGraph V T A (OrderedDict K P)) :
    PropertyGraph V T A (OrderedDict K P) :=
  rs.foldl (fun g r => r.run g) g

/-- Without requests the graph stays as it is. -/
@[simp] theorem runAll_nil (g : PropertyGraph V T A (OrderedDict K P)) : runAll [] g = g := rfl

/-- A list of requests is made beginning with the first. -/
theorem runAll_cons (r : Request V T A K P) (rs : List (Request V T A K P))
    (g : PropertyGraph V T A (OrderedDict K P)) : runAll (r :: rs) g = runAll rs (r.run g) := rfl

/-- Two lists of requests are made one after the other. -/
theorem runAll_append (rs rs' : List (Request V T A K P)) (g : PropertyGraph V T A (OrderedDict K P)) :
    runAll (rs ++ rs') g = runAll rs' (runAll rs g) :=
  List.foldl_append ..

/-- Setting properties of one vertex, each with a request of its own, changes its data once, by all
of them in their order. -/
theorem runAll_map_setVertex (v : V) (ps : List (K × P)) (g : PropertyGraph V T A (OrderedDict K P)) :
    runAll (ps.map fun p => Request.setVertex v p.1 p.2) g =
      g.modifyVertex v fun a => withProps a ((props a).setAll ps) := by
  induction ps generalizing g with
  | nil =>
    refine ext_parts (Eq.trans (OrderedDict.modify_id g.vertices v).symm ?_) rfl
    exact congrArg (g.vertices.modify v) (funext fun a => (withProps_props a).symm)
  | cons p ps ih =>
    refine (ih _).trans ((modifyVertex_modifyVertex ..).trans ?_)
    simp only [props_withProps, withProps_withProps]
    rfl

/-- Setting properties of one edge changes them in turn. -/
theorem runAll_map_setEdge (e : V × T × V) (ps : List (K × P))
    (g : PropertyGraph V T A (OrderedDict K P)) :
    runAll (ps.map fun p => Request.setEdge e p.1 p.2) g =
      g.modifyEdge e fun stored => stored.setAll ps := by
  induction ps generalizing g with
  | nil => exact ext_parts rfl (OrderedDict.modify_id g.edges e).symm
  | cons p ps ih => exact (ih _).trans (modifyEdge_modifyEdge ..)

/-! ### Requests as writes into the two dictionaries -/

/-- The property of vertex `v` that the request sets. -/
def Request.vertexProp (v : V) : Request V T A K P → Option (K × P)
  | setVertex v' key value => if v' = v then some (key, value) else none
  | _ => none

/-- The property of edge `e` that the request sets. -/
def Request.edgeProp (e : V × T × V) : Request V T A K P → Option (K × P)
  | setEdge e' key value => if e' = e then some (key, value) else none
  | _ => none

/-- What the request writes into the vertices. -/
def Request.vertexUpsert : Request V T A K P → Option (Upsert V A)
  | addVertex v a => some ⟨v, some a, id⟩
  | setVertex v key value => some ⟨v, none, fun a => withProps a ((props a).set key value)⟩
  | _ => none

/-- What the request writes into the edges when the vertices are `vs`. -/
def Request.edgeUpsert (vs : List V) :
    Request V T A K P → Option (Upsert (V × T × V) (OrderedDict K P))
  | addEdge e => some ⟨e, if e.1 ∈ vs ∧ e.2.2 ∈ vs then some .empty else none, id⟩
  | setEdge e key value => some ⟨e, none, fun stored => stored.set key value⟩
  | _ => none

/-- What a request does to the vertices is at most one write, whatever the edges are. -/
theorem vertices_run (r : Request V T A K P) (g : PropertyGraph V T A (OrderedDict K P)) :
    (r.run g).vertices = OrderedDict.upsertAll r.vertexUpsert.toList g.vertices := by
  cases r with
  | addVertex v a => exact (OrderedDict.modify_id ..).symm
  | addEdge e => exact g.vertices_addEdge e .empty
  | _ => rfl

/-- What a request does to the edges is at most one write, which depends on the vertices that are
there. -/
theorem edges_run (r : Request V T A K P) (g : PropertyGraph V T A (OrderedDict K P)) :
    (r.run g).edges = OrderedDict.upsertAll (r.edgeUpsert g.vertices.keys).toList g.edges := by
  cases r with
  | addEdge e =>
    rw [Request.run, PropertyGraph.addEdge]
    split_ifs with h
    · rw [Request.edgeUpsert, if_pos h]
      exact (OrderedDict.modify_id ..).symm
    · rw [Request.edgeUpsert, if_neg h]
      exact (OrderedDict.modify_id ..).symm
  | _ => rfl

/-- What requests do to the vertices are the writes that each of them makes, one after the other. -/
theorem vertices_runAll (rs : List (Request V T A K P)) (g : PropertyGraph V T A (OrderedDict K P)) :
    (runAll rs g).vertices =
      OrderedDict.upsertAll (rs.filterMap Request.vertexUpsert) g.vertices := by
  induction rs generalizing g with
  | nil => rfl
  | cons r rs ih =>
    rw [runAll_cons, ih, vertices_run, List.filterMap_cons]
    cases r.vertexUpsert <;> rfl

/-- As long as no vertex is new, the requests write what they would write at first. -/
theorem edges_runAll {rs : List (Request V T A K P)} {g : PropertyGraph V T A (OrderedDict K P)}
    (h : ∀ v a, .addVertex v a ∈ rs → v ∈ g.vertices.keys) :
    (runAll rs g).edges =
      OrderedDict.upsertAll (rs.filterMap (Request.edgeUpsert g.vertices.keys)) g.edges := by
  induction rs generalizing g with
  | nil => rfl
  | cons r rs ih =>
    have hkeys : (r.run g).vertices.keys = g.vertices.keys := by
      cases r with
      | addVertex v a =>
        rw [Request.run, addVertex_of_mem g (h v a List.mem_cons_self)]
      | setVertex v key value => exact OrderedDict.keys_modify ..
      | addEdge e => rw [Request.run, vertices_addEdge]
      | _ => rfl
    rw [runAll_cons, ih fun v a hmem => hkeys ▸ h v a (List.mem_cons_of_mem _ hmem), hkeys,
      edges_run, List.filterMap_cons]
    cases r.edgeUpsert g.vertices.keys <;> rfl

omit [DecidableEq T] in
/-- The requests set the properties of a vertex one after the other. -/
theorem foldl_vertexUpsert (v : V) (rs : List (Request V T A K P)) (a : A) :
    ((rs.filterMap Request.vertexUpsert).filter fun u => u.key = v).foldl
        (fun a u => u.change a) a =
      withProps a ((props a).setAll (rs.filterMap (Request.vertexProp v))) := by
  induction rs generalizing a with
  | nil => exact (withProps_props a).symm
  | cons r rs ih =>
    cases r with
    | addVertex v' a' =>
      rw [List.filterMap_cons, List.filterMap_cons]
      by_cases hv : v' = v <;>
        simpa [Request.vertexUpsert, Request.vertexProp, hv] using ih a
    | setVertex v' key value =>
      rw [List.filterMap_cons, List.filterMap_cons]
      by_cases hv : v' = v
      · simpa [Request.vertexUpsert, Request.vertexProp, hv, OrderedDict.setAll_cons, props_withProps,
          withProps_withProps] using ih (withProps a ((props a).set key value))
      · simpa [Request.vertexUpsert, Request.vertexProp, hv] using ih a
    | _ => exact ih a

omit [HasProps A K P] in
/-- The requests set the properties of an edge one after the other. -/
theorem foldl_edgeUpsert (vs : List V) (e : V × T × V) (rs : List (Request V T A K P))
    (stored : OrderedDict K P) :
    ((rs.filterMap (Request.edgeUpsert vs)).filter fun u => u.key = e).foldl
        (fun stored u => u.change stored) stored =
      stored.setAll (rs.filterMap (Request.edgeProp e)) := by
  induction rs generalizing stored with
  | nil => rfl
  | cons r rs ih =>
    cases r with
    | addEdge e' =>
      rw [List.filterMap_cons, List.filterMap_cons]
      by_cases he : e' = e <;>
        simpa [Request.edgeUpsert, Request.edgeProp, he] using ih stored
    | setEdge e' key value =>
      rw [List.filterMap_cons, List.filterMap_cons]
      by_cases he : e' = e
      · simpa [Request.edgeUpsert, Request.edgeProp, he, OrderedDict.setAll_cons] using
          ih (stored.set key value)
      · simpa [Request.edgeUpsert, Request.edgeProp, he] using ih stored
    | _ => exact ih stored

/-! ### Requests that change nothing -/

/-- The value that the requests set last for a property of vertex `v`. -/
def lastVertexProp (rs : List (Request V T A K P)) (v : V) (key : K) : Option P :=
  (rs.filterMap (Request.vertexProp v)).reverse.lookup key

/-- The value that the requests set last for a property of edge `e`. -/
def lastEdgeProp (rs : List (Request V T A K P)) (e : V × T × V) (key : K) : Option P :=
  (rs.filterMap (Request.edgeProp e)).reverse.lookup key

/-- **The requests add nothing:** what is to be added is there, but for edges without
their ends. -/
structure AddsNothing (rs : List (Request V T A K P)) (g : PropertyGraph V T A (OrderedDict K P)) :
    Prop where
  addVertex : ∀ v a, .addVertex v a ∈ rs → v ∈ g.vertices.keys
  addEdge : ∀ e, .addEdge e ∈ rs → e.1 ∈ g.vertices.keys → e.2.2 ∈ g.vertices.keys →
    e ∈ g.edges.keys

/-- **The requests find everything as they would make it:** they add nothing, and each property
has the value that is set for it last. -/
structure Idle (rs : List (Request V T A K P)) (g : PropertyGraph V T A (OrderedDict K P)) : Prop
    extends AddsNothing rs g where
  setVertex : ∀ v a key value, g.vertices.get v = some a →
    lastVertexProp rs v key = some value → (props a).get key = some value
  setEdge : ∀ e stored key value, g.edges.get e = some stored →
    lastEdgeProp rs e key = some value → stored.get key = some value

omit [DecidableEq V] [DecidableEq T] in
/-- No vertex is made by the writes exactly if every vertex that is to be added is there. -/
theorem forall_vertexUpsert_iff {rs : List (Request V T A K P)} {keys : List V} :
    (∀ u ∈ rs.filterMap Request.vertexUpsert, u.new.isSome → u.key ∈ keys) ↔
      ∀ v a, .addVertex v a ∈ rs → v ∈ keys := by
  simp only [List.mem_filterMap]
  constructor
  · exact fun h v a hr => h ⟨v, some a, id⟩ ⟨_, hr, rfl⟩ rfl
  · rintro h u ⟨r, hr, hu⟩ hnew
    cases r with
    | addVertex v a =>
      cases hu
      exact h v a hr
    | setVertex v key value =>
      cases hu
      exact absurd hnew (by simp)
    | _ => exact absurd hu (by simp [Request.vertexUpsert])

omit [DecidableEq T] [HasProps A K P] in
/-- No edge is made by the writes exactly if every edge that is to be added between vertices that
are there is there. -/
theorem forall_edgeUpsert_iff {vs : List V} {rs : List (Request V T A K P)}
    {keys : List (V × T × V)} :
    (∀ u ∈ rs.filterMap (Request.edgeUpsert vs), u.new.isSome → u.key ∈ keys) ↔
      ∀ e, .addEdge e ∈ rs → e.1 ∈ vs → e.2.2 ∈ vs → e ∈ keys := by
  simp only [List.mem_filterMap]
  constructor
  · exact fun h e hr hs ht => h _ ⟨_, hr, rfl⟩ (by simp [hs, ht])
  · rintro h u ⟨r, hr, hu⟩ hnew
    cases r with
    | addEdge e =>
      cases hu
      have hends : e.1 ∈ vs ∧ e.2.2 ∈ vs := by_contra fun h => absurd hnew (by simp [h])
      exact h e hr hends.1 hends.2
    | setEdge e key value =>
      cases hu
      exact absurd hnew (by simp)
    | _ => exact absurd hu (by simp [Request.edgeUpsert])

/-- The vertices stay as they are if and only if all that are to be added are there, and every
property that is set has its last value already. -/
theorem vertices_runAll_eq_self_iff {rs : List (Request V T A K P)}
    {g : PropertyGraph V T A (OrderedDict K P)} :
    (runAll rs g).vertices = g.vertices ↔
      (∀ v a, .addVertex v a ∈ rs → v ∈ g.vertices.keys) ∧
        ∀ v a key value, g.vertices.get v = some a →
          lastVertexProp rs v key = some value → (props a).get key = some value := by
  rw [vertices_runAll, OrderedDict.upsertAll_eq_self_iff, forall_vertexUpsert_iff]
  refine and_congr_right fun _ => forall_congr' fun v => ?_
  constructor
  · intro h a key value hget
    have hset := h a hget
    rw [foldl_vertexUpsert] at hset
    have hprops := congrArg props hset
    rw [props_withProps] at hprops
    exact OrderedDict.setAll_eq_self_iff.mp hprops key value
  · intro h a hget
    rw [foldl_vertexUpsert, OrderedDict.setAll_eq_self_iff.mpr fun key value => h a key value hget,
      withProps_props]

/-- The edges stay as they are under the same two conditions, where no vertex is new. -/
theorem edges_runAll_eq_self_iff {rs : List (Request V T A K P)}
    {g : PropertyGraph V T A (OrderedDict K P)}
    (hadd : ∀ v a, .addVertex v a ∈ rs → v ∈ g.vertices.keys) :
    (runAll rs g).edges = g.edges ↔
      (∀ e, .addEdge e ∈ rs → e.1 ∈ g.vertices.keys → e.2.2 ∈ g.vertices.keys →
        e ∈ g.edges.keys) ∧
        ∀ e stored key value, g.edges.get e = some stored →
          lastEdgeProp rs e key = some value → stored.get key = some value := by
  rw [edges_runAll hadd, OrderedDict.upsertAll_eq_self_iff, forall_edgeUpsert_iff]
  refine and_congr_right fun _ => forall_congr' fun e => forall_congr' fun stored => ?_
  rw [foldl_edgeUpsert, OrderedDict.setAll_eq_self_iff]
  exact ⟨fun h key value hget => h hget key value, fun h hget key value => h key value hget⟩

/-- **Requests leave the graph as it is if and only if they are idle.** -/
theorem runAll_eq_self_iff {rs : List (Request V T A K P)}
    {g : PropertyGraph V T A (OrderedDict K P)} :
    runAll rs g = g ↔ Idle rs g := by
  constructor
  · intro h
    obtain ⟨hadd, hset⟩ := vertices_runAll_eq_self_iff.mp (congrArg vertices h)
    obtain ⟨hadd', hset'⟩ := (edges_runAll_eq_self_iff hadd).mp (congrArg edges h)
    exact ⟨⟨hadd, hadd'⟩, hset, hset'⟩
  · intro h
    exact ext_parts (vertices_runAll_eq_self_iff.mpr ⟨h.addVertex, h.setVertex⟩)
      ((edges_runAll_eq_self_iff h.addVertex).mpr ⟨h.addEdge, h.setEdge⟩)

/-! ### What is added -/

/-- Requests take no vertex away, and leave those that were there in their places. -/
theorem vertices_prefix_runAll (rs : List (Request V T A K P))
    (g : PropertyGraph V T A (OrderedDict K P)) :
    g.vertices.keys <+: (runAll rs g).vertices.keys := by
  rw [vertices_runAll]
  exact OrderedDict.keys_prefix_upsertAll ..

/-- Requests take no edge away, and leave those that were there in their places. -/
theorem edges_prefix_runAll (rs : List (Request V T A K P))
    (g : PropertyGraph V T A (OrderedDict K P)) :
    g.edges.keys <+: (runAll rs g).edges.keys := by
  induction rs generalizing g with
  | nil => exact List.prefix_rfl
  | cons r rs ih =>
    refine List.IsPrefix.trans ?_ (ih (r.run g))
    rw [edges_run]
    exact OrderedDict.keys_prefix_upsertAll ..

/-- **When no vertex and no edge is added:** exactly if the requests ask for none that is not there,
whatever they do to properties. -/
theorem keys_runAll_eq_iff {rs : List (Request V T A K P)}
    {g : PropertyGraph V T A (OrderedDict K P)} :
    (runAll rs g).vertices.keys = g.vertices.keys ∧ (runAll rs g).edges.keys = g.edges.keys ↔
      AddsNothing rs g := by
  have hvert : (runAll rs g).vertices.keys = g.vertices.keys ↔
      ∀ v a, .addVertex v a ∈ rs → v ∈ g.vertices.keys := by
    rw [vertices_runAll, OrderedDict.keys_upsertAll_eq_iff, forall_vertexUpsert_iff]
  constructor
  · rintro ⟨hv, he⟩
    have hadd := hvert.mp hv
    rw [edges_runAll hadd, OrderedDict.keys_upsertAll_eq_iff, forall_edgeUpsert_iff] at he
    exact ⟨hadd, he⟩
  · intro h
    refine ⟨hvert.mpr h.addVertex, ?_⟩
    rw [edges_runAll h.addVertex, OrderedDict.keys_upsertAll_eq_iff, forall_edgeUpsert_iff]
    exact h.addEdge

end PropertyGraph
