/-
# Graphs whose vertices and edges carry data

A store of vertices and of edges between them, as a graph database keeps it.  A
vertex is known by its key, and an edge by its source, its type and its target, so there
is one edge of each type from one vertex to another.  The field `ends` says that no edge
hangs in the air: `addEdge` stores an edge exactly when both of its ends are stored.

`AddsVertices` and `AddsEdges` say what a program that writes vertices, or edges, does to
the keys and what it counts; they compose.  One after the other they load a batch
(`toGraph_eq_load`).
-/

import CppMcp.Lib.Loading
import CppMcp.Lib.OrderedDict
import Mathlib.Data.Set.Insert

/-- Vertices with data `A`, edges of types `T` with data `B`. -/
structure PropertyGraph (V T A B : Type*) where
  vertices : OrderedDict V A
  edges : OrderedDict (V × T × V) B
  ends : ∀ e ∈ edges.keys, e.1 ∈ vertices.keys ∧ e.2.2 ∈ vertices.keys

namespace PropertyGraph

variable {V T A B : Type*}

/-- Nothing is stored. -/
def empty : PropertyGraph V T A B :=
  ⟨.empty, .empty, fun _ he => absurd he List.not_mem_nil⟩

/-! ### What is added -/

/-- From `g` to `g'` the vertices `vs` are added, `n` of which are new. -/
structure AddsVertices (vs : Set V) (g : PropertyGraph V T A B) (n : ℕ)
    (g' : PropertyGraph V T A B) : Prop where
  grows : ∃ new, g'.vertices.keys = g.vertices.keys ++ new ∧ new.length = n
  mem_iff : ∀ v, v ∈ g'.vertices.keys ↔ v ∈ g.vertices.keys ∨ v ∈ vs
  keys_edges : g'.edges.keys = g.edges.keys

/-- From `g` to `g'` those of the edges `es` are added whose ends are stored, `n` of which are
new. -/
structure AddsEdges (es : Set (V × T × V)) (g : PropertyGraph V T A B) (n : ℕ)
    (g' : PropertyGraph V T A B) : Prop where
  grows : ∃ new, g'.edges.keys = g.edges.keys ++ new ∧ new.length = n
  mem_iff : ∀ e, e ∈ g'.edges.keys ↔
    e ∈ g.edges.keys ∨ e ∈ es ∧ e.1 ∈ g.vertices.keys ∧ e.2.2 ∈ g.vertices.keys
  keys_vertices : g'.vertices.keys = g.vertices.keys

section Compose

variable {g g' g'' : PropertyGraph V T A B} {m n : ℕ}

/-- Nothing is added, and nothing counted, where nothing is done. -/
theorem AddsVertices.refl (g : PropertyGraph V T A B) : AddsVertices ∅ g 0 g :=
  ⟨⟨[], by simp, rfl⟩, by simp, rfl⟩

/-- What is added one after the other is added together, and the counts add up. -/
theorem AddsVertices.trans {vs vs' : Set V} (h : AddsVertices vs g m g')
    (h' : AddsVertices vs' g' n g'') : AddsVertices (vs ∪ vs') g (m + n) g'' := by
  obtain ⟨new, hnew, rfl⟩ := h.grows
  obtain ⟨new', hnew', rfl⟩ := h'.grows
  exact
    { grows := ⟨new ++ new', by rw [hnew', hnew, List.append_assoc], List.length_append⟩
      mem_iff := fun v => by rw [h'.mem_iff, h.mem_iff, Set.mem_union, or_assoc]
      keys_edges := h'.keys_edges.trans h.keys_edges }

/-- The same of edges: where nothing is done, none is added and none counted. -/
theorem AddsEdges.refl (g : PropertyGraph V T A B) : AddsEdges ∅ g 0 g :=
  ⟨⟨[], by simp, rfl⟩, by simp, rfl⟩

/-- Edges that are added one after the other are added together, and the counts add up. -/
theorem AddsEdges.trans {es es' : Set (V × T × V)} (h : AddsEdges es g m g')
    (h' : AddsEdges es' g' n g'') : AddsEdges (es ∪ es') g (m + n) g'' := by
  obtain ⟨new, hnew, rfl⟩ := h.grows
  obtain ⟨new', hnew', rfl⟩ := h'.grows
  exact
    { grows := ⟨new ++ new', by rw [hnew', hnew, List.append_assoc], List.length_append⟩
      mem_iff := fun e => by
        rw [h'.mem_iff, h.mem_iff, h.keys_vertices, Set.mem_union, or_assoc, or_and_right]
      keys_vertices := h'.keys_vertices.trans h.keys_vertices }

end Compose

/-! ### Programs that write one record after the other -/

/-- The records are written in their order, and what is counted at each is added up. -/
def tally {α G : Type*} (step : α → G → ℕ × G) : List α → G → ℕ × G
  | [], g => (0, g)
  | a :: as, g => ((step a g).1 + (tally step as (step a g).2).1, (tally step as (step a g).2).2)

/-- Writing two lists of records: the second starts from what the first leaves, and the counts add
up. -/
theorem tally_append {α G : Type*} (step : α → G → ℕ × G) (as as' : List α) (g : G) :
    tally step (as ++ as') g =
      ((tally step as g).1 + (tally step as' (tally step as g).2).1,
        (tally step as' (tally step as g).2).2) := by
  induction as generalizing g with
  | nil => rw [List.nil_append, tally, Nat.zero_add]
  | cons a as ih => rw [List.cons_append, tally, ih, tally, Nat.add_assoc]

/-- What no record changes stays as it was, however many records are written. -/
theorem eq_of_tally {α G β : Type*} {step : α → G → ℕ × G} {f : G → β}
    (h : ∀ a g, f (step a g).2 = f g) (as : List α) (g : G) : f (tally step as g).2 = f g := by
  induction as generalizing g with
  | nil => rfl
  | cons a as ih => exact (ih _).trans (h a g)

/-- **Two stores that are in step stay so** and count the same, if each record keeps them in step. -/
theorem rel_tally {α G G' : Type*} {step : α → G → ℕ × G} {step' : α → G' → ℕ × G'}
    {R : G → G' → Prop} {as : List α}
    (h : ∀ a ∈ as, ∀ g g', R g g' → (step a g).1 = (step' a g').1 ∧ R (step a g).2 (step' a g').2)
    {g : G} {g' : G'} (hg : R g g') :
    (tally step as g).1 = (tally step' as g').1 ∧ R (tally step as g).2 (tally step' as g').2 := by
  induction as generalizing g g' with
  | nil => exact ⟨rfl, hg⟩
  | cons a as ih =>
    obtain ⟨hcount, hstep⟩ := h a List.mem_cons_self g g' hg
    obtain ⟨hcounts, hsteps⟩ := ih (fun b hb => h b (List.mem_cons_of_mem a hb)) hstep
    refine ⟨?_, hsteps⟩
    rw [tally, tally, hcount, hcounts]

section Tally

variable {α : Type*} {step : α → PropertyGraph V T A B → ℕ × PropertyGraph V T A B}

/-- A list of records adds the vertices that its records add, by induction on the list. -/
theorem AddsVertices.tally {vs : α → Set V}
    (h : ∀ a g, AddsVertices (vs a) g (step a g).1 (step a g).2) (as : List α)
    (g : PropertyGraph V T A B) :
    AddsVertices {v | ∃ a ∈ as, v ∈ vs a} g (tally step as g).1 (tally step as g).2 := by
  induction as generalizing g with
  | nil => simpa [PropertyGraph.tally] using AddsVertices.refl g
  | cons a as ih =>
    have hunion : {v | ∃ a' ∈ a :: as, v ∈ vs a'} = vs a ∪ {v | ∃ a' ∈ as, v ∈ vs a'} := by
      ext v
      simp
    rw [hunion]
    exact (h a g).trans (ih _)

/-- A list of records adds the edges that its records add, by induction on the list. -/
theorem AddsEdges.tally {es : α → Set (V × T × V)}
    (h : ∀ a g, AddsEdges (es a) g (step a g).1 (step a g).2) (as : List α)
    (g : PropertyGraph V T A B) :
    AddsEdges {e | ∃ a ∈ as, e ∈ es a} g (tally step as g).1 (tally step as g).2 := by
  induction as generalizing g with
  | nil => simpa [PropertyGraph.tally] using AddsEdges.refl g
  | cons a as ih =>
    have hunion : {e | ∃ a' ∈ a :: as, e ∈ es a'} = es a ∪ {e | ∃ a' ∈ as, e ∈ es a'} := by
      ext e
      simp
    rw [hunion]
    exact (h a g).trans (ih _)

end Tally

/-! ### The graph without the data -/

/-- The ends of an edge. -/
def edgeEnds (e : V × T × V) : Set V := {e.1, e.2.2}

/-- The keys alone. -/
def toGraph (g : PropertyGraph V T A B) : Loading.Graph (edgeEnds (V := V) (T := T)) where
  vertices := {v | v ∈ g.vertices.keys}
  edges := {e | e ∈ g.edges.keys}
  closed e he := Set.pair_subset (g.ends e he).1 (g.ends e he).2

/-- An empty store is the empty graph. -/
@[simp] theorem toGraph_empty : (empty : PropertyGraph V T A B).toGraph = Loading.Graph.empty :=
  Loading.Graph.ext (by simp [toGraph, empty, Loading.Graph.empty])
    (by simp [toGraph, empty, Loading.Graph.empty])

/-- **Vertices and then edges load a batch:** what is stored afterwards is the graph with the batch
loaded, so an edge is there only if both of its ends are. -/
theorem toGraph_eq_load {vs : Set V} {es : Set (V × T × V)} {m n : ℕ}
    {g g' g'' : PropertyGraph V T A B} (h : AddsVertices vs g m g') (h' : AddsEdges es g' n g'') :
    g''.toGraph = g.toGraph.load ⟨vs, es⟩ := by
  have hvert : ∀ v, v ∈ g''.vertices.keys ↔ v ∈ g.vertices.keys ∨ v ∈ vs := fun v => by
    rw [h'.keys_vertices, h.mem_iff]
  refine Loading.Graph.ext (Set.ext hvert) (Set.ext fun e => ?_)
  change e ∈ g''.edges.keys ↔ e ∈ g.edges.keys ∨ e ∈ es ∧ edgeEnds e ⊆ _
  rw [h'.mem_iff, h.keys_edges, h.mem_iff, h.mem_iff, edgeEnds, Set.pair_subset_iff]
  rfl

/-! ### Vertices -/

variable [DecidableEq V] (g : PropertyGraph V T A B)

/-- A vertex is stored, unless there is one with its key. -/
def addVertex (v : V) (a : A) : PropertyGraph V T A B where
  vertices := g.vertices.add v a
  edges := g.edges
  ends e he := by
    rw [OrderedDict.keys_add]
    split_ifs
    · exact g.ends e he
    · exact ⟨List.mem_append_left _ (g.ends e he).1, List.mem_append_left _ (g.ends e he).2⟩

/-- The data of a vertex are changed. -/
def modifyVertex (v : V) (f : A → A) : PropertyGraph V T A B where
  vertices := g.vertices.modify v f
  edges := g.edges
  ends e he := by
    rw [OrderedDict.keys_modify]
    exact g.ends e he

/-- A vertex that is stored stays as it is. -/
theorem addVertex_of_mem {v : V} (h : v ∈ g.vertices.keys) (a : A) : g.addVertex v a = g := by
  have hadd : g.vertices.add v a = g.vertices := dif_pos h
  simp only [addVertex, hadd]

/-- What adding a vertex has created is one, if it was new, and otherwise nothing. -/
theorem created_addVertex (v : V) (a : A) :
    g.vertices.created (g.addVertex v a).vertices v = if v ∈ g.vertices.keys then 0 else 1 :=
  g.vertices.created_add v a

/-- Adding a vertex adds that vertex, and counts it if it was not there. -/
theorem addsVertices_addVertex (v : V) (a : A) :
    AddsVertices {v} g (g.vertices.created (g.addVertex v a).vertices v) (g.addVertex v a) := by
  have hkeys : (g.addVertex v a).vertices.keys = _ := g.vertices.keys_add v a
  rw [created_addVertex]
  split_ifs at hkeys ⊢ with hv
  · refine ⟨⟨[], by rw [hkeys, List.append_nil], rfl⟩, fun w => ?_, rfl⟩
    rw [hkeys, Set.mem_singleton_iff, or_iff_left_of_imp (fun h => h ▸ hv)]
  · exact ⟨⟨[v], hkeys, rfl⟩, fun w => by rw [hkeys]; simp, rfl⟩

/-- Changing the data of a vertex adds nothing and counts nothing. -/
theorem addsVertices_modifyVertex (v : V) (f : A → A) :
    AddsVertices ∅ g 0 (g.modifyVertex v f) := by
  have hkeys : (g.modifyVertex v f).vertices.keys = g.vertices.keys := g.vertices.keys_modify v f
  exact ⟨⟨[], by rw [hkeys, List.append_nil], rfl⟩, fun w => by rw [hkeys]; simp, rfl⟩

/-- Nor do several changes to the data of a vertex, one after the other. -/
theorem addsVertices_foldl_modifyVertex {ι : Type*} (v : V) (f : ι → A → A) (is : List ι) :
    AddsVertices ∅ g 0 (is.foldl (fun g i => g.modifyVertex v (f i)) g) := by
  induction is generalizing g with
  | nil => exact AddsVertices.refl g
  | cons i is ih => simpa using (g.addsVertices_modifyVertex v (f i)).trans (ih _)

/-! ### Edges -/

variable [DecidableEq T]

/-- An edge is stored if both of its ends are, unless it is there. -/
def addEdge (e : V × T × V) (b : B) : PropertyGraph V T A B :=
  if h : e.1 ∈ g.vertices.keys ∧ e.2.2 ∈ g.vertices.keys then
    { vertices := g.vertices
      edges := g.edges.add e b
      ends := by
        intro e' he'
        rw [OrderedDict.keys_add] at he'
        split_ifs at he'
        · exact g.ends e' he'
        · rcases List.mem_append.mp he' with he' | he'
          · exact g.ends e' he'
          · obtain rfl := List.mem_singleton.mp he'
            exact h }
  else g

/-- The data of an edge are changed. -/
def modifyEdge (e : V × T × V) (f : B → B) : PropertyGraph V T A B where
  vertices := g.vertices
  edges := g.edges.modify e f
  ends e' he' := by
    rw [OrderedDict.keys_modify] at he'
    exact g.ends e' he'

/-- Adding an edge leaves the vertices as they are. -/
@[simp] theorem vertices_addEdge (e : V × T × V) (b : B) :
    (g.addEdge e b).vertices = g.vertices := by
  unfold addEdge
  split_ifs <;> rfl

/-- An edge is added if both of its ends are stored and it is not there already. -/
theorem keys_addEdge (e : V × T × V) (b : B) :
    (g.addEdge e b).edges.keys =
      if (e.1 ∈ g.vertices.keys ∧ e.2.2 ∈ g.vertices.keys) ∧ e ∉ g.edges.keys then
        g.edges.keys ++ [e]
      else g.edges.keys := by
  unfold addEdge
  split_ifs with h₁ h₂ h₂
  · rw [OrderedDict.keys_add, if_neg h₂.2]
  · rw [OrderedDict.keys_add, if_pos (by_contra fun h => h₂ ⟨h₁, h⟩)]
  · exact absurd h₂.1 h₁
  · rfl

/-- An edge that is stored stays as it is. -/
theorem addEdge_of_mem {e : V × T × V} (h : e ∈ g.edges.keys) (b : B) : g.addEdge e b = g := by
  have hadd : g.edges.add e b = g.edges := dif_pos h
  unfold addEdge
  split_ifs
  · simp only [hadd]
  · rfl

/-- What adding an edge has created is one under these conditions, and otherwise nothing. -/
theorem created_addEdge (e : V × T × V) (b : B) :
    g.edges.created (g.addEdge e b).edges e =
      if (e.1 ∈ g.vertices.keys ∧ e.2.2 ∈ g.vertices.keys) ∧ e ∉ g.edges.keys then 1 else 0 := by
  rw [OrderedDict.created, keys_addEdge]
  by_cases hends : e.1 ∈ g.vertices.keys ∧ e.2.2 ∈ g.vertices.keys <;>
    by_cases he : e ∈ g.edges.keys <;> simp [hends, he]

/-- An edge is counted if it is stored now and was not. -/
theorem addsEdges_addEdge (e : V × T × V) (b : B) :
    AddsEdges {e} g (g.edges.created (g.addEdge e b).edges e) (g.addEdge e b) := by
  have hkeys := g.keys_addEdge e b
  unfold OrderedDict.created
  split_ifs at hkeys with hadd
  · rw [if_pos ⟨hadd.2, by rw [hkeys]; simp⟩]
    refine ⟨⟨[e], hkeys, rfl⟩, fun e' => ?_, by rw [vertices_addEdge]⟩
    rw [hkeys, List.mem_append, List.mem_singleton, Set.mem_singleton_iff]
    exact or_congr_right ⟨fun h => ⟨h, h ▸ hadd.1⟩, fun h => h.1⟩
  · rw [if_neg (by rw [hkeys]; exact fun h => h.1 h.2)]
    refine ⟨⟨[], by rw [hkeys, List.append_nil], rfl⟩, fun e' => ?_, by rw [vertices_addEdge]⟩
    rw [hkeys, Set.mem_singleton_iff]
    refine ⟨Or.inl, fun h => h.elim id ?_⟩
    rintro ⟨rfl, hends⟩
    exact by_contra fun h => hadd ⟨hends, h⟩

/-- Changing the data of an edge adds nothing and counts nothing. -/
theorem addsEdges_modifyEdge (e : V × T × V) (f : B → B) :
    AddsEdges ∅ g 0 (g.modifyEdge e f) := by
  have hkeys : (g.modifyEdge e f).edges.keys = g.edges.keys := g.edges.keys_modify e f
  exact ⟨⟨[], by rw [hkeys, List.append_nil], rfl⟩, fun e' => by rw [hkeys]; simp, rfl⟩

/-- Nor do several changes to the data of an edge, one after the other. -/
theorem addsEdges_foldl_modifyEdge {ι : Type*} (e : V × T × V) (f : ι → B → B) (is : List ι) :
    AddsEdges ∅ g 0 (is.foldl (fun g i => g.modifyEdge e (f i)) g) := by
  induction is generalizing g with
  | nil => exact AddsEdges.refl g
  | cons i is ih => simpa using (g.addsEdges_modifyEdge e (f i)).trans (ih _)

end PropertyGraph
