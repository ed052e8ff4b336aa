/-
# Loading the same files again

A file is loaded into a graph by writes to the vertices and then writes to the edges, and which
edges are made depends on the vertices that are there by then.  When the same files are loaded
once more the vertices stay as they are, but edges that came too early are made now.  After that
nothing changes any more, down to the data (`FileLoader.loadAll_settled`).
-/

import CppMcp.Lib.GraphRequests
import CppMcp.Lib.Upsert

namespace PropertyGraph

variable {F V T A B : Type*} [DecidableEq V] [DecidableEq T]

/-- How a file is loaded: by the writes `nodes` to the vertices, and by the writes `edges` to the
edges, which see the vertices that are there by then.  Writing `nodes` or `edges` of any
files twice is writing them once. -/
structure FileLoader (F V T A B : Type*) [DecidableEq V] [DecidableEq T] where
  load : F → PropertyGraph V T A B → PropertyGraph V T A B
  nodes : F → List (Upsert V A)
  edges : List V → F → List (Upsert (V × T × V) B)
  vertices_load : ∀ f G, (load f G).vertices = OrderedDict.upsertAll (nodes f) G.vertices
  edges_load : ∀ f G, (load f G).edges =
    OrderedDict.upsertAll (edges (load f G).vertices.keys f) G.edges
  nodes_twice : ∀ (fs : List F) d, OrderedDict.upsertAll (fs.flatMap nodes)
    (OrderedDict.upsertAll (fs.flatMap nodes) d) = OrderedDict.upsertAll (fs.flatMap nodes) d
  edges_twice : ∀ vs (fs : List F) d, OrderedDict.upsertAll (fs.flatMap (edges vs))
    (OrderedDict.upsertAll (fs.flatMap (edges vs)) d) =
      OrderedDict.upsertAll (fs.flatMap (edges vs)) d

namespace FileLoader

variable (L : FileLoader F V T A B)

/-- The files are loaded in their order. -/
def loadAll (fs : List F) (G : PropertyGraph V T A B) : PropertyGraph V T A B :=
  fs.foldl (fun G f => L.load f G) G

/-- Loading a list of files begins with the first one. -/
theorem loadAll_cons (f : F) (fs : List F) (G : PropertyGraph V T A B) :
    L.loadAll (f :: fs) G = L.loadAll fs (L.load f G) := rfl

/-- Loading two lists of files is loading the second onto what the first leaves. -/
theorem loadAll_append (fs fs' : List F) (G : PropertyGraph V T A B) :
    L.loadAll (fs ++ fs') G = L.loadAll fs' (L.loadAll fs G) :=
  List.foldl_append ..

/-- The vertices after loading: the writes of all files to vertices, one after the other, whatever
happened to the edges. -/
theorem vertices_loadAll (fs : List F) (G : PropertyGraph V T A B) :
    (L.loadAll fs G).vertices = OrderedDict.upsertAll (fs.flatMap L.nodes) G.vertices := by
  induction fs generalizing G with
  | nil => rfl
  | cons f fs ih =>
    rw [loadAll_cons, ih, L.vertices_load, List.flatMap_cons]
    exact (List.foldl_append ..).symm

/-- Loading takes no edge away: the edges that were there still stand in front, in their order. -/
theorem keys_edges_loadAll (fs : List F) (G : PropertyGraph V T A B) :
    G.edges.keys <+: (L.loadAll fs G).edges.keys := by
  induction fs generalizing G with
  | nil => exact List.prefix_rfl
  | cons f fs ih =>
    refine List.IsPrefix.trans ?_ (ih (L.load f G))
    rw [L.edges_load]
    exact OrderedDict.keys_prefix_upsertAll _ _

/-- **Where an edge comes from:** it was there before, or one of the files writes it. -/
theorem exists_of_mem_edges_loadAll {fs : List F} {G : PropertyGraph V T A B} {e : V × T × V}
    (h : e ∈ (L.loadAll fs G).edges.keys) :
    e ∈ G.edges.keys ∨ ∃ f ∈ fs, ∃ vs, ∃ u ∈ L.edges vs f, u.key = e := by
  induction fs generalizing G with
  | nil => exact Or.inl h
  | cons f fs ih =>
    rcases ih h with he | ⟨f', hf', hwrite⟩
    · rw [L.edges_load] at he
      refine (OrderedDict.mem_keys_upsertAll_iff.mp he).imp_right ?_
      rintro ⟨u, hu, -, hkey⟩
      exact ⟨f, List.mem_cons_self, _, u, hu, hkey⟩
    · exact Or.inr ⟨f', List.mem_cons_of_mem _ hf', hwrite⟩

/-- **An edge of a file stays:** one that the file writes wherever its own vertices are there. -/
theorem mem_edges_loadAll_of_write {fs : List F} {G : PropertyGraph V T A B} {f : F} (hf : f ∈ fs)
    {e : V × T × V} (hwrite : ∀ vs, (∀ u ∈ L.nodes f, u.new.isSome → u.key ∈ vs) →
      ∃ u ∈ L.edges vs f, u.new.isSome ∧ u.key = e) :
    e ∈ (L.loadAll fs G).edges.keys := by
  obtain ⟨before, after, rfl⟩ := List.append_of_mem hf
  rw [loadAll_append, loadAll_cons]
  refine (L.keys_edges_loadAll after _).subset ?_
  rw [L.edges_load]
  refine OrderedDict.mem_keys_upsertAll_iff.mpr (Or.inr (hwrite _ fun u hu hnew => ?_))
  rw [L.vertices_load]
  exact OrderedDict.mem_keys_upsertAll_iff.mpr (Or.inr ⟨u, hu, hnew, rfl⟩)

/-- Where all vertices are there already, the edges do not depend on the order. -/
theorem edges_loadAll {fs : List F} {G : PropertyGraph V T A B}
    (h : ∀ u ∈ fs.flatMap L.nodes, u.new.isSome → u.key ∈ G.vertices.keys) :
    (L.loadAll fs G).edges =
      OrderedDict.upsertAll (fs.flatMap (L.edges G.vertices.keys)) G.edges := by
  induction fs generalizing G with
  | nil => rfl
  | cons f fs ih =>
    rw [List.flatMap_cons] at h
    have hkeys : (L.load f G).vertices.keys = G.vertices.keys := by
      rw [L.vertices_load, OrderedDict.keys_upsertAll_eq_iff]
      exact fun u hu => h u (List.mem_append_left _ hu)
    rw [loadAll_cons, ih fun u hu hnew => hkeys ▸ h u (List.mem_append_right _ hu) hnew,
      L.edges_load, hkeys, List.flatMap_cons]
    exact (List.foldl_append ..).symm

/-- **The second time the vertices stay as they are,** keys and values, since the last write of each
value is the same. -/
theorem vertices_loadAll_twice (fs : List F) (G : PropertyGraph V T A B) :
    (L.loadAll fs (L.loadAll fs G)).vertices = (L.loadAll fs G).vertices := by
  rw [vertices_loadAll, vertices_loadAll, L.nodes_twice]

/-- **From the second time on nothing changes.** The first loading may miss an edge whose vertices
come with a later file; the second finds all vertices there. -/
theorem loadAll_settled (fs : List F) (G : PropertyGraph V T A B) :
    L.loadAll fs (L.loadAll fs (L.loadAll fs G)) = L.loadAll fs (L.loadAll fs G) := by
  refine ext_parts (L.vertices_loadAll_twice fs (L.loadAll fs G)) ?_
  have hthere : ∀ u ∈ fs.flatMap L.nodes, u.new.isSome → u.key ∈ (L.loadAll fs G).vertices.keys := by
    intro u hu hnew
    rw [vertices_loadAll]
    exact OrderedDict.mem_keys_upsertAll_iff.mpr (Or.inr ⟨u, hu, hnew, rfl⟩)
  have hsame := L.vertices_loadAll_twice fs G
  have hsecond := L.edges_loadAll hthere
  rw [L.edges_loadAll (hsame.symm ▸ hthere), hsecond, hsame, L.edges_twice]

end FileLoader
end PropertyGraph
