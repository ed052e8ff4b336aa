/-
# Loading a graph batch by batch

Batches of vertices and edges are loaded one after the other, and an edge is kept
only if its ends are there by then; an edge that comes too early is lost.  So what is
loaded depends on the order of the batches.

`keepsAll_iff_inOrder` says when nothing is lost, and `again_iff_inOrder` that this is
when loading the same batches once more adds no edge.
-/

import Mathlib.Data.List.Induction
import Mathlib.Data.Set.Basic
import Mathlib.Tactic.Common

namespace Loading

variable {V E : Type*}

/-- Vertices and edges that are offered together. -/
@[ext] structure Batch (V E : Type*) where
  vertices : Set V
  edges : Set E

/-- A graph none of whose edges hangs in the air; `ends e` are the ends of an edge. -/
@[ext] structure Graph (ends : E → Set V) where
  vertices : Set V
  edges : Set E
  closed : ∀ e ∈ edges, ends e ⊆ vertices

variable {ends : E → Set V}

/-- Nothing has been loaded. -/
def Graph.empty : Graph ends := ⟨∅, ∅, fun _ he => absurd he (Set.notMem_empty _)⟩

/-- The vertices are loaded, then the edges whose ends are there. -/
def Graph.load (G : Graph ends) (B : Batch V E) : Graph ends where
  vertices := G.vertices ∪ B.vertices
  edges := G.edges ∪ {e ∈ B.edges | ends e ⊆ G.vertices ∪ B.vertices}
  closed := by
    rintro e (he | ⟨-, he⟩)
    · exact (G.closed e he).trans Set.subset_union_left
    · exact he

/-- The batches are loaded in their order. -/
def Graph.loadAll (G : Graph ends) (Bs : List (Batch V E)) : Graph ends := Bs.foldl Graph.load G

/-- All that is offered. -/
def offered (Bs : List (Batch V E)) : Batch V E :=
  ⟨{v | ∃ B ∈ Bs, v ∈ B.vertices}, {e | ∃ B ∈ Bs, e ∈ B.edges}⟩

variable (ends) in
/-- **Every edge comes in time:** one that is offered, as are its ends, is offered by some
batch that comes no earlier than its ends. -/
def InOrder (Bs : List (Batch V E)) : Prop :=
  ∀ e ∈ (offered Bs).edges, ends e ⊆ (offered Bs).vertices →
    ∃ pre B post, Bs = pre ++ B :: post ∧ e ∈ B.edges ∧ ends e ⊆ (offered (pre ++ [B])).vertices

/-- What a sequence of batches offers, once one more has been put at its end. -/
theorem offered_concat (Bs : List (Batch V E)) (B : Batch V E) :
    offered (Bs ++ [B]) =
      ⟨(offered Bs).vertices ∪ B.vertices, (offered Bs).edges ∪ B.edges⟩ := by
  ext x <;> simp [offered, or_and_right, exists_or]

/-- Loading a sequence of batches is loading its last one after the others. -/
theorem Graph.loadAll_concat (G : Graph ends) (Bs : List (Batch V E)) (B : Batch V E) :
    G.loadAll (Bs ++ [B]) = (G.loadAll Bs).load B := by
  rw [loadAll, List.foldl_append]
  rfl

/-- All vertices that are offered are loaded, in whatever order: only edges can come too early. -/
theorem Graph.vertices_loadAll (G : Graph ends) (Bs : List (Batch V E)) :
    (G.loadAll Bs).vertices = G.vertices ∪ (offered Bs).vertices := by
  induction Bs using List.reverseRecOn with
  | nil => simp [loadAll, offered]
  | append_singleton Bs B ih =>
    rw [loadAll_concat, offered_concat]
    change (G.loadAll Bs).vertices ∪ B.vertices = _
    rw [ih, Set.union_assoc]

/-- **What is loaded:** what was there, and the edges of each batch whose ends have been offered by
then. -/
theorem Graph.mem_edges_loadAll (G : Graph ends) (Bs : List (Batch V E)) (e : E) :
    e ∈ (G.loadAll Bs).edges ↔ e ∈ G.edges ∨ ∃ pre B post, Bs = pre ++ B :: post ∧ e ∈ B.edges ∧
      ends e ⊆ G.vertices ∪ (offered (pre ++ [B])).vertices := by
  induction Bs using List.reverseRecOn with
  | nil => simp [loadAll]
  | append_singleton Bs B ih =>
    have hload : e ∈ ((G.loadAll Bs).load B).edges ↔ e ∈ (G.loadAll Bs).edges ∨
        e ∈ B.edges ∧ ends e ⊆ (G.loadAll Bs).vertices ∪ B.vertices := Iff.rfl
    rw [loadAll_concat, hload, ih, vertices_loadAll, Set.union_assoc]
    constructor
    · rintro ((he | ⟨pre, B', post, rfl, he⟩) | ⟨he, hends⟩)
      · exact Or.inl he
      · exact Or.inr ⟨pre, B', post ++ [B], by simp, he⟩
      · refine Or.inr ⟨Bs, B, [], rfl, he, ?_⟩
        rw [offered_concat]
        exact hends
    · rintro (he | ⟨pre, B', post, heq, he, hends⟩)
      · exact Or.inl (Or.inl he)
      · -- the batch is the last one or stands before it
        rcases List.eq_nil_or_concat post with rfl | ⟨post, C, rfl⟩
        · obtain ⟨rfl, hB⟩ := List.append_inj' heq rfl
          obtain rfl : B = B' := by simpa using hB
          rw [offered_concat] at hends
          exact Or.inr ⟨he, hends⟩
        · rw [List.concat_eq_append, ← List.cons_append, ← List.append_assoc] at heq
          obtain ⟨rfl, -⟩ := List.append_inj' heq rfl
          exact Or.inl (Or.inr ⟨pre, B', post, rfl, he, hends⟩)

/-- All that is offered with its ends is in the graph. -/
def Graph.KeepsAll (G : Graph ends) (Bs : List (Batch V E)) : Prop :=
  ∀ e ∈ (offered Bs).edges, ends e ⊆ (offered Bs).vertices → e ∈ G.edges

/-- **Nothing is lost** exactly when every edge comes in time: no earlier than its ends. -/
theorem keepsAll_iff_inOrder (Bs : List (Batch V E)) :
    (Graph.empty.loadAll Bs : Graph ends).KeepsAll Bs ↔ InOrder ends Bs := by
  refine forall_congr' fun e => forall_congr' fun _ => forall_congr' fun _ => ?_
  rw [Graph.mem_edges_loadAll]
  simp [Graph.empty]

/-- **Loading once more** brings the edges that came too early, and so brings nothing exactly when
none did. -/
theorem again_iff_inOrder (Bs : List (Batch V E)) :
    ((Graph.empty.loadAll Bs).loadAll Bs : Graph ends).edges =
      (Graph.empty.loadAll Bs : Graph ends).edges ↔ InOrder ends Bs := by
  rw [← keepsAll_iff_inOrder]
  have hvert : (Graph.empty.loadAll Bs : Graph ends).vertices = (offered Bs).vertices := by
    rw [Graph.vertices_loadAll]
    exact Set.empty_union _
  constructor
  · intro heq e he hends
    rw [← heq, Graph.mem_edges_loadAll, hvert]
    obtain ⟨B, hB, he⟩ := he
    obtain ⟨pre, post, rfl⟩ := List.append_of_mem hB
    exact Or.inr ⟨pre, B, post, rfl, he, hends.trans Set.subset_union_left⟩
  · intro hkeeps
    refine Set.Subset.antisymm (fun e he => ?_) fun e he =>
      (Graph.mem_edges_loadAll _ _ _).mpr (Or.inl he)
    rcases (Graph.mem_edges_loadAll _ _ _).mp he with he | ⟨pre, B, post, hBs, he, hends⟩
    · exact he
    · refine hkeeps e ⟨B, by rw [hBs]; simp, he⟩ (hends.trans ?_)
      rw [hvert]
      refine Set.union_subset Set.Subset.rfl ?_
      rintro v ⟨B', hB', hv⟩
      refine ⟨B', ?_, hv⟩
      rw [hBs]
      rcases List.mem_append.mp hB' with hB' | hB'
      · exact List.mem_append_left _ hB'
      · obtain rfl := List.mem_singleton.mp hB'
        simp

end Loading
