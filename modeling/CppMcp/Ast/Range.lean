/-
# Pruning by line range

`_walk_graph` of `src/cpp_mcp/core/ast_walker.py` turns back at a cursor whose extent does not overlap the
requested lines, and so never looks at what is below it.  Where the extent of every cursor lies within
that of its parent this hides nothing: what overlaps below overlaps above (`Nested.upClosed`).

So unless the budget is used up, the walk emits exactly the cursors that overlap, in preorder
(`walkGraph_emits_overlapping`).
-/

import CppMcp.Ast.Truncation

namespace CppMcp
namespace Ast

/-! ### Nested extents -/

/-- Every cursor has lines, all below 2³¹, and those of a child lie within its parent's. -/
structure Nested (t : Cursor) : Prop where
  known : ∀ s ∈ t.subtrees, ∃ first last, s.label.lines = some (first, last) ∧
    first < 2 ^ 31 ∧ last < 2 ^ 31
  within : ∀ s ∈ t.subtrees, ∀ child ∈ s.children, ∀ first last first' last',
    s.label.lines = some (first, last) → child.label.lines = some (first', last') →
      first ≤ first' ∧ last' ≤ last

/-- So the walk can tell of every cursor whether it overlaps. -/
theorem Nested.lined {t : Cursor} (h : Nested t) : Lined t := by
  intro s hs
  obtain ⟨first, last, hlines, hfirst, -⟩ := h.known s hs
  exact ⟨first, last, hlines, hfirst⟩

/-- **What overlaps below overlaps above,** as the extent of a child lies within that of its parent:
this is why the walk may turn back. -/
theorem Nested.upClosed {t : Cursor} (h : Nested t) (start_line end_line : Option ℤ) :
    Rose.UpClosed (overlaps start_line end_line) t := by
  intro s hs child hchild hoverlaps
  obtain ⟨first, last, hlines, -, -⟩ := h.known s hs
  obtain ⟨first', last', hlines', -, -⟩ := h.known child (Rose.mem_subtrees_of_mem_children hs hchild)
  obtain ⟨hfirst, hlast⟩ := h.within s hs child hchild _ _ _ _ hlines hlines'
  obtain ⟨hlo, hhi⟩ := (overlaps_iff hlines').mp hoverlaps
  refine (overlaps_iff hlines).mpr ⟨fun lo hmem => ?_, fun hi hmem => ?_⟩
  · have hchild := hlo lo hmem
    omega
  · have hchild := hhi hi hmem
    omega

/-- The cursors that the walk comes to are those that overlap, in preorder. -/
theorem Nested.labels_preorder {t : Cursor} (h : Nested t) (start_line end_line : Option ℤ) :
    (preorder start_line end_line t).map (fun e => e.tree.label) =
      (t.subtrees.filter fun s => overlaps start_line end_line s.label).map Rose.label := by
  have hrange := h.lined.inRange_eq start_line end_line
  have hlabels : (preorder start_line end_line t).map (fun e => e.tree.label) =
      ((rangePruned start_line end_line [t]).flatMap Rose.subtrees).map Rose.label := by
    rw [← trees_preorder, List.map_map]
    rfl
  have hup := h.upClosed start_line end_line
  have hroot := hrange t (Rose.mem_subtrees_self t)
  rw [hlabels, rangePruned, Rose.pruneList_eq_map_filter, List.filter_singleton, hroot]
  cases hq : overlaps start_line end_line t.label with
  | true =>
    rw [cond_true, List.map_singleton, List.flatMap_singleton, Rose.prune_congr id hrange]
    exact hup.labels_prune hq
  | false =>
    rw [cond_false, hup.filter_subtrees_of_not hq]
    rfl

/-! ### What is emitted -/

/-- **A budget that is not used up** leaves nothing out: the nodes are those of the cursors in the
range, in preorder. -/
theorem nodes_of_not_truncated {tu : TranslationUnit} {start_line end_line : Option ℤ}
    {max_nodes max_bytes : ℕ} {r : GraphAst}
    (h : walkGraph tu start_line end_line max_nodes max_bytes = .ok r) (hr : r.truncated = false) :
    List.Forall₂ IsNode (preorder start_line end_line tu.cursor) r.nodes := by
  obtain ⟨⟨_, w⟩, hwalk, heq⟩ := Except.bind_eq_ok.mp h
  obtain ⟨n, hn, hnodes, -, hstop⟩ := runUntil_induct
    (P := fun done w => List.Forall₂ IsNode done w.nodes)
    (fun done e w₁ w₂ hdone _ hemit => by
      obtain ⟨node, hnode, hw₂⟩ := Except.bind_eq_ok.mp hemit
      cases hw₂
      exact List.rel_append hdone (.cons hnode .nil))
    .nil (runUntil_of_walkGraphFrom hwalk)
  cases heq
  have hall : n = (preorder start_line end_line tu.cursor).length := by
    by_contra hne
    have hstopped : w.budget.truncated = true := hstop (lt_of_le_of_ne hn hne)
    exact nomatch hstopped.symm.trans hr
  have htake : (preorder start_line end_line tu.cursor).take n = preorder start_line end_line tu.cursor :=
    List.take_of_length_le hall.ge
  exact htake ▸ hnodes

/-- **Range pruning loses nothing:** unless the budget is used up, the walk emits exactly the cursors
that overlap the range, in preorder, numbered from 1. -/
theorem walkGraph_emits_overlapping (tu : TranslationUnit) (start_line end_line : Option ℤ)
    (max_nodes max_bytes : ℕ) (h : Nested tu.cursor) :
    (∀ r, walkGraph tu start_line end_line max_nodes max_bytes = .ok r → r.truncated = false →
      List.Forall₂ (fun s node => cursorToNode s.label node.id = .ok node)
          (tu.cursor.subtrees.filter fun s => overlaps start_line end_line s.label) r.nodes ∧
        r.nodes.map AstNode.id = List.range' 1 r.nodes.length) ∧
    ((∀ s ∈ tu.cursor.subtrees, s.label.children_raise = none) →
      ∃ r, walkGraph tu start_line end_line max_nodes max_bytes = .ok r) := by
  constructor
  · intro r hr htruncated
    have hnodes := nodes_of_not_truncated hr htruncated
    have hread : List.Forall₂ (fun e node => cursorToNode e.tree.label node.id = .ok node)
        (preorder start_line end_line tu.cursor) r.nodes :=
      hnodes.imp fun e node hnode => by rw [hnode.id_eq]; exact hnode
    have hlabels : List.Forall₂ (fun c node => cursorToNode c node.id = .ok node)
        ((preorder start_line end_line tu.cursor).map fun e => e.tree.label) r.nodes :=
      List.forall₂_map_left_iff.mpr hread
    rw [h.labels_preorder start_line end_line] at hlabels
    refine ⟨List.forall₂_map_left_iff.mp hlabels, ?_⟩
    rw [ids_of_forall₂ hnodes, numbers_preorder, hnodes.length_eq]
  · intro hchildren
    have hread : ∀ s ∈ tu.cursor.subtrees, s.label.Readable := by
      intro s hs
      obtain ⟨first, last, hlines, -, -⟩ := h.known s hs
      obtain ⟨start, stop, hextent, -, -⟩ := exists_positions_of_lines hlines
      exact ⟨⟨_, hextent, _, rfl⟩, hchildren s hs⟩
    obtain ⟨r, hr⟩ := exists_walkGraphFrom hread
    exact ⟨_, by rw [walkGraph, hr]; rfl⟩

/-- `walkGraph_emits_overlapping` for a unit whose second function is outside the range. -/
theorem walkGraph_emits_overlapping_twoFunctions : ∃ max_nodes max_bytes r,
    walkGraph twoFunctions (some 1) (some 4) max_nodes max_bytes = .ok r ∧ r.truncated = false ∧
      List.Forall₂ (fun s node => cursorToNode s.label node.id = .ok node)
        (twoFunctions.cursor.subtrees.filter fun s => overlaps (some 1) (some 4) s.label) r.nodes := by
  have hnested : Nested twoFunctions.cursor := by
    constructor
    · simp [twoFunctions, Rose.subtrees_node, CursorInfo.lines]
    · simp [twoFunctions, Rose.subtrees_node, CursorInfo.lines]
      refine ⟨⟨?_, ?_⟩, ?_⟩ <;> intros <;> omega
  obtain ⟨max_nodes, max_bytes, r, hr, htruncated⟩ :=
    exists_walkGraph_not_truncated (some 1) (some 4) readable_twoFunctions
  obtain ⟨hspec, -⟩ :=
    walkGraph_emits_overlapping twoFunctions (some 1) (some 4) max_nodes max_bytes hnested
  exact ⟨max_nodes, max_bytes, r, hr, htruncated, (hspec r hr htruncated).1⟩

end Ast
end CppMcp
