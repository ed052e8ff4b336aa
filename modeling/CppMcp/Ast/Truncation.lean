/-
# When the walks say that they are truncated

`_Budget.charge` of `src/cpp_mcp/core/ast_walker.py` sets the flag `truncated` when it charges the node
that reaches a limit, before the walk knows whether there is another one.  Both walks report that flag.

So the flag is right unless the nodes fit the budget exactly: the last of them reaches a limit and none
before does (`truncated_exact_iff`).
-/

import CppMcp.Ast.Tree

namespace CppMcp
namespace Ast

/-- A cursor that the range filter admits has not been emitted. -/
def Omits (nodes : List (Rose.Entry CursorInfo)) (emitted : List AstNode) : Prop :=
  ∃ e ∈ nodes, e.number ∉ emitted.map AstNode.id

/-- The nodes fit the budget exactly: all of them reach a limit, and fewer do not. -/
def FitsExactly (nodes : List (Rose.Entry CursorInfo)) (max_nodes max_bytes : ℕ) : Prop :=
  ∃ all : List AstNode, List.Forall₂ IsNode nodes all ∧
    limitReached max_nodes max_bytes all ≠ none ∧
    ∀ m < all.length, limitReached max_nodes max_bytes (all.take m) = none

section Prefix

variable {nodes : List (Rose.Entry CursorInfo)} {max_nodes max_bytes : ℕ} {r : GraphAst} {n : ℕ}

/-- A prefix omits something if it is not the whole sequence. -/
theorem IsPrefixUpTo.omits_iff (h : IsPrefixUpTo nodes max_nodes max_bytes r n)
    (hnumbers : nodes.map Rose.Entry.number = List.range' 1 nodes.length) :
    Omits nodes r.nodes ↔ n < nodes.length := by
  have hle := h.le
  have hmem : ∀ k, k ∈ r.nodes.map AstNode.id ↔ 1 ≤ k ∧ k < 1 + n := by
    intro k
    rw [h.ids, List.mem_range'_1]
  constructor
  · rintro ⟨e, he, homitted⟩
    have hnumber := List.mem_map_of_mem (f := Rose.Entry.number) he
    rw [hnumbers, List.mem_range'_1] at hnumber
    rw [hmem] at homitted
    omega
  · intro hlt
    have hlast : nodes.length ∈ nodes.map Rose.Entry.number := by
      rw [hnumbers, List.mem_range'_1]
      omega
    obtain ⟨e, he, hnumber⟩ := List.mem_map.mp hlast
    refine ⟨e, he, ?_⟩
    rw [hmem, hnumber]
    omega

/-- A prefix that ends at a limit is the whole sequence if that fits exactly. -/
theorem IsPrefixUpTo.fitsExactly_iff (h : IsPrefixUpTo nodes max_nodes max_bytes r n) :
    FitsExactly nodes max_nodes max_bytes ↔ r.truncation_reason ≠ none ∧ n = nodes.length := by
  have hle := h.le
  constructor
  · rintro ⟨all, hall, hreached, hbefore⟩
    have hlength := hall.length_eq
    have hemitted : r.nodes = all.take n :=
      IsNode.rightUnique.forall₂ h.emitted (List.forall₂_take n hall)
    by_cases hwhole : n = nodes.length
    · have htake : all.take n = all := List.take_of_length_le (by omega)
      rw [h.reason, hemitted, htake]
      exact ⟨hreached, hwhole⟩
    · have hnone : r.truncation_reason = none := by
        rw [h.reason, hemitted]
        exact hbefore n (by omega)
      exact absurd (h.whole hnone) hwhole
  · rintro ⟨hreason, hwhole⟩
    have htake : nodes.take n = nodes := List.take_of_length_le (by omega)
    have hemitted : List.Forall₂ IsNode nodes r.nodes := htake ▸ h.emitted
    have hlength := hemitted.length_eq
    exact ⟨r.nodes, hemitted, h.reason ▸ hreason, fun m hm => h.before m (by omega)⟩

/-- **The flag tells of an omission unless the nodes fit exactly.** -/
theorem IsPrefixUpTo.truncated_iff_iff (h : IsPrefixUpTo nodes max_nodes max_bytes r n)
    (hnumbers : nodes.map Rose.Entry.number = List.range' 1 nodes.length) :
    (r.truncated = true ↔ Omits nodes r.nodes) ↔ ¬FitsExactly nodes max_nodes max_bytes := by
  have hle := h.le
  have htruncated : r.truncated = true ↔ r.truncation_reason ≠ none := by
    rw [h.truncated, Option.isSome_iff_ne_none]
  have hwhole : r.truncation_reason = none → n = nodes.length := h.whole
  rw [h.omits_iff hnumbers, h.fitsExactly_iff, htruncated]
  by_cases hreason : r.truncation_reason = none
  · have hn := hwhole hreason
    simp [hreason, hn]
  · simp only [hreason, ne_eq, not_false_eq_true, true_iff, true_and]
    omega

end Prefix

/-- **The flag of both walks is exact unless the nodes fit the budget exactly.**  The nodes are those of
the range-pruned tree, and for `walk_json` of the tree cut at the depth. -/
theorem truncated_exact_iff (tu : TranslationUnit) (start_line end_line : Option ℤ)
    {max_nodes max_bytes : ℕ} (hnodes : 1 ≤ max_nodes) (hbytes : 1 ≤ max_bytes) :
    (∀ r, walkGraph tu start_line end_line max_nodes max_bytes = .ok r →
      ((r.truncated = true ↔ Omits (preorder start_line end_line tu.cursor) r.nodes) ↔
        ¬FitsExactly (preorder start_line end_line tu.cursor) max_nodes max_bytes)) ∧
    ∀ (max_depth : ℤ) j, walkJson tu max_depth start_line end_line max_nodes max_bytes = .ok j →
      ((j.truncated = true ↔ Omits (preorder start_line end_line (tu.cut max_depth.toNat).cursor)
          (j.root.toList.flatMap flatten)) ↔
        ¬FitsExactly (preorder start_line end_line (tu.cut max_depth.toNat).cursor) max_nodes
          max_bytes) := by
  constructor
  · intro r hr
    obtain ⟨n, hprefix⟩ := exists_isPrefixUpTo hnodes hbytes hr
    exact hprefix.truncated_iff_iff (numbers_preorder ..)
  · intro max_depth j hj
    have hfollows :=
      walkGraph_follows_walkJson tu max_depth start_line end_line max_nodes max_bytes
    obtain ⟨n, hprefix⟩ := exists_isPrefixUpTo hnodes hbytes (hfollows.eq_ok hj)
    exact hprefix.truncated_iff_iff (numbers_preorder ..)

/-- A unit without declarations. -/
def emptyUnit : TranslationUnit where
  cursor := .node { kind_name := .ok "TRANSLATION_UNIT" } []

/-- `truncated_exact_iff` for a unit of one node and a budget of one: the node fits exactly. -/
theorem truncated_exact_iff_emptyUnit : ∃ r, walkGraph emptyUnit none none 1 1000 = .ok r ∧
    ((r.truncated = true ↔ Omits (preorder none none emptyUnit.cursor) r.nodes) ↔
      ¬FitsExactly (preorder none none emptyUnit.cursor) 1 1000) := by
  obtain ⟨hgraph, -⟩ :=
    truncated_exact_iff emptyUnit none none (by decide : 1 ≤ 1) (by decide : 1 ≤ 1000)
  exact ⟨_, rfl, hgraph _ rfl⟩

/-- **One node of one is reported as truncated,** though nothing has been left out: the flag is set
as soon as the budget is reached, before it is known whether anything follows. -/
theorem truncated_of_emptyUnit : ∃ r, walkGraph emptyUnit none none 1 1000 = .ok r ∧
    r.truncated = true ∧ ¬Omits (preorder none none emptyUnit.cursor) r.nodes := by
  refine ⟨_, rfl, rfl, ?_⟩
  rintro ⟨e, he, homitted⟩
  obtain rfl := List.mem_singleton.mp he
  exact homitted (List.mem_singleton_self 1)

/-! ### A budget that is large enough -/

/-- What the budget is charged for a node of the outline. -/
def chargeFor (e : Rose.Entry CursorInfo) : ℕ :=
  match cursorToNode e.tree.label e.number with
  | .ok node => node.size
  | .error _ => 0

/-- The bytes that the nodes take are what each node of the outline is charged with. -/
theorem sum_size_eq {es : List (Rose.Entry CursorInfo)} {nodes : List AstNode}
    (h : List.Forall₂ IsNode es nodes) : (nodes.map AstNode.size).sum = (es.map chargeFor).sum := by
  induction h with
  | nil => rfl
  | @cons e node es nodes hnode _ ih =>
    have hcharge : chargeFor e = node.size := by
      unfold chargeFor
      rw [show cursorToNode e.tree.label e.number = .ok node from hnode]
    rw [List.map_cons, List.map_cons, List.sum_cons, List.sum_cons, ih, hcharge]

/-- A budget with room for all nodes does not fire. -/
theorem IsPrefixUpTo.not_truncated_of_room {nodes : List (Rose.Entry CursorInfo)}
    {max_nodes max_bytes : ℕ} {r : GraphAst} {n : ℕ} (h : IsPrefixUpTo nodes max_nodes max_bytes r n)
    (hnodes : nodes.length < max_nodes) (hbytes : (nodes.map chargeFor).sum < max_bytes) :
    r.truncated = false := by
  have hle := h.le
  have hlength : r.nodes.length = n := by
    rw [← h.emitted.length_eq, List.length_take]
    omega
  have hsum : (r.nodes.map AstNode.size).sum ≤ (nodes.map chargeFor).sum := by
    have hsplit := congrArg List.sum (List.take_append_drop n (nodes.map chargeFor))
    rw [List.sum_append] at hsplit
    rw [sum_size_eq h.emitted, List.map_take]
    omega
  have hreason : r.truncation_reason = none := by
    rw [h.reason, limitReached, if_neg (by omega), if_neg (by omega)]
  rw [h.truncated, hreason]
  rfl

/-- **For every tree that can be read there is a budget that does not fire.** -/
theorem exists_walkGraph_not_truncated {tu : TranslationUnit} (start_line end_line : Option ℤ)
    (hread : ∀ s ∈ tu.cursor.subtrees, s.label.Readable) : ∃ max_nodes max_bytes r,
      walkGraph tu start_line end_line max_nodes max_bytes = .ok r ∧ r.truncated = false := by
  obtain ⟨max_nodes, hnodes⟩ : ∃ m, (preorder start_line end_line tu.cursor).length < m :=
    ⟨_, Nat.lt_succ_self _⟩
  obtain ⟨max_bytes, hbytes⟩ :
      ∃ m, ((preorder start_line end_line tu.cursor).map chargeFor).sum < m := ⟨_, Nat.lt_succ_self _⟩
  obtain ⟨w, hw⟩ := @exists_walkGraphFrom start_line end_line tu.cursor none
    { budget := { max_nodes, max_bytes } } hread
  obtain ⟨r, hwalk⟩ : ∃ r, walkGraph tu start_line end_line max_nodes max_bytes = .ok r :=
    ⟨_, by rw [walkGraph, hw]; rfl⟩
  obtain ⟨n, hprefix⟩ := exists_isPrefixUpTo (by omega) (by omega) hwalk
  exact ⟨max_nodes, max_bytes, r, hwalk, hprefix.not_truncated_of_room hnodes hbytes⟩

/-- The same of the tree: with a budget that is large enough, `walk_json` does not say that anything
is missing. -/
theorem exists_walkJson_not_truncated {tu : TranslationUnit} (max_depth : ℤ)
    (start_line end_line : Option ℤ) (hread : ∀ s ∈ tu.cursor.subtrees, s.label.Readable) :
    ∃ max_nodes max_bytes j,
      walkJson tu max_depth start_line end_line max_nodes max_bytes = .ok j ∧ j.truncated = false := by
  have hcut : ∀ s ∈ (tu.cut max_depth.toNat).cursor.subtrees, s.label.Readable := by
    intro s hs
    obtain ⟨s', hs', hlabel⟩ := Rose.exists_label_of_mem_subtrees_cut hs
    exact hlabel ▸ hread s' hs'
  obtain ⟨max_nodes, max_bytes, g, hg, htruncated⟩ :=
    exists_walkGraph_not_truncated start_line end_line hcut
  have hfollows := walkGraph_follows_walkJson tu max_depth start_line end_line max_nodes max_bytes
  obtain ⟨j, hj, rfl⟩ := hfollows.exists_eq_ok (fun s hs => (hread s hs).2) hg
  exact ⟨max_nodes, max_bytes, j, hj, htruncated⟩

/-- Every cursor of this unit can be read, so neither walk raises on it. -/
theorem readable_twoFunctions : ∀ s ∈ twoFunctions.cursor.subtrees, s.label.Readable := by
  simp [twoFunctions, Rose.subtrees_node, CursorInfo.Readable, Extent.ends, bind, Except.bind, pure,
    Except.pure]

end Ast
end CppMcp
