/-
# The two AST formats agree

`src/cpp_mcp/core/ast_walker.py`, the walk for the `json` format: `_walk_json` builds a tree of
nodes down to a depth.  `_walk_graph` is a recursion of its own, with its checks of the budget at
other places: it checks before it asks a cursor for its children, `_walk_json` only afterwards,
and only `_walk_json` looks at the depth.

On the tree cut at that depth `_walk_graph` nevertheless takes every step that `_walk_json` takes
(`walkGraphFrom_follows`), so its nodes and edges are those of the JSON tree
(`walkGraph_agrees_with_walkJson`).
-/

import CppMcp.Ast.Prefix
import CppMcp.Lib.Follow

namespace CppMcp
namespace Ast

open Export (Exc Acc)

/-! ### The walk -/

/-- A node of the tree without its children; `truncated` is set where the depth cut them off. -/
structure TreeNode extends AstNode where
  truncated : Bool := false
  deriving DecidableEq, Repr

/-- A node with its `children`. -/
abbrev AstTree := Rose TreeNode

/-- What the calls of `_walk_json` share. -/
structure JsonWalk where
  budget : Budget
  node_counter : ℕ := 0

section Walk

variable (max_depth : ℤ) (start_line end_line : Option ℤ)

mutual

/-- `_walk_json`: the node, and the state after the call. -/
def walkJsonFrom (depth : ℕ) : Cursor → JsonWalk → Acc (Option AstTree × JsonWalk)
  | .node c children, w =>
    if w.budget.exhausted then .ok (none, w)
    else do
      if !(← overlapsRange c start_line end_line) then return (none, w)
      let current_id := w.node_counter + 1
      let w := { w with node_counter := current_id }
      let node ← cursorToNode c current_id
      let (charged, budget) := w.budget.charge node
      let w := { w with budget }
      if !charged then return (none, w)
      if max_depth ≤ depth then
        c.getChildren
        let children_exist := !children.isEmpty
        return (some (.node { node with truncated := children_exist } []), w)
      c.getChildren
      let (children, w) ← walkJsonChildren (depth + 1) children w
      return (some (.node { node with } children), w)

/-- The loop of `_walk_json` over the children: the nodes it collects, and the state after it. -/
def walkJsonChildren (depth : ℕ) : List Cursor → JsonWalk → Acc (List AstTree × JsonWalk)
  | [], w => .ok ([], w)
  | child :: children, w =>
    if w.budget.exhausted then .ok ([], w)
    else do
      let (child_node, w) ← walkJsonFrom depth child w
      let (child_nodes, w) ← walkJsonChildren depth children w
      return (child_node.toList ++ child_nodes, w)

end

end Walk

/-- What `walk_json` returns. -/
structure JsonAst where
  root : Option AstTree
  truncated : Bool
  truncation_reason : Option String
  nodes_emitted : ℕ
  nodes_omitted_estimate : Option ℕ
  parse_errors : List ParseError

/-- A new budget is not used up, so nothing has to have been emitted yet. -/
theorem Budget.emitted_new : false = true → 0 < 0 := by decide

/-- `walk_json`. -/
def walkJson (tu : TranslationUnit) (max_depth : ℤ) (start_line end_line : Option ℤ)
    (max_nodes max_bytes : ℕ) : Acc JsonAst := do
  let (root_node, w) ←
    walkJsonFrom max_depth start_line end_line 0 tu.cursor
      { budget := { max_nodes, max_bytes, emitted := Budget.emitted_new } }
  return {
    root := root_node
    truncated := w.budget.truncated
    truncation_reason := w.budget.truncation_reason
    nodes_emitted := w.budget.nodes_emitted
    nodes_omitted_estimate := none
    parse_errors := collectDiagnostics tu.diagnostics }

/-! ### The tree, flattened -/

/-- The nodes of a tree in preorder, without their `truncated` and `children`. -/
def flatten (t : AstTree) : List AstNode := t.subtrees.map fun s => s.label.toAstNode

/-- Flattening a tree gives its root, and then what its children flatten to. -/
theorem flatten_node (n : TreeNode) (ts : List AstTree) :
    flatten (.node n ts) = n.toAstNode :: ts.flatMap flatten := by
  rw [flatten, Rose.subtrees_node, List.map_cons, List.map_flatMap]
  rfl

/-- The type of the edge that leads to a node of this kind. -/
def kindEdgeType (kind : String) : AstEdgeType :=
  if kind ∈ TYPE_REF_KINDS then .typeRef
  else if kind ∈ CALL_KINDS then .call
  else .child

mutual

/-- The edges to the nodes of a tree from their parents, in preorder of the nodes. -/
def childEdges (parent_id : Option ℕ) : AstTree → List AstEdge
  | .node n ts =>
    (parent_id.map fun p => ⟨p, n.id, kindEdgeType n.kind⟩).toList ++ childEdgesList n.id ts

/-- `childEdges` of each tree of a list, one after the other. -/
def childEdgesList (parent_id : ℕ) : List AstTree → List AstEdge
  | [] => []
  | t :: ts => childEdges (some parent_id) t ++ childEdgesList parent_id ts

end

/-- The edges of a list of trees are those of each of them. -/
theorem childEdgesList_eq_flatMap (parent_id : ℕ) (ts : List AstTree) :
    childEdgesList parent_id ts = ts.flatMap (childEdges (some parent_id)) := by
  induction ts with
  | nil => rfl
  | cons t ts ih => rw [childEdgesList, ih, List.flatMap_cons]

/-- **The edges of a tree are its child relation,** and the edge to the parent of its root if there
is one. -/
theorem mem_childEdges_iff {t : AstTree} {parent_id : Option ℕ} {edge : AstEdge} :
    edge ∈ childEdges parent_id t ↔
      (∃ p ∈ parent_id, edge = ⟨p, t.label.id, kindEdgeType t.label.kind⟩) ∨
        ∃ s ∈ t.subtrees, ∃ child ∈ s.children,
          edge = ⟨s.label.id, child.label.id, kindEdgeType child.label.kind⟩ := by
  induction t using Rose.induct generalizing parent_id with
  | node n ts ih =>
    rw [childEdges, childEdgesList_eq_flatMap, List.mem_append, Rose.subtrees_node]
    refine or_congr ?_ ?_
    · cases parent_id <;> simp
    · rw [List.mem_flatMap]
      constructor
      · rintro ⟨t, ht, hedge⟩
        rcases (ih t ht).mp hedge with ⟨p, hp, rfl⟩ | ⟨s, hs, child, hchild, rfl⟩
        · cases hp
          exact ⟨_, List.mem_cons_self, t, ht, rfl⟩
        · exact ⟨s, List.mem_cons_of_mem _ (List.mem_flatMap.mpr ⟨t, ht, hs⟩), child, hchild, rfl⟩
      · rintro ⟨s, hs, child, hchild, rfl⟩
        rcases List.mem_cons.mp hs with rfl | hs
        · exact ⟨child, hchild, (ih child hchild).mpr (Or.inl ⟨n.id, rfl, rfl⟩)⟩
        · obtain ⟨t, ht, hs⟩ := List.mem_flatMap.mp hs
          exact ⟨t, ht, (ih t ht).mpr (Or.inr ⟨s, hs, child, hchild, rfl⟩)⟩

/-! ### One walk follows the other -/

/-- The kind of a node is the name of the cursor's kind, or a word for one that cannot be read. -/
theorem kind_cursorToNode {c : CursorInfo} {node_id : ℕ} {node : AstNode}
    (h : cursorToNode c node_id = .ok node) : node.kind = Acc.getD c.kind_name "UNKNOWN" := by
  obtain ⟨ext, -, h⟩ := Except.bind_eq_ok.mp h
  obtain ⟨ends, -, h⟩ := Except.bind_eq_ok.mp h
  cases h
  rfl

/-- The kind of a node tells which edge leads to it; neither `UNKNOWN` nor the empty name, which
the two walks put for a kind that cannot be read, names a reference or a call. -/
theorem edgeType_eq {c : CursorInfo} {node_id : ℕ} {node : AstNode}
    (h : cursorToNode c node_id = .ok node) : edgeType c = kindEdgeType node.kind := by
  rw [kind_cursorToNode h, edgeType, kindEdgeType]
  cases c.kind_name with
  | ok kind_name => rfl
  | error e => rfl

/-- The walk for the graph with the budget and the counter of the other walk. -/
def JsonWalk.toGraph (w : JsonWalk) (nodes : List AstNode) (edges : List AstEdge) : GraphWalk :=
  { budget := w.budget, node_counter := w.node_counter, nodes, edges }

/-- What `_walk_graph` makes of what `_walk_json` returns. -/
def JsonWalk.toGraphResult (parent_id : Option ℕ) (nodes : List AstNode) (edges : List AstEdge)
    (r : Option AstTree × JsonWalk) : Option ℕ × GraphWalk :=
  (r.1.map fun t => t.label.id,
    r.2.toGraph (nodes ++ r.1.toList.flatMap flatten)
      (edges ++ r.1.toList.flatMap (childEdges parent_id)))

/-- A result of the tree walk, read as one of the graph walk: the node and those below it are
appended, with the edges that lead to them. -/
theorem JsonWalk.toGraphResult_node (parent_id : Option ℕ) (nodes : List AstNode)
    (edges : List AstEdge) (n : TreeNode) (ts : List AstTree) (w : JsonWalk) :
    JsonWalk.toGraphResult parent_id nodes edges (some (.node n ts), w) =
      (some n.id, w.toGraph (nodes ++ [n.toAstNode] ++ ts.flatMap flatten)
        (edges ++ (parent_id.map fun p => ⟨p, n.id, kindEdgeType n.kind⟩).toList ++
          childEdgesList n.id ts)) := by
  simp only [toGraphResult, Option.map_some, Option.toList_some, List.flatMap_cons,
    List.flatMap_nil, List.append_nil, flatten_node, childEdges, Rose.label_node, List.append_assoc,
    List.singleton_append]

/-- The children of every cursor of the tree can be asked for. -/
def Walkable (t : Cursor) : Prop := ∀ s ∈ t.subtrees, s.label.children_raise = none

/-- Where children can be asked for throughout a tree, so they can below each child. -/
theorem Walkable.child {c : CursorInfo} {ts : List Cursor} (h : Walkable (.node c ts)) {t : Cursor}
    (ht : t ∈ ts) : Walkable t := fun s hs => h s (by
  rw [Rose.subtrees_node]
  exact List.mem_cons_of_mem _ (List.mem_flatMap.mpr ⟨t, ht, hs⟩))

/-- Where children can be asked for throughout a tree, they can be at its root. -/
theorem Walkable.getChildren {c : CursorInfo} {ts : List Cursor} (h : Walkable (.node c ts)) :
    ∃ a, c.getChildren = .ok a := by
  have hc : c.children_raise = none := h (.node c ts) (by rw [Rose.subtrees_node]; exact List.mem_cons_self)
  exact ⟨(), by rw [CursorInfo.getChildren, hc]⟩

/-- While the budget lasts `_walk_json` emits its cursor as `_walk_graph` does. -/
theorem walkJsonFrom_eq {max_depth : ℤ} {start_line end_line : Option ℤ} {depth : ℕ}
    {c : CursorInfo} {ts : List Cursor} {w : JsonWalk} (hs : w.budget.truncated = false) :
    walkJsonFrom max_depth start_line end_line depth (.node c ts) w = (do
      if !(← overlapsRange c start_line end_line) then return (none, w)
      let node ← cursorToNode c (w.node_counter + 1)
      let w₁ : JsonWalk := ⟨(w.budget.charge node).2, w.node_counter + 1⟩
      c.getChildren
      if max_depth ≤ depth then
        return (some (.node { node with truncated := !ts.isEmpty } []), w₁)
      let (children, w') ← walkJsonChildren max_depth start_line end_line (depth + 1) ts w₁
      return (some (.node { node with } children), w')) := by
  rw [walkJsonFrom, Budget.exhausted_eq, hs, if_neg Bool.false_ne_true]
  refine congrArg _ (funext fun overlaps => ?_)
  cases overlaps with
  | false => rfl
  | true =>
    simp only [Bool.not_true, Bool.false_eq_true, if_false]
    refine congrArg _ (funext fun node => ?_)
    simp only [charge_fst hs, Bool.not_true, Bool.false_eq_true, if_false]
    split_ifs <;> rfl

/-- The same of `_walk_graph`, with the state that both walks have then. -/
theorem walkGraphFrom_toGraph {start_line end_line : Option ℤ} {parent_id : Option ℕ}
    {c : CursorInfo} {ts : List Cursor} {w : JsonWalk} {nodes : List AstNode}
    {edges : List AstEdge} (hs : w.budget.truncated = false) :
    walkGraphFrom start_line end_line parent_id (.node c ts) (w.toGraph nodes edges) = (do
      if !(← overlapsRange c start_line end_line) then return (none, w.toGraph nodes edges)
      let node ← cursorToNode c (w.node_counter + 1)
      let w₁ : JsonWalk := ⟨(w.budget.charge node).2, w.node_counter + 1⟩
      let edge := parent_id.map fun p => ⟨p, w.node_counter + 1, edgeType c⟩
      let g₁ := w₁.toGraph (nodes ++ [node]) (edges ++ edge.toList)
      if w₁.budget.truncated then return (some (w.node_counter + 1), g₁)
      c.getChildren
      let g' ← walkGraphChildren start_line end_line (w.node_counter + 1) ts g₁
      return (some (w.node_counter + 1), g')) := by
  have hstop : stopped (w.toGraph nodes edges) = false := hs
  rw [walkGraphFrom_eq [] hstop]
  refine congrArg _ (funext fun overlaps => ?_)
  cases overlaps with
  | false => rfl
  | true =>
    simp only [emit, Rose.label_node, bind_assoc, pure_bind]
    cases parent_id with
    | none => simp only [Option.map_none, Option.toList_none, List.append_nil]; rfl
    | some p => rfl

section Follow

variable {max_depth : ℤ} {start_line end_line : Option ℤ}

/-- A walk that is entered with the budget used up builds nothing. -/
theorem walkJsonFrom_of_stopped {depth : ℕ} {t : Cursor} {w : JsonWalk}
    (hs : w.budget.truncated = true) :
    walkJsonFrom max_depth start_line end_line depth t w = .ok (none, w) := by
  cases t with
  | node c ts => rw [walkJsonFrom, Budget.exhausted_eq, hs, if_pos rfl]

/-- A loop that is entered with the budget used up builds no child. -/
theorem walkJsonChildren_of_stopped {depth : ℕ} {ts : List Cursor} {w : JsonWalk}
    (hs : w.budget.truncated = true) :
    walkJsonChildren max_depth start_line end_line depth ts w = .ok ([], w) := by
  cases ts with
  | nil => rw [walkJsonChildren]
  | cons t ts => rw [walkJsonChildren, Budget.exhausted_eq, hs, if_pos rfl]

/-- While the budget lasts the loop walks the first child, goes on with the others, and puts the
trees together. -/
theorem walkJsonChildren_cons {depth : ℕ} {t : Cursor} {ts : List Cursor} {w : JsonWalk}
    (hs : w.budget.truncated = false) :
    walkJsonChildren max_depth start_line end_line depth (t :: ts) w =
      (walkJsonFrom max_depth start_line end_line depth t w).bind fun r =>
        (walkJsonChildren max_depth start_line end_line depth ts r.2).bind fun r' =>
          .ok (r.1.toList ++ r'.1, r'.2) := by
  rw [walkJsonChildren, Budget.exhausted_eq, hs, if_neg Bool.false_ne_true]
  rfl

/-- The loops over the children follow each other if the walks of each child do. -/
theorem walkGraphChildren_follows {P : Prop} {us : List Cursor} (hwalk : ∀ u ∈ us, P → Walkable u)
    {depth : ℕ}
    (h : ∀ u ∈ us, ∀ (parent_id : Option ℕ) (nodes : List AstNode) (edges : List AstEdge)
      (w : JsonWalk), Follows (Walkable u) (JsonWalk.toGraphResult parent_id nodes edges)
        (walkJsonFrom max_depth start_line end_line depth u w)
        (walkGraphFrom start_line end_line parent_id (u.cut (max_depth - depth).toNat)
          (w.toGraph nodes edges)))
    (current_id : ℕ) (nodes : List AstNode) (edges : List AstEdge) (w : JsonWalk) :
    Follows P (fun r : List AstTree × JsonWalk =>
        r.2.toGraph (nodes ++ r.1.flatMap flatten) (edges ++ childEdgesList current_id r.1))
      (walkJsonChildren max_depth start_line end_line depth us w)
      (walkGraphChildren start_line end_line current_id
        (Rose.cutList (max_depth - depth).toNat us) (w.toGraph nodes edges)) := by
  induction us generalizing nodes edges w with
  | nil =>
    rw [walkJsonChildren, Rose.cutList, walkGraphChildren, Follows, List.flatMap_nil,
      childEdgesList, List.append_nil, List.append_nil]
  | cons u us ih =>
    cases hs : w.budget.truncated with
    | true =>
      have hstop : stopped (w.toGraph nodes edges) = true := hs
      rw [walkJsonChildren_of_stopped hs, walkGraphChildren_of_stopped hstop, Follows,
        List.flatMap_nil, childEdgesList, List.append_nil, List.append_nil]
    | false =>
      have hstop : stopped (w.toGraph nodes edges) = false := hs
      rw [walkJsonChildren_cons hs, Rose.cutList, walkGraphChildren_cons hstop]
      have hu := (h u List.mem_cons_self (some current_id) nodes edges w).mono
        (hwalk u List.mem_cons_self)
      refine hu.bind fun r _ => ?_
      have hus := ih (fun u hu => hwalk u (List.mem_cons_of_mem _ hu))
        (fun u hu => h u (List.mem_cons_of_mem _ hu)) (nodes ++ r.1.toList.flatMap flatten)
        (edges ++ r.1.toList.flatMap (childEdges (some current_id))) r.2
      refine hus.map fun r' => ?_
      rw [List.flatMap_append, childEdgesList_eq_flatMap, childEdgesList_eq_flatMap,
        List.flatMap_append, List.append_assoc, List.append_assoc]

/-- **The walk for the graph of the cut tree follows the walk for the tree.** -/
theorem walkGraphFrom_follows {t : Cursor} : ∀ (parent_id : Option ℕ) (depth : ℕ)
    (nodes : List AstNode) (edges : List AstEdge) (w : JsonWalk),
    Follows (Walkable t) (JsonWalk.toGraphResult parent_id nodes edges)
      (walkJsonFrom max_depth start_line end_line depth t w)
      (walkGraphFrom start_line end_line parent_id (t.cut (max_depth - depth).toNat)
        (w.toGraph nodes edges)) := by
  induction t using Rose.induct with
  | node c ts ih =>
    intro parent_id depth nodes edges w
    cases hs : w.budget.truncated with
    | true =>
      have hstop : stopped (w.toGraph nodes edges) = true := hs
      rw [walkJsonFrom_of_stopped hs, walkGraphFrom_of_stopped hstop]
      simp [Follows, JsonWalk.toGraphResult]
    | false =>
      obtain ⟨us, hcut, hus⟩ := Rose.exists_cut_node (max_depth - depth).toNat c ts
      rw [walkJsonFrom_eq hs, hcut, walkGraphFrom_toGraph hs]
      refine Follows.bind_same fun overlaps _ => ?_
      cases overlaps with
      | false => simp [Follows, JsonWalk.toGraphResult, pure, Except.pure]
      | true =>
        refine Follows.bind_same fun node hnode => ?_
        have hid : node.id = w.node_counter + 1 :=
          IsNode.id_eq (e := ⟨parent_id, w.node_counter + 1, .node c []⟩) hnode
        have hchildren : Walkable (.node c ts) → ∃ a, c.getChildren = .ok a :=
          Walkable.getChildren
        generalize (⟨(w.budget.charge node).2, w.node_counter + 1⟩ : JsonWalk) = w₁
        simp only [edgeType_eq hnode, ← hid]
        rcases hus with ⟨hdepth, rfl⟩ | ⟨m, hdepth, rfl⟩
        · -- the depth is reached, and the cut tree ends here
          rw [if_pos (show max_depth ≤ depth by omega)]
          cases hs₁ : w₁.budget.truncated with
          | true =>
            refine Follows.bind_left hchildren fun _ _ => ?_
            rw [if_pos rfl]
            exact congrArg Except.ok (by simp [JsonWalk.toGraphResult_node, childEdgesList])
          | false =>
            rw [if_neg Bool.false_ne_true]
            refine Follows.bind_same fun _ _ => ?_
            rw [walkGraphChildren]
            exact congrArg Except.ok (by simp [JsonWalk.toGraphResult_node, childEdgesList])
        · rw [if_neg (show ¬max_depth ≤ depth by omega)]
          have hbelow := walkGraphChildren_follows
            (fun u hu (h : Walkable (.node c ts)) => h.child hu)
            (fun u hu parent_id => ih u hu parent_id (depth + 1)) node.id (nodes ++ [node])
            (edges ++
              (parent_id.map fun p => (⟨p, node.id, kindEdgeType node.kind⟩ : AstEdge)).toList) w₁
          rw [show (max_depth - ((depth + 1 : ℕ) : ℤ)).toNat = m by omega] at hbelow
          cases hs₁ : w₁.budget.truncated with
          | true =>
            -- `_walk_json` asks for the children and looks at none
            refine Follows.bind_left hchildren fun _ _ => ?_
            rw [if_pos rfl, walkJsonChildren_of_stopped hs₁]
            exact congrArg Except.ok (by simp [JsonWalk.toGraphResult_node, childEdgesList])
          | false =>
            rw [if_neg Bool.false_ne_true]
            refine Follows.bind_same fun _ _ => hbelow.bind fun r _ => ?_
            exact congrArg Except.ok (JsonWalk.toGraphResult_node parent_id nodes edges
              { node with } r.1 r.2).symm

end Follow

/-! ### The agreement -/

/-- The tree of the one answer is the graph of the other, and both report the same. -/
structure AgreesWith (j : JsonAst) (g : GraphAst) : Prop where
  nodes : g.nodes = j.root.toList.flatMap flatten
  edges : g.edges = j.root.toList.flatMap (childEdges none)
  child_iff_edge : ∀ source target : ℕ,
    (∃ edge ∈ g.edges, edge.source_id = source ∧ edge.target_id = target) ↔
      ∃ root ∈ j.root, ∃ s ∈ root.subtrees, ∃ child ∈ s.children,
        s.label.id = source ∧ child.label.id = target
  truncated : g.truncated = j.truncated
  truncation_reason : g.truncation_reason = j.truncation_reason
  nodes_emitted : g.nodes_emitted = j.nodes_emitted
  nodes_omitted_estimate : g.nodes_omitted_estimate = j.nodes_omitted_estimate
  parse_errors : g.parse_errors = j.parse_errors

/-- The translation unit with its tree cut below depth `n`. -/
def TranslationUnit.cut (tu : TranslationUnit) (n : ℕ) : TranslationUnit :=
  { tu with cursor := tu.cursor.cut n }

/-- What `walk_graph` answers to where `walk_json` answers `j`. -/
def JsonAst.toGraph (j : JsonAst) : GraphAst where
  nodes := j.root.toList.flatMap flatten
  edges := j.root.toList.flatMap (childEdges none)
  truncated := j.truncated
  truncation_reason := j.truncation_reason
  nodes_emitted := j.nodes_emitted
  nodes_omitted_estimate := j.nodes_omitted_estimate
  parse_errors := j.parse_errors

/-- The answer for the tree, read as one for the graph, agrees with it: this is what agreement
means. -/
theorem agreesWith_toGraph (j : JsonAst) : AgreesWith j j.toGraph where
  nodes := rfl
  edges := rfl
  child_iff_edge source target := by
    cases hroot : j.root with
    | none => simp [JsonAst.toGraph, hroot]
    | some root =>
      simp only [JsonAst.toGraph, hroot, Option.toList_some, List.flatMap_cons, List.flatMap_nil,
        List.append_nil, mem_childEdges_iff]
      constructor
      · rintro ⟨edge, ⟨_, h, -⟩ | ⟨s, hs, child, hchild, rfl⟩, hsource, htarget⟩
        · exact nomatch h
        · exact ⟨root, rfl, s, hs, child, hchild, hsource, htarget⟩
      · rintro ⟨root', hroot', s, hs, child, hchild, rfl, rfl⟩
        cases hroot'
        exact ⟨_, Or.inr ⟨s, hs, child, hchild, rfl⟩, rfl, rfl⟩
  truncated := rfl
  truncation_reason := rfl
  nodes_emitted := rfl
  nodes_omitted_estimate := rfl
  parse_errors := rfl

/-- `walk_graph` on the tree cut at the depth follows `walk_json`, in its nodes, its edges and its
flags. -/
theorem walkGraph_follows_walkJson (tu : TranslationUnit) (max_depth : ℤ)
    (start_line end_line : Option ℤ) (max_nodes max_bytes : ℕ) :
    Follows (Walkable tu.cursor) JsonAst.toGraph
      (walkJson tu max_depth start_line end_line max_nodes max_bytes)
      (walkGraph (tu.cut max_depth.toNat) start_line end_line max_nodes max_bytes) := by
  have h : Follows (Walkable tu.cursor) _
      (walkJsonFrom max_depth start_line end_line 0 tu.cursor _)
      (walkGraphFrom start_line end_line none _ _) :=
    walkGraphFrom_follows none 0 [] [] { budget := { max_nodes, max_bytes } }
  rw [Int.ofNat_zero, Int.sub_zero] at h
  exact h.bind fun r _ => Follows.ok JsonAst.toGraph _

/-- **The two AST formats agree.**  Whatever the tree, the depth, the range and the budget: where
`walk_json` answers, `walk_graph` on the tree cut below the depth answers with the nodes of the
JSON tree in preorder, its child relation for edges, and the same report; and where no cursor
refuses its children, it answers only there, and raises what `walk_json` raises. -/
theorem walkGraph_agrees_with_walkJson (tu : TranslationUnit) (max_depth : ℤ)
    (start_line end_line : Option ℤ) (max_nodes max_bytes : ℕ) :
    (∀ j, walkJson tu max_depth start_line end_line max_nodes max_bytes = .ok j →
      ∃ g, walkGraph (tu.cut max_depth.toNat) start_line end_line max_nodes max_bytes = .ok g ∧
        AgreesWith j g) ∧
    (Walkable tu.cursor →
      (∀ g, walkGraph (tu.cut max_depth.toNat) start_line end_line max_nodes max_bytes = .ok g →
        ∃ j, walkJson tu max_depth start_line end_line max_nodes max_bytes = .ok j) ∧
      ∀ e, walkJson tu max_depth start_line end_line max_nodes max_bytes = .error e →
        walkGraph (tu.cut max_depth.toNat) start_line end_line max_nodes max_bytes = .error e) := by
  have h := walkGraph_follows_walkJson tu max_depth start_line end_line max_nodes max_bytes
  refine ⟨fun j hj => ⟨j.toGraph, h.eq_ok hj, agreesWith_toGraph j⟩, fun hwalk => ⟨?_, ?_⟩⟩
  · intro g hg
    obtain ⟨j, hj, -⟩ := h.exists_eq_ok hwalk hg
    exact ⟨j, hj⟩
  · exact fun e he => h.eq_error hwalk he

/-- `walkGraph_agrees_with_walkJson` at depth 1 with a budget of two nodes. -/
theorem walkGraph_agrees_with_walkJson_twoFunctions :
    ∃ j g, walkJson twoFunctions 1 none (some 4) 2 1000 = .ok j ∧
      walkGraph (twoFunctions.cut 1) none (some 4) 2 1000 = .ok g ∧ AgreesWith j g := by
  obtain ⟨hagree, hwalk⟩ := walkGraph_agrees_with_walkJson twoFunctions 1 none (some 4) 2 1000
  obtain ⟨hback, -⟩ := hwalk (by simp [twoFunctions, Walkable, Rose.subtrees_node])
  have hread : ∀ s ∈ (twoFunctions.cursor.cut 1).subtrees, s.label.Readable := by
    simp [twoFunctions, Rose.cut, Rose.cutList, Rose.subtrees_node, CursorInfo.Readable,
      Extent.ends, bind, Except.bind, pure, Except.pure]
  obtain ⟨r, hr⟩ := @exists_walkGraphFrom none (some 4) (twoFunctions.cursor.cut 1) none
    { budget := { max_nodes := 2, max_bytes := 1000 } } hread
  have hg : ∃ g, walkGraph (twoFunctions.cut 1) none (some 4) 2 1000 = .ok g :=
    ⟨_, by rw [walkGraph, TranslationUnit.cut, hr]; rfl⟩
  obtain ⟨g, hg⟩ := hg
  obtain ⟨j, hj⟩ := hback g hg
  obtain ⟨g', hg', hagrees⟩ := hagree j hj
  exact ⟨j, g', hj, hg', hagrees⟩

end Ast
end CppMcp
