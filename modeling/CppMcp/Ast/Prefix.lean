/-
# The budgeted walk emits a prefix of the preorder

Under a line range the walk sees the tree without the subtrees at whose root the range is
missed (`rangePruned`).  Its nodes in preorder, each with the number of its parent, are
`preorder`, and `walkGraph` emits them one after the other until a limit of the budget is
reached (`runUntil_of_walkGraphFrom`).
-/

import CppMcp.Ast.Walker
import CppMcp.Lib.Outline
import Mathlib.Algebra.GroupWithZero.Nat

namespace CppMcp
namespace Ast

open Export (Exc Acc)

section Range

variable (start_line end_line : Option ℤ)

/-- The extent of the root is found to meet the range. -/
def inRange (t : Cursor) : Bool :=
  match overlapsRange t.label start_line end_line with
  | .ok true => true
  | _ => false

/-- The trees of a list, each subtree dropped at whose root the range is missed. -/
def rangePruned (ts : List Cursor) : List Cursor := Rose.pruneList (inRange start_line end_line) id ts

/-- The nodes of the range-pruned tree in preorder, numbered from 1. -/
def preorder (t : Cursor) : List (Rose.Entry CursorInfo) :=
  Rose.outlineList none 1 (rangePruned start_line end_line [t])

/-- The trees of the preorder sequence are the subtrees of what the range has left. -/
theorem trees_preorder (t : Cursor) : (preorder start_line end_line t).map Rose.Entry.tree =
    (rangePruned start_line end_line [t]).flatMap Rose.subtrees := by
  simp only [preorder, rangePruned, Rose.pruneList]
  cases inRange start_line end_line t with
  | false => rfl
  | true =>
    rw [if_pos rfl, Rose.outlineList_singleton, Rose.trees_outline, List.flatMap_cons,
      List.flatMap_nil, List.append_nil]

/-- A cursor with an extent overlaps a range if it does not end before its first line and does not
begin after its last line. -/
theorem overlapsRange_eq_ok_true_iff {c : CursorInfo} {start stop : Position}
    (hextent : c.extent = .ok (some ⟨.ok (some start), .ok (some stop)⟩))
    (hline : (start.line : ℤ) ≤ 2 ^ 31) :
    overlapsRange c start_line end_line = .ok true ↔
      (∀ lo ∈ start_line, lo ≤ stop.line) ∧ ∀ hi ∈ end_line, (start.line : ℤ) ≤ hi := by
  have hdefault : (start.line : ℤ) ≤ 2147483648 := by simpa using hline
  cases start_line <;> cases end_line <;>
    simp [overlapsRange, hextent, bind, Except.bind, pure, Except.pure, hdefault, and_comm]

end Range

/-! ### Overlap -/

/-- The first and the last line of a cursor, if it has them. -/
def CursorInfo.lines (c : CursorInfo) : Option (ℕ × ℕ) :=
  match c.extent with
  | .ok (some ⟨.ok (some start), .ok (some stop)⟩) => some (start.line, stop.line)
  | _ => none

/-- The lines of the cursor overlap the range, of which either bound may be absent. -/
def overlaps (start_line end_line : Option ℤ) (c : CursorInfo) : Bool :=
  match c.lines with
  | some (first, last) =>
    start_line.all (fun lo => decide (lo ≤ (last : ℤ))) && end_line.all fun hi => decide ((first : ℤ) ≤ hi)
  | none => false

section Overlap

variable {start_line end_line : Option ℤ} {c : CursorInfo} {first last : ℕ}

/-- A cursor with lines overlaps a range if it does not end before its first line and does not begin
after its last; an absent bound asks for nothing. -/
theorem overlaps_iff (h : c.lines = some (first, last)) : overlaps start_line end_line c = true ↔
    (∀ lo ∈ start_line, lo ≤ last) ∧ ∀ hi ∈ end_line, (first : ℤ) ≤ hi := by
  rw [overlaps, h]
  simp [Option.all_eq_true]

/-- A cursor overlaps a range of lines if they share one. -/
theorem overlaps_iff_exists_line {lo hi : ℤ} (h : c.lines = some (first, last))
    (hlines : first ≤ last) (hrange : lo ≤ hi) : overlaps (some lo) (some hi) c = true ↔
      ∃ line : ℤ, lo ≤ line ∧ line ≤ hi ∧ first ≤ line ∧ line ≤ last := by
  have hbounds : ((∀ lo' ∈ some lo, lo' ≤ (last : ℤ)) ∧ ∀ hi' ∈ some hi, (first : ℤ) ≤ hi') ↔
      lo ≤ last ∧ (first : ℤ) ≤ hi := by simp
  rw [overlaps_iff h, hbounds]
  constructor
  · rintro ⟨hlo, hhi⟩
    exact ⟨max lo first, by omega, by omega, by omega, by omega⟩
  · rintro ⟨line, h₁, h₂, h₃, h₄⟩
    omega

/-- The lines of a cursor are those of the two ends of its extent. -/
theorem exists_positions_of_lines (h : c.lines = some (first, last)) :
    ∃ start stop : Position, c.extent = .ok (some ⟨.ok (some start), .ok (some stop)⟩) ∧
      start.line = first ∧ stop.line = last := by
  unfold CursorInfo.lines at h
  split at h
  · rename_i start stop hextent
    cases h
    exact ⟨start, stop, hextent, rfl, rfl⟩
  · exact nomatch h

/-- `_overlaps_range` finds out whether the cursor overlaps the range. -/
theorem inRange_eq_overlaps {t : Cursor} (h : t.label.lines = some (first, last))
    (hfirst : first < 2 ^ 31) : inRange start_line end_line t = overlaps start_line end_line t.label := by
  obtain ⟨start, stop, hextent, hstart, hstop⟩ := exists_positions_of_lines h
  have hline : (start.line : ℤ) ≤ 2 ^ 31 := by
    rw [hstart]
    omega
  have hiff : overlapsRange t.label start_line end_line = .ok true ↔
      overlaps start_line end_line t.label = true := by
    rw [overlapsRange_eq_ok_true_iff start_line end_line hextent hline, overlaps_iff h, hstart, hstop]
  have hrange : inRange start_line end_line t = true ↔
      overlapsRange t.label start_line end_line = .ok true := by
    unfold inRange
    split
    · rename_i htrue
      exact ⟨fun _ => htrue, fun _ => rfl⟩
    · rename_i hnot
      exact ⟨fun hfalse => absurd hfalse Bool.false_ne_true, fun htrue => absurd htrue hnot⟩
  exact Bool.eq_iff_iff.mpr (hrange.trans hiff)

end Overlap

/-- Every cursor of the tree has lines, and begins before line 2³¹. -/
def Lined (t : Cursor) : Prop :=
  ∀ s ∈ t.subtrees, ∃ first last, s.label.lines = some (first, last) ∧ first < 2 ^ 31

/-- So on a tree of cursors with lines, the pruning of the walk is that by `overlaps`. -/
theorem Lined.inRange_eq {t : Cursor} (h : Lined t) (start_line end_line : Option ℤ) :
    ∀ s ∈ t.subtrees, inRange start_line end_line s = overlaps start_line end_line s.label := by
  intro s hs
  obtain ⟨first, last, hlines, hfirst⟩ := h s hs
  exact inRange_eq_overlaps hlines hfirst

/-- **What the range leaves of a tree of cursors with lines:** it drops each subtree at whose root
the lines do not overlap. -/
theorem Lined.preorder_eq {t : Cursor} (h : Lined t) (start_line end_line : Option ℤ) :
    preorder start_line end_line t = Rose.outlineList none 1
      (Rose.pruneList (fun s => overlaps start_line end_line s.label) id [t]) := by
  have hroots : ∀ u ∈ [t], ∀ s ∈ u.subtrees,
      inRange start_line end_line s = overlaps start_line end_line s.label := fun u hu =>
    List.mem_singleton.mp hu ▸ h.inRange_eq start_line end_line
  rw [preorder, rangePruned, Rose.pruneList_congr id hroots]

/-- The edge to a node of the outline, from its parent. -/
def edgeTo (e : Rose.Entry CursorInfo) : Option AstEdge :=
  e.parent.map fun parent => ⟨parent, e.number, edgeType e.tree.label⟩

/-- The limit that a list of nodes reaches. -/
def limitReached (max_nodes max_bytes : ℕ) (nodes : List AstNode) : Option String :=
  if max_nodes ≤ nodes.length then some "max_nodes"
  else if max_bytes ≤ (nodes.map AstNode.size).sum then some "max_bytes"
  else none

/-- A limit is reached exactly if there are as many nodes as are allowed, or their sizes add up to
the bytes that are allowed. -/
theorem isSome_limitReached (max_nodes max_bytes : ℕ) (nodes : List AstNode) :
    (limitReached max_nodes max_bytes nodes).isSome =
      (decide (max_nodes ≤ nodes.length) ||
        decide (max_bytes ≤ (nodes.map AstNode.size).sum)) := by
  unfold limitReached
  split_ifs with hnodes hbytes
  · simp [hnodes]
  · simp [hbytes]
  · simp [hnodes, hbytes]

/-! ### The walk as a run over the outline -/

/-- What the walk does at a node of the outline. -/
def emit (e : Rose.Entry CursorInfo) (w : GraphWalk) : Acc GraphWalk := do
  let node ← cursorToNode e.tree.label e.number
  return GraphWalk.append
    { w with node_counter := w.node_counter + 1, budget := (w.budget.charge node).2 }
    e.tree.label e.parent e.number node

/-- The walk is told to stop. -/
def stopped (w : GraphWalk) : Bool := w.budget.truncated

/-- A budget that is not used up charges every node. -/
theorem charge_fst {b : Budget} {node : AstNode} (h : b.truncated = false) :
    (b.charge node).1 = true := by
  simp only [Budget.charge, h, Bool.false_eq_true, if_false]
  split_ifs <;> rfl

section Walk

variable {start_line end_line : Option ℤ}

/-- A call of `_walk_graph` while the budget lasts: its cursor is emitted, and then its children
are walked. -/
theorem walkGraphFrom_eq {parent : Option ℕ} {c : CursorInfo} {ts : List Cursor} {w : GraphWalk}
    (below : List Cursor) (hs : stopped w = false) :
    walkGraphFrom start_line end_line parent (.node c ts) w = (do
      if !(← overlapsRange c start_line end_line) then return (none, w)
      let w₁ ← emit ⟨parent, w.node_counter + 1, .node c below⟩ w
      if stopped w₁ then return (some (w.node_counter + 1), w₁)
      c.getChildren
      let w' ← walkGraphChildren start_line end_line (w.node_counter + 1) ts w₁
      return (some (w.node_counter + 1), w')) := by
  rw [walkGraphFrom, Budget.exhausted_eq, show w.budget.truncated = false from hs,
    if_neg Bool.false_ne_true]
  refine congrArg _ (funext fun overlaps => ?_)
  cases overlaps with
  | false => rfl
  | true =>
    simp only [emit, Rose.label_node, bind_assoc, pure_bind, Bool.not_true, Bool.false_eq_true,
      if_false]
    refine congrArg _ (funext fun node => ?_)
    simp only [charge_fst hs, Bool.not_true, Bool.false_eq_true, if_false, Budget.exhausted_eq]
    rfl

/-- **What a call of `_walk_graph` does:** nothing, or it emits its cursor and goes on to the
children unless that used the budget up. -/
theorem walkGraphFrom_cases {parent : Option ℕ} {c : CursorInfo} {ts : List Cursor}
    {w w' : GraphWalk} {r : Option ℕ} (below : List Cursor) (hs : stopped w = false)
    (h : walkGraphFrom start_line end_line parent (.node c ts) w = .ok (r, w')) :
    (overlapsRange c start_line end_line = .ok false ∧ w' = w) ∨
    (overlapsRange c start_line end_line = .ok true ∧
      ∃ w₁, emit ⟨parent, w.node_counter + 1, .node c below⟩ w = .ok w₁ ∧
        ((stopped w₁ = true ∧ w' = w₁) ∨
          (stopped w₁ = false ∧
            walkGraphChildren start_line end_line (w.node_counter + 1) ts w₁ = .ok w'))) := by
  rw [walkGraphFrom_eq below hs] at h
  obtain ⟨overlaps, hrange, h⟩ := Except.bind_eq_ok.mp h
  cases overlaps with
  | false => exact Or.inl ⟨hrange, by cases h; rfl⟩
  | true =>
    obtain ⟨w₁, hemit, h⟩ := Except.bind_eq_ok.mp h
    refine Or.inr ⟨hrange, w₁, hemit, ?_⟩
    cases hstop : stopped w₁ with
    | true =>
      rw [hstop] at h
      exact Or.inl ⟨rfl, by cases h; rfl⟩
    | false =>
      rw [hstop, if_neg Bool.false_ne_true] at h
      obtain ⟨-, -, h⟩ := Except.bind_eq_ok.mp h
      obtain ⟨w₂, hbelow, h⟩ := Except.bind_eq_ok.mp h
      cases h
      exact Or.inr ⟨rfl, hbelow⟩

/-- While the budget lasts the loop walks the first child, and goes on with the others from the
state that leaves. -/
theorem walkGraphChildren_cons {current_id : ℕ} {t : Cursor} {ts : List Cursor} {w : GraphWalk}
    (hs : stopped w = false) :
    walkGraphChildren start_line end_line current_id (t :: ts) w =
      (walkGraphFrom start_line end_line (some current_id) t w).bind fun r =>
        walkGraphChildren start_line end_line current_id ts r.2 := by
  rw [walkGraphChildren, Budget.exhausted_eq, show w.budget.truncated = false from hs,
    if_neg Bool.false_ne_true]
  rfl

/-- A loop that is entered with the budget used up walks no child. -/
theorem walkGraphChildren_of_stopped {current_id : ℕ} {ts : List Cursor} {w : GraphWalk}
    (hs : stopped w = true) :
    walkGraphChildren start_line end_line current_id ts w = .ok w := by
  cases ts with
  | nil => rfl
  | cons t ts =>
    rw [walkGraphChildren, Budget.exhausted_eq, show w.budget.truncated = true from hs, if_pos rfl]

/-- A walk that is entered with the budget used up does nothing, whatever its cursor is. -/
theorem walkGraphFrom_of_stopped {parent : Option ℕ} {t : Cursor} {w : GraphWalk}
    (hs : stopped w = true) :
    walkGraphFrom start_line end_line parent t w = .ok (none, w) := by
  cases t with
  | node c ts =>
    rw [walkGraphFrom, Budget.exhausted_eq, show w.budget.truncated = true from hs, if_pos rfl]

/-- The trees of a list are pruned one by one. -/
theorem rangePruned_cons (t : Cursor) (ts : List Cursor) :
    rangePruned start_line end_line (t :: ts) =
      rangePruned start_line end_line [t] ++ rangePruned start_line end_line ts := by
  simp only [rangePruned, Rose.pruneList]
  cases inRange start_line end_line t <;> rfl

/-- A cursor found to overlap stays, with what is left of the trees below it. -/
theorem rangePruned_of_overlaps {c : CursorInfo} {ts : List Cursor}
    (h : overlapsRange c start_line end_line = .ok true) :
    rangePruned start_line end_line [.node c ts] = [.node c (rangePruned start_line end_line ts)] := by
  simp only [rangePruned, Rose.pruneList, inRange, Rose.label_node, h, if_true, Rose.prune, id_eq]

/-- A cursor found not to overlap is dropped with all that is below it. -/
theorem rangePruned_of_not_overlaps {c : CursorInfo} {ts : List Cursor}
    (h : overlapsRange c start_line end_line = .ok false) :
    rangePruned start_line end_line [.node c ts] = [] := by
  simp only [rangePruned, Rose.pruneList, inRange, Rose.label_node, h, Bool.false_eq_true, if_false]

/-- Emitting a node raises the counter by one, so nodes are numbered as they come. -/
theorem counter_emit {e : Rose.Entry CursorInfo} {w w' : GraphWalk} (h : emit e w = .ok w') :
    w'.node_counter = w.node_counter + 1 := by
  obtain ⟨node, -, h⟩ := Except.bind_eq_ok.mp h
  cases h
  rfl

/-- A run that was not told to stop has counted the nodes it was given. -/
theorem counter_runUntil {es : List (Rose.Entry CursorInfo)} {w w' : GraphWalk}
    (h : runUntil stopped emit es w = .ok w') (hs : stopped w' = false) :
    w'.node_counter = w.node_counter + es.length := by
  obtain ⟨n, hn, hcount, -, hend⟩ := runUntil_induct
    (P := fun done s => s.node_counter = w.node_counter + done.length)
    (fun done e w₁ w₂ hcount _ hemit => by
      rw [counter_emit hemit, hcount, List.length_append, List.length_singleton, Nat.add_assoc])
    rfl h
  have hall : n = es.length := by
    by_contra hne
    have hstop := hend (lt_of_le_of_ne hn hne)
    rw [hs] at hstop
    exact Bool.false_ne_true hstop
  rw [hcount, hall, List.take_length]

/-- The loop runs over the outline of the children that the walks of each child run over. -/
theorem runUntil_of_walkGraphChildren {current_id : ℕ} {us : List Cursor}
    (hwalk : ∀ u ∈ us, ∀ {w w' : GraphWalk} {r : Option ℕ},
      walkGraphFrom start_line end_line (some current_id) u w = .ok (r, w') →
        runUntil stopped emit (Rose.outlineList (some current_id) (w.node_counter + 1)
          (rangePruned start_line end_line [u])) w = .ok w') :
    ∀ {w w' : GraphWalk}, walkGraphChildren start_line end_line current_id us w = .ok w' →
      runUntil stopped emit (Rose.outlineList (some current_id) (w.node_counter + 1)
        (rangePruned start_line end_line us)) w = .ok w' := by
  induction us with
  | nil => exact fun h => h
  | cons u us ih =>
    intro w w' h
    cases hs : stopped w with
    | true =>
      rw [walkGraphChildren_of_stopped hs] at h
      rw [runUntil_of_stop hs, h]
    | false =>
      rw [walkGraphChildren_cons hs] at h
      obtain ⟨⟨r, w₁⟩, hfirst, hrest⟩ := Except.bind_eq_ok.mp h
      have hu := hwalk u List.mem_cons_self hfirst
      rw [rangePruned_cons, Rose.outlineList_append, runUntil_append hu]
      cases hs₁ : stopped w₁ with
      | true =>
        rw [walkGraphChildren_of_stopped hs₁] at hrest
        rw [runUntil_of_stop hs₁, hrest]
      | false =>
        have hcount := counter_runUntil hu hs₁
        have hus := ih (fun v hv => hwalk v (List.mem_cons_of_mem _ hv)) hrest
        rwa [hcount, Nat.add_right_comm] at hus

/-- **The walk runs over the outline of the range-pruned tree,** one entry after the other, until
the budget stops it. -/
theorem runUntil_of_walkGraphFrom {t : Cursor} : ∀ {parent : Option ℕ} {w w' : GraphWalk}
    {r : Option ℕ}, walkGraphFrom start_line end_line parent t w = .ok (r, w') →
      runUntil stopped emit (Rose.outlineList parent (w.node_counter + 1)
        (rangePruned start_line end_line [t])) w = .ok w' := by
  induction t using Rose.induct with
  | node c ts ih =>
    intro parent w w' r h
    cases hs : stopped w with
    | true =>
      rw [walkGraphFrom_of_stopped hs] at h
      cases h
      exact runUntil_of_stop hs
    | false =>
      rcases walkGraphFrom_cases (rangePruned start_line end_line ts) hs h with
        ⟨hrange, rfl⟩ | ⟨hrange, w₁, hemit, hbelow⟩
      · rw [rangePruned_of_not_overlaps hrange]
        rfl
      · rw [rangePruned_of_overlaps hrange, Rose.outlineList_singleton, Rose.outline,
          runUntil_cons hs, hemit]
        change runUntil stopped emit _ w₁ = _
        rcases hbelow with ⟨hs₁, rfl⟩ | ⟨hs₁, hbelow⟩
        · exact runUntil_of_stop hs₁
        · have hchildren := runUntil_of_walkGraphChildren (fun u hu => ih u hu) hbelow
          rwa [counter_emit hemit] at hchildren

end Walk

/-! ### What has been emitted -/

/-- The node that is emitted for a node of the outline. -/
def IsNode (e : Rose.Entry CursorInfo) (node : AstNode) : Prop :=
  cursorToNode e.tree.label e.number = .ok node

/-- At most one node is emitted for a node of the outline, since reading a cursor is deterministic.
-/
theorem IsNode.rightUnique : Relator.RightUnique IsNode := fun _ _ _ h h' =>
  Except.ok.inj (h.symm.trans h')

/-- The state of the walk once the nodes `done` of the outline have been emitted. -/
structure Emitted (max_nodes max_bytes : ℕ) (done : List (Rose.Entry CursorInfo)) (w : GraphWalk) :
    Prop where
  max_nodes_eq : w.budget.max_nodes = max_nodes
  max_bytes_eq : w.budget.max_bytes = max_bytes
  nodes : List.Forall₂ IsNode done w.nodes
  edges : w.edges = done.filterMap edgeTo
  nodes_emitted : w.budget.nodes_emitted = w.nodes.length
  bytes_estimate : w.budget.bytes_estimate = (w.nodes.map AstNode.size).sum
  reason : w.budget.truncation_reason = limitReached max_nodes max_bytes w.nodes
  truncated : w.budget.truncated = w.budget.truncation_reason.isSome

/-- Nothing has been emitted at the start, where the budget allows for at least one node and one
byte. -/
theorem emitted_nil {max_nodes max_bytes : ℕ} (hnodes : 1 ≤ max_nodes) (hbytes : 1 ≤ max_bytes) :
    Emitted max_nodes max_bytes [] { budget := { max_nodes, max_bytes } } where
  max_nodes_eq := rfl
  max_bytes_eq := rfl
  nodes := .nil
  edges := rfl
  nodes_emitted := rfl
  bytes_estimate := rfl
  reason := by
    rw [limitReached, List.length_nil, if_neg (Nat.not_le.mpr hnodes), List.map_nil, List.sum_nil,
      if_neg (Nat.not_le.mpr hbytes)]
  truncated := rfl

section Emitted

variable {max_nodes max_bytes : ℕ} {done : List (Rose.Entry CursorInfo)} {w : GraphWalk}

/-- While the walk goes on it has no reason to stop. -/
theorem Emitted.reason_eq_none (h : Emitted max_nodes max_bytes done w) (hs : stopped w = false) :
    w.budget.truncation_reason = none := by
  have htruncated := h.truncated
  rw [show w.budget.truncated = false from hs] at htruncated
  exact Option.not_isSome_iff_eq_none.mp (by rw [← htruncated]; exact Bool.false_ne_true)

/-- When the walk has been told to stop, there is a reason that names the limit. -/
theorem Emitted.reason_ne_none (h : Emitted max_nodes max_bytes done w) (hs : stopped w = true) :
    w.budget.truncation_reason ≠ none := by
  intro hnone
  have htruncated := h.truncated
  rw [hnone, show w.budget.truncated = true from hs] at htruncated
  exact Bool.noConfusion htruncated

/-- What had been emitted earlier is the beginning of what has been emitted. -/
theorem Emitted.nodes_eq_take {es : List (Rose.Entry CursorInfo)} {m n : ℕ} {w' : GraphWalk}
    (h : Emitted max_nodes max_bytes (es.take m) w)
    (h' : Emitted max_nodes max_bytes (es.take n) w') (hm : m ≤ n) :
    w.nodes = w'.nodes.take m := by
  have htake := List.forall₂_take m h'.nodes
  rw [List.take_take, Nat.min_eq_left hm] at htake
  exact IsNode.rightUnique.forall₂ h.nodes htake

end Emitted

/-- What charging a node does to a budget that is not used up. -/
structure Charged (b : Budget) (node : AstNode) (b' : Budget) : Prop where
  max_nodes : b'.max_nodes = b.max_nodes
  max_bytes : b'.max_bytes = b.max_bytes
  nodes_emitted : b'.nodes_emitted = b.nodes_emitted + 1
  bytes_estimate : b'.bytes_estimate = b.bytes_estimate + node.size
  reason : b'.truncation_reason =
    if b.max_nodes ≤ b.nodes_emitted + 1 then some "max_nodes"
    else if b.max_bytes ≤ b.bytes_estimate + node.size then some "max_bytes"
    else b.truncation_reason
  truncated : b'.truncated = (decide (b.max_nodes ≤ b.nodes_emitted + 1) ||
    decide (b.max_bytes ≤ b.bytes_estimate + node.size))

/-- What charging a node does to a budget that is not used up: it counts the node and its bytes, and
says so if that reaches a limit. -/
theorem charged_charge {b : Budget} (node : AstNode) (h : b.truncated = false) :
    Charged b node (b.charge node).2 := by
  simp only [Budget.charge, h, Bool.false_eq_true, if_false, ge_iff_le]
  split_ifs with hnodes hbytes
  · exact ⟨rfl, rfl, rfl, rfl, by rw [if_pos hnodes], by simp [hnodes]⟩
  · exact ⟨rfl, rfl, rfl, rfl, by rw [if_neg hnodes, if_pos hbytes], by simp [hbytes]⟩
  · exact ⟨rfl, rfl, rfl, rfl, by rw [if_neg hnodes, if_neg hbytes], by simp [hnodes, hbytes]⟩

/-- The edge that is appended with a node is the one from its parent, if it has one. -/
theorem edges_append (w : GraphWalk) (e : Rose.Entry CursorInfo) (node : AstNode) :
    (w.append e.tree.label e.parent e.number node).edges = w.edges ++ (edgeTo e).toList := by
  cases h : e.parent <;> simp [GraphWalk.append, edgeTo, h]

/-- **A step of the walk,** while the budget lasts: the next cursor of the outline is emitted, and
what has been emitted before stays. -/
theorem Emitted.emit {max_nodes max_bytes : ℕ} {done : List (Rose.Entry CursorInfo)}
    {e : Rose.Entry CursorInfo} {w w' : GraphWalk} (h : Emitted max_nodes max_bytes done w)
    (hs : stopped w = false) (hemit : Ast.emit e w = .ok w') :
    Emitted max_nodes max_bytes (done ++ [e]) w' := by
  obtain ⟨node, hnode, heq⟩ := Except.bind_eq_ok.mp hemit
  have hcharged := charged_charge node hs
  have hbudget : w'.budget = (w.budget.charge node).2 := by cases heq; rfl
  have hnodes : w'.nodes = w.nodes ++ [node] := by cases heq; rfl
  have hedges : w'.edges = w.edges ++ (edgeTo e).toList := by cases heq; exact edges_append ..
  have hlength : w'.nodes.length = w.nodes.length + 1 := by
    rw [hnodes, List.length_append, List.length_singleton]
  have hsum : (w'.nodes.map AstNode.size).sum = (w.nodes.map AstNode.size).sum + node.size := by
    rw [hnodes, List.map_append, List.sum_append, List.map_singleton, List.sum_singleton]
  rw [← hbudget] at hcharged
  have hreason := hcharged.reason
  rw [h.max_nodes_eq, h.max_bytes_eq, h.nodes_emitted, h.bytes_estimate, ← hlength, ← hsum,
    h.reason_eq_none hs] at hreason
  have htruncated := hcharged.truncated
  rw [h.max_nodes_eq, h.max_bytes_eq, h.nodes_emitted, h.bytes_estimate, ← hlength,
    ← hsum] at htruncated
  exact {
    max_nodes_eq := hcharged.max_nodes.trans h.max_nodes_eq
    max_bytes_eq := hcharged.max_bytes.trans h.max_bytes_eq
    nodes := hnodes ▸ List.rel_append h.nodes (.cons hnode .nil)
    edges := by
      rw [hedges, h.edges, List.filterMap_append, List.filterMap_cons, List.filterMap_nil]
      cases edgeTo e <;> rfl
    nodes_emitted := by rw [hcharged.nodes_emitted, h.nodes_emitted, hlength]
    bytes_estimate := by rw [hcharged.bytes_estimate, h.bytes_estimate, hsum]
    reason := hreason
    truncated := by
      rw [htruncated, ← isSome_limitReached]
      exact congrArg Option.isSome hreason.symm }

/-! ### The prefix -/

section Outcome

variable {start_line end_line : Option ℤ} {t : Cursor}

/-- A root that misses the range leaves nothing; otherwise the outline is that of one tree. -/
theorem preorder_cases (start_line end_line : Option ℤ) (t : Cursor) :
    preorder start_line end_line t = [] ∨
      ∃ t', preorder start_line end_line t = Rose.outline none 1 t' := by
  simp only [preorder, rangePruned, Rose.pruneList]
  cases inRange start_line end_line t with
  | false => exact Or.inl rfl
  | true => exact Or.inr ⟨_, Rose.outlineList_singleton ..⟩

/-- The nodes of the preorder sequence are numbered from 1. -/
theorem numbers_preorder (start_line end_line : Option ℤ) (t : Cursor) :
    (preorder start_line end_line t).map Rose.Entry.number =
      List.range' 1 (preorder start_line end_line t).length := by
  rcases preorder_cases start_line end_line t with h | ⟨t', h⟩
  · rw [h]
    rfl
  · rw [h]
    exact Rose.numbers_outline ..

/-- Every node but the first has an edge to it. -/
theorem targets_preorder (n : ℕ) (hn : n ≤ (preorder start_line end_line t).length) :
    (((preorder start_line end_line t).take n).filterMap edgeTo).map AstEdge.target_id =
      List.range' 2 (n - 1) := by
  have hnumbers := numbers_preorder start_line end_line t
  rcases preorder_cases start_line end_line t with h | ⟨t', h⟩
  · rw [h] at hn ⊢
    rw [Nat.le_zero.mp hn]
    rfl
  · obtain ⟨below, heq, hparents⟩ := Rose.parents_outline t' none 1
    rw [h, heq] at hnumbers hn ⊢
    cases n with
    | zero => rfl
    | succ n =>
      have hedges : ∀ es : List (Rose.Entry CursorInfo), (∀ e ∈ es, e.parent.isSome) →
          (es.filterMap edgeTo).map AstEdge.target_id = es.map Rose.Entry.number := by
        intro es hes
        induction es with
        | nil => rfl
        | cons e es ih =>
          obtain ⟨p, hp⟩ := Option.isSome_iff_exists.mp (hes e List.mem_cons_self)
          rw [List.filterMap_cons, show edgeTo e = some ⟨p, e.number, edgeType e.tree.label⟩ by
            rw [edgeTo, hp]; rfl, List.map_cons, List.map_cons,
            ih fun e he => hes e (List.mem_cons_of_mem _ he)]
      rw [List.map_cons, List.length_cons, List.range'_succ] at hnumbers
      rw [List.take_succ_cons, List.filterMap_cons, show edgeTo ⟨none, 1, t'⟩ = none from rfl,
        hedges _ fun e he => hparents e (List.mem_of_mem_take he), List.map_take,
        (List.cons.inj hnumbers).2, Nat.add_sub_cancel,
        List.take_range'_of_length_ge (Nat.le_of_succ_le_succ hn)]

/-- Every edge leads from a node to a child of it, and both have been emitted. -/
theorem edges_preorder {n : ℕ} {edge : AstEdge}
    (h : edge ∈ ((preorder start_line end_line t).take n).filterMap edgeTo) :
    ∃ above ∈ (preorder start_line end_line t).take n,
      ∃ e ∈ (preorder start_line end_line t).take n, edge.source_id = above.number ∧
        edge.target_id = e.number ∧ e.tree ∈ above.tree.children ∧ above.number < e.number := by
  obtain ⟨e, he, hedge⟩ := List.mem_filterMap.mp h
  obtain ⟨p, hparent, rfl⟩ := Option.map_eq_some_iff.mp hedge
  have hnumbers := numbers_preorder start_line end_line t
  have hmem := (Rose.mem_take_iff_of_numbers hnumbers).mp he
  rcases preorder_cases start_line end_line t with heq | ⟨t', heq⟩
  · rw [heq, List.take_nil] at he
    exact absurd he List.not_mem_nil
  · rcases Rose.exists_parent_of_mem_outline (heq ▸ hmem.1) with rfl | ⟨above, habove, hp, hlt, hchild⟩
    · exact absurd hparent (by simp)
    · refine ⟨above, (Rose.mem_take_iff_of_numbers hnumbers).mpr ⟨heq ▸ habove, hlt.trans hmem.2⟩, e,
        he, ?_, rfl, hchild, hlt⟩
      rw [hparent] at hp
      exact Option.some.inj hp

end Outcome

/-- **What `walk_graph` is to answer:** the first `n` nodes of the preorder sequence `nodes`, each
but the root with one edge from its parent, `n` being where a limit is reached first, or the end. -/
structure IsPrefixUpTo (nodes : List (Rose.Entry CursorInfo)) (max_nodes max_bytes : ℕ)
    (r : GraphAst) (n : ℕ) : Prop where
  le : n ≤ nodes.length
  emitted : List.Forall₂ IsNode (nodes.take n) r.nodes
  ids : r.nodes.map AstNode.id = List.range' 1 n
  nodes_emitted : r.nodes_emitted = n
  before : ∀ m < n, limitReached max_nodes max_bytes (r.nodes.take m) = none
  reason : r.truncation_reason = limitReached max_nodes max_bytes r.nodes
  whole : r.truncation_reason = none → n = nodes.length
  truncated : r.truncated = r.truncation_reason.isSome
  targets : r.edges.map AstEdge.target_id = List.range' 2 (n - 1)
  edges : r.edges = (nodes.take n).filterMap edgeTo
  parents : ∀ edge ∈ r.edges, ∃ above ∈ nodes.take n, ∃ e ∈ nodes.take n,
    edge.source_id = above.number ∧ edge.target_id = e.number ∧ e.tree ∈ above.tree.children
  ends : ∀ edge ∈ r.edges, edge.source_id < edge.target_id ∧
    edge.source_id ∈ r.nodes.map AstNode.id ∧ edge.target_id ∈ r.nodes.map AstNode.id

/-- A node carries the number of its place in the outline. -/
theorem IsNode.id_eq {e : Rose.Entry CursorInfo} {node : AstNode} (h : IsNode e node) :
    node.id = e.number := by
  obtain ⟨ext, -, h⟩ := Except.bind_eq_ok.mp h
  obtain ⟨ends, -, h⟩ := Except.bind_eq_ok.mp h
  cases h
  rfl

/-- So the identifiers of the emitted nodes are the numbers of the outline, in their order. -/
theorem ids_of_forall₂ {es : List (Rose.Entry CursorInfo)} {nodes : List AstNode}
    (h : List.Forall₂ IsNode es nodes) : nodes.map AstNode.id = es.map Rose.Entry.number := by
  induction h with
  | nil => rfl
  | cons hnode _ ih => rw [List.map_cons, List.map_cons, hnode.id_eq, ih]

/-- The attributes of a cursor that are read outside a `try` can be read. -/
def CursorInfo.Readable (c : CursorInfo) : Prop :=
  (∃ ext, c.extent = .ok ext ∧ ∃ ends, Extent.ends ext = .ok ends) ∧ c.children_raise = none

/-- Where the extent can be read, asking whether it overlaps a range raises nothing. -/
theorem CursorInfo.Readable.overlapsRange {c : CursorInfo} (h : c.Readable)
    (start_line end_line : Option ℤ) : ∃ b, Ast.overlapsRange c start_line end_line = .ok b := by
  obtain ⟨⟨ext, hext, ends, hends⟩, -⟩ := h
  unfold Ast.overlapsRange
  split
  · exact ⟨true, rfl⟩
  · rw [hext]
    cases ext with
    | none => exact ⟨true, rfl⟩
    | some ext =>
      obtain ⟨start, hstart, hrest⟩ := Except.bind_eq_ok.mp hends
      obtain ⟨stop, hstop, -⟩ := Except.bind_eq_ok.mp hrest
      exact ⟨_, by simp only [bind, Except.bind, hstart, hstop]; rfl⟩

/-- Where a cursor can be read, it can be emitted, in every state of the walk. -/
theorem CursorInfo.Readable.emit {e : Rose.Entry CursorInfo} (h : e.tree.label.Readable)
    (w : GraphWalk) : ∃ w', Ast.emit e w = .ok w' := by
  obtain ⟨⟨ext, hext, ends, hends⟩, -⟩ := h
  exact ⟨_, by rw [Ast.emit, cursorToNode, hext]; simp only [bind, Except.bind, hends]; rfl⟩

/-- The loop does not raise if the walks of the children do not. -/
theorem exists_walkGraphChildren {start_line end_line : Option ℤ} {current_id : ℕ}
    {us : List Cursor} (hwalk : ∀ u ∈ us, ∀ w : GraphWalk,
      ∃ r, walkGraphFrom start_line end_line (some current_id) u w = .ok r) :
    ∀ w : GraphWalk, ∃ w', walkGraphChildren start_line end_line current_id us w = .ok w' := by
  induction us with
  | nil => exact fun w => ⟨w, rfl⟩
  | cons u us ih =>
    intro w
    cases hs : stopped w with
    | true => exact ⟨w, walkGraphChildren_of_stopped hs⟩
    | false =>
      obtain ⟨r, hu⟩ := hwalk u List.mem_cons_self w
      obtain ⟨w', hrest⟩ := ih (fun v hv => hwalk v (List.mem_cons_of_mem _ hv)) r.2
      exact ⟨w', by rw [walkGraphChildren_cons hs, hu]; exact hrest⟩

/-- Where everything can be read, the walk does not raise. -/
theorem exists_walkGraphFrom {start_line end_line : Option ℤ} {t : Cursor} :
    ∀ {parent : Option ℕ} {w : GraphWalk}, (∀ s ∈ t.subtrees, s.label.Readable) →
      ∃ r, walkGraphFrom start_line end_line parent t w = .ok r := by
  induction t using Rose.induct with
  | node c ts ih =>
    intro parent w hread
    rw [Rose.subtrees_node] at hread
    have hc : c.Readable := hread _ List.mem_cons_self
    cases hs : stopped w with
    | true => exact ⟨_, walkGraphFrom_of_stopped hs⟩
    | false =>
      rw [walkGraphFrom_eq [] hs]
      obtain ⟨overlaps, hoverlaps⟩ := hc.overlapsRange start_line end_line
      obtain ⟨w₁, hemit⟩ := CursorInfo.Readable.emit
        (e := ⟨parent, w.node_counter + 1, .node c []⟩) hc w
      have hwalk : ∀ u ∈ ts, ∀ w₂ : GraphWalk,
          ∃ r, walkGraphFrom start_line end_line (some (w.node_counter + 1)) u w₂ = .ok r :=
        fun u hu w₂ => ih u hu fun s hs =>
          hread s (List.mem_cons_of_mem _ (List.mem_flatMap.mpr ⟨u, hu, hs⟩))
      obtain ⟨w₂, hbelow⟩ := exists_walkGraphChildren hwalk w₁
      rw [hoverlaps]
      cases overlaps with
      | false => exact ⟨_, rfl⟩
      | true =>
        simp only [bind, Except.bind, hemit, CursorInfo.getChildren, hc.2, hbelow]
        cases stopped w₁ <;> exact ⟨_, rfl⟩

/-- What the walk returns is a prefix of the preorder sequence, up to the first limit. -/
theorem exists_isPrefixUpTo {tu : TranslationUnit} {start_line end_line : Option ℤ}
    {max_nodes max_bytes : ℕ} (hnodes : 1 ≤ max_nodes) (hbytes : 1 ≤ max_bytes) {r : GraphAst}
    (h : walkGraph tu start_line end_line max_nodes max_bytes = .ok r) :
    ∃ n, IsPrefixUpTo (preorder start_line end_line tu.cursor) max_nodes max_bytes r n := by
  obtain ⟨⟨_, w⟩, hwalk, hr⟩ := Except.bind_eq_ok.mp h
  have hrun : runUntil stopped emit (preorder start_line end_line tu.cursor)
      { budget := { max_nodes, max_bytes } } = .ok w := runUntil_of_walkGraphFrom hwalk
  obtain ⟨n, hn, hend, hbefore, hstop⟩ := runUntil_induct
    (P := Emitted max_nodes max_bytes) (fun _ _ _ _ hdone hs hemit => hdone.emit hs hemit)
    (emitted_nil hnodes hbytes) hrun
  have hlength : w.nodes.length = n := by
    rw [← hend.nodes.length_eq, List.length_take, Nat.min_eq_left hn]
  have hids : w.nodes.map AstNode.id = List.range' 1 n := by
    rw [ids_of_forall₂ hend.nodes, List.map_take, numbers_preorder,
      List.take_range'_of_length_ge hn]
  have hedges : ∀ edge ∈ w.edges, ∃ above ∈ (preorder start_line end_line tu.cursor).take n,
      ∃ e ∈ (preorder start_line end_line tu.cursor).take n, edge.source_id = above.number ∧
        edge.target_id = e.number ∧ e.tree ∈ above.tree.children ∧ above.number < e.number :=
    fun edge hedge => edges_preorder (hend.edges ▸ hedge)
  have hemitted : ∀ e ∈ (preorder start_line end_line tu.cursor).take n,
      e.number ∈ w.nodes.map AstNode.id := fun e he => by
    rw [ids_of_forall₂ hend.nodes]
    exact List.mem_map_of_mem he
  cases hr
  refine ⟨n, ?_⟩
  exact {
    le := hn
    emitted := hend.nodes
    ids := hids
    nodes_emitted := hend.nodes_emitted.trans hlength
    before := fun m hm => by
      obtain ⟨sm, hsm, hno⟩ := hbefore m hm
      rw [← hsm.nodes_eq_take hend hm.le, ← hsm.reason]
      exact hsm.reason_eq_none hno
    reason := hend.reason
    whole := fun hnone => by
      by_contra hne
      exact hend.reason_ne_none (hstop (lt_of_le_of_ne hn hne)) hnone
    truncated := hend.truncated
    targets := by
      rw [hend.edges]
      exact targets_preorder n hn
    edges := hend.edges
    parents := fun edge hedge => by
      obtain ⟨above, habove, e, he, hsource, htarget, hchild, -⟩ := hedges edge hedge
      exact ⟨above, habove, e, he, hsource, htarget, hchild⟩
    ends := fun edge hedge => by
      obtain ⟨above, habove, e, he, hsource, htarget, -, hlt⟩ := hedges edge hedge
      rw [hsource, htarget]
      exact ⟨hlt, hemitted above habove, hemitted e he⟩ }

/-- **The walk emits the preorder sequence of the range-pruned tree up to the first limit.**  It
raises nothing unless an extent or the children of a cursor cannot be read.  Where cursors have
lines, what is pruned are the subtrees at whose root these do not overlap the range. -/
theorem walkGraph_emits_prefix (tu : TranslationUnit) (start_line end_line : Option ℤ)
    {max_nodes max_bytes : ℕ} (hnodes : 1 ≤ max_nodes) (hbytes : 1 ≤ max_bytes) :
    (∀ r, walkGraph tu start_line end_line max_nodes max_bytes = .ok r →
      ∃ n, IsPrefixUpTo (preorder start_line end_line tu.cursor) max_nodes max_bytes r n) ∧
    ((∀ s ∈ tu.cursor.subtrees, s.label.Readable) →
      ∃ r, walkGraph tu start_line end_line max_nodes max_bytes = .ok r) ∧
    (Lined tu.cursor → preorder start_line end_line tu.cursor = Rose.outlineList none 1
      (Rose.pruneList (fun s => overlaps start_line end_line s.label) id [tu.cursor])) := by
  refine ⟨fun r h => exists_isPrefixUpTo hnodes hbytes h, fun hread => ?_,
    fun hlined => hlined.preorder_eq start_line end_line⟩
  obtain ⟨r, hr⟩ := exists_walkGraphFrom hread
  exact ⟨_, by rw [walkGraph, hr]; rfl⟩

/-- A unit with a function `f` that has a parameter, and a second function outside lines 1 to 4. -/
def twoFunctions : TranslationUnit where
  cursor :=
    let extent (first last : ℕ) : Acc (Option Extent) :=
      .ok (some ⟨.ok (some ⟨first, 1⟩), .ok (some ⟨last, 2⟩)⟩)
    .node { kind_name := .ok "TRANSLATION_UNIT", extent := extent 1 9 } [
      .node { kind_name := .ok "FUNCTION_DECL", spelling := .ok "f", extent := extent 2 4 } [
        .node { kind_name := .ok "PARM_DECL", extent := extent 2 2 } []],
      .node { kind_name := .ok "FUNCTION_DECL", spelling := .ok "g", extent := extent 6 8 } []]

/-- `walkGraph_emits_prefix` for a range that leaves the second function out, and a budget of two
nodes. -/
theorem walkGraph_emits_prefix_twoFunctions :
    ∃ r n, walkGraph twoFunctions (some 1) (some 4) 2 1000 = .ok r ∧
      IsPrefixUpTo (Rose.outlineList none 1 (Rose.pruneList
        (fun s => overlaps (some 1) (some 4) s.label) id [twoFunctions.cursor])) 2 1000 r n := by
  obtain ⟨hspec, hread, hpruned⟩ := walkGraph_emits_prefix twoFunctions (some 1) (some 4)
    (by decide : 1 ≤ 2) (by decide : 1 ≤ 1000)
  have hlined : Lined twoFunctions.cursor := by
    simp [Lined, twoFunctions, Rose.subtrees_node, CursorInfo.lines]
  obtain ⟨r, hr⟩ := hread (by
    simp [twoFunctions, Rose.subtrees_node, CursorInfo.Readable, Extent.ends, bind, Except.bind,
      pure, Except.pure])
  obtain ⟨n, hn⟩ := hspec r hr
  exact ⟨r, n, hr, hpruned hlined ▸ hn⟩

end Ast
end CppMcp
