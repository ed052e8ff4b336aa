/-
# The AST walker

`src/cpp_mcp/core/ast_walker.py`, the walk for the `graph` format.  A cursor is what the
walker reads of it: its extent is read outside any `try`, the other attributes inside one.
The recursion of `_walk_graph` hands its budget, its counter and its two lists on from call
to call, so they are one state here.
-/

import CppMcp.Export.Cursor
import CppMcp.Py.Json
import Mathlib.Algebra.Group.Int.Defs

namespace CppMcp
namespace Ast

open Export (Exc Acc)
open Py (Json)

/-- A line and a column of a source location. -/
structure Position where
  line : ℕ
  column : ℕ
  deriving DecidableEq, Repr

/-- The extent of a cursor. -/
structure Extent where
  start : Acc (Option Position)
  stop : Acc (Option Position)

/-- A storage class: its `name`, or its `str` when it has none. -/
inductive StorageClass where
  | named (name : String)
  | unnamed (str : String)
  deriving DecidableEq, Repr

/-- What is read of a cursor, its children apart. -/
structure CursorInfo where
  extent : Acc (Option Extent) := .ok none
  /-- `cursor.kind.name`. -/
  kind_name : Acc String
  /-- `None`, or the type's `spelling`. -/
  type : Acc (Option (Acc String)) := .ok none
  get_usr : Acc (Option String) := .ok none
  spelling : Acc (Option String) := .ok none
  storage_class : Acc StorageClass := .ok (.named "NONE")
  children_raise : Option Exc := none

/-- A cursor with everything below it. -/
abbrev Cursor := Rose CursorInfo

/-- `get_children()` either gives the children or raises. -/
def CursorInfo.getChildren (c : CursorInfo) : Acc Unit :=
  match c.children_raise with
  | none => .ok ()
  | some e => .error e

/-! ### Nodes -/

/-- A node without its children. -/
structure AstNode where
  id : ℕ
  kind : String
  spelling : String
  usr : String
  type : String
  storage_class : String
  start_line : ℕ
  start_col : ℕ
  end_line : ℕ
  end_col : ℕ
  deriving DecidableEq, Repr

/-- The node as the `dict` that it is. -/
def AstNode.toJson (node : AstNode) : Json :=
  .dict [("id", .int node.id), ("kind", .str node.kind), ("spelling", .str node.spelling),
    ("usr", .str node.usr), ("type", .str node.type), ("storage_class", .str node.storage_class),
    ("start_line", .int node.start_line), ("start_col", .int node.start_col),
    ("end_line", .int node.end_line), ("end_col", .int node.end_col)]

/-- `len(json.dumps(node))`. -/
def AstNode.size (node : AstNode) : ℕ := (Py.dumps node.toJson).length

/-- `_storage_class_name`. -/
def storageClassName (c : CursorInfo) : String :=
  match c.storage_class with
  | .ok (.named name) => name
  | .ok (.unnamed str) => str
  | .error _ => "NONE"

/-- The type's spelling; a type that cannot be read counts as none. -/
def typeSpelling (c : CursorInfo) : String :=
  match c.type with
  | .ok (some spelling) => Acc.getD spelling ""
  | _ => ""

/-- The start and the end of an extent; a cursor may have none. -/
def Extent.ends : Option Extent → Acc (Option Position × Option Position)
  | none => .ok (none, none)
  | some ext => do return (← ext.start, ← ext.stop)

/-- `_cursor_to_node`. -/
def cursorToNode (c : CursorInfo) (node_id : ℕ) : Acc AstNode := do
  let ext ← c.extent
  let (start, stop) ← Extent.ends ext
  return {
    id := node_id
    kind := Acc.getD c.kind_name "UNKNOWN"
    spelling := (Acc.getD c.spelling none).getD ""
    usr := (Acc.getD c.get_usr none).getD ""
    type := typeSpelling c
    storage_class := storageClassName c
    start_line := (start.map Position.line).getD 0
    start_col := (start.map Position.column).getD 0
    end_line := (stop.map Position.line).getD 0
    end_col := (stop.map Position.column).getD 0 }

/-- `_overlaps_range`. -/
def overlapsRange (c : CursorInfo) (start_line end_line : Option ℤ) : Acc Bool :=
  match start_line, end_line with
  | none, none => .ok true
  | _, _ => do
    match ← c.extent with
    | none => return true
    | some ext =>
      let c_start := ((← ext.start).map Position.line).getD 0
      let c_end := ((← ext.stop).map Position.line).getD 0
      return decide ((c_start : ℤ) ≤ end_line.getD (2 ^ 31)) && decide (start_line.getD 0 ≤ c_end)

/-! ### The budget -/

/-- `_Budget`.  The flag is set only once a node has been charged. -/
structure Budget where
  max_nodes : ℕ
  max_bytes : ℕ
  nodes_emitted : ℕ := 0
  bytes_estimate : ℕ := 0
  truncated : Bool := false
  truncation_reason : Option String := none
  emitted : truncated = true → 0 < nodes_emitted := by decide

/-- `_Budget.charge`: whether the node is charged, and the budget after it. -/
def Budget.charge (b : Budget) (node : AstNode) : Bool × Budget :=
  if b.truncated then (false, b)
  else if b.nodes_emitted + 1 ≥ b.max_nodes then
    (true, { b with
      nodes_emitted := b.nodes_emitted + 1
      bytes_estimate := b.bytes_estimate + node.size
      truncated := true
      truncation_reason := some "max_nodes"
      emitted := fun _ => Nat.succ_pos _ })
  else if b.bytes_estimate + node.size ≥ b.max_bytes then
    (true, { b with
      nodes_emitted := b.nodes_emitted + 1
      bytes_estimate := b.bytes_estimate + node.size
      truncated := true
      truncation_reason := some "max_bytes"
      emitted := fun _ => Nat.succ_pos _ })
  else
    (true, { b with
      nodes_emitted := b.nodes_emitted + 1
      bytes_estimate := b.bytes_estimate + node.size
      emitted := fun _ => Nat.succ_pos _ })

/-- `_Budget.exhausted`. -/
def Budget.exhausted (b : Budget) : Bool := b.truncated && decide (0 < b.nodes_emitted)

/-- A budget that says it is truncated has emitted a node, so `exhausted` asks for no more than the
flag. -/
@[simp] theorem Budget.exhausted_eq (b : Budget) : b.exhausted = b.truncated := by
  cases h : b.truncated
  · rw [exhausted, h]; rfl
  · rw [exhausted, h, decide_eq_true (b.emitted h)]; rfl

/-! ### The walk -/

/-- `EDGE_TYPE_CHILD` and its siblings. -/
inductive AstEdgeType where
  | child | typeRef | call
  deriving DecidableEq, Repr

/-- An edge. -/
structure AstEdge where
  source_id : ℕ
  target_id : ℕ
  edge_type : AstEdgeType
  deriving DecidableEq, Repr

/-- `_TYPE_REF_KINDS`. -/
def TYPE_REF_KINDS : List String :=
  ["TYPE_REF", "TEMPLATE_REF", "NAMESPACE_REF", "OVERLOADED_DECL_REF"]

/-- `_CALL_KINDS`. -/
def CALL_KINDS : List String := ["CALL_EXPR", "CXX_METHOD"]

/-- The type of the edge that leads to a cursor. -/
def edgeType (c : CursorInfo) : AstEdgeType :=
  let kind_name := Acc.getD c.kind_name ""
  if kind_name ∈ TYPE_REF_KINDS then .typeRef
  else if kind_name ∈ CALL_KINDS then .call
  else .child

/-- What the calls of `_walk_graph` share. -/
structure GraphWalk where
  budget : Budget
  node_counter : ℕ := 0
  nodes : List AstNode := []
  edges : List AstEdge := []

/-- The node is appended, and the edge from its parent. -/
def GraphWalk.append (w : GraphWalk) (c : CursorInfo) (parent_id : Option ℕ) (current_id : ℕ)
    (node : AstNode) : GraphWalk :=
  { w with
    nodes := w.nodes ++ [node]
    edges := match parent_id with
      | none => w.edges
      | some parent_id => w.edges ++ [⟨parent_id, current_id, edgeType c⟩] }

section Walk

variable (start_line end_line : Option ℤ)

mutual

/-- `_walk_graph`: the identifier that was assigned, and the state after the call. -/
def walkGraphFrom (parent_id : Option ℕ) : Cursor → GraphWalk → Acc (Option ℕ × GraphWalk)
  | .node c children, w =>
    if w.budget.exhausted then .ok (none, w)
    else do
      if !(← overlapsRange c start_line end_line) then return (none, w)
      let current_id := w.node_counter + 1
      let w := { w with node_counter := current_id }
      let node ← cursorToNode c current_id
      let (charged, budget) := w.budget.charge node
      let w := { w with budget }
      if !charged then return (none, w)
      let w := w.append c parent_id current_id node
      if w.budget.exhausted then return (some current_id, w)
      c.getChildren
      let w ← walkGraphChildren current_id children w
      return (some current_id, w)

/-- The loop of `_walk_graph` over the children. -/
def walkGraphChildren (current_id : ℕ) : List Cursor → GraphWalk → Acc GraphWalk
  | [], w => .ok w
  | child :: children, w =>
    if w.budget.exhausted then .ok w
    else do
      let (_, w) ← walkGraphFrom (some current_id) child w
      walkGraphChildren current_id children w

end

end Walk

/-! ### Diagnostics and the result -/

/-- What is read of a diagnostic. -/
structure Diagnostic where
  severity : ℤ
  spelling : String
  file : Option String
  line : ℕ
  column : ℕ

/-- A diagnostic in the answer. -/
structure ParseError where
  severity : String
  message : String
  file : Option String
  line : ℕ
  col : ℕ
  deriving DecidableEq, Repr

/-- A translation unit: its root and its diagnostics, of which each may raise as it is read. -/
structure TranslationUnit where
  cursor : Cursor
  diagnostics : List (Acc Diagnostic) := []

/-- `_severity_name`. -/
def severityName (severity : ℤ) : String :=
  match severity with
  | 0 => "NOTE"
  | 1 => "WARNING"
  | 2 => "WARNING"
  | 3 => "ERROR"
  | 4 => "FATAL"
  | severity => toString severity

/-- `_collect_diagnostics`: an exception ends the loop, what was collected stays. -/
def collectDiagnostics : List (Acc Diagnostic) → List ParseError
  | [] => []
  | .error _ :: _ => []
  | .ok diag :: diagnostics =>
    ⟨severityName diag.severity, diag.spelling, diag.file, diag.line, diag.column⟩ ::
      collectDiagnostics diagnostics

/-- What `walk_graph` returns. -/
structure GraphAst where
  nodes : List AstNode
  edges : List AstEdge
  truncated : Bool
  truncation_reason : Option String
  nodes_emitted : ℕ
  nodes_omitted_estimate : Option ℕ
  parse_errors : List ParseError

/-- `walk_graph`. -/
def walkGraph (tu : TranslationUnit) (start_line end_line : Option ℤ) (max_nodes max_bytes : ℕ) :
    Acc GraphAst := do
  let (_, w) ← walkGraphFrom start_line end_line none tu.cursor { budget := { max_nodes, max_bytes } }
  return {
    nodes := w.nodes
    edges := w.edges
    truncated := w.budget.truncated
    truncation_reason := w.budget.truncation_reason
    nodes_emitted := w.budget.nodes_emitted
    nodes_omitted_estimate := none
    parse_errors := collectDiagnostics tu.diagnostics }

end Ast
end CppMcp
