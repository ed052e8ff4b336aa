/-
# The read-only query executor for Neo4j

`src/cpp_mcp/graphdb/neo4j_query_executor.py`.  `execute` first sends
`EXPLAIN <query>`, walks the plan tree the server answers with, and sends the
query itself only if the walk lets the plan pass (`_walk_plan`,
`_enforce_read_only`, `execute`).

The Neo4j driver is outside the repository: a `Session` is what it answers to a
query text and its parameters, or the exception it raises.  Records are fetched
lazily, so a stream of records may end in an exception, and what is made of a
record may raise too.  A run records the texts sent, in order, and how many
records were pulled from the stream; the elapsed time `ms` is left out.
-/

import CppMcp.Lib.Rose
import CppMcp.Py.Str

namespace CppMcp
namespace Neo4j

/-- One operator of a plan: `operator_type` and the string-valued entries of
`arguments`, the two of which that the walk reads being strings. -/
structure PlanNode where
  operator_type : String
  arguments : List (String × String)

/-- A plan tree. -/
abbrev Plan := Rose PlanNode

/-- The exception classes of the driver that the executor tells apart; a
`CypherSyntaxError` is a `ClientError`. -/
inductive ExcClass where
  | cypherSyntaxError | clientError | serviceUnavailable | other
  deriving DecidableEq

/-- An exception that is not one of the executor's own: its class and `str(exc)`. -/
structure DriverExc where
  cls : ExcClass
  text : String
  deriving DecidableEq

/-- The exceptions that leave the executor: those of `core/error_envelope.py`
with their message, and a driver exception that no clause catches. -/
inductive Error where
  | readOnlyViolation (message : String)
  | queryParse (message : String)
  | queryTimeout (message : String)
  | dbUnreachable (message : String)
  | unmapped (exc : DriverExc)
  deriving DecidableEq

/-- `WRITE_OPERATOR_PREFIXES`. -/
def WRITE_OPERATOR_PREFIXES : List String :=
  ["Create", "Merge", "Delete", "DetachDelete", "SetProperty", "SetLabels", "SetNodeProperty",
    "SetRelationshipProperty", "RemoveLabels", "RemoveProperty", "LoadCsv", "Foreach",
    "EmptyResult"]

/-- `READ_ONLY_PROCEDURES`. -/
def READ_ONLY_PROCEDURES : List String :=
  ["db.labels", "db.relationshipTypes", "db.propertyKeys", "db.schema.visualization",
    "db.schema.nodeTypeProperties", "db.schema.relTypeProperties"]

/-- `plan.arguments.get("Details") or plan.arguments.get("name", "")`. -/
def PlanNode.rawProcedure (n : PlanNode) : String :=
  match n.arguments.lookup "Details" with
  | some details => if details = "" then (n.arguments.lookup "name").getD "" else details
  | none => (n.arguments.lookup "name").getD ""

/-- The procedure a node names: `raw.split("(")[0].strip()`. -/
def PlanNode.procName (n : PlanNode) : String :=
  Py.strip (String.ofList (n.rawProcedure.toList.takeWhile (· ≠ '(')))

/-- The operator type starts with one of the write prefixes. -/
def PlanNode.hasWritePrefix (n : PlanNode) : Bool :=
  WRITE_OPERATOR_PREFIXES.any (Py.startswith n.operator_type)

/-- The check `_walk_plan` makes at one node, before it goes to the children. -/
def checkNode (n : PlanNode) : Except Error Unit :=
  if n.hasWritePrefix then
    .error (.readOnlyViolation ("Cypher operator " ++ Py.repr n.operator_type ++
      " is not permitted in read-only queries (ADR-22)"))
  else if n.operator_type = "ProcedureCall" then
    if n.procName ∈ READ_ONLY_PROCEDURES then .ok ()
    else .error (.readOnlyViolation ("Procedure " ++ Py.repr n.procName ++
      " is not in the read-only allowlist (ADR-22)"))
  else .ok ()

mutual

/-- `_walk_plan`. -/
def walkPlan : Plan → Except Error Unit
  | .node n children => do
    checkNode n
    walkPlans children

/-- The loop of `_walk_plan` over the children. -/
def walkPlans : List Plan → Except Error Unit
  | [] => .ok ()
  | child :: rest => do
    walkPlan child
    walkPlans rest

end

/-- A stream of records: what it yields, and the exception it raises when more
is asked for, if it does not just end. -/
structure Records (ρ : Type) where
  rows : List ρ
  failure : Option DriverExc

/-- What the driver answers in a session to a query text with its parameters:
to an `EXPLAIN`, the plan of the consumed summary (`None` if there is none); to
any query, its records. -/
structure Session (ν ρ : Type) where
  explain : String → List (String × ν) → Except DriverExc (Option Plan)
  run : String → List (String × ν) → Except DriverExc (Records ρ)

/-- `QueryResult`, without the elapsed time. -/
structure QueryResult (δ : Type) where
  rows : List δ
  rows_returned : ℕ
  truncated : Bool
  deriving DecidableEq

/-- A run of `execute`: the query texts sent to the session, in order, the
number of records pulled, and what the method returns or raises. -/
structure Run (δ : Type) where
  sent : List String
  pulled : ℕ
  outcome : Except Error (QueryResult δ)

/-- `f"EXPLAIN {query}"`. -/
def explainText (query : String) : String := "EXPLAIN " ++ query

variable {ν ρ δ : Type}

/-- `_enforce_read_only`. -/
def enforceReadOnly (session : Session ν ρ) (query : String) (parameters : List (String × ν))
    (timeout_s : ℕ) : Except Error Unit :=
  match session.explain (explainText query) parameters with
  | .error exc =>
    match exc.cls with
    | .cypherSyntaxError => .error (.queryParse ("Cypher syntax error: " ++ exc.text))
    | .clientError =>
      if Py.contains exc.text "TimedOut" then
        .error (.queryTimeout ("EXPLAIN timed out after " ++ toString timeout_s ++ "s: " ++ exc.text))
      else .error (.queryParse ("Cypher error during EXPLAIN: " ++ exc.text))
    | _ => .error (.unmapped exc)
  | .ok none =>
    .error (.queryParse "EXPLAIN returned no plan (unexpected; query may be unparseable)")
  | .ok (some plan) => walkPlan plan

/-- The loop over the records from record `i` on, with the rows already coerced:
the number of records pulled, and the rows with the truncation flag. -/
def fetchRows (coerceRecord : ρ → Except DriverExc δ) (row_limit : ℕ)
    (failure : Option DriverExc) :
    ℕ → List ρ → List δ → ℕ × Except Error (List δ × Bool)
  | i, [], rows =>
    match failure with
    | none => (i, .ok (rows, false))
    | some exc => (i, .error (.unmapped exc))
  | i, record :: rest, rows =>
    if i < row_limit then
      match coerceRecord record with
      | .error exc => (i + 1, .error (.unmapped exc))
      | .ok row => fetchRows coerceRecord row_limit failure (i + 1) rest (rows ++ [row])
    else (i + 1, .ok (rows, true))

/-- The exceptions of starting the query, as `execute` maps them. -/
def mapRunError (timeout_s : ℕ) (exc : DriverExc) : Error :=
  match exc.cls with
  | .cypherSyntaxError => .queryParse ("Cypher syntax error: " ++ exc.text)
  | .clientError =>
    if Py.contains exc.text "TimedOut" then
      .queryTimeout ("Query timed out after " ++ toString timeout_s ++ "s: " ++ exc.text)
    else .dbUnreachable ("Neo4j client error: " ++ exc.text)
  | .serviceUnavailable => .dbUnreachable ("Neo4j service unavailable: " ++ exc.text)
  | .other => .unmapped exc

/-- `Neo4jQueryExecutor.execute`; `session` is `none` before `connect`. -/
def execute (coerceRecord : ρ → Except DriverExc δ) (session : Option (Session ν ρ)) (query : String)
    (parameters : Option (List (String × ν))) (row_limit timeout_s : ℕ) : Run δ :=
  match session with
  | none => ⟨[], 0, .error (.dbUnreachable "execute() called before connect()")⟩
  | some session =>
    let params := parameters.getD []
    match enforceReadOnly session query params timeout_s with
    | .error e => ⟨[explainText query], 0, .error e⟩
    | .ok () =>
      match session.run query params with
      | .error exc => ⟨[explainText query, query], 0, .error (mapRunError timeout_s exc)⟩
      | .ok result =>
        match fetchRows coerceRecord row_limit result.failure 0 result.rows [] with
        | (pulled, .error e) => ⟨[explainText query, query], pulled, .error e⟩
        | (pulled, .ok (rows, truncated)) =>
          ⟨[explainText query, query], pulled, .ok ⟨rows, rows.length, truncated⟩⟩

/-! ### What the walk decides -/

/-- The operators of a plan, in preorder. -/
def nodes (plan : Plan) : List PlanNode := plan.subtrees.map Rose.label

/-- `_walk_plan` refuses the node itself. -/
def PlanNode.refused (n : PlanNode) : Bool :=
  n.hasWritePrefix || (n.operator_type == "ProcedureCall" && !READ_ONLY_PROCEDURES.contains n.procName)

/-- The operators of a plan are its own operator and those below it, in the order of the walk. -/
@[simp] theorem nodes_node (n : PlanNode) (children : List Plan) :
    nodes (.node n children) = n :: children.flatMap nodes := by
  simp only [nodes, Rose.subtrees_node, List.map_cons, Rose.label_node, List.map_flatMap]
  rfl

/-- The check of a node passes, or it is a read-only violation. -/
theorem checkNode_cases (n : PlanNode) :
    (n.refused = false ∧ checkNode n = .ok ()) ∨
      (n.refused = true ∧ ∃ m, checkNode n = .error (.readOnlyViolation m)) := by
  unfold checkNode PlanNode.refused
  split_ifs <;> simp_all

/-- **The walk looks at every operator of the tree:** it passes exactly the plans
none of whose operators is refused, and what it raises is a violation. -/
theorem walkPlan_cases (plan : Plan) :
    ((∀ n ∈ nodes plan, n.refused = false) ∧ walkPlan plan = .ok ()) ∨
      ((∃ n ∈ nodes plan, n.refused = true) ∧
        ∃ m, walkPlan plan = .error (.readOnlyViolation m)) := by
  induction plan using Rose.induct with
  | node n children ih =>
    rw [walkPlan, nodes_node]
    rcases checkNode_cases n with ⟨hn, hok⟩ | ⟨hn, m, herr⟩
    · have rest : ∀ cs : List Plan, (∀ c ∈ cs, c ∈ children) →
          ((∀ n ∈ cs.flatMap nodes, n.refused = false) ∧ walkPlans cs = .ok ()) ∨
            ((∃ n ∈ cs.flatMap nodes, n.refused = true) ∧
              ∃ m, walkPlans cs = .error (.readOnlyViolation m)) := by
        intro cs hcs
        induction cs with
        | nil => exact Or.inl ⟨by simp, by rw [walkPlans]⟩
        | cons c cs ihcs =>
          rw [walkPlans, List.flatMap_cons]
          rcases ih c (hcs c List.mem_cons_self) with ⟨hc, hwalk⟩ | ⟨⟨x, hx, hr⟩, m, hwalk⟩
          · rw [hwalk]
            rcases ihcs fun d h => hcs d (List.mem_cons_of_mem _ h) with
              ⟨hall, hrest⟩ | ⟨⟨x, hx, hr⟩, m, hrest⟩
            · exact Or.inl ⟨by simpa [or_imp, forall_and] using ⟨hc, by simpa using hall⟩, hrest⟩
            · exact Or.inr ⟨⟨x, List.mem_append_right _ hx, hr⟩, m, hrest⟩
          · exact Or.inr ⟨⟨x, List.mem_append_left _ hx, hr⟩, m, by rw [hwalk]; rfl⟩
      rw [hok]
      rcases rest children fun _ h => h with ⟨hall, hwalk⟩ | ⟨⟨x, hx, hr⟩, m, hwalk⟩
      · refine Or.inl ⟨fun x hx => ?_, hwalk⟩
        rcases List.mem_cons.mp hx with rfl | hx
        · exact hn
        · exact hall x hx
      · exact Or.inr ⟨⟨x, List.mem_cons_of_mem _ hx, hr⟩, m, hwalk⟩
    · exact Or.inr ⟨⟨n, List.mem_cons_self, hn⟩, m, by rw [herr]; rfl⟩

/-- The outcome is a read-only violation and nothing but the `EXPLAIN` was sent. -/
def Run.Rejected (r : Run δ) (query : String) : Prop :=
  r.sent = [explainText query] ∧ ∃ m, r.outcome = .error (.readOnlyViolation m)

variable (coerceRecord : ρ → Except DriverExc δ) (session : Session ν ρ) (query : String)
  (parameters : Option (List (String × ν))) (row_limit timeout_s : ℕ)

/-- **`execute` rejects a query exactly when its plan has a refused operator.** -/
theorem execute_rejected_iff {plan : Plan}
    (hplan : session.explain (explainText query) (parameters.getD []) = .ok (some plan)) :
    (execute coerceRecord (some session) query parameters row_limit timeout_s).Rejected query ↔
      ∃ n ∈ nodes plan, n.refused = true := by
  have henf : enforceReadOnly session query (parameters.getD []) timeout_s = walkPlan plan := by
    unfold enforceReadOnly
    rw [hplan]
  unfold execute Run.Rejected
  rcases walkPlan_cases plan with ⟨hall, hwalk⟩ | ⟨hex, m, hwalk⟩
  · constructor
    · rintro ⟨hsent, -⟩
      simp only [henf, hwalk] at hsent
      -- the query is sent too, whatever comes of it
      split at hsent
      · simp at hsent
      · split at hsent <;> simp at hsent
    · rintro ⟨n, hn, hr⟩
      rw [hall n hn] at hr
      exact absurd hr Bool.false_ne_true
  · simp only [henf, hwalk]
    exact ⟨fun _ => hex, fun _ => ⟨trivial, m, rfl⟩⟩

/-- A query of which no operator is refused is sent, whatever becomes of it then. -/
theorem mem_sent_of_not_refused {plan : Plan}
    (hplan : session.explain (explainText query) (parameters.getD []) = .ok (some plan))
    (h : ∀ n ∈ nodes plan, n.refused = false) :
    query ∈ (execute coerceRecord (some session) query parameters row_limit timeout_s).sent := by
  have henf : enforceReadOnly session query (parameters.getD []) timeout_s = walkPlan plan := by
    unfold enforceReadOnly
    rw [hplan]
  rcases walkPlan_cases plan with ⟨-, hwalk⟩ | ⟨⟨n, hn, hr⟩, -⟩
  · unfold execute
    simp only [henf, hwalk]
    split
    · simp
    · split <;> simp
  · rw [h n hn] at hr
    exact absurd hr Bool.false_ne_true

end Neo4j
end CppMcp
