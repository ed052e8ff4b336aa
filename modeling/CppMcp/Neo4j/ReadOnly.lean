/-
# What the read-only check lets through

`README.md`, "query_graphdb": the server rejects a query before execution if the
plan contains any write operator or a procedure outside the allow-list.  The
walk of `_walk_plan` knows a write operator by thirteen prefixes, and a
procedure call by its exact operator type.

Neo4j names the operators of the write clauses as in
`WRITE_CLAUSE_OPERATORS` and perhaps by further names, optionally followed by
`@<database>`; `ops` stands for all of them.  The prefixes are case-sensitive
and written in the singular: the eight names of `UNCOVERED_OPERATORS` extend
none of them, and an operator whose name does not passes
(`writes_rejected_iff`).  Prefixes do not see the `@<database>` suffix
(`hasWritePrefix_suffixed`), but the comparison with `ProcedureCall` does, so
with the suffix any procedure passes (`procedureCalls_rejected_iff`).
-/

import CppMcp.Neo4j.Executor

namespace CppMcp
namespace Neo4j

/-- The operators by which Neo4j implements `CREATE`, `MERGE`, `DELETE`,
`DETACH DELETE`, `SET`, `REMOVE`, `FOREACH` and `LOAD CSV`, and drops an index
or a constraint. -/
def WRITE_CLAUSE_OPERATORS : List String :=
  ["Create", "Merge", "Delete", "DetachDelete", "SetProperty", "SetProperties", "SetNodeProperty",
    "SetNodeProperties", "SetNodePropertiesFromMap", "SetPropertiesFromMap",
    "SetRelationshipPropertiesFromMap", "SetLabels", "RemoveLabels", "LoadCSV", "Foreach",
    "DropIndex", "DropConstraint"]

/-- Those of them that extend none of the write prefixes. -/
def UNCOVERED_OPERATORS : List String :=
  ["SetProperties", "SetNodeProperties", "SetNodePropertiesFromMap", "SetPropertiesFromMap",
    "SetRelationshipPropertiesFromMap", "LoadCSV", "DropIndex", "DropConstraint"]

/-- An operator type without its `@<database>` suffix. -/
def baseName (op : String) : String := String.ofList (op.toList.takeWhile (· ≠ '@'))

/-- The operator implements a write clause, if these are the names of such operators. -/
def PlanNode.Writes (n : PlanNode) (ops : Set String) : Prop := baseName n.operator_type ∈ ops

/-- The names of write operators that extend none of the write prefixes. -/
def uncovered (ops : Set String) : Set String :=
  {name ∈ ops | WRITE_OPERATOR_PREFIXES.any (Py.startswith name) = false}

/-- The operator is a procedure call, with or without the suffix. -/
def PlanNode.IsProcedureCall (n : PlanNode) : Prop := baseName n.operator_type = "ProcedureCall"

/-- The same operator with `@<db>` appended to its type. -/
def PlanNode.suffixed (db : String) (n : PlanNode) : PlanNode :=
  { n with operator_type := n.operator_type ++ ("@" ++ db) }

/-- An operator type is its base name, or has the suffix after it. -/
theorem eq_baseName_append (op : String) :
    op = baseName op ∨ ∃ s : String, s.toList.head? = some '@' ∧ op = baseName op ++ s := by
  have h := List.takeWhile_append_dropWhile (p := (· ≠ '@')) (l := op.toList)
  cases hd : op.toList.dropWhile (· ≠ '@') with
  | nil =>
    left
    rw [hd, List.append_nil] at h
    rw [baseName, h, String.ofList_toList]
  | cons c r =>
    right
    have hc := List.head?_dropWhile_not (· ≠ '@') op.toList
    rw [hd] at hc h
    refine ⟨String.ofList (c :: r), by simpa using hc, ?_⟩
    rw [← String.toList_inj, String.toList_append, baseName, String.toList_ofList,
      String.toList_ofList, h]

/-- No write prefix has an `@`, so none reaches into a suffix. -/
theorem at_not_mem : ∀ p ∈ WRITE_OPERATOR_PREFIXES, '@' ∉ p.toList := by decide

/-- **The prefixes do not see a suffix:** an operator type with one has the write prefixes that it
has without. -/
theorem any_prefix_append (op s : String) (hs : s.toList.head? = some '@') :
    WRITE_OPERATOR_PREFIXES.any (Py.startswith (op ++ s)) =
      WRITE_OPERATOR_PREFIXES.any (Py.startswith op) := by
  rw [Bool.eq_iff_iff, List.any_eq_true, List.any_eq_true]
  constructor
  · rintro ⟨p, hp, h⟩
    exact ⟨p, hp, Py.startswith_of_append (at_not_mem p hp) hs h⟩
  · rintro ⟨p, hp, h⟩
    exact ⟨p, hp, Py.startswith_append h s⟩

/-- The suffix of the database gives a node no write prefix and takes none from it. -/
theorem hasWritePrefix_suffixed (db : String) (n : PlanNode) :
    (n.suffixed db).hasWritePrefix = n.hasWritePrefix :=
  any_prefix_append n.operator_type ("@" ++ db) (by rw [String.toList_append]; rfl)

/-- A node with a write prefix is refused, whatever procedure it names. -/
theorem refused_of_hasWritePrefix {n : PlanNode} (h : n.hasWritePrefix = true) :
    n.refused = true := by
  rw [PlanNode.refused, h, Bool.true_or]

/-- A call without a suffix is refused if the procedure is off the list. -/
theorem refused_of_procName {n : PlanNode} (hop : n.operator_type = "ProcedureCall")
    (hproc : n.procName ∉ READ_ONLY_PROCEDURES) : n.refused = true := by
  simp [PlanNode.refused, hop, hproc]

/-- With a suffix only the write prefixes are left to refuse a node. -/
theorem refused_suffixed (db : String) (n : PlanNode) :
    (n.suffixed db).refused = n.hasWritePrefix := by
  have hne : (n.suffixed db).operator_type ≠ "ProcedureCall" := by
    intro h
    have hat : '@' ∈ (n.suffixed db).operator_type.toList := by
      simp [PlanNode.suffixed, String.toList_append]
    rw [h] at hat
    exact absurd hat (by decide)
  rw [PlanNode.refused, hasWritePrefix_suffixed]
  simp [hne]

/-- With suffixes the plans that are rejected are those with a write prefix somewhere: no other
check applies. -/
theorem exists_refused_suffixed_iff (db : String) (plan : Plan) :
    (∃ n ∈ nodes (plan.map (PlanNode.suffixed db)), n.refused = true) ↔
      ∃ n ∈ nodes plan, n.hasWritePrefix = true := by
  have hnodes : nodes (plan.map (PlanNode.suffixed db)) =
      (nodes plan).map (PlanNode.suffixed db) := Rose.subtrees_map_label _ plan
  rw [hnodes]
  simp only [List.mem_map, exists_exists_and_eq_and, refused_suffixed]

/-- Whether a node has a write prefix is decided by its base name. -/
theorem hasWritePrefix_eq_baseName (n : PlanNode) :
    n.hasWritePrefix = WRITE_OPERATOR_PREFIXES.any (Py.startswith (baseName n.operator_type)) := by
  rcases eq_baseName_append n.operator_type with h | ⟨s, hs, h⟩
  · rw [PlanNode.hasWritePrefix, ← h]
  · rw [PlanNode.hasWritePrefix]
    conv_lhs => rw [h]
    exact any_prefix_append _ s hs

/-- A write operator has a write prefix, unless it is one of the uncovered ones: the prefixes do not see
the suffix, so the base name decides. -/
theorem PlanNode.Writes.hasWritePrefix_iff {ops : Set String} {n : PlanNode} (h : n.Writes ops) :
    n.hasWritePrefix = true ↔ baseName n.operator_type ∉ uncovered ops := by
  rw [hasWritePrefix_eq_baseName, ← Bool.not_eq_false, not_iff_not]
  exact ⟨fun hnone => ⟨h, hnone⟩, fun hmem => hmem.2⟩

/-- Among the names that are known, the uncovered ones are the eight. -/
theorem mem_uncovered_iff {ops : Set String} (hops : ∀ name ∈ WRITE_CLAUSE_OPERATORS, name ∈ ops)
    {name : String} (hname : name ∈ WRITE_CLAUSE_OPERATORS) :
    name ∈ uncovered ops ↔ name ∈ UNCOVERED_OPERATORS := by
  have table : ∀ name ∈ WRITE_CLAUSE_OPERATORS,
      (WRITE_OPERATOR_PREFIXES.any (Py.startswith name) = false ↔ name ∈ UNCOVERED_OPERATORS) := by
    decide
  rw [← table name hname]
  exact ⟨fun hmem => hmem.2, fun hnone => ⟨hops name hname, hnone⟩⟩

section

variable {ν ρ δ : Type} (coerceRecord : ρ → Except DriverExc δ) (session : Session ν ρ) (query : String)
  (parameters : Option (List (String × ν))) (row_limit timeout_s : ℕ)

/-- **When writes are rejected.**  Let `ops` be the names of the operators of the
write clauses, the seventeen that are known among them.  A plan with such an
operator is rejected before the query is sent if and only if none of its
operators has an uncovered name, or some operator is refused all the same: it has
one of the thirteen prefixes, or calls a procedure off the list.  Eight of the
seventeen names are uncovered. -/
theorem writes_rejected_iff {ops : Set String} (hops : ∀ name ∈ WRITE_CLAUSE_OPERATORS, name ∈ ops)
    {plan : Plan} (hplan : session.explain (explainText query) (parameters.getD []) = .ok (some plan)) :
    (((∃ n ∈ nodes plan, n.Writes ops) →
        (execute coerceRecord (some session) query parameters row_limit timeout_s).Rejected query) ↔
      (∀ n ∈ nodes plan, baseName n.operator_type ∉ uncovered ops) ∨
        ∃ n ∈ nodes plan, n.refused = true) ∧
    ∀ name ∈ WRITE_CLAUSE_OPERATORS, name ∈ uncovered ops ↔ name ∈ UNCOVERED_OPERATORS := by
  refine ⟨?_, fun name => mem_uncovered_iff hops⟩
  rw [execute_rejected_iff _ _ _ _ _ _ hplan]
  constructor
  · intro h
    by_cases hun : ∃ n ∈ nodes plan, baseName n.operator_type ∈ uncovered ops
    · obtain ⟨n, hn, hmem⟩ := hun
      exact Or.inr (h ⟨n, hn, hmem.1⟩)
    · exact Or.inl fun n hn hmem => hun ⟨n, hn, hmem⟩
  · rintro (hcov | href) ⟨n, hn, hw⟩
    · exact ⟨n, hn, refused_of_hasWritePrefix (hw.hasWritePrefix_iff.mpr (hcov n hn))⟩
    · exact href

/-- **When procedure calls are rejected.**  A plan with a call of a procedure off
the allow-list is rejected before the query is sent if and only if no such call
carries the `@<database>` suffix, or some operator is refused all the same.
Appending a suffix to every operator leaves the verdict alone if and only if the
plan has an operator with a write prefix, or every call without the suffix names
a listed procedure. -/
theorem procedureCalls_rejected_iff {plan : Plan} (db : String) (session' : Session ν ρ)
    (hplan : session.explain (explainText query) (parameters.getD []) = .ok (some plan))
    (hplan' : session'.explain (explainText query) (parameters.getD []) =
      .ok (some (plan.map (PlanNode.suffixed db)))) :
    ((∀ n ∈ nodes plan, n.IsProcedureCall → n.procName ∉ READ_ONLY_PROCEDURES →
        (execute coerceRecord (some session) query parameters row_limit timeout_s).Rejected query) ↔
      (∀ n ∈ nodes plan, n.IsProcedureCall → n.operator_type ≠ "ProcedureCall" →
        n.procName ∈ READ_ONLY_PROCEDURES) ∨ ∃ n ∈ nodes plan, n.refused = true) ∧
    (((execute coerceRecord (some session') query parameters row_limit timeout_s).Rejected query ↔
        (execute coerceRecord (some session) query parameters row_limit timeout_s).Rejected query) ↔
      (∃ n ∈ nodes plan, n.hasWritePrefix = true) ∨
        ∀ n ∈ nodes plan, n.operator_type = "ProcedureCall" →
          n.procName ∈ READ_ONLY_PROCEDURES) := by
  rw [execute_rejected_iff _ _ _ _ _ _ hplan, execute_rejected_iff _ _ _ _ _ _ hplan',
    exists_refused_suffixed_iff]
  constructor
  · constructor
    · intro h
      by_cases hoff : ∃ n ∈ nodes plan, n.IsProcedureCall ∧ n.procName ∉ READ_ONLY_PROCEDURES
      · obtain ⟨n, hn, hcall, hproc⟩ := hoff
        exact Or.inr (h n hn hcall hproc)
      · exact Or.inl fun n hn hcall _ => by_contra fun hproc => hoff ⟨n, hn, hcall, hproc⟩
    · rintro (hlisted | href) n hn hcall hproc
      · by_cases hop : n.operator_type = "ProcedureCall"
        · exact ⟨n, hn, refused_of_procName hop hproc⟩
        · exact absurd (hlisted n hn hcall hop) hproc
      · exact href
  · constructor
    · intro h
      by_cases hoff : ∃ n ∈ nodes plan, n.operator_type = "ProcedureCall" ∧
          n.procName ∉ READ_ONLY_PROCEDURES
      · obtain ⟨n, hn, hop, hproc⟩ := hoff
        exact Or.inl (h.mpr ⟨n, hn, refused_of_procName hop hproc⟩)
      · exact Or.inr fun n hn hop => by_contra fun hproc => hoff ⟨n, hn, hop, hproc⟩
    · intro h
      constructor
      · rintro ⟨n, hn, hpre⟩
        exact ⟨n, hn, refused_of_hasWritePrefix hpre⟩
      · rintro ⟨n, hn, hr⟩
        rcases h with hpre | hlisted
        · exact hpre
        · refine ⟨n, hn, ?_⟩
          by_cases hop : n.operator_type = "ProcedureCall"
          · simpa [PlanNode.refused, hop, hlisted n hn hop] using hr
          · simpa [PlanNode.refused, hop] using hr

end

/-! ### Two queries that get through -/

/-- A session that answers every `EXPLAIN` with `plan` and every query with no
records. -/
def answering (plan : Plan) : Session Unit Unit where
  explain _ _ := .ok (some plan)
  run _ _ := .ok ⟨[], none⟩

/-- The plan of `MATCH (n) SET n = $props`. -/
def setFromMapPlan : Plan :=
  .node ⟨"ProduceResults@neo4j", []⟩
    [.node ⟨"SetNodePropertiesFromMap@neo4j", []⟩ [.node ⟨"AllNodesScan@neo4j", []⟩ []]]

/-- The plan of `CALL apoc.create.node(['A'], {})`, as a server without the
suffix would name its operators. -/
def apocCreatePlan : Plan :=
  .node ⟨"ProduceResults", []⟩
    [.node ⟨"ProcedureCall", [("Details", "apoc.create.node(['A'], {}) :: (node :: NODE)")]⟩ []]

/-- No operator of the plan that sets properties from a map is refused. -/
theorem setFromMap_passes : ∀ n ∈ nodes setFromMapPlan, n.refused = false := by
  simp only [setFromMapPlan, nodes_node, List.flatMap_cons, List.flatMap_nil, List.append_nil,
    List.mem_cons, List.not_mem_nil, or_false, forall_eq_or_imp, forall_eq]
  decide

/-- With the suffix, no operator of the plan that calls the procedure is refused. -/
theorem apocCreate_suffixed_passes :
    ∀ n ∈ nodes (apocCreatePlan.map (PlanNode.suffixed "neo4j")), n.refused = false := by
  simp only [apocCreatePlan, Rose.map, Rose.mapList, nodes_node, List.flatMap_cons,
    List.flatMap_nil, List.append_nil, List.mem_cons, List.not_mem_nil, or_false,
    forall_eq_or_imp, forall_eq]
  decide

/-- The names that are known, and no further ones. -/
def knownOperators : Set String := {name | name ∈ WRITE_CLAUSE_OPERATORS}

/-- **A `SET` from a map reaches the database:** its operator has none of the
prefixes. -/
theorem setFromMap_not_rejected :
    ¬((∃ n ∈ nodes setFromMapPlan, n.Writes knownOperators) →
      (execute .ok (some (answering setFromMapPlan)) "MATCH (n) SET n = $props" none 10 30).Rejected
        "MATCH (n) SET n = $props") ∧
    "MATCH (n) SET n = $props" ∈
      (execute .ok (some (answering setFromMapPlan)) "MATCH (n) SET n = $props" none 10 30).sent := by
  refine ⟨fun h => ?_, mem_sent_of_not_refused _ _ _ _ _ _ rfl setFromMap_passes⟩
  have hname : baseName "SetNodePropertiesFromMap@neo4j" ∈ WRITE_CLAUSE_OPERATORS := by decide
  have hw : ∃ n ∈ nodes setFromMapPlan, n.Writes knownOperators :=
    ⟨⟨"SetNodePropertiesFromMap@neo4j", []⟩, by simp [setFromMapPlan], hname⟩
  obtain ⟨n, hn, hr⟩ := (execute_rejected_iff _ _ _ _ _ _ rfl).mp (h hw)
  rw [setFromMap_passes n hn] at hr
  exact absurd hr Bool.false_ne_true

/-- `writes_rejected_iff` at that plan, if Neo4j has two more names for its write operators. -/
theorem writes_rejected_iff_setFromMap :
    ((∃ n ∈ nodes setFromMapPlan,
        n.Writes (knownOperators ∪ {"LockingMerge", "SubqueryForeach"})) →
        (execute .ok (some (answering setFromMapPlan)) "MATCH (n) SET n = $props" none 10
          30).Rejected "MATCH (n) SET n = $props") ↔
      (∀ n ∈ nodes setFromMapPlan,
        baseName n.operator_type ∉ uncovered (knownOperators ∪ {"LockingMerge", "SubqueryForeach"})) ∨
        ∃ n ∈ nodes setFromMapPlan, n.refused = true :=
  (writes_rejected_iff .ok (answering setFromMapPlan) _ none 10 30 (fun _ h => Or.inl h) rfl).1

/-- **With the suffix, a procedure off the list is called.**  The server that
names the operator `ProcedureCall` is protected, the one that names it
`ProcedureCall@neo4j` is not. -/
theorem apocCreate_suffixed_not_rejected :
    ¬(∀ n ∈ nodes (apocCreatePlan.map (PlanNode.suffixed "neo4j")), n.IsProcedureCall →
        n.procName ∉ READ_ONLY_PROCEDURES →
        (execute .ok (some (answering (apocCreatePlan.map (PlanNode.suffixed "neo4j"))))
          "CALL apoc.create.node(['A'], {})" none 10 30).Rejected
            "CALL apoc.create.node(['A'], {})") ∧
    (execute .ok (some (answering apocCreatePlan)) "CALL apoc.create.node(['A'], {})" none 10
      30).Rejected "CALL apoc.create.node(['A'], {})" := by
  have hcall : (⟨"ProcedureCall",
      [("Details", "apoc.create.node(['A'], {}) :: (node :: NODE)")]⟩ : PlanNode) ∈
      nodes apocCreatePlan := by simp [apocCreatePlan]
  constructor
  · intro h
    have hmem := List.mem_map_of_mem (f := PlanNode.suffixed "neo4j") hcall
    rw [nodes, ← Rose.subtrees_map_label] at hmem
    obtain ⟨n, hn, hr⟩ := (execute_rejected_iff _ _ _ _ _ _ rfl).mp
      (h _ hmem (by unfold PlanNode.IsProcedureCall; decide) (by decide))
    rw [apocCreate_suffixed_passes n hn] at hr
    exact absurd hr Bool.false_ne_true
  · exact (execute_rejected_iff _ _ _ _ _ _ rfl).mpr ⟨_, hcall, by decide⟩

/-- `procedureCalls_rejected_iff` at that plan, whose operator is a procedure call without a suffix.
-/
theorem procedureCalls_rejected_iff_apocCreate :
    ((∀ n ∈ nodes apocCreatePlan, n.IsProcedureCall → n.procName ∉ READ_ONLY_PROCEDURES →
        (execute .ok (some (answering apocCreatePlan)) "CALL apoc.create.node(['A'], {})" none 10
          30).Rejected "CALL apoc.create.node(['A'], {})") ↔
      (∀ n ∈ nodes apocCreatePlan, n.IsProcedureCall → n.operator_type ≠ "ProcedureCall" →
        n.procName ∈ READ_ONLY_PROCEDURES) ∨ ∃ n ∈ nodes apocCreatePlan, n.refused = true) ∧
    (((execute .ok (some (answering (apocCreatePlan.map (PlanNode.suffixed "neo4j"))))
        "CALL apoc.create.node(['A'], {})" none 10 30).Rejected
          "CALL apoc.create.node(['A'], {})" ↔
      (execute .ok (some (answering apocCreatePlan)) "CALL apoc.create.node(['A'], {})" none 10
        30).Rejected "CALL apoc.create.node(['A'], {})") ↔
      (∃ n ∈ nodes apocCreatePlan, n.hasWritePrefix = true) ∨
        ∀ n ∈ nodes apocCreatePlan, n.operator_type = "ProcedureCall" →
          n.procName ∈ READ_ONLY_PROCEDURES) :=
  procedureCalls_rejected_iff .ok (answering apocCreatePlan) _ none 10 30 "neo4j"
    (answering (apocCreatePlan.map (PlanNode.suffixed "neo4j"))) rfl rfl

end Neo4j
end CppMcp
