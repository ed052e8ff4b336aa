/-
# The execution protocol for Neo4j

`src/cpp_mcp/graphdb/neo4j_query_executor.py`, `_coerce_value` and `_coerce_record`, and what
`execute` does over a whole run: what it sends and in which order, how many records it pulls, and
what it makes of them (`Run.FollowsProtocol`, `execute_followsProtocol`).

The loop over the records breaks off at the first record it does not return, so it pulls one more
than `row_limit` if there is one (`fetchRows_of_coerced`, `fst_fetchRows_le`).
-/

import CppMcp.Neo4j.Executor
import CppMcp.Lib.OrderedDict
import CppMcp.Py.Json
import Mathlib.Data.List.Forall2

namespace CppMcp
namespace Neo4j

open Py (Json)

/-! ### Coercion -/

/-- A value as `json.dumps` takes it; anything that is no JSON value is written by its `str`. -/
inductive Plain where
  | null
  | bool (b : Bool)
  | int (n : ℤ)
  | float (x : Py.PyFloat)
  | str (s : String)
  | list (items : List Plain)
  | dict (items : List (String × Plain))
  | other (text : String)

mutual

/-- `json.loads(json.dumps(value, default=str))`. -/
def Plain.roundTrip : Plain → Json
  | .null => .null
  | .bool b => .bool b
  | .int n => .int n
  | .float x => .float x
  | .str s => .str s
  | .list items => .list (Plain.roundTripItems items)
  | .dict items => .dict (Plain.roundTripPairs items)
  | .other text => .str text

/-- The items of a list. -/
def Plain.roundTripItems : List Plain → List Json
  | [] => []
  | item :: items => item.roundTrip :: Plain.roundTripItems items

/-- The items of a `dict`, each with its key. -/
def Plain.roundTripPairs : List (String × Plain) → List (String × Json)
  | [] => []
  | (key, value) :: items => (key, value.roundTrip) :: Plain.roundTripPairs items

end

/-- A value of a record: an entity of the graph, or anything else. -/
inductive Value where
  | node (labels : List String) (items : List (String × Value))
  | relationship (type : String) (start_node end_node : Option String)
      (items : List (String × Value))
  | path (nodes relationships : List Value)
  | plain (value : Plain)

/-- `coerced.update(items)`. -/
def update (coerced : OrderedDict String Json) (items : List (String × Json)) :
    OrderedDict String Json :=
  items.foldl (fun d item => d.set item.1 item.2) coerced

/-- An `element_id`, or `None`. -/
def elementId : Option String → Json
  | none => .null
  | some element_id => .str element_id

mutual

/-- `_coerce_value`. -/
def coerceValue : Value → Json
  | .node labels items =>
    let coerced := OrderedDict.empty.set "_labels"
      (.list ((labels.mergeSort fun a b => a ≤ b).map Json.str))
    .dict (update coerced (coerceItems items)).items
  | .relationship type start_node end_node items =>
    let coerced := ((OrderedDict.empty.set "_type" (.str type)).set "_start"
      (elementId start_node)).set "_end" (elementId end_node)
    .dict (update coerced (coerceItems items)).items
  | .path nodes relationships =>
    .dict [("_nodes", .list (coerceValues nodes)), ("_rels", .list (coerceValues relationships))]
  | .plain value => value.roundTrip

/-- The properties of an entity. -/
def coerceItems : List (String × Value) → List (String × Json)
  | [] => []
  | (k, v) :: items => (k, coerceValue v) :: coerceItems items

/-- The entities of a path. -/
def coerceValues : List Value → List Json
  | [] => []
  | v :: values => coerceValue v :: coerceValues values

end

/-- A record of the driver: what iterating over it yields, and what `record[key]` gives. -/
structure Record (κ : Type) where
  iter : List κ
  getitem : κ → Except DriverExc Value

/-- `_coerce_record`. -/
def coerceRecord {κ : Type} [DecidableEq κ] (record : Record κ) :
    Except DriverExc (OrderedDict κ Json) :=
  record.iter.foldlM (fun row key => return row.set key (coerceValue (← record.getitem key)))
    OrderedDict.empty

/-! ### The loop over the records -/

variable {ν ρ δ : Type}

/-- The rows are what the records are coerced to, one by one. -/
def Coerced (coerceRecord : ρ → Except DriverExc δ) : List ρ → List δ → Prop :=
  List.Forall₂ fun record row => coerceRecord record = .ok row

section Fetch

variable {coerceRecord : ρ → Except DriverExc δ} {row_limit : ℕ} {failure : Option DriverExc}

/-- Records are coerced to one list of rows only. -/
theorem Coerced.unique {records : List ρ} {rows rows' : List δ}
    (h : Coerced coerceRecord records rows) (h' : Coerced coerceRecord records rows') :
    rows = rows' :=
  Relator.RightUnique.forall₂ (fun _ _ _ hx hy => Except.ok.inj (hx.symm.trans hy)) h h'

/-- **What the loop makes of records that can be coerced:** the rows up to the limit, and whether
there are more. -/
theorem fetchRows_of_coerced {records : List ρ} : ∀ {i : ℕ} {new : List δ} (rows : List δ),
    i ≤ row_limit →
    Coerced coerceRecord (records.take (row_limit - i)) new →
    (failure = none ∨ row_limit - i < records.length) →
    fetchRows coerceRecord row_limit failure i records rows =
      (min (i + records.length) (row_limit + 1),
        .ok (rows ++ new, decide (row_limit - i < records.length))) := by
  induction records with
  | nil =>
    intro i new rows hi hnew hmore
    rw [List.take_nil] at hnew
    cases hnew
    rcases hmore with rfl | hlt
    · simp [fetchRows, Nat.le_succ_of_le hi]
    · exact absurd hlt (Nat.not_lt_zero _)
  | cons record records ih =>
    intro i new rows hi hnew hmore
    rw [fetchRows]
    by_cases hlt : i < row_limit
    · obtain ⟨k, hk⟩ : ∃ k, row_limit - i = k + 1 := ⟨row_limit - i - 1, by omega⟩
      have hk' : row_limit - (i + 1) = k := by omega
      rw [hk, List.take_succ_cons] at hnew
      cases hnew with
      | @cons _ row _ new hrow hnew =>
        have hmore' : failure = none ∨ row_limit - (i + 1) < records.length :=
          hmore.imp_right fun h => by rw [List.length_cons] at h; omega
        have hrest := ih (rows ++ [row]) hlt (hk'.symm ▸ hnew) hmore'
        have hcount : i + 1 + records.length = i + (records.length + 1) := by omega
        have hbeyond : row_limit - (i + 1) < records.length ↔ row_limit - i < records.length + 1 := by
          omega
        rw [if_pos hlt, hrow]
        simp only [Nat.succ_eq_add_one] at hrest
        simp only [hrest, hcount, decide_eq_decide.mpr hbeyond, List.append_assoc,
          List.singleton_append, List.length_cons]
    · have hzero : row_limit - i = 0 := by omega
      rw [hzero, List.take_zero] at hnew
      cases hnew
      rw [if_neg hlt, hzero, List.append_nil, List.length_cons]
      simp
      omega

/-- What the loop returns are the coerced records up to the limit. -/
theorem coerced_of_fetchRows {records : List ρ} : ∀ {i n : ℕ} {rows all : List δ} {t : Bool},
    i ≤ row_limit → fetchRows coerceRecord row_limit failure i records rows = (n, .ok (all, t)) →
    ∃ new, Coerced coerceRecord (records.take (row_limit - i)) new ∧
      (failure = none ∨ row_limit - i < records.length) := by
  induction records with
  | nil =>
    intro i n rows all t _ h
    cases hfailure : failure with
    | none => exact ⟨[], by rw [List.take_nil]; exact .nil, Or.inl rfl⟩
    | some exc => simp [fetchRows, hfailure] at h
  | cons record records ih =>
    intro i n rows all t hi h
    rw [fetchRows] at h
    by_cases hlt : i < row_limit
    · obtain ⟨k, hk⟩ : ∃ k, row_limit - i = k + 1 := ⟨row_limit - i - 1, by omega⟩
      have hk' : row_limit - (i + 1) = k := by omega
      rw [if_pos hlt] at h
      cases hrow : coerceRecord record with
      | error exc => simp [hrow] at h
      | ok row =>
        rw [hrow] at h
        obtain ⟨new, hnew, hmore⟩ := ih hlt h
        rw [hk'] at hnew hmore
        rw [hk, List.take_succ_cons, List.length_cons]
        exact ⟨row :: new, .cons hrow hnew, hmore.imp_right Nat.succ_lt_succ⟩
    · rw [show row_limit - i = 0 by omega]
      exact ⟨[], .nil, Or.inr (Nat.succ_pos _)⟩

/-- The loop never pulls more than one record beyond the limit. -/
theorem fst_fetchRows_le {records : List ρ} : ∀ {i : ℕ} (rows : List δ), i ≤ row_limit →
    (fetchRows coerceRecord row_limit failure i records rows).1 ≤ row_limit + 1 := by
  induction records with
  | nil =>
    intro i rows hi
    cases failure with
    | none => exact Nat.le_succ_of_le hi
    | some exc => exact Nat.le_succ_of_le hi
  | cons record records ih =>
    intro i rows hi
    rw [fetchRows]
    by_cases hlt : i < row_limit
    · rw [if_pos hlt]
      cases coerceRecord record with
      | error exc => exact Nat.succ_le_succ hi
      | ok row => exact ih _ hlt
    · rw [if_neg hlt]
      exact Nat.succ_le_succ hi

end Fetch

/-! ### What is sent -/

/-- A node passes the check of `_walk_plan`. -/
def PlanNode.Passes (n : PlanNode) : Prop :=
  (∀ p ∈ WRITE_OPERATOR_PREFIXES, Py.startswith n.operator_type p = false) ∧
    (n.operator_type = "ProcedureCall" → n.procName ∈ READ_ONLY_PROCEDURES)

/-- A node passes in the words of the protocol exactly if the code does not refuse it. -/
theorem PlanNode.passes_iff (n : PlanNode) : n.Passes ↔ n.refused = false := by
  simp only [Passes, refused, hasWritePrefix, Bool.or_eq_false_iff, List.any_eq_false,
    Bool.not_eq_true, Bool.and_eq_false_iff, beq_eq_false_iff_ne, Bool.not_eq_eq_eq_not,
    Bool.not_false, List.contains_iff_mem, imp_iff_not_or, ne_eq]

/-- **The gate opens exactly for a plan of which every node passes.** -/
theorem enforceReadOnly_eq_ok_iff (session : Session ν ρ) (query : String)
    (parameters : List (String × ν)) (timeout_s : ℕ) :
    enforceReadOnly session query parameters timeout_s = .ok () ↔
      ∃ plan, session.explain (explainText query) parameters = .ok (some plan) ∧
        ∀ n ∈ nodes plan, n.Passes := by
  unfold enforceReadOnly
  cases session.explain (explainText query) parameters with
  | error exc =>
    refine ⟨fun h => ?_, by simp⟩
    cases hcls : exc.cls with
    | clientError =>
      simp only [hcls] at h
      split at h <;> exact absurd h (by simp)
    | _ => simp [hcls] at h
  | ok answer =>
    cases answer with
    | none => simp
    | some plan =>
      simp only [Except.ok.injEq, Option.some.injEq, exists_eq_left', PlanNode.passes_iff]
      rcases walkPlan_cases plan with ⟨hall, hwalk⟩ | ⟨⟨n, hn, hrefused⟩, m, hwalk⟩
      · exact ⟨fun _ => hall, fun _ => hwalk⟩
      · rw [hwalk]
        refine ⟨(nomatch ·), fun hall => ?_⟩
        rw [hall n hn] at hrefused
        exact absurd hrefused Bool.false_ne_true

/-- What a run of `execute` over a session is to be. -/
structure Run.FollowsProtocol (r : Run δ) (coerceRecord : ρ → Except DriverExc δ)
    (session : Session ν ρ) (query : String) (parameters : List (String × ν)) (row_limit : ℕ) :
    Prop where
  explain_first : r.sent = [explainText query] ∨ r.sent = [explainText query, query]
  sent_iff : r.sent = [explainText query, query] ↔
    ∃ plan, session.explain (explainText query) parameters = .ok (some plan) ∧
      ∀ n ∈ nodes plan, n.Passes
  no_plan : session.explain (explainText query) parameters = .ok none →
    r.sent = [explainText query]
  not_sent : r.sent = [explainText query] → r.pulled = 0 ∧ ∃ e, r.outcome = .error e
  pulled_le : r.pulled ≤ row_limit + 1
  returns : r.sent = [explainText query, query] → ∀ records rows,
    session.run query parameters = .ok records →
    Coerced coerceRecord (records.rows.take row_limit) rows →
    (records.failure = none ∨ row_limit < records.rows.length) →
      r.outcome = .ok ⟨rows, rows.length, decide (row_limit < records.rows.length)⟩ ∧
        r.pulled = min records.rows.length (row_limit + 1)
  returned : ∀ result, r.outcome = .ok result → r.sent = [explainText query, query] ∧
    ∃ records, session.run query parameters = .ok records ∧
      Coerced coerceRecord (records.rows.take row_limit) result.rows ∧
      result.rows_returned = result.rows.length ∧
      (result.truncated = true ↔ row_limit < records.rows.length)

/-- **What a run can be:** stopped at the gate, refused by the server, or what the loop gives. -/
theorem execute_cases (coerceRecord : ρ → Except DriverExc δ) (session : Session ν ρ)
    (query : String) (parameters : Option (List (String × ν))) (row_limit timeout_s : ℕ) :
    (∃ e, enforceReadOnly session query (parameters.getD []) timeout_s = .error e ∧
      execute coerceRecord (some session) query parameters row_limit timeout_s =
        ⟨[explainText query], 0, .error e⟩) ∨
    (enforceReadOnly session query (parameters.getD []) timeout_s = .ok () ∧
      ((∃ exc, session.run query (parameters.getD []) = .error exc ∧
        execute coerceRecord (some session) query parameters row_limit timeout_s =
          ⟨[explainText query, query], 0, .error (mapRunError timeout_s exc)⟩) ∨
      ∃ records n fetched, session.run query (parameters.getD []) = .ok records ∧
        fetchRows coerceRecord row_limit records.failure 0 records.rows [] = (n, fetched) ∧
        execute coerceRecord (some session) query parameters row_limit timeout_s =
          ⟨[explainText query, query], n, fetched.map fun p => ⟨p.1, p.1.length, p.2⟩⟩)) := by
  unfold execute
  dsimp only
  cases enforceReadOnly session query (parameters.getD []) timeout_s with
  | error e => exact Or.inl ⟨e, rfl, rfl⟩
  | ok u =>
    refine Or.inr ⟨rfl, ?_⟩
    cases session.run query (parameters.getD []) with
    | error exc => exact Or.inl ⟨exc, rfl, rfl⟩
    | ok records =>
      refine Or.inr ⟨records, _, _, rfl, rfl, ?_⟩
      dsimp only
      rcases fetchRows coerceRecord row_limit records.failure 0 records.rows [] with ⟨n, e | p⟩
      · rfl
      · rfl

/-- A session that is sent one text is not sent two. -/
theorem singleton_ne_pair {α : Type} {a b : α} : [a] ≠ [a, b] :=
  fun h => absurd (congrArg List.length h) (by simp)

/-- A run that is stopped at the gate keeps to the protocol. -/
theorem followsProtocol_of_stopped {coerceRecord : ρ → Except DriverExc δ} {session : Session ν ρ}
    {query : String} {parameters : List (String × ν)} {timeout_s : ℕ} {e : Error}
    (henforce : enforceReadOnly session query parameters timeout_s = .error e) (row_limit : ℕ) :
    (⟨[explainText query], 0, .error e⟩ : Run δ).FollowsProtocol coerceRecord session query
      parameters row_limit where
  explain_first := Or.inl rfl
  sent_iff := by
    refine ⟨fun h => absurd h singleton_ne_pair, fun h => ?_⟩
    rw [(enforceReadOnly_eq_ok_iff session query parameters timeout_s).mpr h] at henforce
    exact nomatch henforce
  no_plan _ := rfl
  not_sent _ := ⟨rfl, e, rfl⟩
  pulled_le := Nat.zero_le _
  returns h := absurd h singleton_ne_pair
  returned _ h := nomatch h

/-- A run that passes the gate keeps to the protocol if what it pulls and returns is right. -/
theorem followsProtocol_of_sent {coerceRecord : ρ → Except DriverExc δ} {session : Session ν ρ}
    {query : String} {parameters : List (String × ν)} {row_limit timeout_s n : ℕ}
    {outcome : Except Error (QueryResult δ)}
    (henforce : enforceReadOnly session query parameters timeout_s = .ok ())
    (hpulled : n ≤ row_limit + 1)
    (hreturns : ∀ records rows, session.run query parameters = .ok records →
      Coerced coerceRecord (records.rows.take row_limit) rows →
      (records.failure = none ∨ row_limit < records.rows.length) →
        outcome = .ok ⟨rows, rows.length, decide (row_limit < records.rows.length)⟩ ∧
          n = min records.rows.length (row_limit + 1))
    (hreturned : ∀ result, outcome = .ok result → ∃ records,
      session.run query parameters = .ok records ∧
        Coerced coerceRecord (records.rows.take row_limit) result.rows ∧
        result.rows_returned = result.rows.length ∧
        (result.truncated = true ↔ row_limit < records.rows.length)) :
    (⟨[explainText query, query], n, outcome⟩ : Run δ).FollowsProtocol coerceRecord session query
      parameters row_limit := by
  obtain ⟨plan, hplan, hpasses⟩ :=
    (enforceReadOnly_eq_ok_iff session query parameters timeout_s).mp henforce
  exact {
    explain_first := Or.inr rfl
    sent_iff := ⟨fun _ => ⟨plan, hplan, hpasses⟩, fun _ => rfl⟩
    no_plan := fun h => by
      rw [hplan] at h
      exact nomatch h
    not_sent := fun h => absurd h.symm singleton_ne_pair
    pulled_le := hpulled
    returns := fun _ => hreturns
    returned := fun result h => ⟨rfl, hreturned result h⟩ }

/-- **The execution protocol.** `EXPLAIN` goes first, and the query follows if and only if every
node of the plan passes.  What is returned then are the coerced records up to the limit, and
whether there are more; no more than one record beyond the limit is pulled. -/
theorem execute_followsProtocol {κ : Type} [DecidableEq κ] (session : Session ν (Record κ))
    (query : String) (parameters : Option (List (String × ν))) (row_limit timeout_s : ℕ) :
    (execute coerceRecord (some session) query parameters row_limit timeout_s).FollowsProtocol
      coerceRecord session query (parameters.getD []) row_limit := by
  rcases execute_cases coerceRecord session query parameters row_limit timeout_s with
    ⟨e, henforce, hr⟩ | ⟨henforce, ⟨exc, hrun, hr⟩ | ⟨records, n, fetched, hrun, hfetch, hr⟩⟩
  · rw [hr]
    exact followsProtocol_of_stopped henforce row_limit
  · rw [hr]
    refine followsProtocol_of_sent henforce (Nat.zero_le _) (fun records rows h => ?_)
      fun result h => nomatch h
    rw [hrun] at h
    exact nomatch h
  · have hpulled : n ≤ row_limit + 1 := by
      have h : (fetchRows coerceRecord row_limit records.failure 0 records.rows []).1 ≤
          row_limit + 1 := fst_fetchRows_le [] (Nat.zero_le row_limit)
      rwa [hfetch] at h
    have hreturns : ∀ rows, Coerced coerceRecord (records.rows.take row_limit) rows →
        (records.failure = none ∨ row_limit < records.rows.length) →
        fetched = .ok (rows, decide (row_limit < records.rows.length)) ∧
          n = min records.rows.length (row_limit + 1) := by
      intro rows hrows hmore
      have h := fetchRows_of_coerced [] (Nat.zero_le row_limit) hrows hmore
      rw [hfetch, Nat.zero_add, Nat.sub_zero] at h
      exact ⟨congrArg Prod.snd h, congrArg Prod.fst h⟩
    rw [hr]
    refine followsProtocol_of_sent henforce hpulled (fun records' rows h hrows hmore => ?_)
      fun result h => ?_
    · rw [hrun] at h
      cases h
      obtain ⟨rfl, hcount⟩ := hreturns rows hrows hmore
      exact ⟨rfl, hcount⟩
    · cases fetched with
      | error e => exact nomatch h
      | ok p =>
        cases h
        obtain ⟨rows, hrows, hmore⟩ := coerced_of_fetchRows (Nat.zero_le row_limit) hfetch
        obtain ⟨hfetched, -⟩ := hreturns rows hrows hmore
        cases hfetched
        exact ⟨records, hrun, hrows, rfl, decide_eq_true_iff⟩

end Neo4j
end CppMcp
