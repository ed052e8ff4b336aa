/-
# Failures of the Neo4j driver

`src/cpp_mcp/graphdb/neo4j_query_executor.py`.  The session can fail in three places: while the
`EXPLAIN` is run and consumed, when the query is started, and while its records are fetched, which the
driver does lazily.  `execute` documents what a timeout, an outage and a syntax error are to become, and
each place has its own handlers.

The handler of the `EXPLAIN` knows no outage, and the loop over the records has no handler, so the
meaning of a failure is kept exactly if it does not come there (`keepsMeaning_iff`).
-/

import CppMcp.Neo4j.Protocol

namespace CppMcp
namespace Neo4j

variable {ν ρ δ : Type}

/-! ### What a failure means -/

/-- The failures that `execute` documents. -/
inductive Meaning where
  | timeout | unavailable | syntaxError
  deriving DecidableEq

/-- What an exception of the driver means.  A transaction timeout is the `ClientError` with the code
`Neo.ClientError.Transaction.TransactionTimedOut`, which is part of its text. -/
def DriverExc.meaning (exc : DriverExc) : Option Meaning :=
  match exc.cls with
  | .cypherSyntaxError => some .syntaxError
  | .clientError =>
    if Py.contains exc.text "Neo.ClientError.Transaction.TransactionTimedOut" then some .timeout
    else none
  | .serviceUnavailable => some .unavailable
  | .other => none

/-- The exception that a failure is to become. -/
def Meaning.IsKeptBy : Meaning → Error → Prop
  | .timeout, e => ∃ m, e = .queryTimeout m
  | .unavailable, e => ∃ m, e = .dbUnreachable m
  | .syntaxError, e => ∃ m, e = .queryParse m

/-- An exception of the driver is not what it is to become. -/
theorem Meaning.not_isKeptBy_unmapped (m : Meaning) (exc : DriverExc) :
    ¬m.IsKeptBy (.unmapped exc) := by
  cases m <;> rintro ⟨_, h⟩ <;> exact nomatch h

/-- The code of a timeout has the text that the executor looks for. -/
theorem contains_timedOut {text : String}
    (h : Py.contains text "Neo.ClientError.Transaction.TransactionTimedOut" = true) :
    Py.contains text "TimedOut" = true := by
  have hpart : "TimedOut".toList <:+:
      "Neo.ClientError.Transaction.TransactionTimedOut".toList := by decide
  exact decide_eq_true (hpart.trans (of_decide_eq_true h))

/-! ### Where a run fails -/

/-- The `EXPLAIN` yields a plan of which every node passes, so the query is sent. -/
def Passes (session : Session ν ρ) (query : String) (parameters : List (String × ν)) : Prop :=
  ∃ plan, session.explain (explainText query) parameters = .ok (some plan) ∧
    ∀ n ∈ nodes plan, n.Passes

/-- The places in which a session can fail. -/
inductive Place where
  | explain | start | fetch
  deriving DecidableEq

/-- The session fails in a place that the run gets to.  Fetching fails after any number of records up
to the limit; beyond it no record is asked for. -/
inductive FailsAt (coerceRecord : ρ → Except DriverExc δ) (session : Session ν ρ) (query : String)
    (parameters : List (String × ν)) (row_limit : ℕ) : Place → DriverExc → Prop
  | explain {exc : DriverExc} (fails : session.explain (explainText query) parameters = .error exc) :
      FailsAt coerceRecord session query parameters row_limit .explain exc
  | start {exc : DriverExc} (passes : Passes session query parameters)
      (fails : session.run query parameters = .error exc) :
      FailsAt coerceRecord session query parameters row_limit .start exc
  | fetch {exc : DriverExc} {records : Records ρ} {rows : List δ}
      (passes : Passes session query parameters) (starts : session.run query parameters = .ok records)
      (coerced : Coerced coerceRecord records.rows rows) (within : records.rows.length ≤ row_limit)
      (fails : records.failure = some exc) :
      FailsAt coerceRecord session query parameters row_limit .fetch exc

/-- A place has a handler for what a failure means. -/
def Place.handles : Place → Meaning → Bool
  | .explain, .unavailable => false
  | .explain, _ => true
  | .start, _ => true
  | .fetch, _ => false

section Outcome

variable {coerceRecord : ρ → Except DriverExc δ} {session : Session ν ρ} {query : String}
  {parameters : List (String × ν)} {exc : DriverExc}

/-- What the `EXPLAIN` raises becomes what it means, an outage excepted. -/
theorem enforceReadOnly_of_fails (timeout_s : ℕ)
    (h : session.explain (explainText query) parameters = .error exc) {m : Meaning}
    (hm : exc.meaning = some m) :
    ∃ e, enforceReadOnly session query parameters timeout_s = .error e ∧
      (m.IsKeptBy e ↔ Place.explain.handles m = true) := by
  unfold enforceReadOnly
  rw [h]
  unfold DriverExc.meaning at hm
  cases hcls : exc.cls <;> simp only [hcls] at hm ⊢
  case cypherSyntaxError =>
    cases hm
    exact ⟨_, rfl, fun _ => rfl, fun _ => ⟨_, rfl⟩⟩
  case clientError =>
    split_ifs at hm with htext
    cases hm
    rw [if_pos (contains_timedOut htext)]
    exact ⟨_, rfl, fun _ => rfl, fun _ => ⟨_, rfl⟩⟩
  case serviceUnavailable =>
    cases hm
    exact ⟨_, rfl, fun hkept => absurd hkept (Meaning.not_isKeptBy_unmapped _ _), (nomatch ·)⟩
  case other => exact nomatch hm

/-- What starting the query raises becomes what it means. -/
theorem isKeptBy_mapRunError (timeout_s : ℕ) {m : Meaning} (hm : exc.meaning = some m) :
    m.IsKeptBy (mapRunError timeout_s exc) := by
  unfold DriverExc.meaning at hm
  unfold mapRunError
  cases hcls : exc.cls <;> simp only [hcls] at hm ⊢
  case cypherSyntaxError =>
    cases hm
    exact ⟨_, rfl⟩
  case clientError =>
    split_ifs at hm with htext
    cases hm
    rw [if_pos (contains_timedOut htext)]
    exact ⟨_, rfl⟩
  case serviceUnavailable =>
    cases hm
    exact ⟨_, rfl⟩
  case other => exact nomatch hm

/-- What is raised while records are fetched leaves the loop as it is. -/
theorem fetchRows_of_fails {records : List ρ} {new : List δ} {row_limit : ℕ} :
    ∀ {i : ℕ} (rows : List δ), Coerced coerceRecord records new → i + records.length ≤ row_limit →
      (fetchRows coerceRecord row_limit (some exc) i records rows).2 = .error (.unmapped exc) := by
  induction records generalizing new with
  | nil => exact fun rows _ _ => rfl
  | cons record records ih =>
    intro i rows hcoerced hlimit
    rw [List.length_cons] at hlimit
    cases hcoerced with
    | cons hrow hnew =>
      rw [fetchRows, if_pos (by omega), hrow]
      exact ih _ hnew (by omega)

end Outcome

/-! ### Kept or lost -/

/-- Whatever fails and means something ends the run with the exception for that. -/
def KeepsMeaning (coerceRecord : ρ → Except DriverExc δ) (session : Session ν ρ) (query : String)
    (parameters : List (String × ν)) (row_limit : ℕ) (r : Run δ) : Prop :=
  ∀ place exc m, FailsAt coerceRecord session query parameters row_limit place exc →
    exc.meaning = some m → ∃ e, r.outcome = .error e ∧ m.IsKeptBy e

/-- **What becomes of a failure:** it keeps its meaning if the place handles that. -/
theorem outcome_of_failsAt {coerceRecord : ρ → Except DriverExc δ} {session : Session ν ρ}
    {query : String} {parameters : Option (List (String × ν))} {row_limit : ℕ} {place : Place}
    {exc : DriverExc} {m : Meaning} (timeout_s : ℕ)
    (h : FailsAt coerceRecord session query (parameters.getD []) row_limit place exc)
    (hm : exc.meaning = some m) :
    ∃ e, (execute coerceRecord (some session) query parameters row_limit timeout_s).outcome =
      .error e ∧ (m.IsKeptBy e ↔ place.handles m = true) := by
  have hgate := enforceReadOnly_eq_ok_iff session query (parameters.getD []) timeout_s
  unfold execute
  cases h with
  | explain fails =>
    obtain ⟨e, he, hkept⟩ := enforceReadOnly_of_fails timeout_s fails hm
    dsimp only
    rw [he]
    exact ⟨e, rfl, hkept⟩
  | start passes fails =>
    dsimp only
    rw [hgate.mpr passes, fails]
    exact ⟨_, rfl, fun _ => rfl, fun _ => isKeptBy_mapRunError timeout_s hm⟩
  | @fetch _ records _ passes starts coerced within fails =>
    have hout : (fetchRows coerceRecord row_limit records.failure 0 records.rows []).2 =
        .error (.unmapped exc) := by
      rw [fails]
      exact fetchRows_of_fails [] coerced (by omega)
    dsimp only
    rw [hgate.mpr passes, starts]
    dsimp only
    generalize fetchRows coerceRecord row_limit records.failure 0 records.rows [] = r at hout ⊢
    obtain ⟨pulled, fetched⟩ := r
    cases hout
    exact ⟨_, rfl, fun hkept => absurd hkept (Meaning.not_isKeptBy_unmapped _ _), (nomatch ·)⟩

/-- **Failures keep their meaning exactly where there is a handler for it:** the `EXPLAIN` does not
fail because the service is unavailable, and fetching the records fails for none of the documented
reasons. -/
theorem keepsMeaning_iff {κ : Type} [DecidableEq κ] (session : Session ν (Record κ)) (query : String)
    (parameters : Option (List (String × ν))) (row_limit timeout_s : ℕ) :
    KeepsMeaning coerceRecord session query (parameters.getD []) row_limit
        (execute coerceRecord (some session) query parameters row_limit timeout_s) ↔
      (∀ exc, FailsAt coerceRecord session query (parameters.getD []) row_limit .explain exc →
        exc.meaning ≠ some .unavailable) ∧
      ∀ exc, FailsAt coerceRecord session query (parameters.getD []) row_limit .fetch exc →
        exc.meaning = none := by
  constructor
  · intro h
    have hhandled : ∀ place exc m,
        FailsAt coerceRecord session query (parameters.getD []) row_limit place exc →
          exc.meaning = some m → place.handles m = true := by
      intro place exc m hfails hm
      obtain ⟨e, hout, hkept⟩ := h place exc m hfails hm
      obtain ⟨e', hout', hiff⟩ := outcome_of_failsAt timeout_s hfails hm
      cases hout.symm.trans hout'
      exact hiff.mp hkept
    refine ⟨fun exc hfails hm => ?_, fun exc hfails => ?_⟩
    · exact absurd (hhandled _ _ _ hfails hm) Bool.false_ne_true
    · cases hm : exc.meaning with
      | none => rfl
      | some m => exact absurd (hhandled _ _ _ hfails hm) Bool.false_ne_true
  · rintro ⟨hexplain, hfetch⟩ place exc m hfails hm
    obtain ⟨e, hout, hiff⟩ := outcome_of_failsAt timeout_s hfails hm
    refine ⟨e, hout, hiff.mpr ?_⟩
    cases place with
    | explain =>
      cases m with
      | unavailable => exact absurd hm (hexplain exc hfails)
      | timeout => rfl
      | syntaxError => rfl
    | start => rfl
    | fetch => exact absurd ((hfetch exc hfails).symm.trans hm) (by simp)

/-! ### A timeout after the first record -/

/-- A transaction timeout. -/
def timedOut : DriverExc where
  cls := .clientError
  text := "\x7bcode: Neo.ClientError.Transaction.TransactionTimedOut\x7d \x7bmessage: The " ++
    "transaction has been terminated.\x7d"

/-- A query of one operator that times out after its first record. -/
def slowSession : Session String (Record String) where
  explain _ _ := .ok (some (.node ⟨"AllNodesScan", []⟩ []))
  run _ _ := .ok ⟨[⟨["n"], fun _ => .ok (.plain (.int 1))⟩], some timedOut⟩

/-- In the slow session the failure is at the fetching of records. -/
theorem slowSession_fails :
    FailsAt coerceRecord slowSession "MATCH (n) RETURN n" [] 200 .fetch timedOut := by
  have hcoerced : Coerced coerceRecord [⟨["n"], fun _ => .ok (.plain (.int 1))⟩]
      [OrderedDict.empty.set "n" (.int 1)] := .cons rfl .nil
  refine .fetch ⟨_, rfl, ?_⟩ rfl hcoerced (by decide) rfl
  simp only [nodes_node, List.flatMap_nil, List.mem_singleton, forall_eq, PlanNode.passes_iff]
  decide

/-- The failure of the slow session means a timeout. -/
theorem timedOut_meaning : timedOut.meaning = some .timeout := by decide

/-- **The timeout leaves the executor unmapped,** since the loop over the records is outside the
`try` that maps it. -/
theorem slowSession_loses_timeout :
    ¬KeepsMeaning coerceRecord slowSession "MATCH (n) RETURN n" [] 200
      (execute coerceRecord (some slowSession) "MATCH (n) RETURN n" none 200 30) := by
  intro h
  obtain ⟨e, hout, hkept⟩ := h .fetch timedOut .timeout slowSession_fails timedOut_meaning
  obtain ⟨e', hout', hiff⟩ : ∃ e, (execute coerceRecord (some slowSession) "MATCH (n) RETURN n" none
      200 30).outcome = .error e ∧ (Meaning.timeout.IsKeptBy e ↔ Place.fetch.handles .timeout = true) :=
    outcome_of_failsAt 30 slowSession_fails timedOut_meaning
  cases hout.symm.trans hout'
  exact absurd (hiff.mp hkept) Bool.false_ne_true

end Neo4j
end CppMcp
