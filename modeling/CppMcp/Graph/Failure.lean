/-
# What a failing call leaves behind

`Writes` says of a program how many calls it makes, what store it leaves if none of them fails,
and what store it leaves if call `i` is the first that does.  A transaction that fails leaves
the store as it was; the requests of the IndraDB driver stay, one by one.

A file is written by `GraphDriver.pass`: on Neo4j in one transaction for the nodes and
another for the edges (`Neo4j.writes_pass`), on IndraDB in the requests of all its
records (`IndraDB.writes_pass`).
-/

import CppMcp.Graph.Backend
import CppMcp.Graph.IndraDBRequests
import CppMcp.Graph.Neo4jRequests

namespace CppMcp
namespace Graph

open Export (Exc NodeRecord EdgeRecord)

/-- Started at `c`, the program makes `n` calls.  It answers `answer` and leaves the store `done`
if none of them fails, and leaves `left i` if call `i` is the first that fails. -/
structure Writes {σ α : Type} (x : Action (Client σ) α) (c : Client σ) (n : ℕ) (answer : α)
    (done : σ) (left : ℕ → σ) : Prop where
  ok : (∀ i < n, c.fault (c.calls + i) = none) →
    x c = .ok answer { c with store := done, calls := c.calls + n }
  error : ∀ i, c.FailsAt n i →
    ∃ exc, x c = .error exc { c with store := left i, calls := c.calls + i + 1 }

/-- There is only one call that is the first to fail. -/
theorem Client.FailsAt.unique {σ : Type} {c : Client σ} {n i j : ℕ} (hi : c.FailsAt n i)
    (hj : c.FailsAt n j) : i = j := by
  rcases Nat.lt_trichotomy i j with h | h | h
  · exact absurd (hj.before i h) hi.fault
  · exact h
  · exact absurd (hi.before j h) hj.fault

namespace Writes

variable {σ α β ω : Type} {run : ω → σ → σ} {x : Action (Client σ) α}
  {k : α → Action (Client σ) β} {c : Client σ} {n n' : ℕ} {a : α} {b : β} {done done' : σ}
  {left left' : ℕ → σ}

/-- What is left counts only for the calls that the program makes. -/
theorem congr (h : Writes x c n a done left) (hleft : ∀ i < n, left i = left' i) :
    Writes x c n a done left' :=
  ⟨h.ok, fun i hi => by rw [← hleft i hi.lt]; exact h.error i hi⟩

/-- A program that only returns makes no call. -/
protected theorem pure (a : α) (left : ℕ → σ) : Writes (pure a) c 0 a c.store left :=
  ⟨fun _ => rfl, fun i hi => absurd hi.lt (Nat.not_lt_zero i)⟩

/-- Two programs one after the other: where the first call to fail is one of the first program, that
program's remains are left, and else those of the second. -/
protected theorem bind (hx : Writes x c n a done left)
    (hk : Writes (k a) { c with store := done, calls := c.calls + n } n' b done' left') :
    Writes (x >>= k) c (n + n') b done' fun i => if i < n then left i else left' (i - n) where
  ok h := by
    rw [bind_of_ok (hx.ok fun i hi => h i (Nat.lt_add_right n' hi)), hk.ok fun i hi => ?_]
    · rw [Nat.add_assoc]
    · rw [Nat.add_assoc]
      exact h (n + i) (Nat.add_lt_add_left hi n)
  error i hi := by
    by_cases hin : i < n
    · obtain ⟨exc, hexc⟩ := hx.error i ⟨hin, hi.fault, hi.before⟩
      exact ⟨exc, by rw [bind_of_error hexc, if_pos hin]⟩
    · -- the first program makes all its calls
      obtain ⟨j, rfl⟩ := Nat.exists_eq_add_of_le (Nat.le_of_not_lt hin)
      have hlater : Client.FailsAt { c with store := done, calls := c.calls + n } n' j := by
        refine ⟨Nat.lt_of_add_lt_add_left hi.lt, ?_, fun j' hj' => ?_⟩
        · rw [Nat.add_assoc]
          exact hi.fault
        · rw [Nat.add_assoc]
          exact hi.before (n + j') (Nat.add_lt_add_left hj' n)
      obtain ⟨exc, hexc⟩ := hk.error j hlater
      refine ⟨exc, ?_⟩
      rw [bind_of_ok (hx.ok fun i hi' => hi.before i (Nat.lt_add_right j hi')), hexc, if_neg hin,
        Nat.add_sub_cancel_left, Nat.add_assoc c.calls]

/-- Answering something else changes nothing about the calls. -/
protected theorem map (f : α → β) (hx : Writes x c n a done left) :
    Writes (do let a ← x; return f a) c n (f a) done left where
  ok h := bind_of_ok (hx.ok h)
  error i hi := by
    obtain ⟨exc, hexc⟩ := hx.error i hi
    exact ⟨exc, bind_of_error hexc⟩

/-- One call: if it fails, the store is as it was. -/
protected theorem call (f : σ → α × σ) (c : Client σ) :
    Writes (call f) c 1 (f c.store).1 (f c.store).2 fun _ => c.store where
  ok h := call_ok (h 0 Nat.zero_lt_one)
  error i hi := by
    obtain rfl := Nat.lt_one_iff.mp hi.lt
    obtain ⟨exc, hexc⟩ := Option.ne_none_iff_exists'.mp hi.fault
    exact ⟨exc, call_error hexc⟩

/-- A program that is known by its requests leaves those behind that have been sent. -/
theorem of_replay {rs : List ω} (h : x c = Graph.replay run a rs c) :
    Writes x c rs.length a (runAll run rs c.store) fun i => runAll run (rs.take i) c.store where
  ok hok := h.trans (replay_ok a hok)
  error i hi := by
    obtain ⟨exc, hexc⟩ := Option.ne_none_iff_exists'.mp hi.fault
    exact ⟨exc, h.trans (replay_error a hi hexc)⟩

end Writes

/-! ### Neo4j -/

namespace Neo4j

/-- The calls of the transaction that writes a batch: a query for each record, and the commit. -/
def txCalls {α : Type} (batch : List α) : ℕ := if batch = [] then 0 else batch.length + 1

variable {α β : Type} {c : Client Store}

/-- A transaction that fails leaves the store as it was. -/
theorem writes_executeWrite {tx : Action (Client Store) α} {n : ℕ} {a : α} {done : Store}
    {left : ℕ → Store} (h : Writes tx c n a done left) :
    Writes (executeWrite tx) c (n + 1) a done fun _ => c.store := by
  have htx := h.bind (k := fun a => do call fun s => ((), s); return a)
    ((Writes.call (fun s => ((), s)) _).map fun _ => a)
  constructor
  · intro hok
    unfold executeWrite
    rw [htx.ok hok]
  · intro i hi
    obtain ⟨exc, hexc⟩ := htx.error i hi
    unfold executeWrite
    rw [hexc]
    exact ⟨exc, rfl⟩

/-- A loop of queries makes one call for each record; what it leaves when one fails is of no matter
inside a transaction. -/
theorem writes_tally (merge : β → Store → ℕ × Store) (batch : List β) (c : Client Store) :
    ∃ left, Writes (tallyRecords (fun rec => call (merge rec)) batch) c batch.length
      (PropertyGraph.tally merge batch c.store).1 (PropertyGraph.tally merge batch c.store).2
      left := by
  induction batch generalizing c with
  | nil => exact ⟨fun _ => c.store, Writes.pure 0 _⟩
  | cons rec batch ih =>
    obtain ⟨left, hrest⟩ := ih { c with store := (merge rec c.store).2, calls := c.calls + 1 }
    have hall := (Writes.call (merge rec) c).bind (k := fun inserted => do
      let rest ← tallyRecords (fun rec => call (merge rec)) batch
      return inserted + rest) (hrest.map fun rest => (merge rec c.store).1 + rest)
    rw [Nat.add_comm 1] at hall
    exact ⟨_, hall⟩

/-- A batch is written in one transaction, or not at all if it is empty. -/
theorem writes_batch (merge : β → Store → ℕ × Store) (batch : List β) (hc : c.connected = true) :
    Writes (unlessIdle batch (executeWrite (tallyRecords (fun rec => call (merge rec)) batch))) c
      (txCalls batch) (PropertyGraph.tally merge batch c.store).1
      (PropertyGraph.tally merge batch c.store).2 fun _ => c.store := by
  unfold txCalls
  by_cases hbatch : batch = []
  · have hidle : ∀ c, unlessIdle batch
        (executeWrite (tallyRecords (fun rec => call (merge rec)) batch)) c = .ok 0 c :=
      fun c => if_pos (Or.inl hbatch)
    rw [if_pos hbatch]
    subst hbatch
    exact ⟨fun _ => hidle c, fun i hi => absurd hi.lt (Nat.not_lt_zero i)⟩
  · have hwrite : unlessIdle batch
        (executeWrite (tallyRecords (fun rec => call (merge rec)) batch)) c =
          executeWrite (tallyRecords (fun rec => call (merge rec)) batch) c :=
      if_neg fun h => h.elim hbatch fun h => absurd hc (by rw [h]; simp)
    obtain ⟨left, htally⟩ := writes_tally merge batch c
    have htx := writes_executeWrite htally
    rw [if_neg hbatch]
    exact ⟨fun hok => hwrite.trans (htx.ok hok), fun i hi => by rw [hwrite]; exact htx.error i hi⟩

/-- **A file on Neo4j:** if the transaction of the edges fails, the nodes stay. -/
theorem writes_pass (nodes : List NodeRecord) (edges : List EdgeRecord)
    (hc : c.connected = true) :
    Writes (driver.pass nodes edges) c (txCalls nodes + txCalls edges)
      ((Store.putNodes nodes c.store).1,
        (Store.putEdges edges (Store.putNodes nodes c.store).2).1)
      (Store.putEdges edges (Store.putNodes nodes c.store).2).2
      fun i => if i < txCalls nodes then c.store else (Store.putNodes nodes c.store).2 := by
  have hedges := writes_batch Store.mergeEdge edges (c := { c with
    store := (Store.putNodes nodes c.store).2, calls := c.calls + txCalls nodes }) hc
  exact (writes_batch Store.mergeNode nodes hc).bind
    (k := fun n => do let m ← driver.upsert_edges edges; return (n, m))
    (hedges.map fun m => ((Store.putNodes nodes c.store).1, m))

end Neo4j

/-! ### IndraDB -/

namespace IndraDB

variable {U : Type} [DecidableEq U] (uuid5 : String → U) {c : Client (Store U)}

/-- What is sent while a file is written. -/
def fileRequests (nodes : List NodeRecord) (edges : List EdgeRecord)
    (s : Store U) : List (Request U) :=
  nodesRequests uuid5 nodes s ++ edgesRequests uuid5 edges (Store.putNodes uuid5 nodes s).2

/-- The requests of a file act on the store as its nodes and then its edges do. -/
theorem runAll_fileRequests (nodes : List NodeRecord) (edges : List EdgeRecord) (s : Store U) :
    PropertyGraph.runAll (fileRequests uuid5 nodes edges s) s =
      (Store.putEdges uuid5 edges (Store.putNodes uuid5 nodes s).2).2 := by
  rw [fileRequests, PropertyGraph.runAll_append, runAll_nodesRequests, runAll_edgesRequests]

/-- **A file on IndraDB:** what has been sent when a call fails stays. -/
theorem writes_pass (nodes : List NodeRecord) (edges : List EdgeRecord)
    (hc : c.connected = true) :
    Writes ((driver uuid5).pass nodes edges) c (fileRequests uuid5 nodes edges c.store).length
      ((Store.putNodes uuid5 nodes c.store).1,
        (Store.putEdges uuid5 edges (Store.putNodes uuid5 nodes c.store).2).1)
      (Store.putEdges uuid5 edges (Store.putNodes uuid5 nodes c.store).2).2
      fun i => PropertyGraph.runAll ((fileRequests uuid5 nodes edges c.store).take i) c.store := by
  have hnodes := Writes.of_replay (upsert_nodes_eq_replay uuid5 nodes hc)
  have hdone := runAll_nodesRequests uuid5 nodes c.store
  change runAll PropertyGraph.Request.run _ _ = _ at hdone
  rw [hdone] at hnodes
  have hedges := Writes.of_replay (upsert_edges_eq_replay uuid5
    (c := { c with
      store := (Store.putNodes uuid5 nodes c.store).2
      calls := c.calls + (nodesRequests uuid5 nodes c.store).length }) edges hc)
  have hdone' := runAll_edgesRequests uuid5 edges (Store.putNodes uuid5 nodes c.store).2
  change runAll PropertyGraph.Request.run _ _ = _ at hdone'
  rw [hdone'] at hedges
  have hpass := hnodes.bind (k := fun n => do let m ← (driver uuid5).upsert_edges edges; return (n, m))
    (hedges.map fun m => ((Store.putNodes uuid5 nodes c.store).1, m))
  rw [← List.length_append] at hpass
  refine hpass.congr fun i hi => ?_
  rw [fileRequests, List.take_append, PropertyGraph.runAll_append]
  split_ifs with hin
  · rw [Nat.sub_eq_zero_of_le (Nat.le_of_lt hin), List.take_zero]
    rfl
  · rw [List.take_of_length_le (Nat.le_of_not_lt hin), runAll_nodesRequests]
    rfl

end IndraDB

/-! ### What a program leaves -/

section After

variable {σ α : Type}

/-- The state a program leaves, whether it returns or raises. -/
def after (x : Action σ α) (s : σ) : σ :=
  match x s with
  | .ok _ s' => s'
  | .error _ s' => s'

/-- What a program that returns leaves. -/
theorem after_of_ok {x : Action σ α} {s s' : σ} {a : α} (h : x s = .ok a s') : after x s = s' := by
  unfold after
  rw [h]

/-- What a program that raises leaves. -/
theorem after_of_error {x : Action σ α} {s s' : σ} {exc : Exc} (h : x s = .error exc s') :
    after x s = s' := by
  unfold after
  rw [h]

/-- A program leaves its work done, or what its first failing call leaves. -/
theorem store_after_of_writes {x : Action (Client σ) α} {c : Client σ} {n : ℕ} {a : α}
    {done : σ} {left : ℕ → σ} (h : Writes x c n a done left) :
    ((∀ i, ¬c.FailsAt n i) ∧ (after x c).store = done) ∨
      ∃ i, c.FailsAt n i ∧ (after x c).store = left i := by
  rcases c.failsAt_or n with hok | ⟨i, hi⟩
  · refine Or.inl ⟨fun i hi => hi.fault (hok i hi.lt), ?_⟩
    rw [after_of_ok (h.ok hok)]
  · obtain ⟨exc, hexc⟩ := h.error i hi
    exact Or.inr ⟨i, hi, by rw [after_of_error hexc]⟩

end After

/-! ### The drivers of both servers -/

section Lift

variable {U α β : Type}

/-- A program that returns on the Neo4j client returns on both servers and leaves IndraDB alone. -/
theorem onNeo4j_of_ok {x : Action (Client Neo4j.Store) α} {s : Servers U} {c : Client Neo4j.Store}
    {a : α} (h : x s.neo4j = .ok a c) : onNeo4j x s = .ok a { s with neo4j := c } := by
  rw [onNeo4j, h]

/-- A program that raises on the Neo4j client raises on both servers and leaves IndraDB alone. -/
theorem onNeo4j_of_error {x : Action (Client Neo4j.Store) α} {s : Servers U}
    {c : Client Neo4j.Store} {exc : Exc} (h : x s.neo4j = .error exc c) :
    onNeo4j x s = .error exc { s with neo4j := c } := by
  rw [onNeo4j, h]

/-- A program that returns on the IndraDB client returns on both servers and leaves Neo4j alone. -/
theorem onIndradb_of_ok {x : Action (Client (IndraDB.Store U)) α} {s : Servers U}
    {c : Client (IndraDB.Store U)} {a : α} (h : x s.indradb = .ok a c) :
    onIndradb x s = .ok a { s with indradb := c } := by
  rw [onIndradb, h]

/-- A program that raises on the IndraDB client raises on both servers and leaves Neo4j alone. -/
theorem onIndradb_of_error {x : Action (Client (IndraDB.Store U)) α} {s : Servers U}
    {c : Client (IndraDB.Store U)} {exc : Exc} (h : x s.indradb = .error exc c) :
    onIndradb x s = .error exc { s with indradb := c } := by
  rw [onIndradb, h]

/-- A program on the Neo4j client in two parts is the two parts on both servers. -/
theorem onNeo4j_bind (x : Action (Client Neo4j.Store) α) (k : α → Action (Client Neo4j.Store) β) :
    (onNeo4j (x >>= k) : Action (Servers U) β) = onNeo4j x >>= fun a => onNeo4j (k a) := by
  funext s
  cases hx : x s.neo4j with
  | ok a c =>
    rw [bind_of_ok (onNeo4j_of_ok hx), onNeo4j, bind_of_ok hx]
    rfl
  | error exc c =>
    rw [bind_of_error (onNeo4j_of_error hx), onNeo4j_of_error (bind_of_error hx)]

/-- A program on the IndraDB client in two parts is the two parts on both servers. -/
theorem onIndradb_bind (x : Action (Client (IndraDB.Store U)) α)
    (k : α → Action (Client (IndraDB.Store U)) β) :
    onIndradb (x >>= k) = onIndradb x >>= fun a => onIndradb (k a) := by
  funext s
  cases hx : x s.indradb with
  | ok a c =>
    rw [bind_of_ok (onIndradb_of_ok hx), onIndradb, bind_of_ok hx]
    rfl
  | error exc c =>
    rw [bind_of_error (onIndradb_of_error hx), onIndradb_of_error (bind_of_error hx)]

/-- What a program on the Neo4j client leaves there, it leaves there on both servers. -/
theorem neo4j_after_onNeo4j (x : Action (Client Neo4j.Store) α) (s : Servers U) :
    (after (onNeo4j x) s).neo4j = after x s.neo4j := by
  unfold after onNeo4j
  cases x s.neo4j <;> rfl

/-- What a program on the IndraDB client leaves there, it leaves there on both servers. -/
theorem indradb_after_onIndradb (x : Action (Client (IndraDB.Store U)) α) (s : Servers U) :
    (after (onIndradb x) s).indradb = after x s.indradb := by
  unfold after onIndradb
  cases x s.indradb <;> rfl

variable [DecidableEq U] (uuid5 : String → U)

/-- A pass of the chosen driver is one of the Neo4j driver, on its own client. -/
theorem pass_neo4j (nodes : List NodeRecord) (edges : List EdgeRecord) :
    (Backend.neo4j.driver uuid5).pass nodes edges = onNeo4j (Neo4j.driver.pass nodes edges) := by
  unfold GraphDriver.pass
  rw [onNeo4j_bind]
  refine bind_congr fun n => ?_
  rw [onNeo4j_bind]
  rfl

/-- A pass of the chosen driver is one of the IndraDB driver, on its own client. -/
theorem pass_indradb (nodes : List NodeRecord) (edges : List EdgeRecord) :
    (Backend.indradb.driver uuid5).pass nodes edges =
      onIndradb ((IndraDB.driver uuid5).pass nodes edges) := by
  unfold GraphDriver.pass
  rw [onIndradb_bind]
  refine bind_congr fun n => ?_
  rw [onIndradb_bind]
  rfl

end Lift

end Graph
end CppMcp
