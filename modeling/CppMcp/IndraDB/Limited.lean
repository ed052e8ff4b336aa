/-
# No verb gives more rows than the limit

Each verb cuts the items it has found before it makes rows of them.  A pipe may lose some of them
afterwards, where a neighbour is not found, but nothing adds one.  So the limit holds for every query,
whatever the client answers (`length_le_of_execute`).
-/

import CppMcp.IndraDB.Executor
import CppMcp.Lib.Outline

namespace CppMcp
namespace IndraDB

/-- If a verb gives rows, there are at most `n`. -/
def AtMost (n : ℕ) (x : Except Error Dispatched) : Prop := ∀ d, x = .ok d → d.1.length ≤ n

namespace AtMost

variable {n : ℕ} {client : Client}

/-- What comes before the rows is of no matter: if it raises there are none. -/
theorem bind {α : Type} {x : Except Error α} {f : α → Except Error Dispatched}
    (h : ∀ a, AtMost n (f a)) : AtMost n (x >>= f) := by
  intro d hd
  obtain ⟨a, -, hd⟩ := Except.bind_eq_ok.mp hd
  exact h a d hd

/-- Rows that are not too many are given as they are. -/
theorem rows {rows : List Row} (h : rows.length ≤ n) (total : ℕ) : AtMost n (.ok (rows, total)) := by
  intro d hd
  obtain rfl := Except.ok.inj hd
  exact h

/-- There are as many rows as vertices they are made of. -/
theorem vertexRows {query : VertexQuery} {items : List Vertex} (h : items.length ≤ n) (total : ℕ) :
    AtMost n (do return (← vertexRows client query items, total)) := by
  intro d hd
  obtain ⟨rows, hrows, hd⟩ := Except.bind_eq_ok.mp hd
  obtain ⟨props_list, hprops, hrows⟩ := Except.bind_eq_ok.mp hrows
  obtain ⟨batches, -, hprops⟩ := Except.bind_eq_ok.mp hprops
  cases hprops
  cases hrows
  cases hd
  simpa using h

/-- There are as many rows as edges they are made of. -/
theorem edgeRows {query : EdgeQuery} {items : List Edge} (h : items.length ≤ n) (total : ℕ) :
    AtMost n (do return (← edgeRows client query items, total)) := by
  intro d hd
  obtain ⟨rows, hrows, hd⟩ := Except.bind_eq_ok.mp hd
  obtain ⟨props_list, hprops, hrows⟩ := Except.bind_eq_ok.mp hrows
  obtain ⟨batches, -, hprops⟩ := Except.bind_eq_ok.mp hprops
  cases hprops
  cases hrows
  cases hd
  simpa using h

/-- Where there are no items the verb gives no rows, and asks for none. -/
theorem orElse {p : Prop} [Decidable p] {total : ℕ} {x : Except Error Dispatched} (h : AtMost n x) :
    AtMost n (if p then .ok ([], total) else x) := by
  split_ifs
  · exact rows (Nat.zero_le n) total
  · exact h

end AtMost

section Verbs

variable (client : Client) (library : Library) (args : Args) (row_limit : ℕ)

/-- A pipe that ends at vertices cuts them before it makes rows. -/
theorem atMost_pipeVertices (vid : Py.Uuid) (direction : Direction) (t : Option String) :
    AtMost row_limit (pipeVertices client row_limit vid direction t) :=
  .bind fun _ => .orElse (.vertexRows (List.length_take_le ..) _)

/-- A pipe that ends at edges cuts them before it makes rows. -/
theorem atMost_pipeEdges (vid : Py.Uuid) (direction : Direction) (t : Option String) :
    AtMost row_limit (pipeEdges client row_limit vid direction t) := by
  refine .bind fun raw_edges => .orElse (.bind fun neighbors => .orElse (.vertexRows ?_ _))
  refine (List.length_filterMap_le ..).trans ?_
  rw [List.length_map]
  exact List.length_take_le ..

/-- **No verb gives more rows than the limit,** whatever the query asks for and the client answers.
-/
theorem atMost_dispatchQuery (query : String) :
    AtMost row_limit (dispatchQuery client library row_limit query) := by
  refine .bind fun parsed => ?_
  obtain ⟨verb, args⟩ := parsed
  cases verb with
  | all_vertices =>
    exact .bind fun _ => .bind fun _ => .vertexRows (List.length_take_le ..) _
  | all_edges =>
    exact .bind fun _ => .bind fun _ => .edgeRows (List.length_take_le ..) _
  | vertex_with_type =>
    exact .bind fun _ => .bind fun _ => .bind fun _ => .bind fun _ =>
      .orElse (.vertexRows (List.length_take_le ..) _)
  | edge_with_type =>
    exact .bind fun _ => .bind fun _ => .bind fun _ => .bind fun _ =>
      .orElse (.edgeRows (List.length_take_le ..) _)
  | vertex_with_property_equal =>
    refine .bind fun _ => .bind fun _ => .bind fun _ => .bind fun _ => .bind fun _ => .bind fun _ =>
      .rows ?_ _
    rw [List.length_map]
    exact List.length_take_le ..
  | edge_with_property_equal =>
    refine .bind fun _ => .bind fun _ => .bind fun _ => .bind fun _ => .bind fun _ => .bind fun _ =>
      .rows ?_ _
    rw [List.length_map]
    exact List.length_take_le ..
  | pipe =>
    refine .bind fun _ => .bind fun _ => .bind fun vid => .bind fun _ => .bind fun direction => ?_
    have hpath : ∀ t, AtMost row_limit (if client.has_outbound then
        pipeEdges client row_limit vid direction t
        else pipeVertices client row_limit vid direction t) := by
      intro t
      split_ifs
      · exact atMost_pipeEdges client row_limit vid direction t
      · exact atMost_pipeVertices client row_limit vid direction t
    cases args.lookup "t" with
    | none => exact hpath none
    | some t =>
      cases t with
      | null => exact hpath none
      | _ => exact .bind hpath

end Verbs

/-- **An answer has at most as many rows as were asked for,** and counts them. -/
theorem length_le_of_execute {client : Client} {library : Library} {row_limit : ℕ} {query : String}
    {r : QueryResult} (h : execute client library row_limit query = .ok r) :
    r.rows.length ≤ row_limit ∧ r.rows_returned = r.rows.length := by
  obtain ⟨d, hd, h⟩ := Except.bind_eq_ok.mp h
  cases h
  exact ⟨atMost_dispatchQuery client library row_limit query d hd, rfl⟩

end IndraDB
end CppMcp
