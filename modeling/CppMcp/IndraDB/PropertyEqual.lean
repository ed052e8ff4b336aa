/-
# Selecting by the value of a property

The verbs `vertex_with_property_equal` and `edge_with_property_equal` of
`src/cpp_mcp/graphdb/indradb_query_executor.py` fetch everything and select on this side, with
`props.get(name) == value`.  A property that is missing counts as `None` there, and `True == 1`.

So they select the items whose property is the JSON value asked for exactly if nothing is mistaken for it
(`propertyEqual_answers_iff`): nothing lacks the property where `null` is asked for, and no number is
stored where its boolean is asked for, nor the other way round.
-/

import CppMcp.IndraDB.Validate

namespace CppMcp
namespace IndraDB

open Export (Acc)
open Py (Json)

/-! ### Equality -/

/-- Equality of JSON values, where the second one is a scalar.  Numbers are equal as numbers. -/
def jsonEq : Json → Json → Bool
  | .null, .null => true
  | .bool b, .bool b' => b == b'
  | .str s, .str s' => s == s'
  | .int n, .int n' => decide (n = n')
  | .int n, .float x | .float x, .int n => decide (x.value = .finite n)
  | .float x, .float y => decide (x.value = y.value) && decide (x.value ≠ .nan)
  | _, _ => false

/-- The value of a property, if there is one, is not the one that is asked for but taken to be equal to
it: nothing for `null`, and a boolean and its number for each other. -/
def mistaken : Option Json → Json → Bool
  | none, .null => true
  | some (.bool b), .int n | some (.int n), .bool b => decide (n = if b then 1 else 0)
  | some (.bool b), .float x | some (.float x), .bool b =>
    decide (x.value = .finite (if b then 1 else 0))
  | _, _ => false

/-- The properties have one of that name, whose value is the one that is asked for. -/
def carries (props : Properties) (name : String) (value : Json) : Bool :=
  (props.get name).any (jsonEq · value)

/-- What Python's `==` says of a stored value and a scalar: equal as JSON values, or a boolean and
its number. -/
theorem eqScalar_eq (stored value : Json) :
    stored.eqScalar value = (jsonEq stored value || mistaken (some stored) value) := by
  have hcast : ∀ n m : ℤ, (n : ℚ) = (m : ℚ) ↔ n = m := fun n m => Rat.intCast_inj
  cases stored <;> cases value <;> simp [jsonEq, mistaken, Json.eqScalar, Json.number]
  case bool.bool b b' => cases b <;> cases b' <;> decide
  case bool.int b n =>
    cases b
    · exact eq_comm.trans (hcast n 0)
    · exact eq_comm.trans (hcast n 1)
  case bool.float b x => exact eq_comm
  case int.bool n b =>
    cases b
    · exact hcast n 0
    · exact hcast n 1
  case int.float n x => exact eq_comm
  case float.bool x b =>
    intro hvalue
    simp [hvalue]
  case float.int x n =>
    intro hvalue
    simp [hvalue]
  case str.str s s' => exact decide_eq_decide.mpr Iff.rfl

/-- **What the code takes for equal** is equal or mistaken for it. -/
theorem propEqual_eq (props : Properties) (name : String) (value : Json) :
    propEqual props name value = (carries props name value || mistaken (props.get name) value) := by
  unfold propEqual carries
  cases props.get name with
  | none => cases value <;> rfl
  | some stored => exact eqScalar_eq stored value

/-- What is mistaken for a value does not carry it. -/
theorem carries_of_mistaken {props : Properties} {name : String} {value : Json}
    (h : mistaken (props.get name) value = true) : carries props name value = false := by
  unfold carries
  cases hget : props.get name with
  | none => rfl
  | some stored =>
    rw [hget] at h
    cases stored <;> cases value <;> first | rfl | exact absurd h Bool.false_ne_true

/-! ### The verbs -/

/-- The arguments ask for a property of that name with that value. -/
structure AsksProperty (args : Args) (name : String) (value : Json) : Prop where
  keys : HasKeys args ["name", "value"] []
  name_eq : args.lookup "name" = some (.str name)
  value_eq : args.lookup "value" = some value
  scalar : value.isScalar = true

/-- The arguments are read and validated, and handed on. -/
theorem AsksProperty.read {args : Args} {name : String} {value : Json}
    (h : AsksProperty args name value) {α : Type} (f : String → Json → Except Error α) : (do
      requireArgs args ["name", "value"] []
      let prop_name ← args.getStr "name"
      let prop_value ← validateScalar (← args.get "value")
      f prop_name prop_value) = f name value := by
  have hargs : requireArgs args ["name", "value"] [] = .ok () := (checks_requireArgs ..).eq_ok h.keys
  have hname : args.getStr "name" = .ok name := by
    rw [Args.getStr, Args.get, h.name_eq]
    rfl
  have hvalue : args.get "value" = .ok value := by rw [Args.get, h.value_eq]
  have hscalar : validateScalar value = .ok value := by rw [validateScalar, if_pos h.scalar]
  rw [hargs, hname, hvalue]
  change (validateScalar value).bind (f name) = f name value
  rw [hscalar]
  rfl

section Verbs

variable {client : Client} {store : Store} {library : Library} {query : String} {args : Args}
  {name : String} {value : Json}

/-- Filtering by the joined properties selects by the stored ones, and the rows have them. -/
theorem execute_filterPropEqual {α : Type} {items : List α} {props joined : α → Properties}
    {row : α → Properties → Row} {IsRow : α → Row → Prop} {row_limit : ℕ}
    (hget : ∀ a ∈ items, ∀ key, (joined a).get key = (props a).get key)
    (hrow : ∀ a p, (∀ key, p.get key = (props a).get key) → IsRow a (row a p))
    (hdispatch : dispatchQuery client library row_limit query =
      .ok (((items.filter fun a => propEqual (joined a) name value).take row_limit).map
          fun a => row a (joined a),
        (items.filter fun a => propEqual (joined a) name value).length)) :
    ∃ r, execute client library row_limit query = .ok r ∧
      Answers (items.filter fun a => propEqual (props a) name value) IsRow row_limit r := by
  have hfilter : (items.filter fun a => propEqual (joined a) name value) =
      items.filter fun a => propEqual (props a) name value :=
    List.filter_congr fun a ha => by rw [propEqual, propEqual, hget a ha]
  rw [hfilter] at hdispatch
  refine answers_of_dispatch hdispatch (List.forall₂_map_right_iff.mpr ?_)
  refine List.forall₂_same.mpr fun a ha => hrow a (joined a) (hget a ?_)
  exact List.mem_of_mem_filter (List.mem_of_mem_take ha)

/-- `vertex_with_property_equal` answers with the vertices whose property the code takes for equal.
-/
theorem execute_vertexPropEqual (h : Serves client store) (hargs : AsksProperty args name value)
    (hask : Asks library query .vertex_with_property_equal args) (row_limit : ℕ) :
    ∃ r, execute client library row_limit query = .ok r ∧
      Answers (store.vertexItems.filter fun v => propEqual (store.vertexProps v.id) name value)
        (IsVertexRow store) row_limit r := by
  obtain ⟨batches, hbatches, hflat⟩ := h.vertices
  obtain ⟨stream, hstream, htells⟩ := h.vertexProperties
  have hget : ∀ v ∈ store.vertexItems, ∀ name,
      ((collectVertexProps stream).getIn v.id.str).get name = (store.vertexProps v.id).get name :=
    fun v hv => get_collectVertexProps (htells v hv)
  refine execute_filterPropEqual hget (fun v p hp => ⟨p, rfl, hp⟩) ?_
  rw [dispatchQuery, parseQuery_of_asks hask]
  change vertexWithPropertyEqual client args row_limit = _
  rw [vertexWithPropertyEqual, hargs.read, hbatches, hstream, ← hflat]
  rfl

/-- `edge_with_property_equal` answers with the edges whose property the code takes for equal. -/
theorem execute_edgePropEqual (h : Serves client store) (hargs : AsksProperty args name value)
    (hask : Asks library query .edge_with_property_equal args) (row_limit : ℕ) :
    ∃ r, execute client library row_limit query = .ok r ∧
      Answers (store.edgeItems.filter fun e => propEqual (store.edgeProps e) name value)
        (IsEdgeRow store) row_limit r := by
  obtain ⟨batches, hbatches, hflat⟩ := h.edges
  obtain ⟨stream, hstream, htells⟩ := h.edgeProperties
  have hget : ∀ e ∈ store.edgeItems, ∀ name,
      ((collectEdgeProps stream).getIn e.key).get name = (store.edgeProps e).get name :=
    fun e he => get_collectEdgeProps (htells e he)
  refine execute_filterPropEqual hget (fun e p hp => ⟨p, rfl, hp⟩) ?_
  rw [dispatchQuery, parseQuery_of_asks hask]
  change edgeWithPropertyEqual client args row_limit = _
  rw [edgeWithPropertyEqual, hargs.read, hbatches, hstream, ← hflat]
  rfl

end Verbs

/-! ### Exactly what is asked for -/

/-- A verb that answers with what it takes for equal answers with what is equal exactly if nothing is
mistaken. -/
theorem answers_carries_iff {α : Type} {items : List α} {props : α → Properties} {name : String}
    {value : Json} {IsRow : α → Row → Prop} {answer : ℕ → Except Error QueryResult}
    (h : ∀ row_limit, ∃ r, answer row_limit = .ok r ∧
      Answers (items.filter fun a => propEqual (props a) name value) IsRow row_limit r) :
    (∀ row_limit, ∃ r, answer row_limit = .ok r ∧
        Answers (items.filter fun a => carries (props a) name value) IsRow row_limit r) ↔
      ∀ a ∈ items, mistaken ((props a).get name) value = false := by
  constructor
  · intro hcarries a ha
    by_contra hmistaken
    rw [Bool.not_eq_false] at hmistaken
    have hsub : (items.filter fun a => carries (props a) name value).Sublist
        (items.filter fun a => propEqual (props a) name value) :=
      List.monotone_filter_right items fun a ha => by rw [propEqual_eq, ha, Bool.true_or]
    -- with room for all, as many rows are returned as are selected
    obtain ⟨r, hr, hequal⟩ := h items.length
    obtain ⟨r', hr', hexact⟩ := hcarries items.length
    cases hr.symm.trans hr'
    have hlength : ∀ p : α → Bool, ((items.filter p).take items.length).length =
        (items.filter p).length := by
      intro p
      rw [List.take_of_length_le (List.length_filter_le ..)]
    have hsame := hsub.eq_of_length (by
      rw [← hlength, ← hlength, hexact.rows.length_eq, hequal.rows.length_eq])
    have hmem : a ∈ items.filter fun a => propEqual (props a) name value :=
      List.mem_filter.mpr ⟨ha, by rw [propEqual_eq, hmistaken, Bool.or_true]⟩
    rw [← hsame] at hmem
    have hcarried : carries (props a) name value = true := (List.mem_filter.mp hmem).2
    exact absurd ((carries_of_mistaken hmistaken).symm.trans hcarried) Bool.false_ne_true
  · intro hnone row_limit
    have hfilter : (items.filter fun a => carries (props a) name value) =
        items.filter fun a => propEqual (props a) name value :=
      List.filter_congr fun a ha => by rw [propEqual_eq, hnone a ha, Bool.or_false]
    rw [hfilter]
    exact h row_limit

/-- **The verbs answer with the items whose property is the value asked for** exactly if nothing is
mistaken for it. -/
theorem propertyEqual_answers_iff {client : Client} {store : Store} (h : Serves client store)
    (library : Library) {args : Args} {name : String} {value : Json}
    (hargs : AsksProperty args name value) :
    (∀ query, Asks library query .vertex_with_property_equal args →
      ((∀ row_limit, ∃ r, execute client library row_limit query = .ok r ∧
          Answers (store.vertexItems.filter fun v => carries (store.vertexProps v.id) name value)
            (IsVertexRow store) row_limit r) ↔
        ∀ v ∈ store.vertexItems, mistaken ((store.vertexProps v.id).get name) value = false)) ∧
    ∀ query, Asks library query .edge_with_property_equal args →
      ((∀ row_limit, ∃ r, execute client library row_limit query = .ok r ∧
          Answers (store.edgeItems.filter fun e => carries (store.edgeProps e) name value)
            (IsEdgeRow store) row_limit r) ↔
        ∀ e ∈ store.edgeItems, mistaken ((store.edgeProps e).get name) value = false) :=
  ⟨fun _ hask => answers_carries_iff (execute_vertexPropEqual h hargs hask),
    fun _ hask => answers_carries_iff (execute_edgePropEqual h hargs hask)⟩

/-- `{"query": "vertex_with_property_equal", "args": {"name": "spelling", "value": null}}` -/
def nullQuery : String := "\x7b\"query\": \"vertex_with_property_equal\", " ++
  "\"args\": \x7b\"name\": \"spelling\", \"value\": null\x7d\x7d"

/-- The arguments of that query. -/
def nullArgs : Args := [("name", .str "spelling"), ("value", .null)]

/-- `json.loads` and `uuid.UUID`, as far as that query goes. -/
def nullLibrary : Library where
  loads text :=
    if text = nullQuery then
      .ok (.dict [("query", .str "vertex_with_property_equal"), ("args", .dict nullArgs)])
    else .error (.valueError "Expecting value: line 1 column 1 (char 0)")
  UUID _ := .error "badly formed hexadecimal UUID string"

/-- The text of the example is a query that the library of the example reads as one for the value
`null`. -/
theorem nullQuery_asks : Asks nullLibrary nullQuery .vertex_with_property_equal nullArgs :=
  ⟨[("query", .str "vertex_with_property_equal"), ("args", .dict nullArgs)],
    by simp only [nullLibrary, if_true], rfl, rfl⟩

/-- The arguments of the example ask for the property `spelling` with the value `null`. -/
theorem nullArgs_asksProperty : AsksProperty nullArgs "spelling" .null where
  keys := by
    unfold HasKeys
    decide
  name_eq := rfl
  value_eq := rfl
  scalar := rfl

/-- `propertyEqual_answers_iff` at the query for `null`, on a store where two vertices have no
spelling. -/
theorem propertyEqual_answers_iff_threeVertices :
    (∀ row_limit, ∃ r, execute (fakeClient threeVertices) nullLibrary row_limit nullQuery = .ok r ∧
        Answers (threeVertices.vertexItems.filter fun v =>
          carries (threeVertices.vertexProps v.id) "spelling" .null) (IsVertexRow threeVertices)
          row_limit r) ↔
      ∀ v ∈ threeVertices.vertexItems,
        mistaken ((threeVertices.vertexProps v.id).get "spelling") .null = false :=
  (propertyEqual_answers_iff (serves_fakeClient threeVertices) nullLibrary
    nullArgs_asksProperty).1 nullQuery nullQuery_asks

/-- **Vertices without a spelling are returned as vertices whose spelling is null:**
`props.get("spelling")` is `None` for both. -/
theorem missing_answers_null :
    ¬∀ row_limit, ∃ r, execute (fakeClient threeVertices) nullLibrary row_limit nullQuery = .ok r ∧
      Answers (threeVertices.vertexItems.filter fun v =>
        carries (threeVertices.vertexProps v.id) "spelling" .null) (IsVertexRow threeVertices)
        row_limit r := by
  intro h
  have hanswer := execute_vertexPropEqual (serves_fakeClient threeVertices) nullArgs_asksProperty
    nullQuery_asks
  have hnone := (answers_carries_iff hanswer).mp h ⟨⟨1⟩, ⟨"Function", by decide⟩⟩ (by decide)
  exact absurd hnone (by decide)

end IndraDB
end CppMcp
