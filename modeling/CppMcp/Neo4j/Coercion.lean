/-
# Coercion of nested values

`_coerce_value` of `src/cpp_mcp/graphdb/neo4j_query_executor.py` is to coerce recursively.  It goes into
the properties of nodes and relationships and into paths, but it hands lists and maps to
`json.dumps(value, default=str)`, which writes an entity inside them as its `str`.

A `ResultValue` is what the driver returns, nested in any way.  Its `form` is given part by part: an
entity looks the same wherever it occurs.  The coercion gives that form exactly if no entity occurs
inside a list or a map (`coerce_eq_form_iff`).
-/

import CppMcp.Neo4j.Protocol
import Mathlib.Logic.Relation

namespace CppMcp
namespace Neo4j

open Py (Json)

/-! ### What the driver returns -/

/-- A value of the driver.  `text` is what `str` gives for an entity. -/
inductive ResultValue where
  | scalar (value : Plain)
  | node (labels : List String) (items : List (String × ResultValue)) (text : String)
  | relationship (type : String) (start_node end_node : Option String)
      (items : List (String × ResultValue)) (text : String)
  | path (nodes relationships : List ResultValue) (text : String)
  | list (items : List ResultValue)
  | map (items : List (String × ResultValue))

namespace ResultValue

/-- **Induction on a value:** what passes from the parts of a value to the value holds of every one. -/
@[elab_as_elim, induction_eliminator]
theorem induct {motive : ResultValue → Prop} (scalar : ∀ value, motive (.scalar value))
    (node : ∀ labels items text, (∀ item ∈ items, motive item.2) → motive (.node labels items text))
    (relationship : ∀ type start_node end_node items text, (∀ item ∈ items, motive item.2) →
      motive (.relationship type start_node end_node items text))
    (path : ∀ nodes relationships text, (∀ n ∈ nodes, motive n) → (∀ r ∈ relationships, motive r) →
      motive (.path nodes relationships text))
    (list : ∀ items, (∀ item ∈ items, motive item) → motive (.list items))
    (map : ∀ items, (∀ item ∈ items, motive item.2) → motive (.map items)) (v : ResultValue) :
    motive v :=
  ResultValue.rec (motive_1 := motive) (motive_2 := fun items => ∀ item ∈ items, motive item.2)
    (motive_3 := fun items => ∀ item ∈ items, motive item) (motive_4 := fun item => motive item.2)
    scalar (fun _ _ _ ih => node _ _ _ ih) (fun _ _ _ _ _ ih => relationship _ _ _ _ _ ih)
    (fun _ _ _ ih ih' => path _ _ _ ih ih') (fun _ ih => list _ ih) (fun _ ih => map _ ih)
    (List.forall_mem_nil _) (fun _ _ hd tl => List.forall_mem_cons.mpr ⟨hd, tl⟩)
    (List.forall_mem_nil _) (fun _ _ hd tl => List.forall_mem_cons.mpr ⟨hd, tl⟩)
    (fun _ _ ih => ih) v

mutual

/-- The value as `json.dumps` with `default=str` takes it. -/
def dumped : ResultValue → Plain
  | .scalar value => value
  | .node _ _ text => .other text
  | .relationship _ _ _ _ text => .other text
  | .path _ _ text => .other text
  | .list items => .list (dumpedItems items)
  | .map items => .dict (dumpedPairs items)

/-- The items of a list. -/
def dumpedItems : List ResultValue → List Plain
  | [] => []
  | item :: items => item.dumped :: dumpedItems items

/-- The items of a map, each with its key. -/
def dumpedPairs : List (String × ResultValue) → List (String × Plain)
  | [] => []
  | (key, value) :: items => (key, value.dumped) :: dumpedPairs items

end

mutual

/-- The value as `_coerce_value` takes it: an entity, or something that it hands to `json.dumps`. -/
def taken : ResultValue → Value
  | .node labels items _ => .node labels (takenPairs items)
  | .relationship type start_node end_node items _ =>
    .relationship type start_node end_node (takenPairs items)
  | .path nodes relationships _ => .path (takenItems nodes) (takenItems relationships)
  | .scalar value => .plain value
  | .list items => .plain (.list (dumpedItems items))
  | .map items => .plain (.dict (dumpedPairs items))

/-- The entities of a path. -/
def takenItems : List ResultValue → List Value
  | [] => []
  | item :: items => item.taken :: takenItems items

/-- The properties of an entity. -/
def takenPairs : List (String × ResultValue) → List (String × Value)
  | [] => []
  | (key, value) :: items => (key, value.taken) :: takenPairs items

end

/-- What `_coerce_value` makes of the value. -/
def coerce (v : ResultValue) : Json := coerceValue v.taken

mutual

/-- The form of a value, made of the forms of its parts. -/
def form : ResultValue → Json
  | .scalar value => value.roundTrip
  | .node labels items _ =>
    .dict (update (OrderedDict.empty.set "_labels"
      (.list ((labels.mergeSort fun a b => a ≤ b).map Json.str))) (formPairs items)).items
  | .relationship type start_node end_node items _ =>
    .dict (update (((OrderedDict.empty.set "_type" (.str type)).set "_start"
      (elementId start_node)).set "_end" (elementId end_node)) (formPairs items)).items
  | .path nodes relationships _ =>
    .dict [("_nodes", .list (formItems nodes)), ("_rels", .list (formItems relationships))]
  | .list items => .list (formItems items)
  | .map items => .dict (formPairs items)

/-- The items of a list. -/
def formItems : List ResultValue → List Json
  | [] => []
  | item :: items => item.form :: formItems items

/-- The items of a map, each with its key. -/
def formPairs : List (String × ResultValue) → List (String × Json)
  | [] => []
  | (key, value) :: items => (key, value.form) :: formPairs items

end

/-- The value is a node, a relationship or a path. -/
def isEntity : ResultValue → Bool
  | .node .. | .relationship .. | .path .. => true
  | _ => false

/-- The value is a list or a map. -/
def isContainer : ResultValue → Bool
  | .list _ | .map _ => true
  | _ => false

/-- What a value is made of directly. -/
def parts : ResultValue → List ResultValue
  | .scalar _ => []
  | .node _ items _ => items.map Prod.snd
  | .relationship _ _ _ items _ => items.map Prod.snd
  | .path nodes relationships _ => nodes ++ relationships
  | .list items => items
  | .map items => items.map Prod.snd

/-- The keys of a `dict`. -/
def keys : ResultValue → List String
  | .node _ items _ | .relationship _ _ _ items _ | .map items => items.map Prod.fst
  | _ => []

/-- The second value occurs in the first one. -/
def Holds : ResultValue → ResultValue → Prop := Relation.ReflTransGen fun v part => part ∈ v.parts

end ResultValue

/-- What the driver returns: in every `dict` each key occurs once. -/
structure Returned where
  value : ResultValue
  nodup : ∀ w, value.Holds w → w.keys.Nodup

/-! ### Part by part -/

/-- The values of a list are coerced one by one. -/
theorem coerceValues_eq_map (values : List Value) : coerceValues values = values.map coerceValue := by
  induction values with
  | nil => rfl
  | cons v values ih => rw [coerceValues, ih, List.map_cons]

/-- The properties of an entity are coerced one by one, under their keys. -/
theorem coerceItems_eq_map (items : List (String × Value)) :
    coerceItems items = items.map fun item => (item.1, coerceValue item.2) := by
  induction items with
  | nil => rfl
  | cons item items ih => rw [coerceItems, ih, List.map_cons]

/-- The items of a list go through JSON one by one. -/
theorem Plain.roundTripItems_eq_map (items : List Plain) :
    Plain.roundTripItems items = items.map Plain.roundTrip := by
  induction items with
  | nil => rfl
  | cons item items ih => rw [Plain.roundTripItems, ih, List.map_cons]

/-- The items of a map go through JSON one by one, under their keys. -/
theorem Plain.roundTripPairs_eq_map (items : List (String × Plain)) :
    Plain.roundTripPairs items = items.map fun item => (item.1, item.2.roundTrip) := by
  induction items with
  | nil => rfl
  | cons item items ih => rw [Plain.roundTripPairs, ih, List.map_cons]

/-- Keys that are not among the items keep their values. -/
theorem get_update_of_notMem {items : List (String × Json)} {key : String}
    (h : key ∉ items.map Prod.fst) (d : OrderedDict String Json) :
    (update d items).get key = d.get key := by
  induction items generalizing d with
  | nil => rfl
  | cons item items ih =>
    rw [List.map_cons, List.mem_cons, not_or] at h
    have hrest := ih h.2 (d.set item.1 item.2)
    exact hrest.trans (OrderedDict.get_set_of_ne h.1)

/-- Each item is there afterwards, since no two of them have one key. -/
theorem get_update_of_mem {items : List (String × Json)} (hnodup : (items.map Prod.fst).Nodup)
    {item : String × Json} (h : item ∈ items) (d : OrderedDict String Json) :
    (update d items).get item.1 = some item.2 := by
  induction items generalizing d with
  | nil => exact absurd h List.not_mem_nil
  | cons first items ih =>
    rw [List.map_cons, List.nodup_cons] at hnodup
    obtain rfl | h := List.mem_cons.mp h
    · have hrest := get_update_of_notMem hnodup.1 (d.set item.1 item.2)
      exact hrest.trans (OrderedDict.get_set_self item.1 item.2)
    · exact ih hnodup.2 h (d.set first.1 first.2)

/-- Two updates of the same keys are the same exactly if each key gets the same value. -/
theorem update_map_inj {α : Type} {items : List (String × α)} (hnodup : (items.map Prod.fst).Nodup)
    (d : OrderedDict String Json) (f g : α → Json) :
    (update d (items.map fun item => (item.1, f item.2))).items =
        (update d (items.map fun item => (item.1, g item.2))).items ↔
      ∀ item ∈ items, f item.2 = g item.2 := by
  have hkeys : ∀ f : α → Json,
      (items.map fun item => (item.1, f item.2)).map Prod.fst = items.map Prod.fst :=
    fun f => by rw [List.map_map]; rfl
  constructor
  · intro h item hitem
    have hget : ∀ f : α → Json,
        (update d (items.map fun item => (item.1, f item.2))).get item.1 = some (f item.2) :=
      fun f => get_update_of_mem ((hkeys f).symm ▸ hnodup)
        (List.mem_map_of_mem (f := fun item => (item.1, f item.2)) hitem) d
    have hsame := hget f
    rw [OrderedDict.ext_items h, hget g] at hsame
    exact (Option.some.inj hsame).symm
  · intro h
    rw [List.map_congr_left fun item hitem => by rw [h item hitem]]

namespace ResultValue

/-- The items of a list are taken for `json.dumps` one by one. -/
theorem dumpedItems_eq_map (items : List ResultValue) : dumpedItems items = items.map dumped := by
  induction items with
  | nil => rfl
  | cons item items ih => rw [dumpedItems, ih, List.map_cons]

/-- The items of a map are taken for `json.dumps` one by one, under their keys. -/
theorem dumpedPairs_eq_map (items : List (String × ResultValue)) :
    dumpedPairs items = items.map fun item => (item.1, item.2.dumped) := by
  induction items with
  | nil => rfl
  | cons item items ih => rw [dumpedPairs, ih, List.map_cons]

/-- The entities of a path are taken one by one. -/
theorem takenItems_eq_map (items : List ResultValue) : takenItems items = items.map taken := by
  induction items with
  | nil => rfl
  | cons item items ih => rw [takenItems, ih, List.map_cons]

/-- The properties of an entity are taken one by one, under their keys. -/
theorem takenPairs_eq_map (items : List (String × ResultValue)) :
    takenPairs items = items.map fun item => (item.1, item.2.taken) := by
  induction items with
  | nil => rfl
  | cons item items ih => rw [takenPairs, ih, List.map_cons]

/-- The items of a list have their forms one by one. -/
theorem formItems_eq_map (items : List ResultValue) : formItems items = items.map form := by
  induction items with
  | nil => rfl
  | cons item items ih => rw [formItems, ih, List.map_cons]

/-- The items of a map have their forms one by one, under their keys. -/
theorem formPairs_eq_map (items : List (String × ResultValue)) :
    formPairs items = items.map fun item => (item.1, item.2.form) := by
  induction items with
  | nil => rfl
  | cons item items ih => rw [formPairs, ih, List.map_cons]

/-- What occurs in a value is the value itself or occurs in a part. -/
theorem forall_holds_iff {v : ResultValue} {p : ResultValue → Prop} :
    (∀ w, v.Holds w → p w) ↔ p v ∧ ∀ part ∈ v.parts, ∀ w, part.Holds w → p w := by
  constructor
  · exact fun h => ⟨h v .refl, fun part hpart w hw => h w (.head hpart hw)⟩
  · rintro ⟨hv, hparts⟩ w hw
    obtain rfl | ⟨part, hpart, hw⟩ := Relation.ReflTransGen.cases_head hw
    · exact hv
    · exact hparts part hpart w hw

/-- **Writing a value as JSON gives its form exactly if there is no entity in it.** -/
theorem form_eq_roundTrip_iff (v : ResultValue) :
    v.form = v.dumped.roundTrip ↔ ∀ e, v.Holds e → e.isEntity = false := by
  induction v with
  | scalar value =>
    rw [forall_holds_iff]
    exact ⟨fun _ => ⟨rfl, fun _ h => absurd h List.not_mem_nil⟩, fun _ => rfl⟩
  | node labels items text =>
    exact ⟨fun h => (nomatch h), fun h => (nomatch h _ .refl)⟩
  | relationship type start_node end_node items text =>
    exact ⟨fun h => (nomatch h), fun h => (nomatch h _ .refl)⟩
  | path nodes relationships text =>
    exact ⟨fun h => (nomatch h), fun h => (nomatch h _ .refl)⟩
  | list items ih =>
    rw [forall_holds_iff, form, dumped, Plain.roundTrip, formItems_eq_map, dumpedItems_eq_map,
      Plain.roundTripItems_eq_map, List.map_map, Json.list.injEq, List.map_inj_left]
    exact ⟨fun h => ⟨rfl, fun item hitem => (ih item hitem).mp (h item hitem)⟩,
      fun h item hitem => (ih item hitem).mpr (h.2 item hitem)⟩
  | map items ih =>
    rw [forall_holds_iff, form, dumped, Plain.roundTrip, formPairs_eq_map, dumpedPairs_eq_map,
      Plain.roundTripPairs_eq_map, List.map_map, Json.dict.injEq, List.map_inj_left]
    refine ⟨fun h => ⟨rfl, fun part hpart => ?_⟩, fun h item hitem => ?_⟩
    · obtain ⟨item, hitem, rfl⟩ := List.mem_map.mp hpart
      exact (ih item hitem).mp (congrArg Prod.snd (h item hitem))
    · have hvalue := (ih item hitem).mpr (h.2 item.2 (List.mem_map_of_mem hitem))
      exact Prod.ext rfl hvalue

/-- No entity occurs inside a list or a map that occurs in the value. -/
def Flat (v : ResultValue) : Prop :=
  ∀ c, v.Holds c → c.isContainer = true → ∀ e, c.Holds e → e.isEntity = false

/-- A list or a map is flat if there is no entity in it. -/
theorem flat_iff_of_isContainer {v : ResultValue} (h : v.isContainer = true) :
    v.Flat ↔ ∀ e, v.Holds e → e.isEntity = false :=
  ⟨fun hflat => hflat v .refl h, fun hnone _ hc _ e he => hnone e (hc.trans he)⟩

/-- Anything but a list or a map is flat if its parts are. -/
theorem flat_iff_of_not_isContainer {v : ResultValue} (h : v.isContainer = false) :
    v.Flat ↔ ∀ part ∈ v.parts, part.Flat := by
  refine forall_holds_iff.trans (and_iff_right fun hc => ?_)
  exact absurd (h.symm.trans hc) Bool.false_ne_true

/-- The coerced properties of an entity are the coercions of its properties, under their keys. -/
theorem coerceItems_takenPairs (items : List (String × ResultValue)) :
    coerceItems (takenPairs items) = items.map fun item => (item.1, item.2.coerce) := by
  rw [coerceItems_eq_map, takenPairs_eq_map, List.map_map]
  rfl

/-- The coerced entities of a path are the coercions of its entities. -/
theorem coerceValues_takenItems (items : List ResultValue) :
    coerceValues (takenItems items) = items.map coerce := by
  rw [coerceValues_eq_map, takenItems_eq_map, List.map_map]
  rfl

/-- The properties of an entity get their forms exactly if each of them does. -/
theorem update_coerce_eq_iff {items : List (String × ResultValue)}
    (hnodup : (items.map Prod.fst).Nodup) (d : OrderedDict String Json)
    (ih : ∀ item ∈ items, (item.2.coerce = item.2.form ↔ item.2.Flat)) :
    Json.dict (update d (coerceItems (takenPairs items))).items =
        .dict (update d (formPairs items)).items ↔
      ∀ part ∈ items.map Prod.snd, part.Flat := by
  rw [coerceItems_takenPairs, formPairs_eq_map, Json.dict.injEq, update_map_inj hnodup,
    List.forall_mem_map]
  exact forall₂_congr ih

/-- **The coercion gives a value its form exactly if the value is flat.** -/
theorem coerce_eq_form_iff_flat (v : ResultValue) (hnodup : ∀ w, v.Holds w → w.keys.Nodup) :
    v.coerce = v.form ↔ v.Flat := by
  induction v with
  | scalar value =>
    rw [flat_iff_of_not_isContainer rfl]
    exact ⟨fun _ _ h => absurd h List.not_mem_nil, fun _ => rfl⟩
  | node labels items text ih =>
    obtain ⟨hkeys, hparts⟩ := forall_holds_iff.mp hnodup
    rw [flat_iff_of_not_isContainer rfl]
    exact update_coerce_eq_iff hkeys _ fun item hitem =>
      ih item hitem (hparts item.2 (List.mem_map_of_mem hitem))
  | relationship type start_node end_node items text ih =>
    obtain ⟨hkeys, hparts⟩ := forall_holds_iff.mp hnodup
    rw [flat_iff_of_not_isContainer rfl]
    exact update_coerce_eq_iff hkeys _ fun item hitem =>
      ih item hitem (hparts item.2 (List.mem_map_of_mem hitem))
  | path nodes relationships text ihn ihr =>
    obtain ⟨-, hparts⟩ := forall_holds_iff.mp hnodup
    rw [flat_iff_of_not_isContainer rfl, coerce, taken, coerceValue, form, coerceValues_takenItems,
      coerceValues_takenItems, formItems_eq_map, formItems_eq_map, parts, List.forall_mem_append]
    simp only [Json.dict.injEq, List.cons.injEq, Prod.mk.injEq, Json.list.injEq, List.map_inj_left,
      true_and, and_true]
    exact and_congr
      (forall₂_congr fun n hn => ihn n hn (hparts n (List.mem_append_left _ hn)))
      (forall₂_congr fun r hr => ihr r hr (hparts r (List.mem_append_right _ hr)))
  | list items =>
    rw [flat_iff_of_isContainer rfl, ← form_eq_roundTrip_iff]
    exact eq_comm
  | map items =>
    rw [flat_iff_of_isContainer rfl, ← form_eq_roundTrip_iff]
    exact eq_comm

/-- **The coercion is compositional exactly on values without an entity inside a list or a map.**
There `_coerce_value` gives each part the form that it has on its own; a list or a map goes to
`json.dumps` as it is, and an entity in it comes out as its `str`. -/
theorem coerce_eq_form_iff (r : Returned) :
    r.value.coerce = r.value.form ↔
      ∀ c, r.value.Holds c → c.isContainer = true → ∀ e, c.Holds e → e.isEntity = false :=
  coerce_eq_form_iff_flat r.value r.nodup

/-! ### A list of nodes -/

/-- A node, its `str` shortened. -/
def person : ResultValue :=
  .node ["Person"] [("name", .scalar (.str "Ann"))] "<Node element_id='4:x:0'>"

/-- What `collect(n)` returns for one node. -/
def collected : Returned where
  value := .list [person]
  nodup := by
    have hscalar : ∀ w, (ResultValue.scalar (.str "Ann")).Holds w → w.keys.Nodup :=
      forall_holds_iff.mpr ⟨List.nodup_nil, fun _ h => absurd h List.not_mem_nil⟩
    have hperson : ∀ w, person.Holds w → w.keys.Nodup :=
      forall_holds_iff.mpr ⟨List.nodup_singleton _, List.forall_mem_singleton.mpr hscalar⟩
    exact forall_holds_iff.mpr ⟨List.nodup_nil, List.forall_mem_singleton.mpr hperson⟩

/-- **The node in the list comes out as a text,** where the same node on its own comes out with its
labels and properties. -/
theorem collected_coerce_ne_form : collected.value.coerce ≠ collected.value.form := by
  intro h
  have hitems := List.cons.inj (Json.list.inj h)
  exact nomatch hitems.1

end ResultValue

end Neo4j
end CppMcp
