/-
# What the driver stores, as the executor reads it

The driver writes vertices with a label and scalar properties, and the executor reads vertices with an
identifier and JSON values.  `stored` is the store of the one as the store of the other, under the
labels of the schema.

The driver sets the property `usr` of a vertex to the USR whose `uuid5` is its id (`WellKeyed`), and no
write changes that.  So a symbol is looked up by its USR: the answer is its own vertex, if it is
stored, and no other (`execute_usrEqual`).
-/

import CppMcp.Graph.Loaders
import CppMcp.IndraDB.PropertyEqual

namespace CppMcp
namespace IndraDB

open Export (NodeRecord NodeType EdgeType PropVal)
open Py (Json Uuid)

/-! ### The store of the driver -/

/-- A node label as a type. -/
def nodeIdentifier (t : NodeType) : Identifier := ⟨t.text, by cases t <;> decide⟩

/-- An edge label as a type. -/
def edgeIdentifier (t : EdgeType) : Identifier := ⟨t.text, by cases t <;> decide⟩

/-- Two edge labels differ in their texts. -/
theorem edgeText_injective : Function.Injective EdgeType.text := by
  intro t t' h
  revert h
  cases t <;> cases t' <;> decide

/-- Two edge labels make different types. -/
theorem edgeIdentifier_injective : Function.Injective edgeIdentifier := fun _ _ h =>
  edgeText_injective (congrArg Identifier.name h)

/-- A property value as a JSON value. -/
def jsonOf : PropVal → Json
  | .str s => .str s
  | .bool b => .bool b
  | .int n => .int n

/-- The properties as JSON values. -/
def jsonProps (props : Graph.Properties) : Properties :=
  props.rename id Function.injective_id fun _ => jsonOf

/-- **The store of the driver,** as a client of the executor serves it. -/
def stored (s : Graph.IndraDB.Store Uuid) : Store :=
  s.rename id Function.injective_id edgeIdentifier edgeIdentifier_injective
    (fun _ a => (nodeIdentifier a.1, jsonProps a.2)) jsonProps

/-- An edge of the driver as the executor reads it. -/
def edgeOfKey (e : Uuid × EdgeType × Uuid) : Edge := ⟨e.1, edgeIdentifier e.2.1, e.2.2⟩

/-- A property reads as the JSON value of what the driver has set. -/
theorem get_jsonProps (props : Graph.Properties) (name : String) :
    (jsonProps props).get name = (props.get name).map jsonOf :=
  (OrderedDict.renamed_rename id Function.injective_id (fun _ => jsonOf) props).get
    fun _ _ heq => heq

section Stored

variable (s : Graph.IndraDB.Store Uuid)

/-- Vertex by vertex, the executor reads the store of the driver under other names. -/
theorem renamed_vertices_stored :
    s.vertices.Renamed id (fun _ a => (nodeIdentifier a.1, jsonProps a.2)) (stored s).vertices :=
  OrderedDict.renamed_rename id Function.injective_id _ _

/-- A vertex reads with its label as its type, and with its properties as JSON values. -/
theorem get_vertices_stored (v : Uuid) : (stored s).vertices.get v =
    (s.vertices.get v).map fun a => (nodeIdentifier a.1, jsonProps a.2) :=
  (renamed_vertices_stored s).get fun _ _ heq => heq

/-- The vertices that the executor reads, in the order of the driver's store. -/
theorem vertexItems_stored : (stored s).vertexItems =
    s.vertices.items.map fun item => ⟨item.1, nodeIdentifier item.2.1⟩ := by
  rw [Store.vertexItems, renamed_vertices_stored s, List.map_map]
  rfl

/-- The edges that the executor reads, in the order of the driver's store. -/
theorem edgeItems_stored : (stored s).edgeItems = s.edges.keys.map edgeOfKey := by
  have hkeys : (stored s).edges.keys = s.edges.keys.map
      (PropertyGraph.renameEdge id edgeIdentifier) :=
    (OrderedDict.renamed_rename _ (PropertyGraph.renameEdge_injective Function.injective_id
      edgeIdentifier_injective) _ s.edges).keys
  rw [Store.edgeItems, hkeys, List.map_map]
  rfl

/-- The properties of a vertex, as the executor reads them, are those that the driver has set. -/
theorem vertexProps_stored (v : Uuid) (name : String) : ((stored s).vertexProps v).get name =
    ((s.vertices.get v).bind fun a => a.2.get name).map jsonOf := by
  rw [Store.vertexProps, get_vertices_stored]
  cases s.vertices.get v with
  | none => rfl
  | some a => exact get_jsonProps a.2 name

/-- The properties of an edge, as the executor reads them, are those that the driver has set. -/
theorem edgeProps_stored (e : Uuid × EdgeType × Uuid) (name : String) :
    ((stored s).edgeProps (edgeOfKey e)).get name =
      ((s.edges.get e).bind fun props => props.get name).map jsonOf := by
  have hinj := PropertyGraph.renameEdge_injective (V := Uuid) Function.injective_id
    edgeIdentifier_injective
  have hget : (stored s).edges.get (PropertyGraph.renameEdge id edgeIdentifier e) =
      (s.edges.get e).map jsonProps :=
    (OrderedDict.renamed_rename _ hinj (fun _ => jsonProps) s.edges).get fun _ _ heq => hinj heq
  rw [Store.edgeProps]
  change (((stored s).edges.get (PropertyGraph.renameEdge id edgeIdentifier e)).getD .empty).get
    name = _
  rw [hget]
  cases s.edges.get e with
  | none => rfl
  | some props => exact get_jsonProps props name

end Stored

/-! ### What node records leave at a vertex -/

variable {U : Type} [DecidableEq U] {uuid5 : String → U}

/-- The properties that a node record sets. -/
def recProps (rec : NodeRecord) : Export.Props := Graph.withUsr rec.props rec.usr

/-- A vertex after the records of its symbol: the label is that of the first, unless it has one, and
the last value of each property stays. -/
def symbolAfter (old : Option (NodeType × Graph.Properties)) (recs : List NodeRecord) :
    Option (NodeType × Graph.Properties) :=
  (old.or (recs.head?.map fun first => (first.label, .empty))).map fun a =>
    (a.1, a.2.setAll (recs.flatMap recProps))

omit [DecidableEq U] in
/-- The records of one vertex write their properties one after the other and leave its label. -/
theorem foldl_change_nodeUpsert (recs : List NodeRecord) (a : NodeType × Graph.Properties) :
    (recs.map (Graph.IndraDB.nodeUpsert uuid5)).foldl (fun value u => u.change value) a =
      (a.1, a.2.setAll (recs.flatMap recProps)) := by
  induction recs generalizing a with
  | nil => rfl
  | cons rec recs ih =>
    rw [List.map_cons, List.foldl_cons, ih, List.flatMap_cons, OrderedDict.setAll_append]
    rfl

omit [DecidableEq U] in
/-- The records of one symbol make of its vertex what `symbolAfter` says, whether it was stored or
not. -/
theorem foldl_cell_nodeUpsert (recs : List NodeRecord) (old : Option (NodeType × Graph.Properties)) :
    (recs.map (Graph.IndraDB.nodeUpsert uuid5)).foldl Upsert.cell old = symbolAfter old recs := by
  cases old with
  | some a =>
    rw [Upsert.foldl_cell_some, foldl_change_nodeUpsert]
    rfl
  | none =>
    cases recs with
    | nil => rfl
    | cons rec recs =>
      rw [List.map_cons, List.foldl_cons]
      change List.foldl Upsert.cell (some ((Graph.IndraDB.nodeUpsert uuid5 rec).change
        (rec.label, .empty))) _ = _
      rw [Upsert.foldl_cell_some, foldl_change_nodeUpsert, symbolAfter, List.flatMap_cons]
      exact congrArg (fun props => some (rec.label, props))
        (OrderedDict.setAll_append .empty (recProps rec) (recs.flatMap recProps)).symm

/-- **The vertex of a symbol** is written by the records of that symbol. -/
theorem get_nodeUpserts {S : Set String} (hinj : Set.InjOn uuid5 S) {nodes : List NodeRecord}
    (hnodes : ∀ rec ∈ nodes, rec.usr ∈ S) {usr : String} (husr : usr ∈ S)
    (d : OrderedDict U (NodeType × Graph.Properties)) :
    (OrderedDict.upsertAll (nodes.map (Graph.IndraDB.nodeUpsert uuid5)) d).get (uuid5 usr) =
      symbolAfter (d.get (uuid5 usr)) (nodes.filter fun rec => rec.usr = usr) := by
  have hfilter : (nodes.map (Graph.IndraDB.nodeUpsert uuid5)).filter (fun u => u.key = uuid5 usr) =
      (nodes.filter fun rec => rec.usr = usr).map (Graph.IndraDB.nodeUpsert uuid5) := by
    rw [List.filter_map]
    refine congrArg _ (List.filter_congr fun rec hrec => decide_eq_decide.mpr ?_)
    exact ⟨fun heq => hinj (hnodes rec hrec) husr heq, congrArg uuid5⟩
  rw [OrderedDict.get_upsertAll, hfilter, foldl_cell_nodeUpsert]

/-! ### Every vertex knows its USR -/

/-- **The property `usr` of a vertex is the USR that it is made of.** -/
def WellKeyed (uuid5 : String → U) (S : Set String) (d : OrderedDict U (NodeType × Graph.Properties)) :
    Prop :=
  ∀ v a, d.get v = some a → ∃ usr ∈ S, v = uuid5 usr ∧ a.2.get "usr" = some (.str usr)

/-- An empty store is well keyed. -/
theorem wellKeyed_empty (uuid5 : String → U) (S : Set String) : WellKeyed uuid5 S .empty :=
  fun _ _ h => absurd h (by simp [OrderedDict.get, OrderedDict.empty])

/-- What is set last as the USR is the USR. -/
theorem lookup_usr_recProps (rec : NodeRecord) :
    (recProps rec).reverse.lookup "usr" = some (.str rec.usr) := by
  have hall : ∀ item ∈ recProps rec, item.1 = "usr" → item.2 = .str rec.usr := by
    intro item hitem hkey
    unfold recProps Graph.withUsr at hitem
    split_ifs at hitem with hin
    · obtain ⟨item', -, rfl⟩ := List.mem_map.mp hitem
      split_ifs at hkey ⊢ with h
      · rfl
      · exact absurd hkey h
    · rcases List.mem_append.mp hitem with hitem | hitem
      · exact absurd (hkey ▸ List.mem_map_of_mem hitem) hin
      · rw [List.mem_singleton.mp hitem]
  have hmem : ∃ value, ("usr", value) ∈ recProps rec := by
    unfold recProps Graph.withUsr
    split_ifs with hin
    · obtain ⟨item, hitem, hkey⟩ := List.mem_map.mp hin
      exact ⟨_, List.mem_map.mpr ⟨item, hitem, if_pos hkey⟩⟩
    · exact ⟨_, List.mem_append_right _ (List.mem_singleton_self _)⟩
  cases hlookup : (recProps rec).reverse.lookup "usr" with
  | none =>
    obtain ⟨value, hvalue⟩ := hmem
    have hne := List.lookup_eq_none_iff.mp hlookup _ (List.mem_reverse.mpr hvalue)
    exact absurd hne (by simp)
  | some value => exact congrArg some (hall _ (OrderedDict.mem_of_lookup_reverse hlookup) rfl)

/-- After a node record the property `usr` is the USR of the record, whatever its own properties
are. -/
theorem get_usr_setAll (rec : NodeRecord) (stored : Graph.Properties) :
    (stored.setAll (recProps rec)).get "usr" = some (.str rec.usr) := by
  rw [OrderedDict.get_setAll, lookup_usr_recProps]
  rfl

/-- **Node records keep every vertex well keyed,** since each of them sets the property `usr` last.
-/
theorem WellKeyed.upsertAll {S : Set String} {d : OrderedDict U (NodeType × Graph.Properties)}
    (h : WellKeyed uuid5 S d) {nodes : List NodeRecord} (hnodes : ∀ rec ∈ nodes, rec.usr ∈ S) :
    WellKeyed uuid5 S (OrderedDict.upsertAll (nodes.map (Graph.IndraDB.nodeUpsert uuid5)) d) := by
  have hwrite : ∀ rec ∈ nodes, ∀ a : NodeType × Graph.Properties, ∃ usr ∈ S,
      uuid5 rec.usr = uuid5 usr ∧ (a.2.setAll (recProps rec)).get "usr" = some (.str usr) :=
    fun rec hrec a => ⟨rec.usr, hnodes rec hrec, rfl, get_usr_setAll rec a.2⟩
  intro v a hget
  refine OrderedDict.forall_get_upsertAll h (fun u hu b hb => ?_) (fun u hu b _ => ?_) hget <;>
    obtain ⟨rec, hrec, rfl⟩ := List.mem_map.mp hu
  · exact hwrite rec hrec b
  · exact hwrite rec hrec b

/-! ### Looking a symbol up -/

/-- The items of a key are its value, or none. -/
theorem filter_key_eq {κ ν : Type} [DecidableEq κ] (d : OrderedDict κ ν) (key : κ) :
    d.items.filter (fun item => item.1 = key) = ((d.get key).map fun value => (key, value)).toList := by
  obtain ⟨items, hnodup⟩ := d
  change items.filter _ = ((items.lookup key).map _).toList
  induction items with
  | nil => rfl
  | cons item items ih =>
    obtain ⟨k, value⟩ := item
    obtain ⟨hnew, hrest⟩ := List.nodup_cons.mp hnodup
    rw [List.lookup_cons]
    by_cases hk : k = key
    · subst hk
      have hnone : items.filter (fun item => decide (item.1 = k)) = [] :=
        List.filter_eq_nil_iff.mpr fun item hitem heq =>
          hnew (List.mem_map.mpr ⟨item, hitem, of_decide_eq_true heq⟩)
      rw [List.filter_cons_of_pos (by simp), hnone, beq_self_eq_true]
      rfl
    · rw [List.filter_cons_of_neg (by simpa using hk), ih hrest, beq_false_of_ne (Ne.symm hk)]

/-- **The answer for a symbol:** its vertex with its label and properties, if it is stored, and else
nothing. -/
def IsEntry (id : Uuid) (entry : Option (NodeType × Graph.Properties)) (r : QueryResult) : Prop :=
  r.truncated = false ∧
    match entry with
    | none => r.rows = []
    | some (label, props) => ∃ row_props, r.rows = [.vertex id.str label.text row_props] ∧
        ∀ name, row_props.get name = (props.get name).map jsonOf

/-- **A symbol is found by its USR,** it and no other. -/
theorem execute_usrEqual {uuid5 : String → Uuid} {S : Set String} (hinj : Set.InjOn uuid5 S)
    {s : Graph.IndraDB.Store Uuid} (hkeyed : WellKeyed uuid5 S s.vertices) {client : Client}
    (hserves : Serves client (stored s)) {library : Library} {query : String} {args : Args}
    {usr : String} (husr : usr ∈ S) (hargs : AsksProperty args "usr" (.str usr))
    (hask : Asks library query .vertex_with_property_equal args) {row_limit : ℕ}
    (hlimit : 0 < row_limit) :
    ∃ r, execute client library row_limit query = .ok r ∧
      IsEntry (uuid5 usr) (s.vertices.get (uuid5 usr)) r := by
  obtain ⟨r, hr, hrows, -, htruncated⟩ := execute_vertexPropEqual hserves hargs hask row_limit
  refine ⟨r, hr, ?_⟩
  have hselect : (stored s).vertexItems.filter (fun v =>
      propEqual ((stored s).vertexProps v.id) "usr" (.str usr)) =
        ((s.vertices.get (uuid5 usr)).map fun a => (⟨uuid5 usr, nodeIdentifier a.1⟩ : Vertex)).toList := by
    rw [vertexItems_stored, List.filter_map]
    have hcongr : s.vertices.items.filter ((fun v : Vertex =>
        propEqual ((stored s).vertexProps v.id) "usr" (.str usr)) ∘ fun item =>
          ⟨item.1, nodeIdentifier item.2.1⟩) =
        s.vertices.items.filter fun item => item.1 = uuid5 usr := by
      refine List.filter_congr fun item hitem => ?_
      have hget : s.vertices.get item.1 = some item.2 := OrderedDict.get_eq_some_iff.mpr hitem
      obtain ⟨usr', husr', hv, hprop⟩ := hkeyed _ _ hget
      rw [Function.comp_apply, propEqual, vertexProps_stored, hget, Option.bind_some, hprop]
      change decide (usr' = usr) = decide (item.1 = uuid5 usr)
      rw [hv]
      exact decide_eq_decide.mpr ⟨congrArg uuid5, fun heq => hinj husr' husr heq⟩
    rw [hcongr, filter_key_eq]
    cases s.vertices.get (uuid5 usr) <;> rfl
  rw [hselect] at hrows htruncated
  cases hget : s.vertices.get (uuid5 usr) with
  | none =>
    rw [hget] at hrows htruncated
    refine ⟨Bool.eq_false_iff.mpr fun h => absurd (htruncated.mp h) (by simp), ?_⟩
    simpa using hrows
  | some a =>
    rw [hget] at hrows htruncated
    refine ⟨Bool.eq_false_iff.mpr fun h => absurd (htruncated.mp h) (by simp; omega), ?_⟩
    rw [Option.map_some, Option.toList_some, List.take_of_length_le (Nat.succ_le_of_lt hlimit)] at hrows
    obtain ⟨row, rows, hrow, hnone, hall⟩ := List.forall₂_cons_left_iff.mp hrows
    obtain ⟨props, rfl, hprops⟩ := hrow
    rw [List.forall₂_nil_left_iff.mp hnone] at hall
    refine ⟨props, hall, fun name => ?_⟩
    rw [hprops, vertexProps_stored, hget]
    rfl

end IndraDB
end CppMcp
