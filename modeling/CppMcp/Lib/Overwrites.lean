/-
# The last value of a property

`propOf` is a property of a vertex.  A write makes the vertex if there is none and sets properties,
so of the writes to a vertex the last that sets the property counts; where all of them set
the same value it is that value (`propOf_upsertAll_of_mem`).  Requests that are broken off may or
may not have set it (`propOf_runAll_cases`).
-/

import CppMcp.Lib.GraphRequests

namespace PropertyGraph

open HasProps

variable {V T A K P : Type*} [DecidableEq V] [DecidableEq K] [HasProps A K P]

/-- A property of a vertex. -/
def propOf (vertices : OrderedDict V A) (v : V) (key : K) : Option P :=
  (vertices.get v).bind fun a => (props a).get key

/-- The write that makes vertex `v` with data `a`, unless it is there, and sets the properties. -/
def writeProps (v : V) (a : A) (ps : List (K × P)) : Upsert V A :=
  ⟨v, some a, fun a => withProps a ((props a).setAll ps)⟩

section Writes

variable {d : OrderedDict V A} {v : V} {key : K}

/-- A write to one vertex changes no property of another. -/
theorem propOf_upsert_of_ne {u : Upsert V A} (h : v ≠ u.key) :
    propOf (d.upsert u) v key = propOf d v key := by
  rw [propOf, OrderedDict.get_upsert_of_ne h, propOf]

/-- A write sets the properties of its vertex: each has the last value that the write gives it, and
those it does not name stay. -/
theorem propOf_upsert_self {a : A} (ha : props a = .empty) (ps : List (K × P)) :
    propOf (d.upsert (writeProps v a ps)) v key = (ps.reverse.lookup key).or (propOf d v key) := by
  have hcell := OrderedDict.get_upsert_self (d := d) (writeProps v a ps)
  change (d.upsert (writeProps v a ps)).get v = _ at hcell
  rw [propOf, hcell, Upsert.cell, propOf]
  change ((((d.get v).or (some a)).map _).bind _ : Option P) = _
  cases hget : d.get v with
  | none =>
    change (props (withProps a ((props a).setAll ps))).get key = _
    rw [props_withProps, OrderedDict.get_setAll, ha]
    rfl
  | some stored =>
    change (props (withProps stored ((props stored).setAll ps))).get key = _
    rw [props_withProps, OrderedDict.get_setAll]
    rfl

variable {ι : Type*} {vertex : ι → V} {start : ι → A} {ps : ι → List (K × P)}

/-- The writes that set a property of no vertex leave it. -/
theorem propOf_upsertAll_of_not_mem (hstart : ∀ i, props (start i) = .empty) {is : List ι}
    (h : ∀ i ∈ is, vertex i = v → key ∉ (ps i).map Prod.fst) (d : OrderedDict V A) :
    propOf (OrderedDict.upsertAll (is.map fun i => writeProps (vertex i) (start i) (ps i)) d) v key =
      propOf d v key := by
  induction is generalizing d with
  | nil => rfl
  | cons i is ih =>
    obtain ⟨hi, his⟩ := List.forall_mem_cons.mp h
    refine (ih his _).trans ?_
    by_cases hv : vertex i = v
    · subst hv
      rw [propOf_upsert_self (hstart i), OrderedDict.lookup_reverse_of_not_mem (hi rfl),
        Option.none_or]
    · exact propOf_upsert_of_ne (Ne.symm hv)

/-- **Where every write to a vertex that sets a property sets the same value,** it has that value
after one of them. -/
theorem propOf_upsertAll_of_mem (hstart : ∀ i, props (start i) = .empty) {is : List ι} {value : P}
    (hvalue : ∀ i ∈ is, vertex i = v → ∀ x, (key, x) ∈ ps i → x = value)
    (h : ∃ i ∈ is, vertex i = v ∧ key ∈ (ps i).map Prod.fst) (d : OrderedDict V A) :
    propOf (OrderedDict.upsertAll (is.map fun i => writeProps (vertex i) (start i) (ps i)) d) v key =
      some value := by
  induction is generalizing d with
  | nil => exact absurd h (by simp)
  | cons i is ih =>
    obtain ⟨hi, his⟩ := List.forall_mem_cons.mp hvalue
    by_cases hlater : ∃ i ∈ is, vertex i = v ∧ key ∈ (ps i).map Prod.fst
    · exact ih his hlater _
    · -- the first write is the last that sets the property
      obtain ⟨j, hj, rfl, hkey⟩ := h
      obtain rfl := (List.mem_cons.mp hj).resolve_right fun hj => hlater ⟨j, hj, rfl, hkey⟩
      refine (propOf_upsertAll_of_not_mem hstart
        (fun i hi hv hkey => hlater ⟨i, hi, hv, hkey⟩) _).trans ?_
      rw [propOf_upsert_self (hstart j)]
      cases hlookup : (ps j).reverse.lookup key with
      | none =>
        obtain ⟨item, hitem, rfl⟩ := List.mem_map.mp hkey
        have hne := List.lookup_eq_none_iff.mp hlookup item (List.mem_reverse.mpr hitem)
        exact absurd hne (by simp)
      | some x => rw [hi rfl x (OrderedDict.mem_of_lookup_reverse hlookup), Option.some_or]

end Writes

section Requests

variable [DecidableEq T] {v : V} {key : K}

omit [DecidableEq T] in
/-- Adding a vertex that has no properties yet changes no property. -/
theorem propOf_add {d : OrderedDict V A} {v' : V} {a : A} (ha : props a = .empty) :
    propOf (d.add v' a) v key = propOf d v key := by
  by_cases hv : v = v'
  · subst hv
    rw [propOf, OrderedDict.get_add_self, propOf]
    cases d.get v with
    | none => exact congrArg (OrderedDict.get · key) ha
    | some stored => rfl
  · rw [propOf, OrderedDict.get_add_of_ne hv, propOf]

omit [DecidableEq T] in
/-- Setting a property of a vertex sets that property or leaves it. -/
theorem propOf_modify_set {v' : V} (key' : K) (value : P) (d : OrderedDict V A) :
    let d' := d.modify v' fun a => withProps a ((props a).set key' value)
    propOf d' v key = propOf d v key ∨ v' = v ∧ key' = key ∧ propOf d' v key = some value := by
  intro d'
  by_cases hv : v = v'
  · subst hv
    cases hget : d.get v with
    | none =>
      refine Or.inl ?_
      rw [propOf, OrderedDict.get_modify_self, propOf, hget, Option.map_none]
    | some a =>
      have hget' : propOf d' v key = ((props a).set key' value).get key := by
        rw [propOf, OrderedDict.get_modify_self, hget, Option.map_some, Option.bind_some,
          props_withProps]
      rw [hget', propOf, hget, Option.bind_some]
      by_cases hkey : key = key'
      · subst hkey
        exact Or.inr ⟨rfl, rfl, OrderedDict.get_set_self _ _⟩
      · exact Or.inl (OrderedDict.get_set_of_ne hkey)
  · exact Or.inl (by rw [propOf, OrderedDict.get_modify_of_ne hv, propOf])

/-- A request leaves the property or sets it, and it sets it only if it is a request for that vertex
and that property. -/
theorem propOf_run_cases {r : Request V T A K P} (hr : ∀ v a, r = .addVertex v a → props a = .empty)
    (g : PropertyGraph V T A (OrderedDict K P)) :
    propOf (r.run g).vertices v key = propOf g.vertices v key ∨
      ∃ value, r = .setVertex v key value ∧ propOf (r.run g).vertices v key = some value := by
  cases r with
  | hasVertex | hasEdge | setEdge => exact Or.inl rfl
  | addEdge e => exact Or.inl (by rw [Request.run, vertices_addEdge])
  | addVertex v' a => exact Or.inl (propOf_add (hr v' a rfl))
  | setVertex v' key' value =>
    refine (propOf_modify_set key' value g.vertices).imp_right ?_
    rintro ⟨rfl, rfl, h⟩
    exact ⟨value, rfl, h⟩

/-- **Requests that are broken off** leave the property as it was or with a value that one of them
sets. -/
theorem propOf_runAll_cases {rs : List (Request V T A K P)}
    (hrs : ∀ v a, .addVertex v a ∈ rs → props a = .empty)
    (g : PropertyGraph V T A (OrderedDict K P)) (v : V) (key : K) :
    propOf (runAll rs g).vertices v key = propOf g.vertices v key ∨
      ∃ value, .setVertex v key value ∈ rs ∧
        propOf (runAll rs g).vertices v key = some value := by
  induction rs generalizing g with
  | nil => exact Or.inl rfl
  | cons r rs ih =>
    rw [runAll_cons]
    rcases ih (fun v a h => hrs v a (List.mem_cons_of_mem _ h)) (r.run g) with h | ⟨value, hmem, h⟩
    · rcases propOf_run_cases (fun v a h => hrs v a (h ▸ List.mem_cons_self)) g with
        hr | ⟨value, hr, hr'⟩
      · exact Or.inl (h.trans hr)
      · exact Or.inr ⟨value, hr ▸ List.mem_cons_self, h.trans hr'⟩
    · exact Or.inr ⟨value, List.mem_cons_of_mem _ hmem, h⟩

end Requests

end PropertyGraph
