/-
# What the introspector describes

A backend streams its vertices and edges in any order and in batches of any size.  `describe`
groups them, so what it says of a type is a matter of the items of that type: how many there are,
and, as far as all of them are in the sample, what their properties are called
(`describesTypes_of_entries`). The entries are sorted by count and name, and no two have one name,
so the list is determined as well (`describe_order_independent`).
-/

import CppMcp.IndraDB.Answers
import CppMcp.IndraDB.Introspector
import CppMcp.Lib.Visitor
import Mathlib.Data.String.Basic

namespace CppMcp
namespace IndraDB

open Export (Acc)
open Py (sliceTo sortedStrs)

/-! ### Property keys -/

section PropertyKeys

variable {α β : Type} {get : α → Acc (List (List β))} {props : β → List NamedProperty}

/-- The item has a property of this name. -/
def HasKey (get : α → Acc (List (List β))) (props : β → List NamedProperty) (item : α)
    (name : String) : Prop :=
  ∃ prop_batches, get item = .ok prop_batches ∧
    ∃ p ∈ prop_batches.flatten, ∃ np ∈ props p, np.name = name

/-- Inserting names into a set of keys gives a set, with the keys that were there and the names. -/
theorem nodup_mem_foldl_insert (names keys : List String) (hkeys : keys.Nodup) :
    (names.foldl (fun keys name => keys.insert name) keys).Nodup ∧
      ∀ k, k ∈ names.foldl (fun keys name => keys.insert name) keys ↔ k ∈ keys ∨ k ∈ names := by
  induction names generalizing keys with
  | nil => simp [hkeys]
  | cons name names ih =>
    obtain ⟨hnodup, hmem⟩ := ih (keys.insert name) (hkeys.insert (a := name))
    refine ⟨hnodup, fun k => ?_⟩
    rw [List.foldl_cons, hmem, List.mem_insert_iff, List.mem_cons, or_assoc, or_left_comm]

/-- The names of the properties in a stream. -/
def namesOf (props : β → List NamedProperty) (prop_batches : List (List β)) : List String :=
  prop_batches.flatten.flatMap fun p => (props p).map NamedProperty.name

/-- The loops over the properties of an item insert their names, whatever the batches. -/
theorem addKeys_eq {item : α} {prop_batches : List (List β)} (h : get item = .ok prop_batches)
    (keys : List String) : addKeys get props keys item =
      .ok ((namesOf props prop_batches).foldl (fun keys name => keys.insert name) keys) := by
  rw [addKeys, h, namesOf, List.foldl_flatMap, List.foldl_flatten]
  simp only [List.foldl_map]
  rfl

/-- The names in the stream of an item are those that it has. -/
theorem mem_namesOf_iff {item : α} {prop_batches : List (List β)} (h : get item = .ok prop_batches)
    (k : String) : k ∈ namesOf props prop_batches ↔ HasKey get props item k := by
  rw [namesOf, List.mem_flatMap, HasKey]
  simp only [List.mem_map, h, Except.ok.injEq, exists_eq_left']

/-- The names that some items have, each once. -/
structure KeysOf (get : α → Acc (List (List β))) (props : β → List NamedProperty) (items : List α)
    (keys : List String) : Prop where
  nodup : keys.Nodup
  mem : ∀ k, k ∈ keys ↔ ∃ item ∈ items, HasKey get props item k

/-- One turn of the loop over a sample adds the names of its item, and those of the items before it
stay. -/
theorem KeysOf.step {done : List α} {item : α} {keys keys' : List String}
    (h : KeysOf get props done keys) (hstep : addKeys get props keys item = .ok keys') :
    KeysOf get props (done ++ [item]) keys' := by
  cases hget : get item with
  | error exc =>
    rw [addKeys, hget] at hstep
    cases hstep
  | ok prop_batches =>
    rw [addKeys_eq hget] at hstep
    cases hstep
    obtain ⟨hnodup, hmem⟩ := nodup_mem_foldl_insert (namesOf props prop_batches) keys h.nodup
    refine ⟨hnodup, fun k => ?_⟩
    rw [hmem, h.mem, mem_namesOf_iff hget]
    simp only [List.mem_append, List.mem_singleton, or_and_right, exists_or, exists_eq_left]

/-- **The keys of a sample** are those of its items. -/
theorem keysOf_propertyKeys {items : List α} {keys : List String}
    (h : propertyKeys get props items = .ok keys) : KeysOf get props items keys := by
  have hstart : KeysOf get props [] [] := ⟨List.nodup_nil, fun k => by simp⟩
  exact List.foldlM_induct (fun _ _ _ _ hdone hstep => hdone.step hstep) h hstart

/-- The keys of a sample are found if the backend answers for each of its items. -/
theorem exists_propertyKeys {items : List α} (h : ∀ item ∈ items, ∃ bs, get item = .ok bs) :
    ∃ keys, propertyKeys get props items = .ok keys := by
  refine List.exists_foldlM (fun keys item hitem => ?_) []
  obtain ⟨bs, hbs⟩ := h item hitem
  exact ⟨_, addKeys_eq hbs keys⟩

end PropertyKeys

/-! ### The entries -/

/-- The order of the entries: by decreasing count, then by name. -/
def Before (t t' : String × ℕ) : Prop := t'.2 < t.2 ∨ (t.2 = t'.2 ∧ t.1 < t'.1)

/-- Of two different entries only one is before the other. -/
theorem Before.asymm (t t' : String × ℕ) (h : Before t t') : ¬Before t' t := by
  rintro (h' | ⟨h', hlt'⟩) <;> rcases h with h | ⟨h, hlt⟩
  · omega
  · omega
  · omega
  · exact lt_asymm hlt hlt'

/-- What an entry says of its type beside the keys. -/
def TypeEntry.counted (t : TypeEntry) : String × ℕ := (t.name, t.count)

instance : IsTrans TypeEntry TypeEntry.le where
  trans t t' t'' h h' := by
    rcases h with h | ⟨h, hle⟩ <;> rcases h' with h' | ⟨h', hle'⟩
    · exact Or.inl (h'.trans h)
    · exact Or.inl (h' ▸ h)
    · exact Or.inl (h ▸ h')
    · exact Or.inr ⟨h.trans h', le_trans hle hle'⟩

instance : Std.Total TypeEntry.le where
  total t t' := by
    rcases Nat.lt_trichotomy t.count t'.count with hlt | heq | hlt
    · exact Or.inr (Or.inl hlt)
    · rcases le_total t.name t'.name with hle | hle
      · exact Or.inl (Or.inr ⟨heq, hle⟩)
      · exact Or.inr (Or.inr ⟨heq.symm, hle⟩)
    · exact Or.inl (Or.inl hlt)

/-- Sorting the entries keeps them all. -/
theorem perm_sortTypes (types : List TypeEntry) : (sortTypes types).Perm types :=
  List.perm_insertionSort ..

/-- Entries with different names are sorted strictly, since names decide between equal counts. -/
theorem pairwise_sortTypes {types : List TypeEntry} (h : (types.map TypeEntry.name).Nodup) :
    (sortTypes types).Pairwise fun t t' => Before t.counted t'.counted := by
  have hnames : (sortTypes types).Pairwise fun t t' => t.name ≠ t'.name :=
    List.pairwise_map.mp (((perm_sortTypes types).map TypeEntry.name).nodup_iff.mpr h)
  refine (List.pairwise_insertionSort TypeEntry.le types).imp₂ (fun t t' hle hne => ?_) hnames
  rcases hle with h₁ | ⟨h₁, hle₁⟩
  · exact Or.inl h₁
  · exact Or.inr ⟨h₁, lt_of_le_of_ne hle₁ hne⟩

section Entries

variable {α β : Type} {t : α → String} {get : α → Acc (List (List β))}
  {props : β → List NamedProperty} {n : ℤ} {items : List α}

/-- The items of a type. -/
def ofType (t : α → String) (items : List α) (name : String) : List α :=
  items.filter fun item => decide (t item = name)

/-- Grouping batch by batch is grouping the stream. -/
theorem groupBatches_eq (t : α → String) (batches : List (List α)) :
    groupBatches t batches = OrderedDict.groups t batches.flatten := by
  rw [groupBatches, OrderedDict.groups, List.foldl_flatten]

/-- The slice that is the sample is the whole of what is no longer than it. -/
theorem sliceTo_of_length_le (h : (items.length : ℤ) ≤ n) : sliceTo items n = items := by
  rw [sliceTo, if_pos (by omega)]
  exact List.take_of_length_le (by omega)

/-- Names that are all different are sorted strictly. -/
theorem pairwise_sortedStrs {names : List String} (h : names.Nodup) :
    (sortedStrs names).Pairwise (· < ·) := by
  have hne : (sortedStrs names).Nodup := (List.perm_insertionSort ..).nodup_iff.mpr h
  exact (List.pairwise_insertionSort (· ≤ ·) names).imp₂ (fun _ _ => lt_of_le_of_ne) hne

/-- **What the entries say of the items:** each type that is there has one, with its number of
items, and with the names of all their properties if all are in the sample. -/
structure DescribesTypes (t : α → String) (get : α → Acc (List (List β)))
    (props : β → List NamedProperty) (n : ℤ) (items : List α) (entries : List TypeEntry) :
    Prop where
  once : (entries.map TypeEntry.name).Nodup
  counted : ∀ name count, (name, count) ∈ entries.map TypeEntry.counted ↔
    0 < count ∧ count = (ofType t items name).length
  sorted : entries.Pairwise fun e e' => Before e.counted e'.counted
  keys : ∀ e ∈ entries, (e.count : ℤ) ≤ n → e.property_keys.Pairwise (· < ·) ∧
    ∀ k, k ∈ e.property_keys ↔ ∃ item ∈ items, t item = e.name ∧ HasKey get props item k

/-- The entry of a group. -/
def EntryOf (get : α → Acc (List (List β))) (props : β → List NamedProperty) (n : ℤ)
    (group : String × List α) (e : TypeEntry) : Prop :=
  ∃ keys, propertyKeys get props (sliceTo group.2 n) = .ok keys ∧
    e = ⟨group.1, group.2.length, sortedStrs keys⟩

/-- Each entry is that of its group, in the order of the groups. -/
theorem forall₂_typeEntries {groups : OrderedDict String (List α)} {types : List TypeEntry}
    (h : typeEntries (propertyKeys get props) n groups = .ok types) :
    List.Forall₂ (EntryOf get props n) groups.items types := by
  refine (List.forall₂_of_mapM h).imp fun group e he => ?_
  obtain ⟨keys, hkeys, he⟩ := Except.bind_eq_ok.mp he
  cases he
  exact ⟨keys, hkeys, rfl⟩

/-- The names and counts of the entries are those of the groups. -/
theorem map_counted_of_forall₂ {groups : List (String × List α)} {types : List TypeEntry}
    (h : List.Forall₂ (EntryOf get props n) groups types) :
    types.map TypeEntry.counted = groups.map fun group => (group.1, group.2.length) := by
  induction h with
  | nil => rfl
  | cons he _ ih =>
    obtain ⟨keys, -, rfl⟩ := he
    rw [List.map_cons, List.map_cons, ih]
    rfl

/-- **The entries of the groups,** sorted, say of the items what a description is to say of them. -/
theorem describesTypes_of_entries {types : List TypeEntry}
    (h : typeEntries (propertyKeys get props) n (OrderedDict.groups t items) = .ok types) :
    DescribesTypes t get props n items (sortTypes types) := by
  have hgroups := forall₂_typeEntries h
  have hcounted := map_counted_of_forall₂ hgroups
  have hnames : types.map TypeEntry.name = (OrderedDict.groups t items).keys := by
    have := congrArg (List.map Prod.fst) hcounted
    rwa [List.map_map, List.map_map] at this
  have hnodup : (types.map TypeEntry.name).Nodup := hnames ▸ (OrderedDict.groups t items).nodup
  refine
    { once := ((perm_sortTypes types).map _).nodup_iff.mpr hnodup
      counted := fun name count => ?_
      sorted := pairwise_sortTypes hnodup
      keys := fun e he hn => ?_ }
  · have hsorted : (name, count) ∈ (sortTypes types).map TypeEntry.counted ↔
        (name, count) ∈ types.map TypeEntry.counted := ((perm_sortTypes types).map _).mem_iff
    rw [hsorted, hcounted, List.mem_map, ofType]
    constructor
    · rintro ⟨⟨k, group⟩, hgroup, heq⟩
      obtain ⟨hfilter, hne⟩ := OrderedDict.mem_items_groups.mp hgroup
      obtain ⟨rfl, rfl⟩ := Prod.mk.inj heq
      exact ⟨List.length_pos_of_ne_nil hne, congrArg List.length hfilter⟩
    · rintro ⟨hpos, rfl⟩
      exact ⟨_, OrderedDict.mem_items_groups.mpr ⟨rfl, List.ne_nil_of_length_pos hpos⟩, rfl⟩
  · obtain ⟨⟨k, group⟩, hgroup, keys, hkeys, rfl⟩ :=
      hgroups.exists_mem ((perm_sortTypes types).mem_iff.mp he)
    obtain ⟨rfl, -⟩ := OrderedDict.mem_items_groups.mp hgroup
    rw [sliceTo_of_length_le hn] at hkeys
    have hof := keysOf_propertyKeys hkeys
    refine ⟨pairwise_sortedStrs hof.nodup, fun k' => ?_⟩
    rw [sortedStrs, List.mem_insertionSort, hof.mem]
    simp only [List.mem_filter, decide_eq_true_eq, and_assoc]

/-- The counts add up to the number of items, since every item is in one group. -/
theorem sum_count_of_entries {types : List TypeEntry}
    (h : typeEntries (propertyKeys get props) n (OrderedDict.groups t items) = .ok types) :
    (types.map TypeEntry.count).sum = items.length := by
  have hcounted := congrArg (List.map Prod.snd) (map_counted_of_forall₂ (forall₂_typeEntries h))
  rw [List.map_map, List.map_map] at hcounted
  rw [← OrderedDict.sum_length_groups t items]
  exact congrArg List.sum hcounted

/-- **Descriptions of the same items are the same,** as far as the counts go, and for a type that is
in the sample as a whole. -/
theorem DescribesTypes.unique {get' : α → Acc (List (List β))} {items' : List α}
    {entries entries' : List TypeEntry} (h : DescribesTypes t get props n items entries)
    (h' : DescribesTypes t get' props n items' entries') (hitems : items.Perm items')
    (hkeys : ∀ item name, HasKey get props item name ↔ HasKey get' props item name) :
    entries.map TypeEntry.counted = entries'.map TypeEntry.counted ∧
      ∀ e ∈ entries, ∀ e' ∈ entries', e.name = e'.name → (e.count : ℤ) ≤ n →
        e.property_keys = e'.property_keys := by
  have hcount : ∀ name, (ofType t items name).length = (ofType t items' name).length := fun name =>
    (hitems.filter _).length_eq
  refine ⟨List.eq_of_sorted Before.asymm (List.pairwise_map.mpr h.sorted)
    (List.pairwise_map.mpr h'.sorted) fun c => ?_, fun e he e' he' hname hn => ?_⟩
  · rw [← Prod.mk.eta (p := c), h.counted, h'.counted, hcount]
  · have heq : e.count = e'.count := by
      rw [((h.counted _ _).mp (List.mem_map_of_mem (f := TypeEntry.counted) he)).2,
        ((h'.counted _ _).mp (List.mem_map_of_mem (f := TypeEntry.counted) he')).2, hcount, hname]
    obtain ⟨hsorted, hmem⟩ := h.keys e he hn
    obtain ⟨hsorted', hmem'⟩ := h'.keys e' he' (heq ▸ hn)
    refine List.eq_of_sorted (fun a b => lt_asymm) hsorted hsorted' fun k => ?_
    rw [hmem, hmem', hname]
    simp only [hkeys, hitems.mem_iff]

end Entries

/-! ### Two backends with the same content -/

/-- Both answer, with the same items in whatever order and batches, or both raise. -/
inductive SameStream {α : Type} : Acc (List (List α)) → Acc (List (List α)) → Prop
  | streams {batches batches' : List (List α)} (h : batches.flatten.Perm batches'.flatten) :
    SameStream (.ok batches) (.ok batches')
  | raises (exc exc' : Export.Exc) : SameStream (.error exc) (.error exc')

/-- The two clients have the same vertices and edges, with the same properties. -/
structure SameContent (client client' : Client) : Prop where
  vertices : SameStream (client.vertices .all) (client'.vertices .all)
  edges : SameStream (client.edges .all) (client'.edges .all)
  vertexProps : ∀ v, SameStream (client.propsOfVertex v) (client'.propsOfVertex v)
  edgeProps : ∀ e, SameStream (client.propsOfEdge e) (client'.propsOfEdge e)

/-- The client answers every query that the introspector sends. -/
structure Answering (client : Client) : Prop where
  vertices : ∃ batches, client.vertices .all = .ok batches
  edges : ∃ batches, client.edges .all = .ok batches
  vertexProps : ∀ v, ∃ batches, client.propsOfVertex v = .ok batches
  edgeProps : ∀ e, ∃ batches, client.propsOfEdge e = .ok batches

/-- Two streams of the same items have them in some order each. -/
theorem SameStream.perm {α : Type} {x y : Acc (List (List α))} {batches batches' : List (List α)}
    (h : SameStream x y) (hx : x = .ok batches) (hy : y = .ok batches') :
    batches.flatten.Perm batches'.flatten := by
  subst hx hy
  cases h with
  | streams h => exact h

/-- That two streams are the same does not depend on which is named first. -/
theorem SameStream.symm {α : Type} {x y : Acc (List (List α))} (h : SameStream x y) :
    SameStream y x := by
  cases h with
  | streams h => exact .streams h.symm
  | raises exc exc' => exact .raises exc' exc

/-- A stream is the same as itself. -/
theorem SameStream.refl {α : Type} (x : Acc (List (List α))) : SameStream x x := by
  cases x with
  | error exc => exact .raises exc exc
  | ok batches => exact .streams (List.Perm.refl _)

section SameKeys

variable {α β : Type} {get get' : α → Acc (List (List β))} {props : β → List NamedProperty}

/-- A name that an item has in one backend it has in another one that streams the same of it. -/
theorem HasKey.of_sameStream (h : ∀ item, SameStream (get item) (get' item)) {item : α}
    {name : String} (hkey : HasKey get props item name) : HasKey get' props item name := by
  obtain ⟨batches, hbatches, p, hp, hnp⟩ := hkey
  have hitem := h item
  cases hother : get' item with
  | error exc =>
    rw [hbatches, hother] at hitem
    cases hitem
  | ok batches' => exact ⟨batches', hother, p, (hitem.perm hbatches hother).mem_iff.mp hp, hnp⟩

/-- So the names of an item are the same in both. -/
theorem hasKey_iff_of_sameStream (h : ∀ item, SameStream (get item) (get' item)) (item : α)
    (name : String) : HasKey get props item name ↔ HasKey get' props item name :=
  ⟨HasKey.of_sameStream h, HasKey.of_sameStream fun item => (h item).symm⟩

end SameKeys

/-- What a description says of the vertices and edges of the backend. -/
structure Describes (client : Client) (n : ℤ) (vertices : List Vertex) (edges : List Edge)
    (d : Description) : Prop where
  node_types : DescribesTypes (fun v : Vertex => v.t.name) client.propsOfVertex
    VertexProperties.props n vertices d.node_types
  edge_types : DescribesTypes (fun e : Edge => e.t.name) client.propsOfEdge EdgeProperties.props n
    edges d.edge_types
  vertices : d.vertices = vertices.length
  edges : d.edges = edges.length

/-- **A description is of what the backend streams:** types, counts and totals are those of the two
streams. -/
theorem describes_of_describe {client : Client} {n : ℤ} {d : Description}
    (h : describe (some client) n = .ok d) :
    ∃ vertices edges, client.vertices .all = .ok vertices ∧ client.edges .all = .ok edges ∧
      Describes client n vertices.flatten edges.flatten d := by
  obtain ⟨vertices, hvertices, h⟩ := Except.bind_eq_ok.mp h
  obtain ⟨edges, hedges, h⟩ := Except.bind_eq_ok.mp h
  obtain ⟨node_types, hnodes, h⟩ := Except.bind_eq_ok.mp h
  obtain ⟨edge_types, hedgeTypes, h⟩ := Except.bind_eq_ok.mp h
  obtain ⟨notes, -, h⟩ := Except.bind_eq_ok.mp h
  cases h
  rw [groupBatches_eq] at hnodes hedgeTypes
  exact ⟨vertices, edges, hvertices, hedges,
    { node_types := describesTypes_of_entries hnodes
      edge_types := describesTypes_of_entries hedgeTypes
      vertices := sum_count_of_entries hnodes
      edges := sum_count_of_entries hedgeTypes }⟩

/-- There is an entry for each group if the backend answers for every item. -/
theorem exists_typeEntries {α β : Type} {get : α → Acc (List (List β))}
    (props : β → List NamedProperty) (h : ∀ item, ∃ batches, get item = .ok batches) (n : ℤ)
    (groups : OrderedDict String (List α)) :
    ∃ types, typeEntries (propertyKeys get props) n groups = .ok types := by
  refine List.exists_mapM fun group _ => ?_
  have hexists : ∃ keys, propertyKeys get props (sliceTo group.2 n) = .ok keys :=
    exists_propertyKeys fun item _ => h item
  obtain ⟨keys, hkeys⟩ := hexists
  rw [hkeys]
  exact ⟨_, rfl⟩

/-- The loop over the `File` vertices goes on if the backend answers for the vertex. -/
theorem exists_observeVersions {client : Client} (observed_versions : List (Option String))
    {vertex : Vertex} (h : ∃ batches, client.propsOfVertex vertex = .ok batches) :
    ∃ observed, observeVersions client observed_versions vertex = .ok observed := by
  obtain ⟨batches, hbatches⟩ := h
  rw [observeVersions, hbatches]
  exact ⟨_, rfl⟩

/-- A backend that answers every query of the introspector is described. -/
theorem Answering.exists_describe {client : Client} (h : Answering client) (n : ℤ) :
    ∃ d, describe (some client) n = .ok d := by
  obtain ⟨vertices, hvertices⟩ := h.vertices
  obtain ⟨edges, hedges⟩ := h.edges
  obtain ⟨node_types, hnodes⟩ := exists_typeEntries VertexProperties.props h.vertexProps
    n (groupBatches (fun v : Vertex => v.t.name) vertices)
  obtain ⟨edge_types, hedgeTypes⟩ := exists_typeEntries EdgeProperties.props h.edgeProps
    n (groupBatches (fun e : Edge => e.t.name) edges)
  have hexists : ∃ observed, (((groupBatches (fun v : Vertex => v.t.name) vertices).get
      "File").getD []).foldlM (observeVersions client) [] = .ok observed :=
    List.exists_foldlM (fun observed v _ => exists_observeVersions observed (h.vertexProps v)) []
  obtain ⟨observed, hobserved⟩ := hexists
  refine ⟨_, Except.bind_eq_ok.mpr ⟨vertices, hvertices, Except.bind_eq_ok.mpr ⟨edges, hedges,
    Except.bind_eq_ok.mpr ⟨node_types, hnodes, Except.bind_eq_ok.mpr ⟨edge_types, hedgeTypes,
      Except.bind_eq_ok.mpr ⟨_, Except.bind_eq_ok.mpr ⟨observed, hobserved, rfl⟩, rfl⟩⟩⟩⟩⟩⟩

/-- **The description does not depend on the order or the batches** in which the backend streams its
content.  Its types, their counts and the totals are those of what is there, and so are the property
keys of each type of which no item is left out of the sample; and a backend that answers is
described. -/
theorem describe_order_independent {client client' : Client} (h : SameContent client client')
    (n : ℤ) :
    (Answering client → ∃ d, describe (some client) n = .ok d) ∧
    ∀ d d', describe (some client) n = .ok d → describe (some client') n = .ok d' →
      d.node_types.map TypeEntry.counted = d'.node_types.map TypeEntry.counted ∧
      d.edge_types.map TypeEntry.counted = d'.edge_types.map TypeEntry.counted ∧
      d.vertices = d'.vertices ∧ d.edges = d'.edges ∧
      (∀ e ∈ d.node_types, ∀ e' ∈ d'.node_types, e.name = e'.name → (e.count : ℤ) ≤ n →
        e.property_keys = e'.property_keys) ∧
      (∀ e ∈ d.edge_types, ∀ e' ∈ d'.edge_types, e.name = e'.name → (e.count : ℤ) ≤ n →
        e.property_keys = e'.property_keys) ∧
      ∃ vertices edges, client.vertices .all = .ok vertices ∧ client.edges .all = .ok edges ∧
        Describes client n vertices.flatten edges.flatten d := by
  refine ⟨fun hanswers => hanswers.exists_describe n, fun d d' hd hd' => ?_⟩
  obtain ⟨vertices, edges, hvertices, hedges, hdesc⟩ := describes_of_describe hd
  obtain ⟨vertices', edges', hvertices', hedges', hdesc'⟩ := describes_of_describe hd'
  have hvperm := h.vertices.perm hvertices hvertices'
  have heperm := h.edges.perm hedges hedges'
  obtain ⟨hnodes, hnodeKeys⟩ := hdesc.node_types.unique hdesc'.node_types hvperm
    (hasKey_iff_of_sameStream h.vertexProps)
  obtain ⟨hedgeTypes, hedgeKeys⟩ := hdesc.edge_types.unique hdesc'.edge_types heperm
    (hasKey_iff_of_sameStream h.edgeProps)
  refine ⟨hnodes, hedgeTypes, ?_, ?_, hnodeKeys, hedgeKeys, vertices, edges, hvertices, hedges,
    hdesc⟩
  · rw [hdesc.vertices, hdesc'.vertices, hvperm.length_eq]
  · rw [hdesc.edges, hdesc'.edges, heperm.length_eq]

/-- The client of the tests, with its vertices backwards and in batches of one. -/
def backwards (store : Store) : Client where
  vertices
    | .all => .ok (store.vertexItems.reverse.map fun v => [v])
    | query => (fakeClient store).vertices query
  edges := (fakeClient store).edges
  vertexProperties := (fakeClient store).vertexProperties
  edgeProperties := (fakeClient store).edgeProperties
  has_outbound := false

/-- `describe_order_independent` at the client that streams the vertices backwards and one by one.
-/
theorem describe_order_independent_backwards :
    (describe (some (fakeClient threeVertices)) 5).map
        (fun d => d.node_types.map TypeEntry.counted) =
      (describe (some (backwards threeVertices)) 5).map
        fun d => d.node_types.map TypeEntry.counted := by
  have hsame : SameContent (fakeClient threeVertices) (backwards threeVertices) :=
    { vertices := .streams (by decide +kernel)
      edges := .refl _
      vertexProps := fun _ => .refl _
      edgeProps := fun _ => .refl _ }
  have hanswers : Answering (fakeClient threeVertices) :=
    ⟨⟨_, rfl⟩, ⟨_, rfl⟩, fun _ => ⟨_, rfl⟩, fun _ => ⟨_, rfl⟩⟩
  have hanswers' : Answering (backwards threeVertices) :=
    ⟨⟨_, rfl⟩, ⟨_, rfl⟩, fun _ => ⟨_, rfl⟩, fun _ => ⟨_, rfl⟩⟩
  obtain ⟨hdescribed, hequal⟩ := describe_order_independent hsame 5
  obtain ⟨d, hd⟩ := hdescribed hanswers
  obtain ⟨d', hd'⟩ := hanswers'.exists_describe 5
  rw [hd, hd']
  exact congrArg Except.ok (hequal d d' hd hd').1

example : (describe (some (backwards threeVertices)) 5).map Description.node_types =
    .ok [⟨"Function", 2, ["spelling"]⟩, ⟨"Class", 1, []⟩] := by decide +kernel

end IndraDB
end CppMcp
