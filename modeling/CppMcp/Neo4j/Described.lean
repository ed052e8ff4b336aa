/-
# The description is the same in both databases

The two introspectors ask for different things: the one for IndraDB fetches every vertex and edge and
counts them itself, the one for Neo4j asks for the names and has the database count.  A session that
answers from a store (`ServesSchema`) makes the second describe that store (`describe_serves`).

So two databases with one content are described alike: the same types in the same order with the same
counts, the same totals, and the same property keys as far as the sample goes (`describe_alike`).
-/

import CppMcp.Graph.Twin
import CppMcp.IndraDB.Described
import CppMcp.Neo4j.Introspector

namespace CppMcp
namespace Neo4j

open CppMcp.Graph (Naming Twin vertexName)
open Export (Acc EdgeType NodeType)
open IndraDB (DescribesTypes NamedProperty HasKey Serves TypeEntry VertexProperties EdgeProperties
  edgeItems_stored edgeOfKey edgeProps_stored fakeClient jsonOf matchesTypeIdent ofType
  pairwise_sortTypes pairwise_sortedStrs perm_sortTypes selective_fakeClient serves_fakeClient
  sortTypes stored vertexItems_stored vertexProps_stored)
open Py (Json Uuid sortedStrs)

/-- Items by the name of their type, with their properties. -/
abbrev Items := List (String × Graph.Properties)

/-- The items with a type. -/
def Items.named (items : Items) (name : String) : Items := items.filter fun item => item.1 = name

/-- The nodes by label. -/
def nodeItems (s : Graph.Neo4j.Store) : Items :=
  s.vertices.items.map fun item => (item.1.1.text, item.2)

/-- The relationships by type. -/
def edgeItems (s : Graph.Neo4j.Store) : Items :=
  s.edges.items.map fun item => (item.1.2.1.text, item.2)

/-! ### A session that answers from a store -/

/-- What `count(n)` and `collect(distinct keys(n))[0..$sample]` are for the items of a type: their
number, and the first of the different lists of keys.  For a negative sample, which Cypher counts from the
end, nothing is asked of the lists. -/
structure Counts (items : Items) (name : String) (n : ℤ) (rec : CountRecord) : Prop where
  c : rec.c = (items.named name).length
  sample : 0 ≤ n → ∃ lists : List (List String),
    rec.sample = some ((lists.take n.toNat).map fun ks => .list (ks.map .str)) ∧
    lists.length ≤ rec.c ∧ (∀ ks ∈ lists, ∃ item ∈ items.named name, ks.Perm item.2.keys) ∧
    ∀ item ∈ items.named name, ∃ ks ∈ lists, ks.Perm item.2.keys

/-- The session answers the questions about some items: it lists their types, and counts the items of
each that may be asked for, with a sample of this size. -/
structure Lists (session : SchemaSession) (namesText prelude rest : String) (items : Items) (n : ℤ) :
    Prop where
  names : ∃ names, session.names namesText = .ok names ∧ names.Nodup ∧
    ∀ l, l ∈ names ↔ ∃ item ∈ items, item.1 = l
  counts : ∀ name, matchesTypeIdent name = true → ∃ rec,
    session.count (quoted prelude name rest) n = .ok (some rec) ∧ Counts items name n rec

/-- **The session answers from the store,** with samples of this size. -/
structure ServesSchema (session : SchemaSession) (s : Graph.Neo4j.Store) (n : ℤ) : Prop where
  nodes : Lists session LABELS nodePrelude nodeRest (nodeItems s) n
  edges : Lists session RELATIONSHIP_TYPES edgePrelude edgeRest (edgeItems s) n

/-! ### The entries -/

/-- The keys that are sampled are those in the lists, whatever lists the database has collected. -/
theorem mem_sampleKeys_iff (lists : List (List String)) (k : String) :
    k ∈ sampleKeys (some (lists.map fun ks => .list (ks.map .str))) ↔ ∃ ks ∈ lists, k ∈ ks := by
  have hkeys : ∀ ks : List String, entryKeys (.list (ks.map .str)) = ks := fun ks => by
    rw [entryKeys, List.map_map]
    exact List.map_id ks
  rw [sampleKeys, Option.getD_some, ← List.foldl_flatMap,
    (IndraDB.nodup_mem_foldl_insert _ [] List.nodup_nil).2 k, List.flatMap_map]
  simp [hkeys]

/-- No key is sampled twice. -/
theorem nodup_sampleKeys (sample : Option (List Json)) : (sampleKeys sample).Nodup := by
  rw [sampleKeys, ← List.foldl_flatMap]
  exact (IndraDB.nodup_mem_foldl_insert _ [] List.nodup_nil).1

/-- What the entry of a type says of the items of that type. -/
structure EntryFor (items : Items) (n : ℤ) (name : String) (e : TypeEntry) : Prop where
  name_eq : e.name = name
  count_eq : e.count = (items.named name).length
  keys : (e.count : ℤ) ≤ n → e.property_keys.Pairwise (· < ·) ∧
    ∀ k, k ∈ e.property_keys ↔ ∃ item ∈ items.named name, k ∈ item.2.keys

/-- The entry that a record gives says of the items of its type what it is to say. -/
theorem Counts.entryFor {items : Items} {name : String} {n : ℤ} {rec : CountRecord}
    (h : Counts items name n rec) :
    EntryFor items n name ⟨name, rec.c, sortedStrs (sampleKeys rec.sample)⟩ where
  name_eq := rfl
  count_eq := h.c
  keys hn := by
    refine ⟨pairwise_sortedStrs (nodup_sampleKeys _), fun k => ?_⟩
    change (rec.c : ℤ) ≤ n at hn
    obtain ⟨lists, hsample, hlen, hfrom, hinto⟩ := h.sample (by omega)
    rw [sortedStrs, List.mem_insertionSort, hsample, List.take_of_length_le (by omega),
      mem_sampleKeys_iff]
    constructor
    · rintro ⟨ks, hks, hk⟩
      obtain ⟨item, hitem, hperm⟩ := hfrom ks hks
      exact ⟨item, hitem, hperm.mem_iff.mp hk⟩
    · rintro ⟨item, hitem, hk⟩
      obtain ⟨ks, hks, hperm⟩ := hinto item hitem
      exact ⟨ks, hks, hperm.mem_iff.mpr hk⟩

section Describe

variable {session : SchemaSession} {prelude rest : String} {items : Items} {n : ℤ}

/-- The loop makes an entry for each name, if the names may be asked for and the session counts
their items. -/
theorem outcome_describeName {names : List String}
    (h : ∀ name ∈ names, matchesTypeIdent name = true ∧ ∃ rec,
      session.count (quoted prelude name rest) n = .ok (some rec) ∧ Counts items name n rec)
    (types : List TypeEntry) :
    ∃ entries, (names.foldlM (describeName session prelude rest n) types).outcome =
        .ok (types ++ entries) ∧ List.Forall₂ (EntryFor items n) names entries := by
  induction names generalizing types with
  | nil => exact ⟨[], by rw [List.append_nil]; rfl, .nil⟩
  | cons name names ih =>
    obtain ⟨⟨hname, rec, hrec, hcounts⟩, hnames⟩ := List.forall_mem_cons.mp h
    obtain ⟨entries, hrest, hentries⟩ :=
      ih hnames (types ++ [⟨name, rec.c, sortedStrs (sampleKeys rec.sample)⟩])
    refine ⟨_ :: entries, ?_, .cons hcounts.entryFor hentries⟩
    rw [List.foldlM_cons, Logged.outcome_bind, describeName, if_pos hname, Logged.outcome_bind,
      Logged.outcome_send, hrec]
    rw [List.append_assoc] at hrest
    exact hrest

/-- **One kind of items is described,** name by name: each name that the session lists gets its
entry, with what the database counts. -/
theorem outcome_describeNames {namesText : String}
    (h : Lists session namesText prelude rest items n)
    (hsafe : ∀ item ∈ items, matchesTypeIdent item.1 = true) :
    ∃ names entries, (describeNames session namesText prelude rest n).outcome = .ok entries ∧
      names.Nodup ∧ (∀ l, l ∈ names ↔ ∃ item ∈ items, item.1 = l) ∧
      List.Forall₂ (EntryFor items n) names entries := by
  obtain ⟨names, hnames, hnodup, hmem⟩ := h.names
  obtain ⟨entries, hentries, hall⟩ := outcome_describeName (fun name hname => by
    obtain ⟨item, hitem, rfl⟩ := (hmem name).mp hname
    exact ⟨hsafe item hitem, h.counts item.1 (hsafe item hitem)⟩) []
  refine ⟨names, entries, ?_, hnodup, hmem, hall⟩
  rw [describeNames, Logged.outcome_bind, Logged.outcome_send, hnames]
  exact hentries

end Describe

/-! ### What the entries describe -/

/-- The same items in another form: as many of each type, with the same keys. -/
structure SameItems {α β : Type} (items : Items) (t : α → String) (get : α → Acc (List (List β)))
    (props : β → List NamedProperty) (items' : List α) : Prop where
  count : ∀ name, (ofType t items' name).length = (items.named name).length
  keys : ∀ name k, (∃ item ∈ items', t item = name ∧ HasKey get props item k) ↔
    ∃ item ∈ items.named name, k ∈ item.2.keys

/-- Items that go back to the same rows are the same. -/
theorem sameItems_of_map {ρ α β : Type} {rows : List ρ} {f : ρ → String × Graph.Properties}
    {g : ρ → α} {t : α → String} {get : α → Acc (List (List β))} {props : β → List NamedProperty}
    (ht : ∀ r ∈ rows, t (g r) = (f r).1)
    (hkey : ∀ r ∈ rows, ∀ k, HasKey get props (g r) k ↔ k ∈ (f r).2.keys) :
    SameItems (rows.map f) t get props (rows.map g) where
  count name := by
    rw [ofType, Items.named, List.filter_map, List.filter_map, List.length_map, List.length_map]
    refine congrArg List.length (List.filter_congr fun r hr => ?_)
    rw [Function.comp_apply, Function.comp_apply, ht r hr]
  keys name k := by
    simp only [Items.named, List.mem_filter, List.mem_map, exists_exists_and_eq_and,
      decide_eq_true_eq]
    constructor
    · rintro ⟨r, hr, hname, hk⟩
      exact ⟨f r, ⟨⟨r, hr, rfl⟩, (ht r hr).symm.trans hname⟩, (hkey r hr k).mp hk⟩
    · rintro ⟨_, ⟨⟨r, hr, rfl⟩, hname⟩, hk⟩
      exact ⟨r, hr, (ht r hr).trans hname, (hkey r hr k).mpr hk⟩

section Entries

variable {items : Items} {n : ℤ} {names : List String} {entries : List TypeEntry}

/-- The entries have the names they were made for, in their order. -/
theorem map_name_of_forall₂ (h : List.Forall₂ (EntryFor items n) names entries) :
    entries.map TypeEntry.name = names := by
  induction h with
  | nil => rfl
  | cons he _ ih => rw [List.map_cons, ih, he.name_eq]

/-- The entries count the items of their names. -/
theorem map_count_of_forall₂ (h : List.Forall₂ (EntryFor items n) names entries) :
    entries.map TypeEntry.count = names.map fun name => (items.named name).length := by
  induction h with
  | nil => rfl
  | cons he _ ih => rw [List.map_cons, List.map_cons, ih, he.count_eq]

/-- The counts add up to the number of items, since each item has one of the names. -/
theorem sum_count_of_names (hnodup : names.Nodup)
    (hnames : ∀ l, l ∈ names ↔ ∃ item ∈ items, item.1 = l)
    (h : List.Forall₂ (EntryFor items n) names entries) :
    (entries.map TypeEntry.count).sum = items.length := by
  have hperm : names.Perm (items.map Prod.fst).dedup := by
    refine (List.perm_ext_iff_of_nodup hnodup (List.nodup_dedup _)).mpr fun l => ?_
    rw [hnames, List.mem_dedup, List.mem_map]
  have hcount : ∀ name, (items.named name).length = (items.map Prod.fst).count name := fun name => by
    rw [List.count, List.countP_map, List.countP_eq_length_filter]
    rfl
  rw [map_count_of_forall₂ h, (hperm.map _).sum_eq]
  simp only [hcount]
  rw [List.sum_map_count_dedup_eq_length, List.length_map]

/-- **The sorted entries describe the items,** in whatever form these are counted: by the database,
or one by one. -/
theorem describesTypes_of_names {α β : Type} {t : α → String} {get : α → Acc (List (List β))}
    {props : β → List NamedProperty} {items' : List α} (hnodup : names.Nodup)
    (hnames : ∀ l, l ∈ names ↔ ∃ item ∈ items, item.1 = l)
    (h : List.Forall₂ (EntryFor items n) names entries)
    (hsame : SameItems items t get props items') :
    DescribesTypes t get props n items' (sortTypes entries) := by
  have hmap := map_name_of_forall₂ h
  have hperm := perm_sortTypes entries
  refine
    { once := ((hperm.map _).nodup_iff).mpr (hmap ▸ hnodup)
      counted := fun name count => ?_
      sorted := pairwise_sortTypes (hmap ▸ hnodup)
      keys := fun e he hn => ?_ }
  · rw [(hperm.map TypeEntry.counted).mem_iff, List.mem_map, hsame.count]
    constructor
    · rintro ⟨e, he, heq⟩
      obtain ⟨name', hname, hentry⟩ := h.exists_mem he
      obtain ⟨rfl, rfl⟩ := Prod.mk.inj heq
      obtain ⟨item, hitem, rfl⟩ := (hnames name').mp hname
      rw [hentry.name_eq, hentry.count_eq]
      refine ⟨List.length_pos_of_mem (List.mem_filter.mpr ⟨hitem, decide_eq_true rfl⟩), rfl⟩
    · rintro ⟨hpos, rfl⟩
      obtain ⟨item, hitem⟩ := List.exists_mem_of_length_pos hpos
      obtain ⟨hmem, hname⟩ := List.mem_filter.mp hitem
      obtain ⟨e, he, hentry⟩ :=
        h.flip.exists_mem ((hnames name).mpr ⟨item, hmem, of_decide_eq_true hname⟩)
      exact ⟨e, he, Prod.ext hentry.name_eq hentry.count_eq⟩
  · obtain ⟨name, -, hentry⟩ := h.exists_mem (hperm.mem_iff.mp he)
    obtain ⟨hsorted, hmem⟩ := hentry.keys hn
    refine ⟨hsorted, fun k => ?_⟩
    rw [hmem, hentry.name_eq, hsame.keys]

end Entries

/-! ### The whole description -/

/-- The labels of the schema may be asked for. -/
theorem matches_nodeText (label : NodeType) : matchesTypeIdent label.text = true := by
  cases label <;> decide

/-- The relationship types of the schema may be asked for. -/
theorem matches_edgeText (t : EdgeType) : matchesTypeIdent t.text = true := by
  cases t <;> decide

/-- **A session that answers from a store describes it,** and so the same content in whatever form. -/
theorem describe_serves {session : SchemaSession} {s : Graph.Neo4j.Store}
    {n : ℤ} (h : ServesSchema session s n) {client : IndraDB.Client} {store : IndraDB.Store}
    (hvertices : SameItems (nodeItems s) (fun v : IndraDB.Vertex => v.t.name) client.propsOfVertex
      VertexProperties.props store.vertexItems)
    (hedges : SameItems (edgeItems s) (fun e : IndraDB.Edge => e.t.name) client.propsOfEdge
      EdgeProperties.props store.edgeItems) :
    ∃ d, (describe (some session) n).outcome = .ok d ∧
      DescribesTypes (fun v : IndraDB.Vertex => v.t.name) client.propsOfVertex
        VertexProperties.props n store.vertexItems d.node_types ∧
      DescribesTypes (fun e : IndraDB.Edge => e.t.name) client.propsOfEdge EdgeProperties.props n
        store.edgeItems d.edge_types ∧
      d.vertices = s.vertices.items.length ∧ d.edges = s.edges.items.length := by
  obtain ⟨labels, node_types, hnodes, hnodup, hlabels, hentries⟩ :=
    outcome_describeNames (n := n) h.nodes fun item hitem => by
      obtain ⟨_, -, rfl⟩ := List.mem_map.mp hitem
      exact matches_nodeText _
  obtain ⟨types, edge_types, hedgeTypes, hnodup', htypes, hentries'⟩ :=
    outcome_describeNames (n := n) h.edges fun item hitem => by
      obtain ⟨_, -, rfl⟩ := List.mem_map.mp hitem
      exact matches_edgeText _
  have hvertexTotal := (sum_count_of_names hnodup hlabels hentries).trans (List.length_map ..)
  have hedgeTotal := (sum_count_of_names hnodup' htypes hentries').trans (List.length_map ..)
  refine ⟨⟨Export.SCHEMA_VERSION, "neo4j", sortTypes node_types, sortTypes edge_types,
    (node_types.map TypeEntry.count).sum, (edge_types.map TypeEntry.count).sum, buildNotes⟩, ?_,
    describesTypes_of_names hnodup hlabels hentries hvertices,
    describesTypes_of_names hnodup' htypes hentries' hedges, hvertexTotal, hedgeTotal⟩
  simp only [describe, describeNodes, describeEdges, Logged.outcome_bind, Logged.outcome_pure, hnodes,
    hedgeTypes]
  rfl

/-! ### Two databases with one content -/

section Twin

variable {uuid5 : String → Uuid} {N : Naming uuid5} {s : Graph.Neo4j.Store}
  {t : Graph.IndraDB.Store Uuid} {client : IndraDB.Client}

/-- A property is among the keys exactly if it has a value as the executor reads it. -/
theorem mem_keys_iff_jsonOf {props : Graph.Properties} {k : String} :
    k ∈ props.keys ↔ ∃ value, (props.get k).map jsonOf = some value := by
  rw [← OrderedDict.isSome_get_iff, Option.isSome_iff_exists]
  constructor
  · rintro ⟨value, hget⟩
    exact ⟨_, by rw [hget]; rfl⟩
  · rintro ⟨value, hget⟩
    obtain ⟨stored, hstored, -⟩ := Option.map_eq_some_iff.mp hget
    exact ⟨stored, hstored⟩

/-- The vertices of the one are the nodes of the other. -/
theorem sameItems_vertices (htwin : Twin N s t) (hserves : Serves client (stored t))
    (hselective : client.Selective) :
    SameItems (nodeItems s) (fun v : IndraDB.Vertex => v.t.name) client.propsOfVertex
      VertexProperties.props (stored t).vertexItems := by
  have hitems : t.vertices.items =
      s.vertices.items.map fun item => (vertexName uuid5 item.1, (item.1.1, item.2)) :=
    htwin.renamed.vertices
  rw [vertexItems_stored, hitems, List.map_map]
  refine sameItems_of_map (fun _ _ => rfl) fun item hitem k => ?_
  have hget : t.vertices.get (vertexName uuid5 item.1) = some (item.1.1, item.2) := by
    rw [OrderedDict.get_eq_some_iff, hitems]
    exact List.mem_map_of_mem hitem
  rw [hserves.hasKey_vertex_iff hselective, mem_keys_iff_jsonOf]
  refine exists_congr fun value => ?_
  rw [Function.comp_apply, vertexProps_stored, hget]
  rfl

/-- The edges of the one are the relationships of the other. -/
theorem sameItems_edges (htwin : Twin N s t) (hserves : Serves client (stored t))
    (hselective : client.Selective) :
    SameItems (edgeItems s) (fun e : IndraDB.Edge => e.t.name) client.propsOfEdge
      EdgeProperties.props (stored t).edgeItems := by
  have hitems : t.edges.items = s.edges.items.map fun item =>
      (PropertyGraph.renameEdge (vertexName uuid5) id item.1, item.2) := htwin.renamed.edges
  rw [edgeItems_stored, OrderedDict.keys, hitems, List.map_map, List.map_map]
  refine sameItems_of_map (fun _ _ => rfl) fun item hitem k => ?_
  have hget : t.edges.get (PropertyGraph.renameEdge (vertexName uuid5) id item.1) = some item.2 := by
    rw [OrderedDict.get_eq_some_iff, hitems]
    exact List.mem_map_of_mem hitem
  rw [hserves.hasKey_edge_iff hselective, mem_keys_iff_jsonOf]
  refine exists_congr fun value => ?_
  rw [Function.comp_apply, Function.comp_apply, edgeProps_stored, hget]
  rfl

/-- **Two databases with one content are described alike:** the same totals, the same types in the
same order with the same counts, and the same keys as far as the sample goes. -/
theorem describe_alike (htwin : Twin N s t) {session : SchemaSession}
    {n : ℤ} (hsession : ServesSchema session s n) (hserves : Serves client (stored t))
    (hselective : client.Selective) :
    ∃ d d', (describe (some session) n).outcome = .ok d ∧
      IndraDB.describe (some client) n = .ok d' ∧
      d.vertices = d'.vertices ∧ d.edges = d'.edges ∧
      d.node_types.map TypeEntry.counted = d'.node_types.map TypeEntry.counted ∧
      d.edge_types.map TypeEntry.counted = d'.edge_types.map TypeEntry.counted ∧
      (∀ e ∈ d.node_types, ∀ e' ∈ d'.node_types, e.name = e'.name → (e.count : ℤ) ≤ n →
        e.property_keys = e'.property_keys) ∧
      ∀ e ∈ d.edge_types, ∀ e' ∈ d'.edge_types, e.name = e'.name → (e.count : ℤ) ≤ n →
        e.property_keys = e'.property_keys := by
  obtain ⟨d, hd, hnodes, hedges, hvertexTotal, hedgeTotal⟩ := describe_serves hsession
    (sameItems_vertices htwin hserves hselective) (sameItems_edges htwin hserves hselective)
  obtain ⟨d', hd', hdescribes⟩ := hserves.describes n
  obtain ⟨hcounted, hkeys⟩ :=
    hnodes.unique hdescribes.node_types (List.Perm.refl _) fun _ _ => Iff.rfl
  obtain ⟨hcounted', hkeys'⟩ :=
    hedges.unique hdescribes.edge_types (List.Perm.refl _) fun _ _ => Iff.rfl
  refine ⟨d, d', hd, hd', ?_, ?_, hcounted, hcounted', hkeys, hkeys'⟩
  · rw [hvertexTotal, hdescribes.vertices, vertexItems_stored, List.length_map]
    exact (List.length_map ..).symm.trans (congrArg List.length htwin.renamed.vertices).symm
  · rw [hedgeTotal, hdescribes.edges, edgeItems_stored, List.length_map, OrderedDict.keys,
      List.length_map]
    exact (List.length_map ..).symm.trans (congrArg List.length htwin.renamed.edges).symm

end Twin

/-! ### A session of the store itself -/

/-- The slice `[0..$sample]` of a list; a negative end is counted from the end of the list. -/
def slice {α : Type} (n : ℤ) (l : List α) : List α :=
  if 0 ≤ n then l.take n.toNat else l.take (l.length - (-n).toNat)

/-- The answer to a count query. -/
def countRecord (items : Items) (name : String) (n : ℤ) : CountRecord where
  c := (items.named name).length
  sample := some ((slice n ((items.named name).map fun item => item.2.keys).dedup).map
    fun ks => .list (ks.map .str))

/-- A session that looks into the store. -/
def storeSession (s : Graph.Neo4j.Store) : SchemaSession where
  names text :=
    .ok ((if text = LABELS then nodeItems s else edgeItems s).map Prod.fst).dedup
  count text n :=
    let (prelude, name, _) := splitQuoted text
    .ok (some (countRecord (if prelude = nodePrelude then nodeItems s else edgeItems s) name n))

/-- What the session of the example answers counts the items of the type and has a sample of their
keys. -/
theorem counts_countRecord (items : Items) (name : String) (n : ℤ) :
    Counts items name n (countRecord items name n) where
  c := rfl
  sample hn := by
    refine ⟨((items.named name).map fun item => item.2.keys).dedup, ?_, ?_, fun ks hks => ?_,
      fun item hitem => ⟨item.2.keys, ?_, List.Perm.refl _⟩⟩
    · rw [countRecord, slice, if_pos hn]
    · exact (List.dedup_sublist _).length_le.trans_eq (List.length_map ..)
    · obtain ⟨item, hitem, rfl⟩ := List.mem_map.mp (List.mem_dedup.mp hks)
      exact ⟨item, hitem, List.Perm.refl _⟩
    · exact List.mem_dedup.mpr (List.mem_map_of_mem hitem)

/-- The session of the example answers from its store, whatever the size of the sample. -/
theorem servesSchema_storeSession (s : Graph.Neo4j.Store) (n : ℤ) :
    ServesSchema (storeSession s) s n where
  nodes :=
    { names := ⟨_, rfl, List.nodup_dedup _, fun l => by simp⟩
      counts := fun name hname => by
        have hsplit : splitQuoted (quoted nodePrelude name nodeRest) = _ :=
          splitQuoted_quoted (by decide) (backtick_not_mem hname) nodeRest
        refine ⟨countRecord (nodeItems s) name n, ?_, counts_countRecord _ _ _⟩
        simp only [storeSession, hsplit, if_true] }
  edges :=
    { names := ⟨_, rfl, List.nodup_dedup _, fun l => by
        simp [LABELS, RELATIONSHIP_TYPES]⟩
      counts := fun name hname => by
        have hsplit : splitQuoted (quoted edgePrelude name edgeRest) = _ :=
          splitQuoted_quoted (by decide) (backtick_not_mem hname) edgeRest
        have hne : edgePrelude ≠ nodePrelude := by decide
        refine ⟨countRecord (edgeItems s) name n, ?_, counts_countRecord _ _ _⟩
        simp only [storeSession, hsplit, if_neg hne] }

/-- Two symbols. -/
def twoNaming : Naming fun usr : String => (⟨if usr = "c:@F@f#" then 1 else 2⟩ : Uuid) where
  usrs := {usr | usr ∈ ["c:@F@f#", "c:@F@g#"]}
  label _ := .function
  injOn := by
    have h : ∀ usr ∈ ["c:@F@f#", "c:@F@g#"], ∀ usr' ∈ ["c:@F@f#", "c:@F@g#"],
        (⟨if usr = "c:@F@f#" then 1 else 2⟩ : Uuid) = ⟨if usr' = "c:@F@f#" then 1 else 2⟩ →
          usr = usr' := by decide +kernel
    exact fun usr husr usr' husr' => h usr husr usr' husr'

/-- A function that calls another one, in Neo4j. -/
def twoNodes : Graph.Neo4j.Store :=
  ((PropertyGraph.empty.addVertex (.function, "c:@F@f#")
    (OrderedDict.empty.set "line" (.int 1))).addVertex (.function, "c:@F@g#") .empty).addEdge
      ((.function, "c:@F@f#"), .calls, (.function, "c:@F@g#")) .empty

/-- The same in IndraDB. -/
def twoVertices : Graph.IndraDB.Store Uuid :=
  ((PropertyGraph.empty.addVertex ⟨1⟩ (.function, OrderedDict.empty.set "line" (.int 1))).addVertex
    ⟨2⟩ (.function, .empty)).addEdge (⟨1⟩, .calls, ⟨2⟩) .empty

/-- The two stores of the example have one content. -/
theorem twin_two : Twin twoNaming twoNodes twoVertices where
  renamed := ⟨rfl, rfl⟩
  known := by
    change ∀ key ∈ twoNodes.vertices.keys, key.2 ∈ ["c:@F@f#", "c:@F@g#"] ∧
      key = (NodeType.function, key.2)
    decide +kernel

/-- `describe_alike` at a function that calls another one, with a sample that covers both. -/
theorem describe_alike_two : ∃ d d',
    (describe (some (storeSession twoNodes)) 10).outcome = .ok d ∧
      IndraDB.describe (some (fakeClient (stored twoVertices))) 10 = .ok d' ∧
      d.vertices = d'.vertices ∧ d.edges = d'.edges ∧
      d.node_types.map TypeEntry.counted = d'.node_types.map TypeEntry.counted ∧
      d.edge_types.map TypeEntry.counted = d'.edge_types.map TypeEntry.counted ∧
      (∀ e ∈ d.node_types, ∀ e' ∈ d'.node_types, e.name = e'.name → (e.count : ℤ) ≤ 10 →
        e.property_keys = e'.property_keys) ∧
      ∀ e ∈ d.edge_types, ∀ e' ∈ d'.edge_types, e.name = e'.name → (e.count : ℤ) ≤ 10 →
        e.property_keys = e'.property_keys :=
  describe_alike twin_two (servesSchema_storeSession _ 10) (serves_fakeClient _)
    (selective_fakeClient _)

example : (describe (some (storeSession twoNodes)) 10).outcome.map (fun d => d.node_types) =
    .ok [⟨"Function", 2, ["line"]⟩] := by decide +kernel

end Neo4j
end CppMcp
