/-
# Symbols that change their label

A symbol is known by its USR, but its label may change from one export to the next: a field may
become a static one, a version of the schema may divide a label.  `GraphDriver` promises to merge on
the USR.  Neo4j finds a node by its label as well, so a new label makes a second node; in IndraDB
the type of a vertex is that of its first record and stays.

`one_node_per_symbol_iff` says of each backend which runs of batches leave one node for each
symbol, with its last label.
-/

import CppMcp.Graph.Backend
import CppMcp.Graph.Converge

namespace CppMcp
namespace Graph

open Export (NodeRecord NodeType)

/-- The labels that the records give a symbol, in their order. -/
def labelsIn (usr : String) (records : List NodeRecord) : List NodeType :=
  (records.filter fun rec => rec.usr = usr).map NodeRecord.label

/-- A list without repetitions, with the members of another one, is the last of that one alone
if that has no two different members. -/
theorem eq_getLast?_iff {α : Type} {ls ms : List α} (hnodup : ls.Nodup)
    (hmem : ∀ l, l ∈ ls ↔ l ∈ ms) :
    ls = ms.getLast?.toList ↔ ∀ l ∈ ms, ∀ l' ∈ ms, l = l' := by
  constructor
  · intro h l hl l' hl'
    rw [← hmem, h, Option.mem_toList] at hl hl'
    exact Option.some.inj (hl.symm.trans hl')
  · intro h
    cases hlast : ms.getLast? with
    | none =>
      rw [List.getLast?_eq_none_iff] at hlast
      subst hlast
      exact List.eq_nil_iff_forall_not_mem.mpr fun l hl => List.not_mem_nil ((hmem l).mp hl)
    | some m =>
      have hm := List.mem_of_getLast? hlast
      refine List.perm_singleton.mp
        ((List.perm_ext_iff_of_nodup hnodup (List.nodup_singleton m)).mpr fun l => ?_)
      rw [hmem, List.mem_singleton]
      exact ⟨fun hl => h l hl m hm, fun hl => hl ▸ hm⟩

namespace Neo4j

/-- What a node record merges into the nodes. -/
def nodeUpsert (rec : NodeRecord) : Upsert NodeKey Properties where
  key := (rec.label, rec.usr)
  new := some .empty
  change stored := stored.update (withUsr rec.props rec.usr)

/-- Merging nodes does to the nodes of Neo4j what their upserts do, one after the other. -/
theorem vertices_mergeNodes (records : List NodeRecord) (s : Store) :
    (PropertyGraph.tally Store.mergeNode records s).2.vertices =
      OrderedDict.upsertAll (records.map nodeUpsert) s.vertices := by
  induction records generalizing s with
  | nil => rfl
  | cons rec records ih => exact ih _

end Neo4j

namespace Backend

variable {U : Type} [DecidableEq U] (uuid5 : String → U)

/-- The labels of the nodes that are stored of a symbol. -/
def labelsOf (b : Backend) (usr : String) (s : Servers U) : List NodeType :=
  match b with
  | neo4j => (s.neo4j.store.vertices.keys.filter fun key => key.2 = usr).map Prod.fst
  | indradb => ((s.indradb.store.vertices.get (uuid5 usr)).map Prod.fst).toList

/-- **One node per symbol,** with the label of its last record, and no others. -/
structure OneNodePerSymbol (b : Backend) (records : List NodeRecord) (s : Servers U) : Prop where
  label : ∀ rec ∈ records,
    b.labelsOf uuid5 rec.usr s = (labelsIn rec.usr records).getLast?.toList
  only : ∀ v ∈ (b.store s).vertices.keys, ∃ rec ∈ records, v = b.vertexOf uuid5 rec

/-- The records leave each symbol its label: in Neo4j it never changes, in IndraDB the last is the
first. -/
def LabelsKept (b : Backend) (records : List NodeRecord) : Prop :=
  match b with
  | neo4j => ∀ usr, ∀ l ∈ labelsIn usr records, ∀ l' ∈ labelsIn usr records, l = l'
  | indradb => ∀ usr, (labelsIn usr records).head? = (labelsIn usr records).getLast?

/-- The nodes that records leave, started with none. -/
def Holds (b : Backend) (records : List NodeRecord) (s : Servers U) : Prop :=
  match b with
  | neo4j => s.neo4j.store.vertices = OrderedDict.upsertAll (records.map Neo4j.nodeUpsert) .empty
  | indradb =>
    s.indradb.store.vertices = OrderedDict.upsertAll (records.map (IndraDB.nodeUpsert uuid5)) .empty

variable {uuid5}

/-- **A run of batches leaves what all of their records do.** -/
theorem holds_of_run {b : Backend} {s s' : Servers U} {n : ℕ} (hc : b.connected s = true)
    (hempty : b.store s = .empty) {batches : List (List NodeRecord)}
    (hrun : tallyRecords (b.driver uuid5).upsert_nodes batches s = .ok n s') :
    b.Holds uuid5 batches.flatten s' := by
  cases b with
  | neo4j =>
    have hstore : s.neo4j.store = .empty := hempty
    obtain ⟨h, -⟩ := tallyRecords_flatten (g := fun s : Servers U => s.neo4j.store)
      (fun _ _ _ _ hc h => Neo4j.upsert_nodes_tally hc (onNeo4j_eq_ok h)) hc hrun
    change s'.neo4j.store.vertices = _
    rw [(Prod.mk.inj h).2, Neo4j.vertices_mergeNodes, hstore]
    rfl
  | indradb =>
    have hstore : s.indradb.store = .empty := hempty
    obtain ⟨h, -⟩ := tallyRecords_flatten (g := fun s : Servers U => s.indradb.store)
      (fun _ _ _ _ hc h => IndraDB.upsert_nodes_tally hc (onIndradb_eq_ok h)) hc hrun
    change s'.indradb.store.vertices = _
    rw [(Prod.mk.inj h).2]
    exact (IndraDB.vertices_putNodes uuid5 batches.flatten s.indradb.store).trans (by rw [hstore]; rfl)

/-- The labels under which Neo4j has a symbol are all that it has been given. -/
theorem labelsOf_neo4j {records : List NodeRecord} {s : Servers U}
    (h : neo4j.Holds uuid5 records s) (usr : String) :
    (neo4j.labelsOf uuid5 usr s).Nodup ∧
      ∀ l, l ∈ neo4j.labelsOf uuid5 usr s ↔ l ∈ labelsIn usr records := by
  constructor
  · refine (s.neo4j.store.vertices.nodup.filter _).map_on fun key hkey key' hkey' heq => ?_
    have husr := of_decide_eq_true (List.mem_filter.mp hkey).2
    have husr' := of_decide_eq_true (List.mem_filter.mp hkey').2
    exact Prod.ext heq (husr.trans husr'.symm)
  · intro l
    have hkey : l ∈ neo4j.labelsOf uuid5 usr s ↔ (l, usr) ∈ s.neo4j.store.vertices.keys := by
      simp [labelsOf]
    rw [hkey, show s.neo4j.store.vertices = _ from h]
    constructor
    · intro hl
      obtain ⟨rec, hrec, hrecord⟩ := OrderedDict.exists_of_mem_keys_upsertAll hl
      obtain ⟨rfl, rfl⟩ := Prod.mk.inj hrecord
      exact List.mem_map.mpr ⟨rec, List.mem_filter.mpr ⟨hrec, decide_eq_true rfl⟩, rfl⟩
    · intro hl
      obtain ⟨rec, hrec, rfl⟩ := List.mem_map.mp hl
      obtain ⟨hrec, husr⟩ := List.mem_filter.mp hrec
      exact OrderedDict.mem_keys_upsertAll_iff.mpr
        (Or.inr ⟨_, List.mem_map_of_mem hrec, rfl, Prod.ext rfl (of_decide_eq_true husr)⟩)

/-- IndraDB has a symbol under the label that it was given first. -/
theorem labelsOf_indradb {records : List NodeRecord} {s : Servers U}
    (h : indradb.Holds uuid5 records s) {usr : String}
    (huuid5 : ∀ rec ∈ records, uuid5 rec.usr = uuid5 usr → rec.usr = usr) :
    indradb.labelsOf uuid5 usr s = (labelsIn usr records).head?.toList := by
  have hstore : s.indradb.store.vertices =
    OrderedDict.upsertAll (records.map (IndraDB.nodeUpsert uuid5)) .empty := h
  have hwrites : (records.map (IndraDB.nodeUpsert uuid5)).filter (fun u => u.key = uuid5 usr) =
      (records.filter fun rec => rec.usr = usr).map (IndraDB.nodeUpsert uuid5) := by
    rw [List.filter_map]
    refine congrArg (List.map _) (List.filter_congr fun rec hrec => ?_)
    exact decide_eq_decide.mpr ⟨huuid5 rec hrec, fun heq => congrArg uuid5 heq⟩
  have hfirst : ∀ records : List NodeRecord,
      ((records.map (IndraDB.nodeUpsert uuid5)).findSome? Upsert.new).map Prod.fst =
        (records.map NodeRecord.label).head? := by
    rintro (_ | ⟨rec, records⟩) <;> rfl
  have hget : (s.indradb.store.vertices.get (uuid5 usr)).map Prod.fst =
      (labelsIn usr records).head? := by
    rw [hstore, OrderedDict.get_upsertAll, hwrites]
    refine (Upsert.map_foldl_cell (fun u hu value => ?_) _).trans (hfirst _)
    obtain ⟨rec, -, rfl⟩ := List.mem_map.mp hu
    rfl
  exact congrArg Option.toList hget

/-- Nothing is stored but the vertices of the records. -/
theorem Holds.only {b : Backend} {records : List NodeRecord} {s : Servers U}
    (h : b.Holds uuid5 records s) :
    ∀ v ∈ (b.store s).vertices.keys, ∃ rec ∈ records, v = b.vertexOf uuid5 rec := by
  intro v hv
  cases b with
  | neo4j =>
    change v ∈ s.neo4j.store.vertices.keys at hv
    rw [show s.neo4j.store.vertices = _ from h] at hv
    exact OrderedDict.exists_of_mem_keys_upsertAll hv
  | indradb =>
    change v ∈ s.indradb.store.vertices.keys at hv
    rw [show s.indradb.store.vertices = _ from h] at hv
    exact OrderedDict.exists_of_mem_keys_upsertAll hv

omit [DecidableEq U] in
/-- A symbol without a record has no labels. -/
theorem labelsIn_eq_nil {usr : String} {records : List NodeRecord}
    (h : ∀ rec ∈ records, rec.usr ≠ usr) : labelsIn usr records = [] := by
  rw [labelsIn, List.filter_eq_nil_iff.mpr fun rec hrec => by simpa using h rec hrec]
  rfl

/-- **Which runs leave one node per symbol:** in Neo4j those in which no symbol changes its label, in
IndraDB those in which the last label of each symbol is its first. -/
theorem one_node_per_symbol_iff {b : Backend} {s s' : Servers U} {n : ℕ}
    (hc : b.connected s = true) (hempty : b.store s = .empty) {batches : List (List NodeRecord)}
    (huuid5 : ∀ rec ∈ batches.flatten, ∀ rec' ∈ batches.flatten,
      uuid5 rec.usr = uuid5 rec'.usr → rec.usr = rec'.usr)
    (hrun : tallyRecords (b.driver uuid5).upsert_nodes batches s = .ok n s') :
    b.OneNodePerSymbol uuid5 batches.flatten s' ↔ b.LabelsKept batches.flatten := by
  have hholds := holds_of_run hc hempty hrun
  have hone : b.OneNodePerSymbol uuid5 batches.flatten s' ↔ ∀ rec ∈ batches.flatten,
      b.labelsOf uuid5 rec.usr s' = (labelsIn rec.usr batches.flatten).getLast?.toList :=
    ⟨OneNodePerSymbol.label, fun h => ⟨h, hholds.only⟩⟩
  -- a USR without records has no labels
  have hall : ∀ {P : List NodeType → Prop}, P [] →
      ((∀ rec ∈ batches.flatten, P (labelsIn rec.usr batches.flatten)) ↔
        ∀ usr, P (labelsIn usr batches.flatten)) := by
    intro P hnil
    refine ⟨fun h usr => ?_, fun h rec _ => h rec.usr⟩
    by_cases husr : ∃ rec ∈ batches.flatten, rec.usr = usr
    · obtain ⟨rec, hrec, rfl⟩ := husr
      exact h rec hrec
    · rw [labelsIn_eq_nil fun rec hrec heq => husr ⟨rec, hrec, heq⟩]
      exact hnil
  rw [hone]
  cases b with
  | neo4j =>
    refine Iff.trans (forall₂_congr fun rec _ => ?_)
      (hall (P := fun ls => ∀ l ∈ ls, ∀ l' ∈ ls, l = l') fun l hl => absurd hl List.not_mem_nil)
    obtain ⟨hnodup, hmem⟩ := labelsOf_neo4j hholds rec.usr
    exact eq_getLast?_iff hnodup hmem
  | indradb =>
    refine Iff.trans (forall₂_congr fun rec hrec => ?_)
      (hall (P := fun ls => ls.head? = ls.getLast?) rfl)
    rw [labelsOf_indradb hholds fun rec' hrec' => huuid5 rec' hrec' rec hrec]
    exact ⟨fun h => by simpa using congrArg List.head? h, congrArg Option.toList⟩

end Backend

/-! ### A field that becomes static -/

/-- Nothing is stored, and every call is answered. -/
def noNodes : Servers String :=
  ⟨⟨.empty, true, 0, fun _ => none⟩, ⟨.empty, true, 0, fun _ => none⟩⟩

/-- The symbol is a field first, and a global variable after that. -/
def fieldThenStatic : List (List NodeRecord) :=
  [[⟨.field, "c:@S@A@FI@x", []⟩], [⟨.globalVariable, "c:@S@A@FI@x", []⟩]]

/-- **Neither backend has the one node:** Neo4j has two, and that of IndraDB has the first label. -/
theorem fieldThenStatic_not_one_node :
    (∃ n s', tallyRecords (Backend.neo4j.driver fun usr : String => usr).upsert_nodes fieldThenStatic
        noNodes = .ok n s' ∧
      Backend.neo4j.labelsOf (fun usr => usr) "c:@S@A@FI@x" s' = [.field, .globalVariable] ∧
      ¬Backend.neo4j.OneNodePerSymbol (fun usr => usr) fieldThenStatic.flatten s') ∧
    ∃ n s', tallyRecords (Backend.indradb.driver fun usr : String => usr).upsert_nodes
        fieldThenStatic noNodes = .ok n s' ∧
      Backend.indradb.labelsOf (fun usr => usr) "c:@S@A@FI@x" s' = [.field] ∧
      ¬Backend.indradb.OneNodePerSymbol (fun usr => usr) fieldThenStatic.flatten s' := by
  refine ⟨⟨_, _, rfl, by decide +kernel, fun h => ?_⟩, _, _, rfl, by decide +kernel, fun h => ?_⟩
  · exact absurd (h.label ⟨.field, "c:@S@A@FI@x", []⟩ (by decide)) (by decide +kernel)
  · exact absurd (h.label ⟨.field, "c:@S@A@FI@x", []⟩ (by decide)) (by decide +kernel)

/-- `one_node_per_symbol_iff` for that run, on Neo4j, where the symbol has changed its label. -/
theorem one_node_per_symbol_iff_fieldThenStatic : ∃ n s',
    tallyRecords (Backend.neo4j.driver fun usr : String => usr).upsert_nodes fieldThenStatic
      noNodes = .ok n s' ∧
    (Backend.neo4j.OneNodePerSymbol (fun usr => usr) fieldThenStatic.flatten s' ↔
      Backend.neo4j.LabelsKept fieldThenStatic.flatten) := by
  obtain ⟨n, s', hrun⟩ : ∃ n s', tallyRecords (Backend.neo4j.driver fun usr : String => usr).upsert_nodes
      fieldThenStatic noNodes = .ok n s' := ⟨_, _, rfl⟩
  exact ⟨n, s', hrun, Backend.one_node_per_symbol_iff rfl rfl (fun _ _ _ _ h => h) hrun⟩

end Graph
end CppMcp
