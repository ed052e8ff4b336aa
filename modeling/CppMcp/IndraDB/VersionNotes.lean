/-
# When the introspector warns of another version

`_build_notes` collects the stamps of the `File` vertices into a set, in which `None` stands for the
vertices that have properties but no stamp.  A set with `None` alone gives one note, a set with a
stamp of another version one for each such stamp.  Where every stamp is the current one and some
vertices have none, which is what ingesting a part of an old graph again leaves, the first branch
does not apply and the second looks at the stamps alone: nothing is said
(`warns_iff_outdated_iff`).
-/

import CppMcp.IndraDB.Answers
import CppMcp.IndraDB.Introspector
import CppMcp.Lib.Visitor
import Mathlib.Data.List.ReduceOption

namespace CppMcp
namespace IndraDB

open Export (Acc SCHEMA_VERSION)
open Py (sortedStrs)

/-- The properties that are read of a vertex. -/
def propsRead (client : Client) (vertex : Vertex) : List NamedProperty :=
  match client.propsOfVertex vertex with
  | .ok prop_batches => prop_batches.flatten.flatMap VertexProperties.props
  | .error _ => []

/-- The stamps among some properties. -/
def stamps (props : List NamedProperty) : List String :=
  (props.filter fun np => decide (np.name = "schema_version")).map fun np => np.value.pyStr

/-- There are properties, and none of them is a stamp. -/
def Unstamped (props : List NamedProperty) : Prop := props ≠ [] ∧ stamps props = []

/-- There are properties, but no stamp, or one of another version. -/
def Outdated (props : List NamedProperty) : Prop :=
  props ≠ [] ∧ (stamps props = [] ∨ ∃ s ∈ stamps props, s ≠ SCHEMA_VERSION)

/-! ### What is observed -/

/-- What one vertex contributes to the set. -/
def Contributes (props : List NamedProperty) (version : Option String) : Prop :=
  match version with
  | none => Unstamped props
  | some s => s ∈ stamps props

/-- The stamps among some properties are the values under the name `schema_version`, as texts. -/
theorem stamps_cons (np : NamedProperty) (props : List NamedProperty) :
    stamps (np :: props) =
      if np.name = "schema_version" then np.value.pyStr :: stamps props else stamps props := by
  rw [stamps, List.filter_cons]
  split_ifs with h₁ h₂ h₂
  · rfl
  · exact absurd (of_decide_eq_true h₁) h₂
  · exact absurd (decide_eq_true h₂) h₁
  · rfl

/-- The loop over the properties of a vertex: what it observes and the two flags, from whatever it
starts with. -/
theorem foldl_read (props : List NamedProperty) (s : VersionScan) :
    (∀ x, x ∈ (props.foldl VersionScan.read s).observed_versions ↔
      x ∈ s.observed_versions ∨ ∃ v ∈ stamps props, x = some v) ∧
    ((props.foldl VersionScan.read s).found_any_prop = true ↔
      s.found_any_prop = true ∨ props ≠ []) ∧
    ((props.foldl VersionScan.read s).found_schema_version = true ↔
      s.found_schema_version = true ∨ stamps props ≠ []) := by
  induction props generalizing s with
  | nil => simp [stamps]
  | cons np props ih =>
    obtain ⟨hobs, hany, hstamp⟩ := ih (s.read np)
    rw [List.foldl_cons, stamps_cons]
    by_cases hname : np.name = "schema_version"
    · have hread : s.read np = ⟨s.observed_versions.insert (some np.value.pyStr), true, true⟩ :=
        if_pos hname
      rw [hread] at hobs hany hstamp ⊢
      rw [if_pos hname]
      refine ⟨fun x => ?_, ?_, ?_⟩
      · rw [hobs, List.mem_insert_iff]
        simp only [List.mem_cons, exists_eq_or_imp]
        tauto
      · simp [hany]
      · simp [hstamp]
    · have hread : s.read np = { s with found_any_prop := true } := if_neg hname
      rw [hread] at hobs hany hstamp ⊢
      rw [if_neg hname]
      exact ⟨hobs, by simp [hany], hstamp⟩

/-- One turn of the loop over the vertices adds what the vertex contributes. -/
theorem mem_observeVersions {client : Client} {vertex : Vertex}
    {observed observed' : List (Option String)}
    (h : observeVersions client observed vertex = .ok observed') (x : Option String) :
    x ∈ observed' ↔ x ∈ observed ∨ Contributes (propsRead client vertex) x := by
  obtain ⟨prop_batches, hbatches, h⟩ := Except.bind_eq_ok.mp h
  have hread : propsRead client vertex = prop_batches.flatten.flatMap VertexProperties.props := by
    rw [propsRead, hbatches]
  have hscan : prop_batches.foldl (fun s prop_batch => prop_batch.foldl (fun s vp =>
      vp.props.foldl VersionScan.read s) s) (VersionScan.mk observed false false) =
        (propsRead client vertex).foldl VersionScan.read ⟨observed, false, false⟩ := by
    rw [hread, List.foldl_flatMap, List.foldl_flatten]
  obtain ⟨hobs, hany, hstamp⟩ :=
    foldl_read (propsRead client vertex) (VersionScan.mk observed false false)
  simp only [Bool.false_eq_true, false_or] at hany hstamp
  rw [hscan] at h
  generalize (propsRead client vertex).foldl VersionScan.read ⟨observed, false, false⟩ = scan at *
  have hunstamped : (scan.found_any_prop && !scan.found_schema_version) = true ↔
      Unstamped (propsRead client vertex) := by
    rw [Bool.and_eq_true, Bool.not_eq_true', Bool.eq_false_iff, hany, ne_eq _ true, hstamp,
      Unstamped, not_not]
  cases h
  split_ifs with hnone
  · rw [List.mem_insert_iff, hobs]
    cases x with
    | none => simp [Contributes, hunstamped.mp hnone]
    | some v => simp [Contributes]
  · rw [hobs]
    cases x with
    | none => simp [Contributes, mt hunstamped.mpr hnone]
    | some v => simp [Contributes]

/-- **What is observed** over all vertices is what each of them contributes. -/
theorem mem_foldlM_observeVersions {client : Client} {files : List Vertex}
    {observed : List (Option String)}
    (h : files.foldlM (observeVersions client) [] = .ok observed) (x : Option String) :
    x ∈ observed ↔ ∃ v ∈ files, Contributes (propsRead client v) x := by
  have hrun : ∀ x, x ∈ observed ↔ ∃ v ∈ [] ++ files, Contributes (propsRead client v) x := by
    refine List.foldlM_induct
      (P := fun done observed => ∀ x, x ∈ observed ↔ ∃ v ∈ done, Contributes (propsRead client v) x)
      (fun done observed v observed' hdone hstep x => ?_) h fun x => by simp
    rw [mem_observeVersions hstep, hdone]
    simp only [List.mem_append, List.mem_singleton, or_and_right, exists_or, exists_eq_left]
  exact hrun x

/-- There is a note if nothing but `None` has been observed, or a version that is not the current
one. -/
theorem versionNotes_ne_nil_iff (observed : List (Option String)) : versionNotes observed ≠ [] ↔
    (none ∈ observed ∧ ∀ v, some v ∉ observed) ∨ ∃ v, some v ∈ observed ∧ v ≠ SCHEMA_VERSION := by
  have hnull : observed.reduceOption = [] ↔ ∀ v, some v ∉ observed := by
    rw [List.eq_nil_iff_forall_not_mem]
    simp only [List.reduceOption_mem_iff]
  rw [versionNotes]
  split_ifs with hfirst hsecond
  · exact iff_of_true (List.cons_ne_nil _ _) (Or.inl ⟨hfirst.1, hnull.mp hfirst.2⟩)
  · obtain ⟨-, v, hv, hne⟩ := hsecond
    refine iff_of_true (fun hnil => ?_) (Or.inr ⟨v, List.reduceOption_mem_iff.mp hv, hne⟩)
    have hmem : v ∈ sortedStrs (observed.reduceOption.filter fun v => v ≠ SCHEMA_VERSION) :=
      (List.mem_insertionSort _).mpr (List.mem_filter.mpr ⟨hv, decide_eq_true hne⟩)
    rw [List.map_eq_nil_iff.mp hnil] at hmem
    exact absurd hmem List.not_mem_nil
  · refine iff_of_false (fun h => h rfl) ?_
    rintro (⟨hnone, hno⟩ | ⟨v, hv, hne⟩)
    · exact hfirst ⟨hnone, hnull.mpr hno⟩
    · have hmem := List.reduceOption_mem_iff.mpr hv
      exact hsecond ⟨List.ne_nil_of_mem hmem, v, hmem, hne⟩

/-! ### The notes and the vertices -/

/-- The `File` vertices. -/
def fileVertices (vertex_groups : OrderedDict String (List Vertex)) : List Vertex :=
  (vertex_groups.get "File").getD []

/-- There is more than the two notes that are always there. -/
def Warns (notes : List String) : Prop := notes ≠ [NOTE_SAMPLE, NOTE_LIVE]

/-- The properties of the `File` vertices, vertex by vertex. -/
def fileProps (client : Client) (vertex_groups : OrderedDict String (List Vertex)) :
    List (List NamedProperty) :=
  (fileVertices vertex_groups).map (propsRead client)

/-- Some vertices have properties but no stamp, some have one, and every stamp is the current one.
-/
structure PartlyStamped (files : List (List NamedProperty)) : Prop where
  unstamped : ∃ props ∈ files, Unstamped props
  stamped : ∃ props ∈ files, stamps props ≠ []
  current : ∀ props ∈ files, ∀ s ∈ stamps props, s = SCHEMA_VERSION

/-- **When the introspector warns:** of a stamp of another version, and of missing stamps if there
are none at all. -/
theorem warns_iff {client : Client} {vertex_groups : OrderedDict String (List Vertex)}
    {notes : List String} (h : buildNotes client vertex_groups = .ok notes) :
    Warns notes ↔
      ((∃ props ∈ fileProps client vertex_groups, Unstamped props) ∧
        ¬∃ props ∈ fileProps client vertex_groups, stamps props ≠ []) ∨
      ∃ props ∈ fileProps client vertex_groups, ∃ s ∈ stamps props, s ≠ SCHEMA_VERSION := by
  obtain ⟨observed, hobserved, h⟩ := Except.bind_eq_ok.mp h
  cases h
  have hmem : ∀ x, x ∈ observed ↔
      ∃ props ∈ fileProps client vertex_groups, Contributes props x := fun x => by
    rw [mem_foldlM_observeVersions hobserved]
    simp only [fileProps, List.mem_map, exists_exists_and_eq_and]
    rfl
  have hnull : (∀ v, some v ∉ observed) ↔
      ¬∃ props ∈ fileProps client vertex_groups, stamps props ≠ [] := by
    simp only [hmem, Contributes]
    constructor
    · rintro hno ⟨props, hprops, hne⟩
      obtain ⟨v, hv⟩ := List.exists_mem_of_ne_nil _ hne
      exact hno v ⟨props, hprops, hv⟩
    · rintro hno v ⟨props, hprops, hv⟩
      exact hno ⟨props, hprops, List.ne_nil_of_mem hv⟩
  have hother : (∃ v, some v ∈ observed ∧ v ≠ SCHEMA_VERSION) ↔
      ∃ props ∈ fileProps client vertex_groups, ∃ s ∈ stamps props, s ≠ SCHEMA_VERSION := by
    simp only [hmem, Contributes]
    constructor
    · rintro ⟨v, ⟨props, hprops, hv⟩, hne⟩
      exact ⟨props, hprops, v, hv, hne⟩
    · rintro ⟨props, hprops, v, hv, hne⟩
      exact ⟨v, ⟨props, hprops, hv⟩, hne⟩
  have hwarns : Warns ([NOTE_SAMPLE, NOTE_LIVE] ++ versionNotes observed) ↔
      versionNotes observed ≠ [] := by
    refine not_congr ⟨fun heq => ?_, fun heq => by rw [heq, List.append_nil]⟩
    exact List.append_cancel_left (heq.trans (List.append_nil _).symm)
  rw [hwarns, versionNotes_ne_nil_iff, hmem, hnull, hother]
  rfl

/-- There is an outdated vertex if one has no stamp or one has another. -/
theorem exists_outdated_iff (files : List (List NamedProperty)) :
    (∃ props ∈ files, Outdated props) ↔
      (∃ props ∈ files, Unstamped props) ∨
        ∃ props ∈ files, ∃ s ∈ stamps props, s ≠ SCHEMA_VERSION := by
  constructor
  · rintro ⟨props, hprops, hne, hempty | hother⟩
    · exact Or.inl ⟨props, hprops, hne, hempty⟩
    · exact Or.inr ⟨props, hprops, hother⟩
  · rintro (⟨props, hprops, hne, hempty⟩ | ⟨props, hprops, s, hs, hne⟩)
    · exact ⟨props, hprops, hne, Or.inl hempty⟩
    · refine ⟨props, hprops, fun hnil => ?_, Or.inr ⟨s, hs, hne⟩⟩
      rw [hnil] at hs
      exact absurd hs List.not_mem_nil

/-- **The warning misses the graphs that are partly stamped,** and only these: in every other case
there is one exactly if a `File` vertex is outdated. -/
theorem warns_iff_outdated_iff {client : Client}
    {vertex_groups : OrderedDict String (List Vertex)} {notes : List String}
    (h : buildNotes client vertex_groups = .ok notes) :
    (Warns notes ↔ ∃ props ∈ fileProps client vertex_groups, Outdated props) ↔
      ¬PartlyStamped (fileProps client vertex_groups) := by
  have hpartly : PartlyStamped (fileProps client vertex_groups) ↔
      (∃ props ∈ fileProps client vertex_groups, Unstamped props) ∧
        (∃ props ∈ fileProps client vertex_groups, stamps props ≠ []) ∧
          ¬∃ props ∈ fileProps client vertex_groups, ∃ s ∈ stamps props, s ≠ SCHEMA_VERSION := by
    constructor
    · rintro ⟨hunstamped, hstamped, hcurrent⟩
      refine ⟨hunstamped, hstamped, ?_⟩
      rintro ⟨props, hprops, s, hs, hne⟩
      exact hne (hcurrent props hprops s hs)
    · rintro ⟨hunstamped, hstamped, hno⟩
      exact ⟨hunstamped, hstamped, fun props hprops s hs =>
        Classical.not_not.mp fun hne => hno ⟨props, hprops, s, hs, hne⟩⟩
  have hdiffer : ∀ U S M : Prop, ((U ∧ ¬S ∨ M) ↔ U ∨ M) ↔ ¬(U ∧ S ∧ ¬M) := by
    intro U S M
    by_cases hS : S <;> by_cases hM : M <;> simp [hS, hM]
  rw [warns_iff h, exists_outdated_iff, hpartly]
  exact hdiffer _ _ _

/-- A graph of two files, of which the first has been ingested again. -/
def reingested : Store :=
  let fileType : Identifier := ⟨"File", by decide⟩
  (PropertyGraph.empty.addVertex ⟨1⟩ (fileType,
    (OrderedDict.empty.set "path" (.str "/a.cpp")).set "schema_version" (.str "v2"))).addVertex ⟨2⟩
      (fileType, OrderedDict.empty.set "path" (.str "/b.cpp"))

/-- What `_build_notes` is given of it. -/
def reingestedGroups : OrderedDict String (List Vertex) :=
  groupBatches (fun v : Vertex => v.t.name) [reingested.vertexItems]

/-- `warns_iff_outdated_iff` at a graph of which one file has been ingested anew. -/
theorem warns_iff_outdated_iff_reingested :
    (Warns [NOTE_SAMPLE, NOTE_LIVE] ↔
        ∃ props ∈ fileProps (fakeClient reingested) reingestedGroups, Outdated props) ↔
      ¬PartlyStamped (fileProps (fakeClient reingested) reingestedGroups) :=
  @warns_iff_outdated_iff (fakeClient reingested) reingestedGroups _ (by decide +kernel)

/-- **A graph that is partly stamped is not reported:** one file has the current stamp, the other
has properties and no stamp, and nothing is said. -/
theorem reingested_not_reported :
    buildNotes (fakeClient reingested) reingestedGroups = .ok [NOTE_SAMPLE, NOTE_LIVE] ∧
      ¬(Warns [NOTE_SAMPLE, NOTE_LIVE] ↔
        ∃ props ∈ fileProps (fakeClient reingested) reingestedGroups, Outdated props) := by
  refine ⟨by decide +kernel, fun h => h.mpr ?_ rfl⟩
  refine ⟨[⟨"path", .str "/b.cpp"⟩], ?_, List.cons_ne_nil _ _, Or.inl rfl⟩
  exact List.mem_cons_of_mem _ List.mem_cons_self

end IndraDB
end CppMcp
