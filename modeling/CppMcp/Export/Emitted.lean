/-
# The records an export can produce

Five places of the exporter append a node and three kinds of edges come with properties or none.
`NodeSite` and `EdgeSite` list them with the properties that each attaches; every record of an
export is one of them (`site_of_mem_extract`), so what holds of the properties at the sites holds
of all records.
-/

import CppMcp.Export.Growth
import CppMcp.Export.Links

namespace CppMcp
namespace Export

/-- **The nodes that are appended somewhere,** with their properties. -/
inductive NodeSite (sha1 : Py.Sha1) : NodeRecord → Prop
  | exported (file_path : String) : NodeSite sha1 (fileNode file_path)
  | included (inc_path : String) : NodeSite sha1 (includedNode inc_path)
  | symbol {c : CursorInfo} {node_type : NodeType} (children : List Cursor) (hord : c.Ordinary)
    (hs : c.schema = some node_type) :
    NodeSite sha1 ⟨node_type, c.safeUsr, symbolProps c children node_type⟩
  | parameter (usr : String) (p : Param) (idx : ℕ) (spelling : String) :
    NodeSite sha1 ⟨.parameter, paramUsr usr idx, paramProps p idx spelling⟩
  | type (t : TypeInfo) : NodeSite sha1 ⟨.type, t.usr sha1, typeProps t⟩

/-- **The edges that are appended somewhere,** with their properties. -/
inductive EdgeSite : EdgeRecord → Prop
  | plain (source target : String) (t : EdgeType) : EdgeSite ⟨source, target, t, []⟩
  | memberOf (source target access : String) :
    EdgeSite ⟨source, target, .memberOf, [("access", .str access)]⟩
  | hasParam (source target : String) (idx : ℕ) :
    EdgeSite ⟨source, target, .hasParam, [("index", .int idx)]⟩

/-- From `b` to `b'` records of these sites are appended. -/
structure Emits (sha1 : Py.Sha1) (b b' : Batch) : Prop where
  nodes : ∀ n ∈ b'.nodes, n ∈ b.nodes ∨ NodeSite sha1 n
  edges : ∀ e ∈ b'.edges, e ∈ b.edges ∨ EdgeSite e

variable {sha1 : Py.Sha1}

namespace Emits

variable {b b' b'' : Batch}

/-- Where nothing is appended, nothing has to come from a site. -/
theorem refl (b : Batch) : Emits sha1 b b := ⟨fun _ => Or.inl, fun _ => Or.inl⟩

/-- What has been emitted over two stretches of the walk comes from the sites over both. -/
theorem trans (h : Emits sha1 b b') (h' : Emits sha1 b' b'') : Emits sha1 b b'' where
  nodes n hn := (h'.nodes n hn).elim (h.nodes n) Or.inr
  edges e he := (h'.edges e he).elim (h.edges e) Or.inr

/-- Marking a USR as seen appends no record. -/
theorem see (b : Batch) (usr : String) : Emits sha1 b (b.see usr) :=
  ⟨fun _ => Or.inl, fun _ => Or.inl⟩

/-- Appending a node of one of the sites. -/
theorem addNode (b : Batch) {n : NodeRecord} (hn : NodeSite sha1 n) :
    Emits sha1 b (b.addNode n) where
  nodes m hm := by
    refine (List.mem_append.mp hm).imp_right fun hm => ?_
    rw [List.mem_singleton.mp hm]
    exact hn
  edges _ := Or.inl

/-- Appending an edge of one of the sites. -/
theorem addEdge (b : Batch) {s t : String} {k : EdgeType} {props : Props}
    (he : EdgeSite ⟨s, t, k, props⟩) : Emits sha1 b (b.addEdge s t k props) where
  nodes _ := Or.inl
  edges e h := by
    refine (List.mem_append.mp h).imp_right fun h => ?_
    rw [List.mem_singleton.mp h]
    exact he

end Emits

/-- **The walk** appends records of these sites alone, since each of its operations does. -/
theorem covers_emits : Covers sha1 (Emits sha1) where
  refl := Emits.refl
  trans := Emits.trans
  see := Emits.see
  type b t := Emits.addNode b (.type t)
  included b inc_path := Emits.addNode b (.included inc_path)
  symbol b _ _ children hord hs := Emits.addNode b (.symbol children hord hs)
  parameter b usr p idx spelling := Emits.addNode b (.parameter usr p idx spelling)
  plain b s t k := Emits.addEdge b (.plain s t k)
  memberOf b s t access := Emits.addEdge b (.memberOf s t access)
  hasParam b s t idx := Emits.addEdge b (.hasParam s t idx)

/-- **Every record of an export comes from one of the sites.** -/
theorem site_of_mem_extract {file_path : String} {t : Cursor}
    {r : List NodeRecord × List EdgeRecord}
    (h : extractNodesAndEdges sha1 file_path t = .ok r) :
    (∀ n ∈ r.1, NodeSite sha1 n) ∧ ∀ e ∈ r.2, EdgeSite e := by
  obtain ⟨-, rfl⟩ := (extract_eq_ok_iff sha1 file_path).mp h
  have hemits : Emits sha1 (initialBatch file_path) (collected sha1 file_path t) :=
    covers_emits.foldl_emit file_path (visits file_path t) _
  constructor
  · intro n hn
    rcases hemits.nodes n hn with hn | hn
    · rw [List.mem_singleton.mp hn]
      exact .exported file_path
    · exact hn
  · intro e he
    exact (hemits.edges e he).resolve_left List.not_mem_nil

/-! ### The names of the properties -/

/-- No cursor that gets a node is a file, a type or a parameter for the classifier. -/
theorem CursorInfo.Ordinary.schema_ne {c : CursorInfo} {node_type : NodeType} (hord : c.Ordinary)
    (hs : c.schema = some node_type) : node_type ∉ [NodeType.file, .type, .parameter] := by
  rcases CursorInfo.schema_cases hs with ⟨-, rfl⟩ | ⟨k, hk, htable⟩
  · unfold classifyField
    split_ifs <;> decide
  · have hparm : k ≠ .parmDecl := fun h => hord.1 (h ▸ hk)
    unfold kindToNodeType at htable
    split at htable <;> cases htable <;> first | decide | exact absurd rfl hparm

/-- The names of the properties of a node, by its label. -/
def propNames : NodeType → List String
  | .file => ["path", "spelling", "schema_version"]
  | .type => ["spelling", "is_const", "is_volatile", "is_pointer", "is_reference",
      "is_lvalue_reference", "is_rvalue_reference", "kind"]
  | .parameter => ["spelling", "name", "index", "default_value", "file", "line", "col"]
  | node_type => ["spelling", "type", "file", "line", "col"] ++
      (if node_type ∈ [.field, .globalVariable] then
        ["is_const", "is_constexpr", "is_static", "storage_class"] else []) ++
      (if node_type = .function then
        ["signature", "is_constexpr", "is_noexcept", "is_deleted", "is_defaulted", "cv_qualifiers",
          "ref_qualifier"] else []) ++
      (if node_type = .class_ then ["is_final", "is_abstract", "record_kind"] else [])

/-- **The label of a node tells the names of its properties.** -/
theorem NodeSite.names {n : NodeRecord} (h : NodeSite sha1 n) :
    n.props.map Prod.fst = propNames n.label := by
  cases h with
  | exported | included | parameter | type => rfl
  | @symbol c node_type children hord hs =>
    have hlabel := hord.schema_ne hs
    cases node_type with
    | file | type | parameter => exact absurd (by decide) hlabel
    | _ => rfl

/-- A File node is that of the exported file or of an included one. -/
theorem NodeSite.file_cases {n : NodeRecord} (h : NodeSite sha1 n) (hfile : n.label = .file) :
    ∃ path, n = fileNode path ∨ n = includedNode path := by
  cases h with
  | exported path => exact ⟨path, Or.inl rfl⟩
  | included path => exact ⟨path, Or.inr rfl⟩
  | parameter | type => exact absurd hfile (by simp)
  | symbol _ hord hs =>
    cases hfile
    exact absurd List.mem_cons_self (hord.schema_ne hs)

/-- Among the labels, only a File has the property `schema_version`. -/
theorem eq_file_of_version_mem {node_type : NodeType}
    (h : "schema_version" ∈ propNames node_type) : node_type = .file := by
  revert h
  cases node_type <;> decide

/-- **The version is on the File nodes alone,** and it is the current one. -/
theorem NodeSite.version {n : NodeRecord} (h : NodeSite sha1 n) {value : PropVal}
    (hmem : ("schema_version", value) ∈ n.props) :
    n.label = .file ∧ value = .str SCHEMA_VERSION := by
  have hfile := eq_file_of_version_mem (h.names ▸ List.mem_map_of_mem hmem)
  refine ⟨hfile, ?_⟩
  obtain ⟨path, rfl | rfl⟩ := h.file_cases hfile
  · simpa [fileNode] using hmem
  · simpa [includedNode] using hmem

/-- An edge has the property `access`, or `index`, or none at all. -/
theorem EdgeSite.names {e : EdgeRecord} (h : EdgeSite e) :
    e.props.map Prod.fst ∈ [[], ["access"], ["index"]] := by
  cases h <;> simp

end Export
end CppMcp
