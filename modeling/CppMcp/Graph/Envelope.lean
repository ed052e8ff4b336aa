/-
# The envelope of a Cognee document

A payload is one flat map: the envelope, and over it the properties of the record.  The properties
that the exporter attaches have names of their own, with one exception: a Type node has a property
`kind`, and its documents say `kind: INT` where all others say `kind: node` (`envelope_kept_iff`).
-/

import CppMcp.Export.Emitted
import CppMcp.Graph.CogneeSession

namespace CppMcp
namespace Graph
namespace Cognee

open Export (NodeRecord EdgeRecord NodeType PropVal Props NodeSite EdgeSite propNames)

/-- The map has these items. -/
def Has (payload : Payload) (items : Props) : Prop :=
  ∀ key value, (key, value) ∈ items → payload.get key = some value

/-- The payload has the envelope of the node and all properties of the record. -/
structure NodeKept (rec : NodeRecord) (payload : Payload) : Prop where
  envelope : Has payload
    [("kind", .str "node"), ("label", .str rec.label.text), ("usr", .str rec.usr)]
  props : Has payload rec.props

/-- The payload has the envelope of the edge and all properties of the record. -/
structure EdgeKept (rec : EdgeRecord) (payload : Payload) : Prop where
  envelope : Has payload
    [("kind", .str "edge"), ("source_usr", .str rec.source_usr),
      ("edge_type", .str rec.edge_type.text), ("target_usr", .str rec.target_usr)]
  props : Has payload rec.props

/-! ### A map over a map -/

section Merge

variable {envelope props : Props}

/-- The properties of a record are all in its document, since they are written over the envelope. -/
theorem has_props (hprops : (props.map Prod.fst).Nodup) :
    Has (OrderedDict.empty.setAll (envelope ++ props)) props := by
  intro key value hmem
  rw [OrderedDict.setAll_append, OrderedDict.get_setAll_of_mem hprops hmem]

/-- An item of the envelope stays, unless a property has its name and another value. -/
theorem get_envelope_iff (henvelope : (envelope.map Prod.fst).Nodup)
    (hprops : (props.map Prod.fst).Nodup) {key : String} {value : PropVal}
    (hmem : (key, value) ∈ envelope) :
    (OrderedDict.empty.setAll (envelope ++ props)).get key = some value ↔
      (key ∈ props.map Prod.fst → (key, value) ∈ props) := by
  rw [OrderedDict.setAll_append]
  by_cases hkey : key ∈ props.map Prod.fst
  · obtain ⟨⟨_, value'⟩, hitem, rfl⟩ := List.mem_map.mp hkey
    rw [OrderedDict.get_setAll_of_mem hprops hitem]
    refine ⟨fun h _ => Option.some.inj h ▸ hitem, fun h => ?_⟩
    exact congrArg some (OrderedDict.value_unique (d := ⟨props, hprops⟩) hitem (h hkey))
  · rw [OrderedDict.get_setAll_of_not_mem hkey, OrderedDict.get_setAll_of_mem henvelope hmem]
    exact ⟨fun _ h => absurd h hkey, fun _ => rfl⟩

end Merge

/-! ### The records of an export -/

/-- No label has two properties of one name. -/
theorem nodup_propNames (node_type : NodeType) : (propNames node_type).Nodup := by
  cases node_type <;> decide

/-- The one name that the envelope of a node and the properties of a record share. -/
theorem eq_kind_of_mem {node_type : NodeType} {key : String} (hkey : key ∈ ["kind", "label", "usr"])
    (hmem : key ∈ propNames node_type) : key = "kind" ∧ node_type = .type := by
  revert key
  cases node_type <;> decide

/-- **A node keeps its envelope,** unless its record has a property `kind`, which is not `node`. -/
theorem nodeKept_iff {sha1 : Py.Sha1} {n : NodeRecord} (h : NodeSite sha1 n) :
    NodeKept n (nodePayload n) ↔ (n.label = .type → ("kind", .str "node") ∈ n.props) := by
  have hprops : (n.props.map Prod.fst).Nodup := h.names ▸ nodup_propNames n.label
  have henvelope := @get_envelope_iff [("kind", .str "node"), ("label", .str n.label.text),
    ("usr", .str n.usr)] n.props (by simp) hprops
  constructor
  · intro hkept htype
    refine (henvelope List.mem_cons_self).mp (hkept.envelope _ _ List.mem_cons_self) ?_
    rw [h.names, htype]
    decide
  · intro hkind
    refine ⟨fun key value hmem => (henvelope hmem).mpr fun hkey => ?_, has_props hprops⟩
    have hshared : key ∈ ["kind", "label", "usr"] := List.mem_map_of_mem (f := Prod.fst) hmem
    obtain ⟨rfl, htype⟩ := eq_kind_of_mem hshared (h.names ▸ hkey)
    obtain rfl : value = .str "node" := by simpa using hmem
    exact hkind htype

/-- **An edge keeps its envelope,** since the properties of edges are `access` and `index`. -/
theorem edgeKept {e : EdgeRecord} (h : EdgeSite e) : EdgeKept e (edgePayload e) := by
  have hnames : (e.props.map Prod.fst).Nodup ∧
      ∀ key ∈ ["kind", "source_usr", "edge_type", "target_usr"], key ∉ e.props.map Prod.fst := by
    have h := h.names
    generalize e.props.map Prod.fst = names at h
    revert names
    decide
  refine ⟨fun key value hmem => ?_, has_props hnames.1⟩
  have hkey : key ∉ e.props.map Prod.fst :=
    hnames.2 key (List.mem_map_of_mem (f := Prod.fst) hmem)
  exact (get_envelope_iff (by simp) hnames.1 hmem).mpr fun h => absurd h hkey

/-- A turn of the driver hands the document of its record to the transport. -/
theorem requests_upsert (sha256 : String → String) (r : Record) (s : Session) :
    ∃ request, (after (r.upsert sha256) s).requests = s.requests ++ [request] ∧
      request.subject = r.subject ∧ request.payload = r.payload := by
  have hafter : after (r.upsert sha256) s = s.tried sha256 r := by
    cases h : s.fault s.calls with
    | none => exact after_of_ok (upsert_of_none sha256 r h)
    | some exc => exact after_of_error (upsert_of_some sha256 r h)
  rw [hafter]
  exact ⟨⟨r.subject, r.key sha256, r.payload, s.dataset, s.node_set, (s.fault s.calls).isNone⟩,
    by cases r <;> rfl, rfl, rfl⟩

/-- **Which documents keep their envelope:** of all records that an export produces those that are
not of Type nodes, or are of a type whose kind is called `node`. -/
theorem envelope_kept_iff {sha1 : Py.Sha1} {file_path : String} {t : Export.Cursor}
    {r : List NodeRecord × List EdgeRecord}
    (h : Export.extractNodesAndEdges sha1 file_path t = .ok r) (sha256 : String → String)
    (s : Session) :
    (∀ n ∈ r.1, ∃ request,
      (after (upsertNode sha256 n) s).requests = s.requests ++ [request] ∧
        (NodeKept n request.payload ↔ (n.label = .type → ("kind", .str "node") ∈ n.props))) ∧
    ∀ e ∈ r.2, ∃ request,
      (after (upsertEdge sha256 e) s).requests = s.requests ++ [request] ∧
        EdgeKept e request.payload := by
  obtain ⟨hnodes, hedges⟩ := Export.site_of_mem_extract h
  constructor
  · intro n hn
    obtain ⟨request, hrequest, -, hpayload⟩ := requests_upsert sha256 (.node n) s
    exact ⟨request, hrequest, hpayload ▸ nodeKept_iff (hnodes n hn)⟩
  · intro e he
    obtain ⟨request, hrequest, -, hpayload⟩ := requests_upsert sha256 (.edge e) s
    exact ⟨request, hrequest, hpayload ▸ edgeKept (hedges e he)⟩

/-! ### The type of a variable -/

/-- `int v;` -/
def intTree : Export.Cursor :=
  .node { kind := .ok (.other 350) } [
    .node { kind := .ok .varDecl, get_usr := .ok "c:@v", spelling := .ok "v",
            location := .ok { file := "/proj/a.cpp", line := 1, column := 5 },
            type := .ok (some (.last { spelling := .ok "int" } none)) } []]

/-- The node of its type. -/
def intNode : NodeRecord :=
  ⟨.type, "type:46f8ab7c0cff9df7cd124852e26022a6bf89e315",
    Export.typeProps { spelling := .ok "int" }⟩

/-- The export of the example tree returns a result, and the node of the type is in it. -/
theorem exists_extract_intTree :
    ∃ r, Export.extractNodesAndEdges default "/proj/a.cpp" intTree = .ok r ∧ intNode ∈ r.1 := by
  obtain ⟨r, hr⟩ := Export.exists_extract_of_children default "/proj/a.cpp" (t := intTree)
    (by simp [intTree])
  refine ⟨r, hr, ?_⟩
  obtain ⟨-, rfl⟩ := (Export.extract_eq_ok_iff default "/proj/a.cpp").mp hr
  decide +kernel

/-- `envelope_kept_iff` at the Type node of `int`, in a new session. -/
theorem envelope_kept_iff_intTree :
    ∃ r, Export.extractNodesAndEdges default "/proj/a.cpp" intTree = .ok r ∧ intNode ∈ r.1 ∧
      ∃ request, (after (upsertNode (fun text => text) intNode) newSession).requests =
          newSession.requests ++ [request] ∧
        (NodeKept intNode request.payload ↔
          (intNode.label = .type → ("kind", .str "node") ∈ intNode.props)) := by
  obtain ⟨r, hr, hmem⟩ := exists_extract_intTree
  exact ⟨r, hr, hmem, (envelope_kept_iff hr (fun text => text) newSession).1 intNode hmem⟩

/-- **The document of the type says `kind: INT`,** where the documents of all other nodes say
`kind: node`. -/
theorem intNode_not_kept :
    ∃ r, Export.extractNodesAndEdges default "/proj/a.cpp" intTree = .ok r ∧ intNode ∈ r.1 ∧
      ∃ request, (after (upsertNode (fun text => text) intNode) newSession).requests = [request] ∧
        request.payload.get "kind" = some (.str "INT") ∧ ¬NodeKept intNode request.payload := by
  obtain ⟨r, hr, hmem⟩ := exists_extract_intTree
  have hkind : (nodePayload intNode).get "kind" = some (.str "INT") := by decide
  refine ⟨r, hr, hmem, _, rfl, hkind, fun hkept => ?_⟩
  have hnode := hkept.envelope "kind" _ List.mem_cons_self
  exact absurd (hnode.symm.trans hkind) (by decide)

end Cognee
end Graph
end CppMcp
