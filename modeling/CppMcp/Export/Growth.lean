/-
# A batch only grows

No block of `_walk_cursor` takes anything back: nodes and edges are appended and
USRs are added.  `Covers` lists what the walk does to a batch, so a relation that
covers these steps covers every visit and the whole walk (`Covers.emit`).
`Batch.le` is such a relation (`covers_le`): what has once been recorded stays
recorded to the end.
-/

import CppMcp.Export.Visit

namespace CppMcp
namespace Export

namespace Batch

/-- The USRs of the nodes. -/
def usrs (b : Batch) : List String := b.nodes.map NodeRecord.usr

/-- `b'` has what `b` has, and perhaps more. -/
structure le (b b' : Batch) : Prop where
  nodes : b.nodes <+: b'.nodes
  edges : b.edges <+: b'.edges
  seen : b.seen_usrs ⊆ b'.seen_usrs

variable {b b' b'' : Batch}

/-- A batch has what it has. -/
theorem le_refl (b : Batch) : b.le b :=
  ⟨List.prefix_rfl, List.prefix_rfl, fun _ => id⟩

/-- What has been kept over two stretches of the walk is kept over both. -/
theorem le.trans (h : b.le b') (h' : b'.le b'') : b.le b'' :=
  ⟨h.nodes.trans h'.nodes, h.edges.trans h'.edges, fun _ hu => h'.seen (h.seen hu)⟩

/-- A batch that has grown has the USRs that it had. -/
theorem le.usrs (h : b.le b') : b.usrs ⊆ b'.usrs :=
  fun _ hu => (h.nodes.map NodeRecord.usr).subset hu

/-- Marking a USR as seen loses nothing that has been recorded. -/
theorem le_see (b : Batch) (usr : String) : b.le (b.see usr) :=
  ⟨List.prefix_rfl, List.prefix_rfl, fun _ => List.mem_cons_of_mem _⟩

/-- Adding a node loses nothing that has been recorded. -/
theorem le_addNode (b : Batch) (n : NodeRecord) : b.le (b.addNode n) :=
  ⟨List.prefix_append _ _, List.prefix_rfl, fun _ => id⟩

/-- Adding an edge loses nothing that has been recorded. -/
theorem le_addEdge (b : Batch) (s t : String) (k : EdgeType) (props : Props) :
    b.le (b.addEdge s t k props) :=
  ⟨List.prefix_rfl, List.prefix_append _ _, fun _ => id⟩

/-- Adding an edge that may have no target loses nothing that has been recorded. -/
theorem le_addEdge? (b : Batch) (s : String) (t : Option String) (k : EdgeType) :
    b.le (b.addEdge? s t k) := by
  cases t with
  | none => exact le_refl b
  | some t => exact le_addEdge b s t k []

/-- Marking a USR as seen adds no node. -/
@[simp] theorem usrs_see (b : Batch) (usr : String) : (b.see usr).usrs = b.usrs := rfl

/-- Adding an edge adds no node. -/
@[simp] theorem usrs_addEdge (b : Batch) (s t : String) (k : EdgeType) (props : Props) :
    (b.addEdge s t k props).usrs = b.usrs := rfl

/-- Adding an edge that may have no target adds no node. -/
@[simp] theorem usrs_addEdge? (b : Batch) (s : String) (t : Option String) (k : EdgeType) :
    (b.addEdge? s t k).usrs = b.usrs := by
  cases t <;> rfl

/-- Adding a node appends its USR to those of the nodes. -/
@[simp] theorem usrs_addNode (b : Batch) (n : NodeRecord) :
    (b.addNode n).usrs = b.usrs ++ [n.usr] := by
  simp [usrs, addNode]

end Batch

open Batch

/-- The File node of an included file. -/
def includedNode (inc_path : String) : NodeRecord :=
  ⟨.file, fileUsr inc_path, [("path", .str inc_path), ("spelling", .str inc_path),
    ("schema_version", .str SCHEMA_VERSION)]⟩

/-- The relation covers what the walk does to a batch, step by step: USRs are taken, and nodes and
edges appended with their properties. -/
structure Covers (sha1 : Py.Sha1) (R : Batch → Batch → Prop) : Prop where
  refl : ∀ b, R b b
  trans : ∀ {b b' b''}, R b b' → R b' b'' → R b b''
  see : ∀ b usr, R b (b.see usr)
  type : ∀ b (t : TypeInfo), R b (b.addNode ⟨.type, t.usr sha1, typeProps t⟩)
  included : ∀ b inc_path, R b (b.addNode (includedNode inc_path))
  symbol : ∀ b {c : CursorInfo} {node_type : NodeType} (children : List Cursor), c.Ordinary →
    c.schema = some node_type →
    R b (b.addNode ⟨node_type, c.safeUsr, symbolProps c children node_type⟩)
  parameter : ∀ b usr p idx spelling,
    R b (b.addNode ⟨.parameter, paramUsr usr idx, paramProps p idx spelling⟩)
  plain : ∀ b s t k, R b (b.addEdge s t k)
  memberOf : ∀ b s t access, R b (b.addEdge s t .memberOf [("access", .str access)])
  hasParam : ∀ b s t idx, R b (b.addEdge s t .hasParam [("index", .int idx)])

/-! ### The blocks -/

namespace Covers

variable {sha1 : Py.Sha1} {R : Batch → Batch → Prop} (h : Covers sha1 R) (file_path : String)
include h

/-- An edge that may have no target: nothing is added, or an edge is. -/
theorem addEdge? (b : Batch) (s : String) (t : Option String) (k : EdgeType) :
    R b (b.addEdge? s t k) := by
  cases t with
  | none => exact h.refl b
  | some t => exact h.plain b s t k

/-- Taking a type into the table marks its USR and adds its node. -/
theorem takeType (b : Batch) (t : TypeInfo) : R b (b.takeType sha1 t) :=
  h.trans (h.see b _) (h.type _ t)

/-- One step of the type table is covered: it adds a node that is new, or an edge, or nothing. -/
theorem typeStep {t : CType} {b b' : Batch} {usr : Option String}
    (hstep : TypeStep sha1 t b b' usr) : R b b' := by
  induction hstep with
  | unspelled | taken => exact h.refl _
  | new => exact h.takeType _ _
  | chain _ _ _ _ ih => exact h.trans (h.takeType _ _) (h.trans ih (h.plain _ _ _ _))

/-- Entering a type is covered, since it is a sequence of steps of the type table. -/
theorem getOrCreateTypeOf (type : Acc (Option CType)) (b : Batch) :
    R b (getOrCreateTypeOf sha1 b type).1 := by
  rcases typeStep_getOrCreateTypeOf sha1 type b with hnone | ⟨t, -, hstep⟩
  · rw [hnone]
    exact h.refl b
  · exact h.typeStep hstep

/-- Entering a type and linking a symbol to it is covered. -/
theorem linkType (type : Acc (Option CType)) (b : Batch) (usr : String) (k : EdgeType) :
    R b (linkType usr k (Export.getOrCreateTypeOf sha1 b type)) :=
  h.trans (h.getOrCreateTypeOf type b) (h.addEdge? _ _ _ _)

/-- An inclusion directive is covered: it adds a File node, or an edge to it, or nothing. -/
theorem emitInclusion (c : CursorInfo) (b : Batch) :
    R b (emitInclusion (fileUsr file_path) c b) := by
  unfold Export.emitInclusion
  split
  · split_ifs
    · exact h.plain _ _ _ _
    · exact h.trans (h.see b _) (h.trans (h.included _ _) (h.plain _ _ _ _))
  · exact h.refl b

/-- Writing a symbol is covered if the entry of its own node is; the type that follows it is covered
in any case. -/
theorem emitSymbol {c : CursorInfo} {children : List Cursor} {node_type : NodeType} {b : Batch}
    (htake : R b (b.takeSymbol c children node_type)) :
    R b (emitSymbol sha1 c children node_type b) := by
  unfold Export.emitSymbol
  split_ifs
  · exact h.refl b
  · exact h.trans htake (h.linkType _ _ _ _)
  · exact htake

/-- The edge to the parent is covered, of whichever type it is. -/
theorem emitParentEdge (ctx : Ctx) (c : CursorInfo) (b : Batch) :
    R b (emitParentEdge (fileUsr file_path) ctx.parent_usr ctx.parent_kind c b) := by
  unfold Export.emitParentEdge
  split
  · split_ifs
    · exact h.memberOf _ _ _ _
    · exact h.plain _ _ _ _
  · exact h.plain _ _ _ _

/-- The bases of a class are covered, by induction on the children that are looked at. -/
theorem emitInherits (c : CursorInfo) (children : List Cursor) (b : Batch) :
    R b (emitInherits c children b) := by
  have fold : ∀ (us : List String) (b : Batch),
      R b (us.foldl (fun b base_usr => b.addEdge c.safeUsr base_usr .inherits) b) := by
    intro us
    induction us with
    | nil => exact h.refl
    | cons u us ih => exact fun b => h.trans (h.plain b _ _ _) (ih _)
  unfold Export.emitInherits
  split_ifs
  · exact fold _ b
  · exact h.refl b

/-- The edge for a call is covered, although the walk never gets to it. -/
theorem emitCalls (parent_usr : Option String) (c : CursorInfo) (b : Batch) :
    R b (emitCalls parent_usr c b) := by
  unfold Export.emitCalls
  split_ifs
  · cases parent_usr with
    | none => exact h.refl b
    | some p => exact h.addEdge? _ _ _ _
  · exact h.refl b

/-- The return type of a function is covered. -/
theorem emitReturns (c : CursorInfo) (b : Batch) : R b (emitReturns sha1 c b) := by
  unfold Export.emitReturns
  split_ifs
  · exact h.linkType _ _ _ _
  · exact h.refl b

/-- What is recorded for one argument after its type has been entered is covered. -/
theorem linkParam (usr : String) (p : Param) (idx : ℕ) (spelling : String)
    (r : Batch × Option String) : R r.1 (linkParam usr p idx spelling r) :=
  h.trans (h.parameter r.1 _ _ _ _) (h.trans (h.hasParam _ _ _ _) (h.addEdge? _ _ _ _))

/-- The loop over the arguments is covered, by induction on the arguments left. -/
theorem emitParamsFrom (usr : String) (params : List Param) (idx : ℕ) (b : Batch) :
    R b (emitParamsFrom sha1 usr idx params b) := by
  induction params generalizing idx b with
  | nil => exact h.refl b
  | cons param rest ih =>
    have htype := h.trans (h.see b (paramUsr usr idx)) (h.getOrCreateTypeOf param.type _)
    rw [Export.emitParamsFrom]
    split_ifs
    · exact ih _ _
    · cases param.spelling with
      | error e => exact htype
      | ok spelling => exact h.trans htype (h.trans (h.linkParam usr param idx spelling _) (ih _ _))

/-- The arguments of a function are covered; other cursors have none. -/
theorem emitParams (c : CursorInfo) (b : Batch) : R b (emitParams sha1 c b) := by
  unfold Export.emitParams
  split_ifs
  · exact h.emitParamsFrom _ _ _ _
  · exact h.refl b

/-- All that is recorded for a schema cursor of the file is covered, in the order in which
`_walk_cursor` records it. -/
theorem emitSchema {c : CursorInfo} {node_type : NodeType} (hord : c.Ordinary)
    (hs : c.schema = some node_type) (ctx : Ctx) (children : List Cursor) (b : Batch) :
    R b (emitSchema sha1 (fileUsr file_path) ctx node_type c children b) :=
  h.trans (h.emitSymbol (h.trans (h.see b _) (h.symbol _ children hord hs))) <|
    h.trans (h.emitParentEdge file_path ctx c _) <| h.trans (h.emitInherits c children _) <|
      h.trans (h.emitCalls ctx.parent_usr c _) <| h.trans (h.emitReturns c _) <| h.emitParams c _

/-- **Every visit** moves the batch along the relation, whatever the context that the walk brings
along. -/
theorem emit (b : Batch) (v : Visit) : R b (emit sha1 file_path b v) := by
  obtain ⟨ctx, t⟩ := v
  rcases branch_cases sha1 file_path ctx t with
    ⟨-, -, hemit⟩ | ⟨-, -, hemit⟩ | ⟨-, -, hemit⟩ | ⟨-, -, -, hemit⟩ |
    ⟨hord, -, node_type, hs, -, hemit⟩ | ⟨-, -, -, -, hemit⟩ <;>
  rw [hemit b]
  · exact h.refl b
  · exact h.emitInclusion file_path _ b
  · exact h.addEdge? _ _ _ _
  · exact h.refl b
  · exact h.emitSchema file_path hord hs ctx _ b
  · exact h.refl b

/-- So does any sequence of visits, and with it the whole walk. -/
theorem foldl_emit (vs : List Visit) (b : Batch) :
    R b (vs.foldl (Export.emit sha1 file_path) b) := by
  induction vs generalizing b with
  | nil => exact h.refl b
  | cons v vs ih => exact h.trans (h.emit file_path b v) (ih _)

end Covers

/-! ### Growth -/

variable (sha1 : Py.Sha1) (file_path : String)

/-- **The walk keeps what has been recorded,** nodes, edges and seen USRs. -/
theorem covers_le : Covers sha1 Batch.le where
  refl := le_refl
  trans := le.trans
  see := le_see
  type b _ := le_addNode b _
  included b _ := le_addNode b _
  symbol b _ _ _ _ _ := le_addNode b _
  parameter b _ _ _ _ := le_addNode b _
  plain b s t k := le_addEdge b s t k []
  memberOf b s t _ := le_addEdge b s t _ _
  hasParam b s t _ := le_addEdge b s t _ _

/-- A symbol of any kind is kept so, also one that is no schema cursor for the classifier. -/
theorem le_emitSymbol (c : CursorInfo) (children : List Cursor) (node_type : NodeType) (b : Batch) :
    b.le (emitSymbol sha1 c children node_type b) :=
  (covers_le sha1).emitSymbol ((le_see b _).trans (le_addNode _ _))

/-- **What a visit has recorded is in the export,** since no later visit takes anything back. -/
theorem exists_emit_le_collected {t : Cursor} {v : Visit} (hv : v ∈ visits file_path t) :
    ∃ b, (emit sha1 file_path b v).le (collected sha1 file_path t) := by
  obtain ⟨before, after, hsplit⟩ := List.append_of_mem hv
  refine ⟨before.foldl (emit sha1 file_path) (initialBatch file_path), ?_⟩
  rw [collected, hsplit, List.foldl_append, List.foldl_cons]
  exact (covers_le sha1).foldl_emit file_path after _

end Export
end CppMcp
