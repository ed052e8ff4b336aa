/-
# Which labels an edge joins

The constants of `src/cpp_mcp/graphdb/schema.py` come with the labels that each type of edge joins, such
as Function → Type for `RETURNS`.  `EdgeType.leaves` and `EdgeType.enters` are that table, completed by
what the exporter does for the types that have none there.

A node is labelled where its USR is first taken, and an edge is emitted where a later cursor may only
repeat the USR.  So the table holds as long as USRs tell the kinds of symbols, as those of libclang do:
then every USR has one label (`Labelled.unique`), each block of the walk emits edges between USRs of the
right labels, and so does an export (`export_conforms`).
-/

import CppMcp.Export.Typed
import CppMcp.Export.Reachable

namespace CppMcp
namespace Export

/-- The labels of the nodes that an edge can start at.  There is no `CALLS` edge. -/
def EdgeType.leaves : EdgeType → NodeType → Bool
  | .includes, l => l == .file
  | .defines, l | .declares, l => l == .file || l.isSymbol
  | .references, l => l == .file || l == .function
  | .inherits, l => l == .class_
  | .memberOf, l => l == .field || l == .globalVariable || l == .function
  | .returns, l | .hasParam, l => l == .function
  | .ofType, l => l == .parameter || l == .field || l == .globalVariable
  | .pointsTo, l | .refersTo, l => l == .type
  | .calls, _ => false

/-- The labels of the nodes that an edge can end at.  A base class and a declaration that is referred to
can be anything that has their USR. -/
def EdgeType.enters : EdgeType → NodeType → Bool
  | .includes, l => l == .file
  | .defines, l | .declares, l => l.isSymbol
  | .memberOf, l => l == .class_
  | .returns, l | .ofType, l | .pointsTo, l | .refersTo, l => l == .type
  | .hasParam, l => l == .parameter
  | .references, _ | .inherits, _ | .calls, _ => true

/-- **USRs tell the kinds of symbols:** that of a symbol in the tree is native, and `kind` gives the
label from it. -/
def TellsKinds (kind : String → NodeType) (t : Cursor) : Prop :=
  ∀ s ∈ t.subtrees, s.label.Ordinary → ∀ node_type, s.label.schema = some node_type →
    Native s.label.safeUsr ∧ kind s.label.safeUsr = node_type

/-- **The label that belongs to a USR.** -/
inductive Labelled (kind : String → NodeType) : String → NodeType → Prop
  | file (path : String) : Labelled kind (fileUsr path) .file
  | type (sha1 : Py.Sha1) (spelling : String) : Labelled kind (typeUsr sha1 spelling) .type
  | parameter {usr : String} (h : Native usr) (idx : ℕ) : Labelled kind (paramUsr usr idx) .parameter
  | symbol {usr : String} (h : Native usr) : Labelled kind usr (kind usr)

variable {kind : String → NodeType}

/-- A native USR with something after it is not that of a file. -/
theorem fileUsr_ne_paramUsr {usr : String} (h : Native usr) (path : String) (idx : ℕ) :
    fileUsr path ≠ paramUsr usr idx := by
  intro heq
  have hlist := congrArg String.toList heq
  rw [fileUsr, paramUsr, String.toList_append, String.toList_append, String.toList_append,
    List.append_assoc] at hlist
  obtain ⟨rest, hrest⟩ := Py.startswith_iff.mp h.1
  rw [← hrest] at hlist
  exact absurd (List.cons.inj hlist).1 (by decide)

/-- **Every USR has one label:** the files, the types and the parameters each have a form of USR of
their own. -/
theorem Labelled.unique {usr : String} {l l' : NodeType} (h : Labelled kind usr l)
    (h' : Labelled kind usr l') : l = l' := by
  generalize hu : usr = u at h'
  cases h with
  | file path =>
    cases h' with
    | file => rfl
    | type sha1 spelling => exact absurd hu (fileUsr_ne_typeUsr sha1 path spelling)
    | parameter hn idx => exact absurd hu (fileUsr_ne_paramUsr hn path idx)
    | symbol hn => exact absurd (hu ▸ hn) (not_native_fileUsr path)
  | type sha1 spelling =>
    cases h' with
    | file path => exact absurd hu.symm (fileUsr_ne_typeUsr sha1 path spelling)
    | type => rfl
    | parameter hn idx => exact absurd hu (typeUsr_ne_paramUsr sha1 spelling _ idx)
    | symbol hn => exact absurd (hu ▸ hn) (not_native_typeUsr sha1 spelling)
  | parameter hn idx =>
    cases h' with
    | file path => exact absurd hu.symm (fileUsr_ne_paramUsr hn path idx)
    | type sha1 spelling => exact absurd hu.symm (typeUsr_ne_paramUsr sha1 spelling _ idx)
    | parameter => rfl
    | symbol hn' => exact absurd (hu ▸ hn') (not_native_paramUsr _ idx)
  | symbol hn =>
    cases h' with
    | file path => exact absurd (hu ▸ hn) (not_native_fileUsr path)
    | type sha1 spelling => exact absurd (hu ▸ hn) (not_native_typeUsr sha1 spelling)
    | parameter _ idx => exact absurd (hu ▸ hn) (not_native_paramUsr _ idx)
    | symbol => rw [hu]

/-- The edge joins USRs whose labels its type allows. -/
structure EdgeRecord.Conforms (kind : String → NodeType) (e : EdgeRecord) : Prop where
  source : ∃ l, Labelled kind e.source_usr l ∧ e.edge_type.leaves l = true
  target : e.edge_type.targetsNode = true →
    ∃ l, Labelled kind e.target_usr l ∧ e.edge_type.enters l = true

/-- All edges of the batch do. -/
def Batch.Conforms (kind : String → NodeType) (b : Batch) : Prop := ∀ e ∈ b.edges, e.Conforms kind

/-- Adding an edge keeps the batch within the schema if its source has a label that the type of the
edge may leave and its target, where it has to be a node, one that it may enter. -/
theorem Batch.Conforms.addEdge {b : Batch} (h : b.Conforms kind) {source target : String}
    {k : EdgeType} {props : Props} {l : NodeType} (hl : Labelled kind source l)
    (hleaves : k.leaves l = true)
    (htarget : k.targetsNode = true → ∃ l, Labelled kind target l ∧ k.enters l = true) :
    (b.addEdge source target k props).Conforms kind := by
  intro e he
  rcases List.mem_append.mp he with he | he
  · exact h e he
  · rw [List.mem_singleton.mp he]
    exact ⟨⟨l, hl, hleaves⟩, htarget⟩

/-- The same for an edge that may have no target. -/
theorem Batch.Conforms.addEdge? {b : Batch} (h : b.Conforms kind) {source : String}
    {target : Option String} {k : EdgeType} {l : NodeType} (hl : Labelled kind source l)
    (hleaves : k.leaves l = true) (htarget : k.targetsNode = true → ∀ u, target = some u →
      ∃ l, Labelled kind u l ∧ k.enters l = true) :
    (b.addEdge? source target k).Conforms kind := by
  cases target with
  | none => exact h
  | some target => exact h.addEdge hl hleaves fun hk => htarget hk target rfl

/-! ### Types -/

variable (sha1 : Py.Sha1)

/-- One step of the type table keeps the batch within the schema, and what it returns is the USR of
a type. -/
theorem conforms_typeStep {t : CType} {b b' : Batch} {usr : Option String}
    (hstep : TypeStep sha1 t b b' usr) (h : b.Conforms kind) :
    b'.Conforms kind ∧ ∀ u, usr = some u → Labelled kind u .type := by
  have htype : ∀ (t : TypeInfo) u, some (t.usr sha1) = some u → Labelled kind u .type := by
    intro t u hu
    obtain rfl := Option.some.inj hu
    exact .type sha1 t.spelled
  induction hstep with
  | unspelled => exact ⟨h, fun u hu => absurd hu (by simp)⟩
  | @taken t b _ _ => exact ⟨h, htype t.info⟩
  | @new t b _ _ => exact ⟨h, htype t.info⟩
  | @chain t pointee b b' usr k _ _ hk hp ih =>
    obtain ⟨h', hu⟩ := ih h
    have hself : Labelled kind (t.usr sha1) .type := .type sha1 t.spelled
    refine ⟨?_, htype t⟩
    rcases chainEdge_cases hk with rfl | rfl
    · exact h'.addEdge hself rfl fun _ => ⟨.type, hu usr rfl, rfl⟩
    · exact h'.addEdge hself rfl fun _ => ⟨.type, hu usr rfl, rfl⟩

/-- Entering a type keeps the batch within the schema, and the USR that it returns is that of a
type. -/
theorem conforms_getOrCreateTypeOf (type : Acc (Option CType)) {b : Batch} (h : b.Conforms kind) :
    (getOrCreateTypeOf sha1 b type).1.Conforms kind ∧
      ∀ u, (getOrCreateTypeOf sha1 b type).2 = some u → Labelled kind u .type := by
  rcases typeStep_getOrCreateTypeOf sha1 type b with h' | ⟨t, -, h'⟩
  · rw [h']
    exact ⟨h, fun u hu => absurd hu (by simp)⟩
  · exact conforms_typeStep sha1 h' h

/-- Entering a type and linking a symbol to it keeps the batch within the schema, if the edge may
lead from the symbol to a type. -/
theorem conforms_linkType (type : Acc (Option CType)) {b : Batch} (h : b.Conforms kind) {usr : String}
    {k : EdgeType} {l : NodeType} (hl : Labelled kind usr l) (hleaves : k.leaves l = true)
    (henters : k.enters .type = true) :
    (linkType usr k (getOrCreateTypeOf sha1 b type)).Conforms kind := by
  obtain ⟨h', hu⟩ := conforms_getOrCreateTypeOf sha1 type h
  exact h'.addEdge? hl hleaves fun _ u husr => ⟨.type, hu u husr, henters⟩

/-! ### Parameters -/

/-- What is recorded for one argument is a parameter of the function and its type. -/
theorem conforms_linkParam {usr : String} (husr : Native usr) (hfun : kind usr = .function)
    (param : Param) (idx : ℕ) (spelling : String) {b : Batch} (h : b.Conforms kind) :
    (linkParam usr param idx spelling
      (getOrCreateTypeOf sha1 (b.see (paramUsr usr idx)) param.type)).Conforms kind := by
  obtain ⟨h', hu⟩ := conforms_getOrCreateTypeOf sha1 param.type (b := b.see (paramUsr usr idx)) h
  have hself : Labelled kind usr .function := hfun ▸ .symbol husr
  have hparam : Labelled kind (paramUsr usr idx) .parameter := .parameter husr idx
  have hedge : ((getOrCreateTypeOf sha1 (b.see (paramUsr usr idx)) param.type).1.addNode
      ⟨.parameter, paramUsr usr idx, paramProps param idx spelling⟩).Conforms kind := h'
  exact (hedge.addEdge hself rfl fun _ => ⟨.parameter, hparam, rfl⟩).addEdge? hparam rfl
    fun _ u htype => ⟨.type, hu u htype, rfl⟩

/-- The loop over the arguments of a function keeps the batch within the schema, by induction on the
arguments left. -/
theorem conforms_emitParamsFrom {usr : String} (husr : Native usr) (hfun : kind usr = .function)
    (params : List Param) (idx : ℕ) {b : Batch} (h : b.Conforms kind) :
    (emitParamsFrom sha1 usr idx params b).Conforms kind := by
  induction params generalizing idx b with
  | nil => exact h
  | cons param rest ih =>
    rw [emitParamsFrom]
    split_ifs with hseen
    · exact ih (idx + 1) h
    · cases param.spelling with
      | error e => exact (conforms_getOrCreateTypeOf sha1 param.type (b := b.see _) h).1
      | ok spelling => exact ih (idx + 1) (conforms_linkParam sha1 husr hfun param idx spelling h)

/-! ### Symbols -/

/-- What is handed down is the USR of a symbol, of a class where the kind is a class's, and of a
function. -/
structure Ctx.Conforms (kind : String → NodeType) (ctx : Ctx) : Prop where
  parent : ∀ p, ctx.parent_usr = some p → Native p ∧ (kind p).isSymbol = true ∧
    (kindIn ctx.parent_kind memberParentKinds = true → kind p = .class_)
  enclosing : ∀ g, ctx.enclosing_func_usr = some g → Native g ∧ kind g = .function

/-- The label of a cursor of a kind that the table gives one label. -/
theorem schema_of_kindIn {c : CursorInfo} {node_type l : NodeType} {S : List CursorKind}
    (hs : c.schema = some node_type) (hk : kindIn c.kindName S = true)
    (hS : ∀ k ∈ S, k ≠ .fieldDecl ∧ kindToNodeType k = some l) : node_type = l := by
  obtain ⟨k, hkS, hkind⟩ := kindIn_iff.mp hk
  obtain ⟨hfield, htable⟩ := hS k hkS
  rcases CursorInfo.schema_cases hs with ⟨hdecl, -⟩ | ⟨k', hk', htable'⟩
  · exact absurd (Option.some.inj (hkind.symm.trans hdecl)) hfield
  · obtain rfl := Option.some.inj (hkind.symm.trans hk')
    exact Option.some.inj (htable'.symm.trans htable)

/-- The cursors that are given arguments and a return type are those labelled Function. -/
theorem schema_of_function {c : CursorInfo} {node_type : NodeType} (hs : c.schema = some node_type)
    (hk : kindIn c.kindName functionCursorKinds = true) : node_type = .function :=
  schema_of_kindIn hs hk (by decide)

/-- The cursors whose members get `MEMBER_OF` edges are those labelled Class. -/
theorem schema_of_class {c : CursorInfo} {node_type : NodeType} (hs : c.schema = some node_type)
    (hk : kindIn c.kindName memberParentKinds = true) : node_type = .class_ :=
  schema_of_kindIn hs hk (by decide)

/-- A member is a field, a static data member or a function. -/
theorem leaves_memberOf {c : CursorInfo} {node_type : NodeType} (hs : c.schema = some node_type)
    (hk : kindIn c.kindName memberKinds = true) : EdgeType.memberOf.leaves node_type = true := by
  rcases CursorInfo.schema_cases hs with ⟨-, rfl⟩ | ⟨k, hkind, htable⟩
  · unfold classifyField
    split_ifs <;> rfl
  · rw [hkind] at hk
    have hmember : k ∈ memberKinds := List.contains_iff_mem.mp hk
    simp only [memberKinds, List.mem_cons, List.not_mem_nil, or_false] at hmember
    rcases hmember with rfl | rfl | rfl | rfl <;> cases htable <;> rfl

section Blocks

variable {c : CursorInfo} {b : Batch}

/-- The node of a symbol has the label that the kinds give its USR, and the type that follows is
entered as a type. -/
theorem conforms_emitSymbol (husr : Native c.safeUsr) (h : b.Conforms kind) (children : List Cursor) :
    (emitSymbol sha1 c children (kind c.safeUsr) b).Conforms kind := by
  unfold emitSymbol
  split_ifs with hseen hdata
  · exact h
  · refine conforms_linkType sha1 c.type (b := b.takeSymbol c children _) h (.symbol husr) ?_ rfl
    rcases List.mem_cons.mp hdata with hfield | hglobal
    · rw [hfield]; rfl
    · rw [List.mem_singleton.mp hglobal]; rfl
  · exact h

variable (husr : Native c.safeUsr) (hs : c.schema = some (kind c.safeUsr)) (h : b.Conforms kind)
include husr hs h

/-- The edge to the parent conforms: a member enters a class, and what a parent or the file defines
or declares is a symbol. -/
theorem conforms_emitParentEdge (file_path : String) {ctx : Ctx} (hctx : ctx.Conforms kind)
    (hsymbol : (kind c.safeUsr).isSymbol = true) :
    (emitParentEdge (fileUsr file_path) ctx.parent_usr ctx.parent_kind c b).Conforms kind := by
  have hself : Labelled kind c.safeUsr (kind c.safeUsr) := .symbol husr
  have hbody : c.bodyEdge = .defines ∨ c.bodyEdge = .declares := by
    unfold CursorInfo.bodyEdge
    split_ifs <;> simp
  unfold emitParentEdge
  split
  next p hp =>
    obtain ⟨hnative, hparent, hclass⟩ := hctx.parent p hp
    split_ifs with hmember
    · obtain ⟨hparentKind, hkind⟩ := Bool.and_eq_true_iff.mp hmember
      exact h.addEdge hself (leaves_memberOf hs hkind) fun _ =>
        ⟨_, .symbol hnative, by rw [hclass hparentKind]; rfl⟩
    · refine h.addEdge (.symbol hnative) ?_ fun _ => ⟨_, hself, ?_⟩
      · rcases hbody with hk | hk <;> rw [hk] <;> simp [EdgeType.leaves, hparent]
      · rcases hbody with hk | hk <;> rw [hk] <;> exact hsymbol
  next =>
    refine h.addEdge (.file file_path) ?_ fun _ => ⟨_, hself, ?_⟩
    · rcases hbody with hk | hk <;> rw [hk] <;> rfl
    · rcases hbody with hk | hk <;> rw [hk] <;> exact hsymbol

/-- The edges to the bases leave a class; where they lead to is not asked, since a base need not be
a node. -/
theorem conforms_emitInherits (children : List Cursor) : (emitInherits c children b).Conforms kind := by
  intro e he
  rw [edges_emitInherits] at he
  rcases List.mem_append.mp he with he | he
  · exact h e he
  · unfold inheritsEdges at he
    split_ifs at he with hk
    · obtain ⟨base_usr, -, rfl⟩ := List.mem_map.mp he
      refine ⟨⟨_, .symbol husr, ?_⟩, fun hk => absurd hk (by simp [EdgeType.targetsNode])⟩
      have hclass : kind c.safeUsr = .class_ :=
        schema_of_kindIn hs (Bool.and_eq_true_iff.mp hk).1 (by decide)
      rw [hclass]
      rfl
    · exact absurd he List.not_mem_nil

/-- The `RETURNS` edge leads from a function to a type. -/
theorem conforms_emitReturns : (emitReturns sha1 c b).Conforms kind := by
  unfold emitReturns
  split_ifs with hk
  · exact conforms_linkType sha1 c.result_type h (.symbol husr)
      (by rw [schema_of_function hs hk]; rfl) rfl
  · exact h

/-- The arguments are those of a function, and each enters its own parameter and type. -/
theorem conforms_emitParams : (emitParams sha1 c b).Conforms kind := by
  unfold emitParams
  split_ifs with hk
  · exact conforms_emitParamsFrom sha1 husr (schema_of_function hs hk) c.get_arguments 0 h
  · exact h

end Blocks

/-- All that is recorded for a schema cursor conforms, if the context that it stands in does. -/
theorem conforms_emitSchema (file_path : String) {ctx : Ctx} (hctx : ctx.Conforms kind) {c : CursorInfo}
    (husr : Native c.safeUsr) (hs : c.schema = some (kind c.safeUsr)) (hord : c.Ordinary)
    (children : List Cursor) {b : Batch} (h : b.Conforms kind) :
    (emitSchema sha1 (fileUsr file_path) ctx (kind c.safeUsr) c children b).Conforms kind := by
  unfold emitSchema
  rw [emitCalls_eq_self hs]
  have h₁ := conforms_emitSymbol sha1 husr h children
  have h₂ := conforms_emitParentEdge husr hs h₁ file_path hctx (isSymbol_of_schema hord.1 hs)
  have h₃ := conforms_emitInherits husr hs h₂ children
  exact conforms_emitParams sha1 husr hs (conforms_emitReturns sha1 husr hs h₃)

/-- The edge of an inclusion directive leads from the file to a File node. -/
theorem conforms_emitInclusion (file_path : String) (c : CursorInfo) {b : Batch} (h : b.Conforms kind) :
    (emitInclusion (fileUsr file_path) c b).Conforms kind := by
  intro e he
  rw [edges_emitInclusion] at he
  rcases List.mem_append.mp he with he | he
  · exact h e he
  · unfold inclusionEdges at he
    split at he
    · rw [List.mem_singleton.mp he]
      exact ⟨⟨.file, .file file_path, rfl⟩, fun _ => ⟨.file, .file _, rfl⟩⟩
    · exact absurd he List.not_mem_nil

/-- The edge of a use-site leaves the enclosing function, or the file where there is none. -/
theorem conforms_emitUseSite (file_path : String) {ctx : Ctx} (hctx : ctx.Conforms kind) (c : CursorInfo)
    {b : Batch} (h : b.Conforms kind) :
    (emitUseSite (fileUsr file_path) ctx.enclosing_func_usr c b).Conforms kind := by
  unfold emitUseSite
  cases henc : ctx.enclosing_func_usr with
  | none => exact h.addEdge? (.file file_path) rfl fun hk => absurd hk (by decide)
  | some g =>
    obtain ⟨hnative, hfun⟩ := hctx.enclosing g henc
    exact h.addEdge? (l := .function) (hfun ▸ .symbol hnative) rfl fun hk => absurd hk (by decide)

/-! ### The walk -/

variable (file_path : String)

/-- The kind that `TellsKinds` gives of a visited cursor. -/
def Visit.Tells (kind : String → NodeType) (v : Visit) : Prop :=
  v.2.label.Ordinary → ∀ node_type, v.2.label.schema = some node_type →
    Native v.2.label.safeUsr ∧ kind v.2.label.safeUsr = node_type

/-- **A visit emits edges that conform,** if what it visits and its context tell their kinds. -/
theorem conforms_emit {b : Batch} {v : Visit} (hv : Visit.Tells kind v) (h : b.Conforms kind)
    (hctx : v.1.Conforms kind) : (emit sha1 file_path b v).Conforms kind := by
  obtain ⟨ctx, t⟩ := v
  rcases branch_cases sha1 file_path ctx t with
    ⟨-, -, hemit⟩ | ⟨-, -, hemit⟩ | ⟨-, -, hemit⟩ | ⟨-, -, -, hemit⟩ |
    ⟨hord, -, node_type, hs, -, hemit⟩ | ⟨-, -, -, -, hemit⟩ <;>
  rw [hemit b]
  · exact h
  · exact conforms_emitInclusion file_path t.label h
  · exact conforms_emitUseSite file_path hctx t.label h
  · exact h
  · obtain ⟨husr, rfl⟩ := hv hord node_type hs
    exact conforms_emitSchema sha1 file_path hctx husr hs hord t.children h
  · exact h

/-- **A visit hands down a context that conforms:** the parent and the enclosing function are
symbols of their labels. -/
theorem conforms_ctxBelow {v : Visit} (hv : Visit.Tells kind v) (hctx : v.1.Conforms kind) {ctx' : Ctx}
    (h : ctxBelow file_path v.1 v.2.label = some ctx') : ctx'.Conforms kind := by
  obtain ⟨ctx, t⟩ := v
  rcases branch_cases default file_path ctx t with
    ⟨-, hc', -⟩ | ⟨-, hc', -⟩ | ⟨-, hc', -⟩ | ⟨-, -, hc', -⟩ | ⟨hord, -, node_type, hs, hc', -⟩ |
    ⟨-, -, -, hc', -⟩ <;>
  rw [hc'] at h <;> cases h
  · exact hctx
  · exact ⟨fun p hp => absurd hp (by simp), hctx.enclosing⟩
  · obtain ⟨husr, hkind⟩ := hv hord node_type hs
    refine ⟨fun p hp => ?_, fun g hg => ?_⟩
    · obtain rfl := Option.some.inj hp
      refine ⟨husr, hkind ▸ isSymbol_of_schema hord.1 hs, fun hparent => ?_⟩
      exact hkind.trans (schema_of_class hs hparent)
    · dsimp only [CursorInfo.nextEnclosing] at hg
      split_ifs at hg with hfun
      · obtain rfl := Option.some.inj hg
        exact ⟨husr, hkind.trans (schema_of_function hs hfun)⟩
      · exact hctx.enclosing g hg
  · exact hctx

/-- What a tree tells of its kinds, every visit of the walk through it does. -/
theorem TellsKinds.of_visit {t : Cursor} (h : TellsKinds kind t) {v : Visit}
    (hv : v ∈ visits file_path t) : Visit.Tells kind v :=
  h v.2 (Rose.mem_subtrees_of_mem_visit hv)

/-- **The walk emits edges that conform,** from the first visit to the last. -/
theorem conforms_collected {t : Cursor} (h : TellsKinds kind t) :
    (collected sha1 file_path t).Conforms kind :=
  (Rose.foldl_visit_induct (emit sha1 file_path) (Batch.Conforms kind) (fun ctx _ => ctx.Conforms kind)
    (Visit.Tells kind) (fun _ _ hv hb hctx => conforms_emit sha1 file_path hv hb hctx)
    (fun _ _ _ _ _ _ hk => hk)
    (fun _ _ _ hv _ hctx hd => conforms_ctxBelow file_path hv hctx hd) t ⟨none, none, none⟩
    (fun _ hv => h.of_visit file_path hv) (initialBatch file_path)
    (fun _ he => absurd he List.not_mem_nil)
    ⟨fun _ hp => absurd hp (by simp), fun _ hg => absurd hg (by simp)⟩).1

/-- **The nodes have the labels of their USRs,** those of files, types and parameters included. -/
theorem labelled_collected {t : Cursor} (h : TellsKinds kind t) {n : NodeRecord}
    (hn : n ∈ (collected sha1 file_path t).nodes) : Labelled kind n.usr n.label := by
  cases made_of_mem hn with
  | @file path _ _ => exact .file path
  | type t => exact .type sha1 t.spelled
  | symbol hv hord _ hs =>
    obtain ⟨husr, hkind⟩ := h.of_visit file_path hv hord _ hs
    have hself : Labelled kind _ _ := .symbol husr
    rw [hkind] at hself
    exact hself
  | @param v idx _ _ hv hfun =>
    obtain ⟨hord, -, hs⟩ := schema_of_isFunctionOf file_path hfun
    exact .parameter (h.of_visit file_path hv hord _ hs).1 idx

/-- The node with the USR of a label has that label. -/
theorem label_of_usr {t : Cursor} (h : TellsKinds kind t) {n : NodeRecord}
    (hn : n ∈ (collected sha1 file_path t).nodes) {l : NodeType} (hl : Labelled kind n.usr l) :
    n.label = l :=
  (labelled_collected sha1 file_path h hn).unique hl

/-- **An export conforms to the schema.**  Every edge starts at a node, the only one with its USR, of a
label that the table allows; and it ends at one, unless it is an `INHERITS` or `REFERENCES` edge. -/
theorem export_conforms {t : Cursor} (h : TellsKinds kind t) (hspelled : ArgumentsSpelled t)
    {r : List NodeRecord × List EdgeRecord} (hr : extractNodesAndEdges sha1 file_path t = .ok r) :
    (r.1.map NodeRecord.usr).Nodup ∧ ∀ e ∈ r.2,
      (∃ n ∈ r.1, n.usr = e.source_usr ∧ e.edge_type.leaves n.label = true) ∧
      (e.edge_type.targetsNode = true →
        ∃ n ∈ r.1, n.usr = e.target_usr ∧ e.edge_type.enters n.label = true) := by
  obtain ⟨-, rfl⟩ := (extract_eq_ok_iff sha1 file_path).mp hr
  have hclosed := closed_collected sha1 file_path (L := fun _ => False) (fun _ => id) hspelled.clear
  refine ⟨hclosed.nodup, fun e he => ?_⟩
  have hconf := conforms_collected sha1 file_path h e he
  constructor
  · obtain ⟨l, hl, hleaves⟩ := hconf.source
    obtain ⟨n, hn, husr⟩ := List.mem_map.mp (hclosed.edges e he).source
    exact ⟨n, hn, husr, label_of_usr sha1 file_path h hn (husr ▸ hl) ▸ hleaves⟩
  · intro htarget
    obtain ⟨l, hl, henters⟩ := hconf.target htarget
    obtain ⟨n, hn, husr⟩ := List.mem_map.mp ((hclosed.edges e he).target htarget)
    exact ⟨n, hn, husr, label_of_usr sha1 file_path h hn (husr ▸ hl) ▸ henters⟩

/-- The kinds of the symbols of `memberTree`. -/
def memberKind (usr : String) : NodeType := if usr = "c:@S@S" then .class_ else .function

/-- The example tree has one class and one method, each with a USR of its own, so it tells their
kinds. -/
theorem memberTree_tellsKinds : TellsKinds memberKind memberTree := by
  have husrs : Native "c:@S@S" ∧ Native "c:@S@S@F@m#I#" := by decide
  have hclass : kindToNodeType .structDecl = some (memberKind "c:@S@S") := by decide
  have hfunction : kindToNodeType .cxxMethod = some (memberKind "c:@S@S@F@m#I#") := by decide
  simp [TellsKinds, memberTree, CursorInfo.schema, CursorInfo.safeUsr, classifyNode,
    CursorInfo.kindName, Acc.getD, husrs, hclass, hfunction]

/-- `export_conforms` for `struct S { void m(int x); };` -/
theorem export_conforms_memberTree : ∃ r, extractNodesAndEdges default "/proj/a.h" memberTree = .ok r ∧
    (r.1.map NodeRecord.usr).Nodup ∧ ∀ e ∈ r.2,
      (∃ n ∈ r.1, n.usr = e.source_usr ∧ e.edge_type.leaves n.label = true) ∧
      (e.edge_type.targetsNode = true →
        ∃ n ∈ r.1, n.usr = e.target_usr ∧ e.edge_type.enters n.label = true) := by
  obtain ⟨r, hr⟩ := exists_extract_of_children default "/proj/a.h" (t := memberTree)
    (by simp [memberTree])
  exact ⟨r, hr, export_conforms default "/proj/a.h" memberTree_tellsKinds
    (by simp [ArgumentsSpelled, memberTree]) hr⟩

end Export
end CppMcp
