/-
# The nodes and edges of an export close up

`Batch.Closed` is the invariant of the walk: the File node is first, no two nodes
share a USR, every USR taken has its node, and every edge starts at a node and,
unless it is an `INHERITS` or `REFERENCES` edge, ends at one.

One block breaks the third part: the loop over the arguments takes a parameter's
USR before it reads the parameter's spelling, so where that raises the USR is
taken and its node missing.  The predicate `L` holds these USRs.  They do no harm
as long as nothing else has one of them (`export_closed`).
-/

import CppMcp.Export.Growth
import CppMcp.Export.Links
import Mathlib.Data.List.Nodup

namespace CppMcp
namespace Export

/-- The edge types whose target is a node of the same export. -/
def EdgeType.targetsNode : EdgeType → Bool
  | inherits | references | calls => false
  | defines | declares | includes | memberOf | returns | hasParam | ofType | pointsTo
  | refersTo => true

/-- The edge starts at one of the nodes and, where its type says so, ends at one. -/
structure EdgeRecord.ClosedIn (usrs : List String) (e : EdgeRecord) : Prop where
  source : e.source_usr ∈ usrs
  target : e.edge_type.targetsNode = true → e.target_usr ∈ usrs

/-- An edge that closes up among some nodes does so among more. -/
theorem EdgeRecord.ClosedIn.mono {usrs usrs' : List String} {e : EdgeRecord} (h : usrs ⊆ usrs')
    (he : e.ClosedIn usrs) : e.ClosedIn usrs' :=
  ⟨h he.source, fun ht => h (he.target ht)⟩

namespace Batch

/-- **The invariant of the walk.**  `L` holds the USRs taken without a node. -/
structure Closed (file_path : String) (L : String → Prop) (b : Batch) : Prop where
  head : b.nodes.head? = some (fileNode file_path)
  nodup : b.usrs.Nodup
  seen_of_node : b.usrs ⊆ b.seen_usrs
  node_of_seen : ∀ u ∈ b.seen_usrs, u ∈ b.usrs ∨ L u
  edges : ∀ e ∈ b.edges, e.ClosedIn b.usrs

variable {file_path : String} {L : String → Prop} {b : Batch}

/-- What the walk starts from satisfies the invariant: the File node alone, with its USR taken. -/
theorem closed_initialBatch (L : String → Prop) : (initialBatch file_path).Closed file_path L where
  head := rfl
  nodup := List.nodup_singleton _
  seen_of_node := fun _ => id
  node_of_seen := fun _ => Or.inl
  edges := fun _ he => absurd he List.not_mem_nil

namespace Closed

/-- The USR of the exported file is among those of the nodes, since its node is the first. -/
theorem mem_fileUsr (h : b.Closed file_path L) : fileUsr file_path ∈ b.usrs :=
  List.mem_map_of_mem (List.mem_of_mem_head? h.head)

/-- The invariant is weaker for more USRs that may lack a node. -/
theorem mono {M : String → Prop} (h : b.Closed file_path L) (hL : ∀ u, L u → M u) :
    b.Closed file_path M :=
  { h with node_of_seen := fun u hu => (h.node_of_seen u hu).imp_right (hL u) }

/-- Taking a USR keeps the invariant if that USR is among those that may lack a node. -/
theorem see (h : b.Closed file_path L) (usr : String) :
    (b.see usr).Closed file_path fun u => u = usr ∨ L u where
  head := h.head
  nodup := h.nodup
  seen_of_node := fun _ hu => List.mem_cons_of_mem _ (h.seen_of_node hu)
  node_of_seen := by
    intro u hu
    rcases List.mem_cons.mp hu with rfl | hu
    · exact Or.inr (Or.inl rfl)
    · exact (h.node_of_seen u hu).imp_right Or.inr
  edges := h.edges

/-- The node of a USR that was taken before. -/
theorem addNode {n : NodeRecord} (h : b.Closed file_path fun u => u = n.usr ∨ L u)
    (hn : n.usr ∉ b.usrs) (hs : n.usr ∈ b.seen_usrs) : (b.addNode n).Closed file_path L where
  head := by
    rw [Batch.addNode, List.head?_append, h.head]
    rfl
  nodup := by
    rw [usrs_addNode]
    exact h.nodup.append (List.nodup_singleton _) (List.disjoint_singleton.mpr hn)
  seen_of_node := by
    rw [usrs_addNode]
    refine List.append_subset.mpr ⟨h.seen_of_node, fun u hu => ?_⟩
    obtain rfl := List.mem_singleton.mp hu
    exact hs
  node_of_seen := by
    intro u hu
    rw [usrs_addNode, List.mem_append, List.mem_singleton]
    rcases h.node_of_seen u hu with hu | rfl | hu
    · exact Or.inl (Or.inl hu)
    · exact Or.inl (Or.inr rfl)
    · exact Or.inr hu
  edges := fun e he => (h.edges e he).mono (le_addNode b n).usrs

/-- Taking a new USR and appending its node right away, as most blocks of the walk do. -/
theorem takeNode {n : NodeRecord} (h : b.Closed file_path L) (hn : n.usr ∉ b.seen_usrs) :
    ((b.see n.usr).addNode n).Closed file_path L :=
  (h.see n.usr).addNode (fun hu => hn (h.seen_of_node hu)) List.mem_cons_self

/-- Adding an edge keeps the invariant if it starts at a node and, where its type says so, ends at
one. -/
theorem addEdge (h : b.Closed file_path L) (s t : String) (k : EdgeType) (props : Props)
    (hs : s ∈ b.usrs) (ht : k.targetsNode = true → t ∈ b.usrs) :
    (b.addEdge s t k props).Closed file_path L where
  head := h.head
  nodup := h.nodup
  seen_of_node := h.seen_of_node
  node_of_seen := h.node_of_seen
  edges := by
    intro e he
    rcases List.mem_append.mp he with he | he
    · exact h.edges e he
    · obtain rfl := List.mem_singleton.mp he
      exact ⟨hs, ht⟩

/-- The same for an edge that may have no target, such as one to a type that libclang does not give.
-/
theorem addEdge? (h : b.Closed file_path L) {s : String} {t : Option String} {k : EdgeType}
    (hs : s ∈ b.usrs) (ht : k.targetsNode = true → ∀ u, t = some u → u ∈ b.usrs) :
    (b.addEdge? s t k).Closed file_path L := by
  cases t with
  | none => exact h
  | some t => exact h.addEdge _ _ _ _ hs fun hk => ht hk t rfl

/-- A USR that is taken and not among `L` has its node. -/
theorem mem_usrs_of_seen (h : b.Closed file_path L) {usr : String} (hs : usr ∈ b.seen_usrs)
    (hu : ¬L usr) : usr ∈ b.usrs :=
  (h.node_of_seen usr hs).resolve_right hu

end Closed

end Batch

open Batch

variable (sha1 : Py.Sha1) {file_path : String} {L : String → Prop}

/-! ### Types -/

/-- The USR of a type is never that of a parameter: it has no `#`. -/
theorem typeUsr_ne_paramUsr (spelling usr : String) (idx : ℕ) :
    typeUsr sha1 spelling ≠ paramUsr usr idx := by
  intro h
  have hparam : '#' ∈ (paramUsr usr idx).toList := by simp [paramUsr]
  have htype : '#' ∉ (typeUsr sha1 spelling).toList := by
    rw [typeUsr, String.toList_append, List.mem_append, not_or]
    exact ⟨by decide, fun hx => absurd (sha1.isHex _ _ hx) (by decide)⟩
  exact htype (h ▸ hparam)

/-- One step of the type table keeps the invariant, and the USR that it returns is that of a node by
then. -/
theorem closed_typeStep (hL : ∀ t : TypeInfo, ¬L (t.usr sha1)) {t : CType} {b b' : Batch}
    {usr : Option String} (hstep : TypeStep sha1 t b b' usr) (h : b.Closed file_path L) :
    b'.Closed file_path L ∧ ∀ u, usr = some u → u ∈ b'.usrs := by
  induction hstep with
  | unspelled => exact ⟨h, fun u hu => absurd hu (by simp)⟩
  | taken _ hseen =>
    refine ⟨h, fun u hu => ?_⟩
    obtain rfl := Option.some.inj hu
    exact h.mem_usrs_of_seen hseen (hL _)
  | @new t b _ hseen =>
    refine ⟨h.takeNode (n := ⟨.type, _, _⟩) hseen, fun u hu => ?_⟩
    obtain rfl := Option.some.inj hu
    simp [Batch.takeType]
  | @chain t pointee b b' usr k _ hseen hk hp ih =>
    obtain ⟨h', hu⟩ := ih (h.takeNode (n := ⟨.type, _, _⟩) hseen)
    have hmem : t.usr sha1 ∈ b'.usrs := ((covers_le sha1).typeStep hp).usrs (by simp [Batch.takeType])
    refine ⟨h'.addEdge _ _ _ _ hmem fun _ => hu usr rfl, fun u hu => ?_⟩
    obtain rfl := Option.some.inj hu
    exact hmem

/-- Entering a type keeps the invariant, and the USR that it returns is that of a node, new or old.
-/
theorem closed_getOrCreateTypeOf (hL : ∀ t : TypeInfo, ¬L (t.usr sha1))
    (type : Acc (Option CType)) {b : Batch} (h : b.Closed file_path L) :
    (getOrCreateTypeOf sha1 b type).1.Closed file_path L ∧
      ∀ u, (getOrCreateTypeOf sha1 b type).2 = some u →
        u ∈ (getOrCreateTypeOf sha1 b type).1.usrs := by
  rcases typeStep_getOrCreateTypeOf sha1 type b with h' | ⟨t, -, h'⟩
  · rw [h']
    exact ⟨h, fun u hu => absurd hu (by simp)⟩
  · exact closed_typeStep sha1 hL h' h

/-- Entering a type and linking a symbol to it keeps the invariant if the symbol has its node. -/
theorem closed_linkType (hL : ∀ t : TypeInfo, ¬L (t.usr sha1)) (type : Acc (Option CType))
    {b : Batch} {usr : String} {k : EdgeType} (h : b.Closed file_path L) (hu : usr ∈ b.usrs) :
    (linkType usr k (getOrCreateTypeOf sha1 b type)).Closed file_path L := by
  obtain ⟨h', ht⟩ := closed_getOrCreateTypeOf sha1 hL type h
  exact h'.addEdge? (((covers_le sha1).getOrCreateTypeOf type b).usrs hu) fun _ => ht

/-- A USR that is taken and has no node is not given one by a type. -/
theorem not_mem_usrs_typeStep {t : CType} {b b' : Batch} {usr : Option String}
    (hstep : TypeStep sha1 t b b' usr) {u : String} (hs : u ∈ b.seen_usrs) (hu : u ∉ b.usrs) :
    u ∉ b'.usrs := by
  have take : ∀ {b : Batch} {t : TypeInfo}, u ∈ b.seen_usrs → u ∉ b.usrs →
      t.usr sha1 ∉ b.seen_usrs → u ∉ (b.takeType sha1 t).usrs := by
    intro b t hs hu ht
    rw [Batch.takeType, usrs_addNode, usrs_see, List.mem_append, List.mem_singleton, not_or]
    exact ⟨hu, by rintro rfl; exact ht hs⟩
  induction hstep with
  | unspelled | taken => exact hu
  | new _ hseen => exact take hs hu hseen
  | chain _ hseen _ _ ih => exact ih (List.mem_cons_of_mem _ hs) (take hs hu hseen)

/-- Entering a type does not give a USR its node if that was taken without one:
`_get_or_create_type` goes by the set of USRs seen. -/
theorem not_mem_usrs_getOrCreateTypeOf (type : Acc (Option CType)) {b : Batch} {u : String}
    (hs : u ∈ b.seen_usrs) (hu : u ∉ b.usrs) : u ∉ (getOrCreateTypeOf sha1 b type).1.usrs := by
  rcases typeStep_getOrCreateTypeOf sha1 type b with h' | ⟨t, -, h'⟩
  · rw [h']; exact hu
  · exact not_mem_usrs_typeStep sha1 h' hs hu

/-! ### Parameters -/

/-- The USRs of the arguments, from argument `idx` on, whose spelling raises. -/
def unspelledFrom (usr : String) (idx : ℕ) (params : List Param) : List String :=
  (params.zipIdx idx).filterMap fun p =>
    match p.1.spelling with
    | .error _ => some (paramUsr usr p.2)
    | .ok _ => none

/-- What is recorded for one argument keeps the invariant: its USR has just been taken, and its node
follows. -/
theorem closed_linkParam (hL : ∀ t : TypeInfo, ¬L (t.usr sha1)) {b : Batch} {usr : String}
    {param : Param} {idx : ℕ} {spelling : String} (h : b.Closed file_path L) (hu : usr ∈ b.usrs)
    (hnew : paramUsr usr idx ∉ b.seen_usrs) :
    (linkParam usr param idx spelling
      (getOrCreateTypeOf sha1 (b.see (paramUsr usr idx)) param.type)).Closed file_path L := by
  have hL' : ∀ t : TypeInfo, ¬(t.usr sha1 = paramUsr usr idx ∨ L (t.usr sha1)) := fun t ht =>
    ht.elim (typeUsr_ne_paramUsr sha1 _ _ _) (hL t)
  have hle := (covers_le sha1).getOrCreateTypeOf param.type (b.see (paramUsr usr idx))
  obtain ⟨htype, hret⟩ := closed_getOrCreateTypeOf sha1 hL' param.type (h.see (paramUsr usr idx))
  have hnode := htype.addNode (n := ⟨.parameter, paramUsr usr idx, paramProps param idx spelling⟩)
    (not_mem_usrs_getOrCreateTypeOf sha1 param.type List.mem_cons_self
      fun hm => hnew (h.seen_of_node hm))
    (hle.seen List.mem_cons_self)
  have hedge := hnode.addEdge usr (paramUsr usr idx) .hasParam [("index", .int idx)]
    (by simpa using Or.inl (hle.usrs hu)) fun _ => by simp
  exact hedge.addEdge? (by simp) fun _ u hu => by simpa using Or.inl (hret u hu)

/-- The loop over the arguments keeps the invariant, if the USRs it loses are
among `L`. -/
theorem closed_emitParamsFrom (hL : ∀ t : TypeInfo, ¬L (t.usr sha1)) {usr : String}
    (params : List Param) (idx : ℕ) {b : Batch} (h : b.Closed file_path L) (hu : usr ∈ b.usrs)
    (hlost : ∀ u ∈ unspelledFrom usr idx params, L u) :
    (emitParamsFrom sha1 usr idx params b).Closed file_path L := by
  induction params generalizing idx b with
  | nil => exact h
  | cons param rest ih =>
    have hrest : ∀ u ∈ unspelledFrom usr (idx + 1) rest, L u := by
      intro u hu
      refine hlost u ?_
      rw [unspelledFrom, List.zipIdx_cons, List.filterMap_cons]
      split
      · exact hu
      · exact List.mem_cons_of_mem _ hu
    rw [emitParamsFrom]
    split_ifs with hseen
    · exact ih _ h hu hrest
    · cases hsp : param.spelling with
      | error e =>
        have hl : L (paramUsr usr idx) := hlost _ (by simp [unspelledFrom, hsp])
        have hsee := (h.see (paramUsr usr idx)).mono (M := L) fun u hu => hu.elim (· ▸ hl) id
        exact (closed_getOrCreateTypeOf sha1 hL param.type hsee).1
      | ok spelling =>
        have hle := (le_see b (paramUsr usr idx)).trans <|
          ((covers_le sha1).getOrCreateTypeOf param.type _).trans ((covers_le sha1).linkParam usr param idx spelling _)
        exact ih _ (closed_linkParam sha1 hL h hu hseen) (hle.usrs hu) hrest

/-! ### Symbols -/

/-- An inclusion directive keeps the invariant, if the USR of the included file is none of those
that lack a node. -/
theorem closed_emitInclusion {c : CursorInfo} {b : Batch} (h : b.Closed file_path L)
    (hc : ∀ inc_path, c.get_included_file = .ok (some (.ok inc_path)) → ¬L (fileUsr inc_path)) :
    (emitInclusion (fileUsr file_path) c b).Closed file_path L := by
  unfold emitInclusion
  split
  · rename_i inc_path hinc
    split_ifs with hseen
    · exact h.addEdge _ _ _ _ h.mem_fileUsr fun _ => h.mem_usrs_of_seen hseen (hc _ hinc)
    · have h' := h.takeNode (n := ⟨.file, fileUsr inc_path, [("path", .str inc_path),
        ("spelling", .str inc_path), ("schema_version", .str SCHEMA_VERSION)]⟩) hseen
      exact h'.addEdge _ _ _ _ h'.mem_fileUsr fun _ => by simp
  · exact h

/-- Writing a symbol keeps the invariant if its USR is none of those that lack a node, and after it
the symbol has its node. -/
theorem closed_emitSymbol (hL : ∀ t : TypeInfo, ¬L (t.usr sha1)) {c : CursorInfo}
    (children : List Cursor) (node_type : NodeType) {b : Batch} (h : b.Closed file_path L)
    (hc : ¬L c.safeUsr) :
    (emitSymbol sha1 c children node_type b).Closed file_path L ∧
      c.safeUsr ∈ (emitSymbol sha1 c children node_type b).usrs := by
  unfold emitSymbol
  by_cases hseen : c.safeUsr ∈ b.seen_usrs
  · rw [if_pos hseen]
    exact ⟨h, h.mem_usrs_of_seen hseen hc⟩
  · have htake : (b.takeSymbol c children node_type).Closed file_path L :=
      h.takeNode (n := ⟨node_type, c.safeUsr, symbolProps c children node_type⟩) hseen
    have hmem : c.safeUsr ∈ (b.takeSymbol c children node_type).usrs := by
      simp [Batch.takeSymbol]
    rw [if_neg hseen]
    split_ifs
    · exact ⟨closed_linkType sha1 hL c.type htake hmem, ((covers_le sha1).linkType _ _ _ _).usrs hmem⟩
    · exact ⟨htake, hmem⟩

/-- The edge to the parent keeps the invariant: the symbol has its node, and so has the parent. -/
theorem closed_emitParentEdge {ctx : Ctx} {c : CursorInfo} {b : Batch} (h : b.Closed file_path L)
    (hc : c.safeUsr ∈ b.usrs) (hp : ∀ p, ctx.parent_usr = some p → p ∈ b.usrs) :
    (emitParentEdge (fileUsr file_path) ctx.parent_usr ctx.parent_kind c b).Closed file_path L := by
  unfold emitParentEdge
  split
  · rename_i p hpar
    split_ifs
    · exact h.addEdge _ _ _ _ hc fun _ => hp p hpar
    · exact h.addEdge _ _ _ _ (hp p hpar) fun _ => hc
  · exact h.addEdge _ _ _ _ h.mem_fileUsr fun _ => hc

/-- The edges to the bases keep the invariant, since an `INHERITS` edge may end anywhere. -/
theorem closed_emitInherits {c : CursorInfo} (children : List Cursor) {b : Batch}
    (h : b.Closed file_path L) (hc : c.safeUsr ∈ b.usrs) :
    (emitInherits c children b).Closed file_path L := by
  have fold : ∀ (us : List String) {b : Batch}, b.Closed file_path L → c.safeUsr ∈ b.usrs →
      (us.foldl (fun b base_usr => b.addEdge c.safeUsr base_usr .inherits) b).Closed
        file_path L := by
    intro us
    induction us with
    | nil => exact fun h _ => h
    | cons u us ih =>
      exact fun h hc => ih (h.addEdge _ _ _ _ hc fun hk => absurd hk (by decide)) (by simpa using hc)
  unfold emitInherits
  split_ifs
  · exact fold _ h hc
  · exact h

/-- The `RETURNS` edge keeps the invariant: the function has its node, and the type that it returns
is given one. -/
theorem closed_emitReturns (hL : ∀ t : TypeInfo, ¬L (t.usr sha1)) {c : CursorInfo} {b : Batch}
    (h : b.Closed file_path L) (hc : c.safeUsr ∈ b.usrs) :
    (emitReturns sha1 c b).Closed file_path L := by
  unfold emitReturns
  split_ifs
  · exact closed_linkType sha1 hL c.result_type h hc
  · exact h

/-! ### The walk -/

/-- The USRs of the context are those of nodes. -/
def Ctx.Among (ctx : Ctx) (b : Batch) : Prop :=
  (∀ p, ctx.parent_usr = some p → p ∈ b.usrs) ∧
    ∀ g, ctx.enclosing_func_usr = some g → g ∈ b.usrs

/-- A context of nodes stays one while the batch grows. -/
theorem Ctx.Among.mono {ctx : Ctx} {b b' : Batch} (h : ctx.Among b) (hle : b.le b') :
    ctx.Among b' :=
  ⟨fun p hp => hle.usrs (h.1 p hp), fun g hg => hle.usrs (h.2 g hg)⟩

/-- `L` is not hit by the cursor, and holds what the cursor loses. -/
structure CursorInfo.Clear (L : String → Prop) (c : CursorInfo) : Prop where
  usr : ¬L c.safeUsr
  included : ∀ inc_path, c.get_included_file = .ok (some (.ok inc_path)) → ¬L (fileUsr inc_path)
  lost : kindIn c.kindName functionCursorKinds = true →
    ∀ u ∈ unspelledFrom c.safeUsr 0 c.get_arguments, L u

/-- All that is recorded for a schema cursor keeps the invariant, and after it the cursor has its
node. -/
theorem closed_emitSchema (hL : ∀ t : TypeInfo, ¬L (t.usr sha1)) {ctx : Ctx} {c : CursorInfo}
    {node_type : NodeType} (hs : c.schema = some node_type) (children : List Cursor) {b : Batch}
    (h : b.Closed file_path L) (hg : ctx.Among b) (hc : c.Clear L) :
    (emitSchema sha1 (fileUsr file_path) ctx node_type c children b).Closed file_path L ∧
      c.safeUsr ∈ (emitSchema sha1 (fileUsr file_path) ctx node_type c children b).usrs := by
  unfold emitSchema
  rw [emitCalls_eq_self hs]
  obtain ⟨h₁, hu₁⟩ := closed_emitSymbol sha1 hL children node_type h hc.usr
  have hg₁ := hg.mono (le_emitSymbol sha1 c children node_type b)
  have h₂ := closed_emitParentEdge h₁ hu₁ hg₁.1
  have hu₂ := ((covers_le sha1).emitParentEdge file_path ctx c _).usrs hu₁
  have h₃ := closed_emitInherits children h₂ hu₂
  have hu₃ := ((covers_le sha1).emitInherits c children _).usrs hu₂
  have h₄ := closed_emitReturns sha1 hL h₃ hu₃
  have hu₄ := ((covers_le sha1).emitReturns c _).usrs hu₃
  refine ⟨?_, ((covers_le sha1).emitParams c _).usrs hu₄⟩
  unfold emitParams
  split_ifs with hk
  · exact closed_emitParamsFrom sha1 hL _ _ h₄ hu₄ (hc.lost hk)
  · exact h₄

/-- **A visit keeps the invariant,** if the cursor is clear of the USRs that lack a node and its
context is one of nodes. -/
theorem closed_emit (hL : ∀ t : TypeInfo, ¬L (t.usr sha1)) {b : Batch} {v : Visit}
    (hc : v.2.label.Clear L) (h : b.Closed file_path L) (hg : v.1.Among b) :
    (emit sha1 file_path b v).Closed file_path L := by
  obtain ⟨ctx, t⟩ := v
  rcases branch_cases sha1 file_path ctx t with
    ⟨-, -, hemit⟩ | ⟨-, -, hemit⟩ | ⟨-, -, hemit⟩ | ⟨-, -, -, hemit⟩ |
    ⟨-, -, node_type, hs, -, hemit⟩ | ⟨-, -, -, -, hemit⟩ <;>
  rw [hemit b]
  · exact h
  · exact closed_emitInclusion h hc.included
  · refine h.addEdge? ?_ fun hk => absurd hk (by decide)
    cases henc : ctx.enclosing_func_usr with
    | none => exact h.mem_fileUsr
    | some g => exact hg.2 g henc
  · exact h
  · exact (closed_emitSchema sha1 hL hs _ h hg hc).1
  · exact h

/-- **A visit justifies the context it hands down:** the parent and the enclosing function have
their nodes by then. -/
theorem among_emit (hL : ∀ t : TypeInfo, ¬L (t.usr sha1)) {b : Batch} {v : Visit} {ctx' : Ctx}
    (hc : v.2.label.Clear L) (h : b.Closed file_path L) (hg : v.1.Among b)
    (hctx : ctxBelow file_path v.1 v.2.label = some ctx') :
    ctx'.Among (emit sha1 file_path b v) := by
  have hg' := hg.mono ((covers_le sha1).emit file_path b v)
  obtain ⟨ctx, t⟩ := v
  rcases branch_cases sha1 file_path ctx t with
    ⟨-, hc', -⟩ | ⟨-, hc', -⟩ | ⟨-, hc', -⟩ | ⟨-, -, hc', -⟩ | ⟨-, -, node_type, hs, hc', hemit⟩ |
    ⟨-, -, -, hc', -⟩ <;>
  rw [hc'] at hctx
  · exact absurd hctx (by simp)
  · exact absurd hctx (by simp)
  · obtain rfl := Option.some.inj hctx
    exact hg'
  · obtain rfl := Option.some.inj hctx
    exact ⟨fun p hp => absurd hp (by simp), hg'.2⟩
  · obtain rfl := Option.some.inj hctx
    have hu := (closed_emitSchema sha1 hL hs t.children h hg hc).2
    rw [← hemit] at hu
    refine ⟨fun p hp => ?_, fun g hg => ?_⟩
    · obtain rfl := Option.some.inj hp
      exact hu
    · dsimp only [CursorInfo.nextEnclosing] at hg
      split_ifs at hg
      · obtain rfl := Option.some.inj hg
        exact hu
      · exact hg'.2 g hg
  · obtain rfl := Option.some.inj hctx
    exact hg'

/-- **The walk keeps the invariant,** if all cursors of the tree are clear of the USRs that lack a
node. -/
theorem closed_collected (file_path : String) (hL : ∀ t : TypeInfo, ¬L (t.usr sha1)) {t : Cursor}
    (hc : ∀ s ∈ t.subtrees, s.label.Clear L) :
    (collected sha1 file_path t).Closed file_path L :=
  (Rose.foldl_visit_induct (emit sha1 file_path) (Closed file_path L) Ctx.Among
    (fun v => v.2.label.Clear L)
    (fun _ _ hv h hg => closed_emit sha1 hL hv h hg)
    (fun b v _ _ _ _ hk => hk.mono ((covers_le sha1).emit file_path b v))
    (fun _ _ _ hv h hg hd => among_emit sha1 hL hv h hg hd) t ⟨none, none, none⟩
    (fun v hv => hc v.2 (Rose.mem_subtrees_of_mem_visit hv)) (initialBatch file_path)
    (closed_initialBatch L)
    ⟨fun _ h => absurd h (by simp), fun _ h => absurd h (by simp)⟩).1

/-- Every argument's spelling can be read. -/
def ArgumentsSpelled (t : Cursor) : Prop :=
  ∀ s ∈ t.subtrees, ∀ p ∈ s.label.get_arguments, ∃ spelling, p.spelling = .ok spelling

/-- If all spellings can be read, no USR is taken without a node, and every cursor is clear. -/
theorem ArgumentsSpelled.clear {t : Cursor} (h : ArgumentsSpelled t) :
    ∀ s ∈ t.subtrees, s.label.Clear fun _ => False := fun s hs =>
  { usr := id
    included := fun _ _ => id
    lost := by
      intro _ u hu
      obtain ⟨⟨param, idx⟩, hparam, hidx⟩ := List.mem_filterMap.mp hu
      obtain ⟨spelling, hsp⟩ := h s hs param (List.fst_mem_of_mem_zipIdx hparam)
      simp [hsp] at hidx }

/-! ### The export -/

/-- **The nodes and edges of an export close up.** -/
structure StructurallyClosed (file_path : String) (nodes : List NodeRecord)
    (edges : List EdgeRecord) : Prop where
  first : nodes.head? = some (fileNode file_path)
  distinct : (nodes.map NodeRecord.usr).Nodup
  ends : ∀ e ∈ edges, e.edge_type.targetsNode = true →
    e.source_usr ∈ nodes.map NodeRecord.usr ∧ e.target_usr ∈ nodes.map NodeRecord.usr
  sources : ∀ e ∈ edges, e.edge_type = .inherits ∨ e.edge_type = .references →
    e.source_usr ∈ nodes.map NodeRecord.usr

/-- The USR of a parameter whose spelling raises, of a function in the tree. -/
def LostUsr (t : Cursor) (usr : String) : Prop :=
  ∃ f ∈ t.subtrees, kindIn f.label.kindName functionCursorKinds = true ∧
    usr ∈ unspelledFrom f.label.safeUsr 0 f.label.get_arguments

/-- No cursor and no included file has the USR of a parameter whose spelling
raises. -/
def NoClash (t : Cursor) : Prop :=
  ∀ usr, LostUsr t usr → ∀ s ∈ t.subtrees, s.label.safeUsr ≠ usr ∧
    ∀ inc_path, s.label.get_included_file = .ok (some (.ok inc_path)) → fileUsr inc_path ≠ usr

/-- A type cannot have the USR of a parameter that is lost, since that has a `#` and the USR of a
type has none. -/
theorem not_lostUsr_typeUsr (t : Cursor) (type : TypeInfo) : ¬LostUsr t (type.usr sha1) := by
  rintro ⟨f, -, -, hu⟩
  obtain ⟨⟨param, idx⟩, -, hidx⟩ := List.mem_filterMap.mp hu
  dsimp only at hidx
  split at hidx
  · exact typeUsr_ne_paramUsr sha1 _ _ _ (Option.some.inj hidx).symm
  · exact absurd hidx (by simp)

/-- Where nothing clashes, every cursor is clear of the USRs that are lost in its tree. -/
theorem NoClash.clear {t : Cursor} (h : NoClash t) :
    ∀ s ∈ t.subtrees, s.label.Clear (LostUsr t) := fun s hs =>
  { usr := fun hl => (h _ hl s hs).1 rfl
    included := fun inc_path hinc hl => (h _ hl s hs).2 inc_path hinc rfl
    lost := fun hk _ hu => ⟨s, hs, hk, hu⟩ }

/-- **An export closes up,** unless the USR of a parameter whose spelling raises is
also that of a cursor or an included file. -/
theorem export_closed {t : Cursor} {r : List NodeRecord × List EdgeRecord}
    (h : extractNodesAndEdges sha1 file_path t = .ok r) (hclash : NoClash t) :
    StructurallyClosed file_path r.1 r.2 := by
  obtain ⟨-, rfl⟩ := (extract_eq_ok_iff sha1 file_path).mp h
  have hclosed := closed_collected sha1 file_path (not_lostUsr_typeUsr sha1 t)
    hclash.clear
  exact
    { first := hclosed.head
      distinct := hclosed.nodup
      ends := fun e he ht => ⟨(hclosed.edges e he).source, (hclosed.edges e he).target ht⟩
      sources := fun e he _ => (hclosed.edges e he).source }

/-- A function whose argument has a spelling that raises, and a variable. -/
def unspelledTree (variable_usr : String) : Cursor :=
  .node { kind := .ok (.other 350) } [
    .node { kind := .ok .functionDecl, get_usr := .ok "c:@F@f#I#", spelling := .ok "f",
            location := .ok { file := "/proj/a.cpp", line := 1, column := 6 },
            get_arguments := [{ spelling := .error ⟨"UnicodeDecodeError", "invalid start byte"⟩ }] }
      [],
    .node { kind := .ok .varDecl, get_usr := .ok variable_usr, spelling := .ok "v",
            location := .ok { file := "/proj/a.cpp", line := 2, column := 5 } } []]

/-- In the tree of the example no cursor raises on `get_children()`, so its export returns a result.
-/
theorem unspelledTree_children (variable_usr : String) :
    ∀ s ∈ (unspelledTree variable_usr).subtrees, s.label.children_raise = none := by
  simp [unspelledTree]

/-- **A variable with the parameter's USR gets an edge and no node.** The loop over the arguments
has taken the USR and then given up at the spelling, so the variable counts as seen. -/
theorem unspelledTree_not_closed :
    ∃ r, extractNodesAndEdges default "/proj/a.cpp" (unspelledTree "c:@F@f#I##param:0") = .ok r ∧
      ¬StructurallyClosed "/proj/a.cpp" r.1 r.2 := by
  obtain ⟨r, hr⟩ := exists_extract_of_children default "/proj/a.cpp"
    (unspelledTree_children "c:@F@f#I##param:0")
  refine ⟨r, hr, fun hclosed => ?_⟩
  obtain ⟨-, rfl⟩ := (extract_eq_ok_iff default "/proj/a.cpp").mp hr
  have husrs : (collected default "/proj/a.cpp" (unspelledTree "c:@F@f#I##param:0")).usrs =
      ["file:///proj/a.cpp", "c:@F@f#I#"] := by rfl
  have hedges : (collected default "/proj/a.cpp" (unspelledTree "c:@F@f#I##param:0")).edges =
      [⟨"file:///proj/a.cpp", "c:@F@f#I#", .declares, []⟩,
        ⟨"file:///proj/a.cpp", "c:@F@f#I##param:0", .declares, []⟩] := by rfl
  have hmem := (hclosed.ends ⟨"file:///proj/a.cpp", "c:@F@f#I##param:0", .declares, []⟩
    (by rw [hedges]; simp) rfl).2
  change _ ∈ Batch.usrs _ at hmem
  rw [husrs] at hmem
  exact absurd hmem (by decide)

/-- `export_closed` at a tree where a spelling raises, and the variable next to it has another USR.
-/
theorem export_closed_unspelledTree :
    ∃ r, extractNodesAndEdges default "/proj/a.cpp" (unspelledTree "c:@v") = .ok r ∧
      StructurallyClosed "/proj/a.cpp" r.1 r.2 := by
  obtain ⟨r, hr⟩ := exists_extract_of_children default "/proj/a.cpp" (unspelledTree_children "c:@v")
  refine ⟨r, hr, export_closed default hr ?_⟩
  have hlost : ∀ usr, LostUsr (unspelledTree "c:@v") usr → usr = "c:@F@f#I##param:0" := by
    intro usr husr
    have heq : "c:@F@f#I##param:" ++ Nat.repr 0 = usr := by
      simpa [LostUsr, unspelledTree, CursorInfo.kindName, kindIn, functionCursorKinds,
        unspelledFrom, CursorInfo.safeUsr, Acc.getD, paramUsr] using husr
    rw [← heq]
    decide
  intro usr husr
  rw [hlost usr husr]
  simp [unspelledTree, CursorInfo.safeUsr, Acc.getD]

end Export
end CppMcp
