/-
# Every exported node is reachable from its file

A node is linked to what it belongs to: `Linked` follows an edge from the
container to the contained, which is against its direction for `MEMBER_OF`.
`NewFrom u b b'` says that all the nodes by which `b'` extends `b` can be reached
from `u`.  A symbol's block extends the batch from the symbol, its parent's edge
leads to the symbol, and the parent was reachable before; so every visit extends
the batch from the file (`newFrom_emit`), and nothing is left over
(`export_reachable`).
-/

import CppMcp.Export.Closure
import Mathlib.Logic.Relation

namespace CppMcp
namespace Export

/-- The edge leads from `u` to `v`: forwards, or backwards for `MEMBER_OF`. -/
def EdgeRecord.Leads (e : EdgeRecord) (u v : String) : Prop :=
  match e.edge_type with
  | .defines | .declares | .includes | .hasParam | .returns | .ofType | .pointsTo | .refersTo =>
    e.source_usr = u ∧ e.target_usr = v
  | .memberOf => e.target_usr = u ∧ e.source_usr = v
  | .inherits | .references | .calls => False

/-- One of the edges leads from `u` to `v`. -/
def Linked (edges : List EdgeRecord) (u v : String) : Prop := ∃ e ∈ edges, e.Leads u v

/-- The edges lead from `u` to `v`, in any number of steps. -/
abbrev Reach (edges : List EdgeRecord) : String → String → Prop :=
  Relation.ReflTransGen (Linked edges)

/-- What can be reached stays reachable when edges are added. -/
theorem Reach.mono {edges edges' : List EdgeRecord} (h : edges ⊆ edges') {u v : String}
    (hr : Reach edges u v) : Reach edges' u v :=
  hr.lift id fun _ _ ⟨e, he, hl⟩ => ⟨e, h he, hl⟩

/-- `b'` extends `b` by nodes that can be reached from `u`. -/
structure NewFrom (u : String) (b b' : Batch) : Prop where
  le : b.le b'
  reach : ∀ v ∈ b'.usrs, v ∈ b.usrs ∨ Reach b'.edges u v

namespace NewFrom

variable {u : String} {b b' b'' : Batch}

/-- Nothing new has to be reached where nothing is added. -/
theorem refl (u : String) (b : Batch) : NewFrom u b b :=
  ⟨Batch.le_refl b, fun _ => Or.inl⟩

/-- What two steps bring is reachable from where both of them start. -/
theorem trans (h : NewFrom u b b') (h' : NewFrom u b' b'') : NewFrom u b b'' where
  le := h.le.trans h'.le
  reach := by
    intro v hv
    rcases h'.reach v hv with hv | hv
    · exact (h.reach v hv).imp_right (Reach.mono h'.le.edges.subset)
    · exact Or.inr hv

/-- What is reachable from `u` is reachable from where `u` is. -/
theorem of_reach {p : String} (h : NewFrom u b b') (hp : Reach b'.edges p u) : NewFrom p b b' :=
  ⟨h.le, fun v hv => (h.reach v hv).imp_right hp.trans⟩

/-- An extension without a new node has nothing that would have to be reached. -/
theorem of_usrs (h : b.le b') (hu : b'.usrs = b.usrs) : NewFrom u b b' :=
  ⟨h, fun _ hv => Or.inl (hu ▸ hv)⟩

/-- An edge may be added to such an extension. -/
theorem addEdge (h : NewFrom u b b') (s t : String) (k : EdgeType) (props : Props) :
    NewFrom u b (b'.addEdge s t k props) :=
  h.trans (of_usrs (Batch.le_addEdge b' s t k props) rfl)

/-- A new node is reachable from itself, so adding it is an extension from it. -/
theorem addNode (b : Batch) (n : NodeRecord) : NewFrom n.usr b (b.addNode n) where
  le := Batch.le_addNode b n
  reach := by
    intro v hv
    rw [Batch.usrs_addNode, List.mem_append, List.mem_singleton] at hv
    rcases hv with hv | rfl
    · exact Or.inl hv
    · exact Or.inr .refl

/-- Taking a USR brings no node. -/
theorem see (b : Batch) (usr : String) : NewFrom u b (b.see usr) :=
  of_usrs (Batch.le_see b usr) rfl

end NewFrom

/-- A new edge is a step where it leads. -/
theorem reach_addEdge {b : Batch} {s t : String} {k : EdgeType} (props : Props) {u v : String}
    (h : (⟨s, t, k, props⟩ : EdgeRecord).Leads u v) : Reach (b.addEdge s t k props).edges u v :=
  .single ⟨⟨s, t, k, props⟩, List.mem_append_right _ (List.mem_singleton.mpr rfl), h⟩

variable (sha1 : Py.Sha1) {file_path : String}

/-! ### Types and parameters -/

/-- The node of a type is reachable from itself. -/
theorem newFrom_takeType (b : Batch) (t : TypeInfo) :
    NewFrom (t.usr sha1) b (b.takeType sha1 t) :=
  (NewFrom.see b _).trans (NewFrom.addNode _ ⟨.type, t.usr sha1, typeProps t⟩)

/-- The nodes of a type are reachable from the one that is returned. -/
theorem newFrom_typeStep {t : CType} {b b' : Batch} {usr : Option String}
    (h : TypeStep sha1 t b b' usr) (u : String) (hu : ∀ v, usr = some v → v = u) :
    NewFrom u b b' := by
  induction h generalizing u with
  | unspelled | taken => exact NewFrom.refl u _
  | new =>
    obtain rfl := hu _ rfl
    exact newFrom_takeType sha1 _ _
  | @chain t pointee b b' usr k _ _ hk _ ih =>
    obtain rfl := hu _ rfl
    have hpointee := (ih usr fun v hv => (Option.some.inj hv).symm).addEdge (t.usr sha1) usr k []
    refine (newFrom_takeType sha1 b t).trans (hpointee.of_reach (reach_addEdge _ ?_))
    rcases chainEdge_cases hk with rfl | rfl <;> exact ⟨rfl, rfl⟩

/-- A type linked to a node extends the batch from that node. -/
theorem newFrom_linkType (type : Acc (Option CType)) (b : Batch) (usr : String) {k : EdgeType}
    (hk : k = .ofType ∨ k = .returns) :
    NewFrom usr b (linkType usr k (getOrCreateTypeOf sha1 b type)) := by
  unfold linkType
  rcases typeStep_getOrCreateTypeOf sha1 type b with h | ⟨t, -, h⟩
  · rw [h]
    exact NewFrom.refl usr b
  · cases hret : (getOrCreateTypeOf sha1 b type).2 with
    | none => exact newFrom_typeStep sha1 h usr fun v hv => by rw [hret] at hv; cases hv
    | some ret =>
      have hnew := newFrom_typeStep sha1 h ret fun v hv => by
        rw [hret] at hv
        exact (Option.some.inj hv).symm
      refine (hnew.addEdge usr ret k []).of_reach (reach_addEdge _ ?_)
      rcases hk with rfl | rfl <;> exact ⟨rfl, rfl⟩

/-- A parameter keeps the `OF_TYPE` edge it would have on its own. -/
theorem edges_linkType_subset_linkParam (usr : String) (param : Param) (idx : ℕ)
    (spelling : String) (r : Batch × Option String) :
    (linkType (paramUsr usr idx) .ofType r).edges ⊆ (linkParam usr param idx spelling r).edges := by
  obtain ⟨b, _ | ret⟩ := r <;> intro e he
  · exact List.mem_append_left _ he
  · rcases List.mem_append.mp he with he | he
    · exact List.mem_append_left _ (List.mem_append_left _ he)
    · exact List.mem_append_right _ he

/-- A parameter extends the batch from its function: the `HAS_PARAM` edge leads to it, and its type
is reachable from it. -/
theorem newFrom_linkParam (b : Batch) (usr : String) (param : Param) (idx : ℕ)
    (spelling : String) :
    NewFrom usr b (linkParam usr param idx spelling
      (getOrCreateTypeOf sha1 (b.see (paramUsr usr idx)) param.type)) := by
  have htype := newFrom_linkType sha1 param.type (b.see (paramUsr usr idx)) (paramUsr usr idx)
    (Or.inl rfl)
  have hle := (covers_le sha1).getOrCreateTypeOf param.type (b.see (paramUsr usr idx))
  generalize getOrCreateTypeOf sha1 (b.see (paramUsr usr idx)) param.type = r at htype hle ⊢
  have hlink : Reach (linkParam usr param idx spelling r).edges usr (paramUsr usr idx) := by
    refine (reach_addEdge (b := r.1.addNode ⟨.parameter, paramUsr usr idx,
      paramProps param idx spelling⟩) (k := .hasParam) [("index", .int idx)] ⟨rfl, rfl⟩).mono ?_
    exact (Batch.le_addEdge? _ _ _ _).edges.subset
  refine NewFrom.of_reach ⟨?_, fun v hv => ?_⟩ hlink
  · exact (Batch.le_see b _).trans (hle.trans ((covers_le sha1).linkParam usr param idx spelling r))
  · simp only [linkParam, Batch.usrs_addEdge?, Batch.usrs_addEdge, Batch.usrs_addNode,
      List.mem_append, List.mem_singleton] at hv
    rcases hv with hv | rfl
    · exact (htype.reach v (by simpa [linkType] using hv)).imp_right
        (Reach.mono (edges_linkType_subset_linkParam usr param idx spelling r))
    · exact Or.inr .refl

/-- The loop over the parameters extends the batch from their function, if each of them has a
spelling. -/
theorem newFrom_emitParamsFrom (usr : String) (params : List Param) (idx : ℕ) (b : Batch)
    (h : ∀ p ∈ params, ∃ spelling, p.spelling = .ok spelling) :
    NewFrom usr b (emitParamsFrom sha1 usr idx params b) := by
  induction params generalizing idx b with
  | nil => exact NewFrom.refl usr b
  | cons param rest ih =>
    have hrest := fun p hp => h p (List.mem_cons_of_mem _ hp)
    obtain ⟨spelling, hsp⟩ := h param List.mem_cons_self
    rw [emitParamsFrom, hsp]
    split_ifs
    · exact ih _ _ hrest
    · exact (newFrom_linkParam sha1 b usr param idx spelling).trans (ih _ _ hrest)

/-! ### Visits -/

/-- The node of a symbol, and of its type, is reachable from the symbol. -/
theorem newFrom_emitSymbol (c : CursorInfo) (children : List Cursor) (node_type : NodeType)
    (b : Batch) : NewFrom c.safeUsr b (emitSymbol sha1 c children node_type b) := by
  have htake : NewFrom c.safeUsr b (b.takeSymbol c children node_type) :=
    (NewFrom.see b _).trans
      (NewFrom.addNode _ ⟨node_type, c.safeUsr, symbolProps c children node_type⟩)
  unfold emitSymbol
  split_ifs
  · exact NewFrom.refl _ b
  · exact htake.trans (newFrom_linkType sha1 c.type _ _ (Or.inl rfl))
  · exact htake

/-- The parent's edge leads from the parent, or the file, to the symbol. -/
theorem reach_emitParentEdge (file_path : String) (ctx : Ctx) (c : CursorInfo) (b : Batch) :
    Reach (emitParentEdge (fileUsr file_path) ctx.parent_usr ctx.parent_kind c b).edges
      (ctx.parent_usr.getD (fileUsr file_path)) c.safeUsr := by
  have hmem : parentEdge file_path ctx c ∈
      (emitParentEdge (fileUsr file_path) ctx.parent_usr ctx.parent_kind c b).edges := by
    rw [edges_emitParentEdge]
    exact List.mem_append_right _ (List.mem_singleton.mpr rfl)
  refine .single ⟨_, hmem, ?_⟩
  rcases parentEdge_cases file_path ctx c with ⟨p, hp, h⟩ | ⟨k, rfl | rfl, h⟩ <;> rw [h]
  · rw [hp]
    exact ⟨rfl, rfl⟩
  · exact ⟨rfl, rfl⟩
  · exact ⟨rfl, rfl⟩

/-- The edge from a parent brings no node. -/
theorem nodes_emitParentEdge (ctx : Ctx) (c : CursorInfo) (b : Batch) :
    (emitParentEdge (fileUsr file_path) ctx.parent_usr ctx.parent_kind c b).nodes = b.nodes := by
  unfold emitParentEdge
  split
  · split_ifs <;> rfl
  · rfl

/-- The edges to base classes bring no node. -/
theorem nodes_emitInherits (c : CursorInfo) (children : List Cursor) (b : Batch) :
    (emitInherits c children b).nodes = b.nodes := by
  have fold : ∀ (us : List String) (b : Batch),
      (us.foldl (fun b base_usr => b.addEdge c.safeUsr base_usr .inherits) b).nodes = b.nodes := by
    intro us
    induction us with
    | nil => exact fun _ => rfl
    | cons u us ih => exact fun b => ih _
  unfold emitInherits
  split_ifs
  · exact fold _ b
  · rfl

/-- A symbol's block extends the batch from the symbol's parent. -/
theorem newFrom_emitSchema (file_path : String) {c : CursorInfo} {node_type : NodeType}
    (hs : c.schema = some node_type) (ctx : Ctx) (children : List Cursor) (b : Batch)
    (h : ∀ p ∈ c.get_arguments, ∃ spelling, p.spelling = .ok spelling) :
    NewFrom (ctx.parent_usr.getD (fileUsr file_path)) b
      (emitSchema sha1 (fileUsr file_path) ctx node_type c children b) := by
  have hreturns : ∀ b, NewFrom c.safeUsr b (emitReturns sha1 c b) := by
    intro b
    unfold emitReturns
    split_ifs
    · exact newFrom_linkType sha1 c.result_type b _ (Or.inr rfl)
    · exact NewFrom.refl _ b
  have hparams : ∀ b, NewFrom c.safeUsr b (emitParams sha1 c b) := by
    intro b
    unfold emitParams
    split_ifs
    · exact newFrom_emitParamsFrom sha1 _ _ _ b h
    · exact NewFrom.refl _ b
  unfold emitSchema
  rw [emitCalls_eq_self hs]
  have hparent := reach_emitParentEdge file_path ctx c
    (emitSymbol sha1 c children node_type b)
  have hrest := ((NewFrom.of_usrs ((covers_le sha1).emitInherits c children (emitParentEdge (fileUsr file_path)
    ctx.parent_usr ctx.parent_kind c (emitSymbol sha1 c children node_type b)))
    (congrArg (List.map NodeRecord.usr) (nodes_emitInherits ..))).trans (hreturns _)).trans (hparams _)
  refine NewFrom.of_reach ?_ (hparent.mono hrest.le.edges.subset)
  exact ((newFrom_emitSymbol sha1 c children node_type b).trans
    (NewFrom.of_usrs ((covers_le sha1).emitParentEdge file_path ctx c _)
      (congrArg (List.map NodeRecord.usr) (nodes_emitParentEdge ..)))).trans hrest

/-- An inclusion extends the batch from the file. -/
theorem newFrom_emitInclusion (c : CursorInfo) (b : Batch) :
    NewFrom (fileUsr file_path) b (emitInclusion (fileUsr file_path) c b) := by
  unfold emitInclusion
  split
  · rename_i inc_path _
    split_ifs
    · exact (NewFrom.refl _ b).addEdge _ _ _ _
    · have hnode := (NewFrom.see b (fileUsr inc_path)).trans <| NewFrom.addNode _ ⟨.file,
        fileUsr inc_path, [("path", .str inc_path), ("spelling", .str inc_path),
          ("schema_version", .str SCHEMA_VERSION)]⟩
      exact (hnode.addEdge (fileUsr file_path) (fileUsr inc_path) .includes []).of_reach
        (reach_addEdge _ ⟨rfl, rfl⟩)
  · exact NewFrom.refl _ b

/-- **A visit extends the batch from the file,** if everything in the batch is
reachable from there. -/
theorem newFrom_emit {b : Batch} {v : Visit}
    (h : ∀ p ∈ v.2.label.get_arguments, ∃ spelling, p.spelling = .ok spelling)
    (hb : ∀ u ∈ b.usrs, Reach b.edges (fileUsr file_path) u) (hg : v.1.Among b) :
    NewFrom (fileUsr file_path) b (emit sha1 file_path b v) := by
  obtain ⟨ctx, t⟩ := v
  rcases branch_cases sha1 file_path ctx t with
    ⟨-, -, hemit⟩ | ⟨-, -, hemit⟩ | ⟨-, -, hemit⟩ | ⟨-, -, -, hemit⟩ |
    ⟨-, -, node_type, hs, -, hemit⟩ | ⟨-, -, -, -, hemit⟩ <;>
  rw [hemit b]
  · exact NewFrom.refl _ b
  · exact newFrom_emitInclusion _ b
  · exact NewFrom.of_usrs (Batch.le_addEdge? _ _ _ _) (Batch.usrs_addEdge? _ _ _ _)
  · exact NewFrom.refl _ b
  · have hnew := newFrom_emitSchema sha1 file_path hs ctx t.children b h
    refine hnew.of_reach (Reach.mono hnew.le.edges.subset ?_)
    cases hp : ctx.parent_usr with
    | none => exact .refl
    | some p => exact hb p (hg.1 p hp)
  · exact NewFrom.refl _ b

/-! ### The export -/

/-- Neither `get_children()` nor the spelling of an argument raises.  What the
other accessors do makes no difference. -/
structure NonRaising (t : Cursor) : Prop where
  get_children : ∀ s ∈ t.subtrees, s.label.children_raise = none
  spelling : ∀ s ∈ t.subtrees, ∀ p ∈ s.label.get_arguments, ∃ spelling, p.spelling = .ok spelling

/-- In a tree in which nothing raises, no parameter loses its node, so there is nothing that a
cursor would have to make up for. -/
theorem NonRaising.clear {t : Cursor} (h : NonRaising t) :
    ∀ s ∈ t.subtrees, s.label.Clear fun _ => False :=
  ArgumentsSpelled.clear h.spelling

/-- **Every exported node is reachable from the File node,** in any number of steps along the edges of
the export, where a `MEMBER_OF` edge leads from the class to the member and `INHERITS` and `REFERENCES`
edges lead nowhere, if neither the children nor the spelling of an argument raise. -/
theorem export_reachable (file_path : String) {t : Cursor} (h : NonRaising t) :
    ∃ r, extractNodesAndEdges sha1 file_path t = .ok r ∧
      ∀ n ∈ r.1, Reach r.2 (fileUsr file_path) n.usr := by
  obtain ⟨r, hr⟩ := exists_extract_of_children sha1 file_path h.get_children
  refine ⟨r, hr, ?_⟩
  obtain ⟨-, rfl⟩ := (extract_eq_ok_iff sha1 file_path).mp hr
  have hL : ∀ t : TypeInfo, ¬False := fun _ => id
  have hwalk := Rose.foldl_visit_induct (emit sha1 file_path)
    (fun b => b.Closed file_path (fun _ => False) ∧
      ∀ u ∈ b.usrs, Reach b.edges (fileUsr file_path) u)
    Ctx.Among
    (fun v => v.2.label.Clear (fun _ => False) ∧
      ∀ p ∈ v.2.label.get_arguments, ∃ spelling, p.spelling = .ok spelling)
    (fun b v hv hb hg => by
      have hnew := newFrom_emit sha1 hv.2 hb.2 hg
      refine ⟨closed_emit sha1 hL hv.1 hb.1 hg, fun u hu => ?_⟩
      exact (hnew.reach u hu).elim (fun hu => (hb.2 u hu).mono hnew.le.edges.subset) id)
    (fun b v _ _ _ _ hk => hk.mono ((covers_le sha1).emit file_path b v))
    (fun _ _ _ hv hb hg hd => among_emit sha1 hL hv.1 hb.1 hg hd) t ⟨none, none, none⟩
    (fun v hv => by
      have hs := Rose.mem_subtrees_of_mem_visit hv
      exact ⟨h.clear v.2 hs, h.spelling v.2 hs⟩)
    (initialBatch file_path)
    ⟨Batch.closed_initialBatch _, fun u hu => by
      obtain rfl := List.mem_singleton.mp hu
      exact .refl⟩
    ⟨fun _ h => absurd h (by simp), fun _ h => absurd h (by simp)⟩
  exact fun n hn => hwalk.1.2 n.usr (List.mem_map_of_mem hn)

/-- `struct S { void m(int x); };` -/
def memberTree : Cursor :=
  .node { kind := .ok (.other 350) } [
    .node { kind := .ok .structDecl, get_usr := .ok "c:@S@S", spelling := .ok "S",
            location := .ok { file := "/proj/a.h", line := 1, column := 8 },
            is_definition := .ok true } [
      .node { kind := .ok .cxxMethod, get_usr := .ok "c:@S@S@F@m#I#", spelling := .ok "m",
              location := .ok { file := "/proj/a.h", line := 1, column := 17 },
              get_arguments := [{ spelling := .ok "x",
                                  type := .ok (some (.last { spelling := .ok "int" } none)) }] }
        []]]

/-- `export_reachable` at that tree: the type is reached from the file by way of
the class, its method and the method's parameter. -/
theorem export_reachable_memberTree :
    NonRaising memberTree ∧
      ∃ r, extractNodesAndEdges default "/proj/a.h" memberTree = .ok r ∧
        ∀ n ∈ r.1, Reach r.2 (fileUsr "/proj/a.h") n.usr :=
  have h : NonRaising memberTree := ⟨by simp [memberTree], by simp [memberTree]⟩
  ⟨h, export_reachable default "/proj/a.h" h⟩

end Export
end CppMcp
