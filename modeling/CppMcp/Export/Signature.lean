/-
# The edges of signatures

The edges that are no links join functions, parameters, variables and types.  All of them but
`RETURNS` have an *owner*, the node that brings the edge with it when its USR is taken: the variable
or parameter of an `OF_TYPE` edge, the parameter of a `HAS_PARAM` edge, the pointer of a `POINTS_TO`
edge.  A USR is taken once, so no owner has two edges of a type (`Signs`), however often a cursor
comes back.

`RETURNS` edges stand outside that guard.  Each function cursor of the file whose result type has a
spelling gives one, a redeclaration too, and `singleValued_iff` says when that is one too many.
-/

import CppMcp.Export.Symbols
import CppMcp.Export.Uses
import Mathlib.Data.List.Nodup

namespace CppMcp
namespace Export

/-- What an edge says, its properties apart. -/
def EdgeRecord.triple (e : EdgeRecord) : String × String × EdgeType :=
  (e.source_usr, e.target_usr, e.edge_type)

/-- The node that brings the edge with it, and the edge's type. -/
def EdgeRecord.owner (e : EdgeRecord) : Option (EdgeType × String) :=
  match e.edge_type with
  | .ofType | .pointsTo | .refersTo => some (e.edge_type, e.source_usr)
  | .hasParam => some (.hasParam, e.target_usr)
  | _ => none

/-- The ends of a `RETURNS` edge. -/
def EdgeRecord.returned (e : EdgeRecord) : Option (String × String) :=
  if e.edge_type = .returns then some (e.source_usr, e.target_usr) else none

/-- The owners of the edges. -/
def owners (edges : List EdgeRecord) : List (EdgeType × String) := edges.filterMap EdgeRecord.owner

/-- The ends of the `RETURNS` edges. -/
def returnPairs (edges : List EdgeRecord) : List (String × String) :=
  edges.filterMap EdgeRecord.returned

/-- The `RETURNS` edges of a function. -/
def returnsFrom (edges : List EdgeRecord) (usr : String) : List EdgeRecord :=
  edges.filter fun e => e.edge_type = .returns ∧ e.source_usr = usr

variable (sha1 : Py.Sha1) (file_path : String)

/-- The USR of a type's node, if the type has a spelling. -/
def typeUsrOf (type : Acc (Option CType)) : Option String :=
  match type with
  | .ok (some t) => if t.info.spelled = "" then none else some (t.info.usr sha1)
  | _ => none

/-- A function cursor of the file, with its result type if that has a spelling. -/
def CursorInfo.returned (c : CursorInfo) : Option (String × String) :=
  if c.isFunctionOf file_path then (typeUsrOf sha1 c.result_type).map fun usr => (c.safeUsr, usr)
  else none

/-- The function cursors of the file whose result type has a spelling, in the order of the walk. -/
def returnedIn (t : Cursor) : List (String × String) :=
  (visits file_path t).filterMap fun v => v.2.label.returned sha1 file_path

/-- **Signature edges are single-valued:** a function has one `RETURNS` edge at most, and one if a
result type of it has a spelling, and no signature edge is there twice. -/
structure SingleValued (t : Cursor) (nodes : List NodeRecord) (edges : List EdgeRecord) : Prop where
  at_most_one : ∀ n ∈ nodes, n.label = .function → (returnsFrom edges n.usr).length ≤ 1
  exactly_one : ∀ n ∈ nodes, n.label = .function →
    n.usr ∈ (returnedIn sha1 file_path t).map Prod.fst → (returnsFrom edges n.usr).length = 1
  distinct : ((edges.filter fun e => !e.edge_type.isLink).map EdgeRecord.triple).Nodup

/-- A function cursor of the file finds its USR free. -/
def TakesUsr (t : Cursor) (usr : String) : Prop :=
  ∃ before v after, visits file_path t = before ++ v :: after ∧
    v.2.label.isFunctionOf file_path = true ∧ v.2.label.safeUsr = usr ∧
    usr ∉ (before.foldl (emit sha1 file_path) (initialBatch file_path)).seen_usrs

/-- No two function cursors of the file with a spelled result type have one USR; unless no function
took that, and the two types differ. -/
def ReturnsOnce (t : Cursor) : Prop :=
  (returnedIn sha1 file_path t).Pairwise fun x y =>
    x.1 = y.1 → x.2 ≠ y.2 ∧ ¬TakesUsr sha1 file_path t x.1

/-! ### What is added once -/

namespace Batch

/-- **From `b` to `b'` the functions `rs` get their result types,** and the owners of the other new
edges are distinct and were not taken before. -/
structure Signs (b : Batch) (rs : List (String × String)) (b' : Batch) : Prop where
  seen : b.seen_usrs ⊆ b'.seen_usrs
  grows : ∃ new, b'.edges = b.edges ++ new ∧ returnPairs new = rs ∧ (owners new).Nodup ∧
    ∀ x ∈ owners new, x.2 ∉ b.seen_usrs ∧ x.2 ∈ b'.seen_usrs

variable {b b' b'' : Batch} {rs rs' : List (String × String)}

namespace Signs

/-- What is added in two parts: the result types follow each other, and the owners of the later
edges were not taken by the earlier ones. -/
theorem trans (h : b.Signs rs b') (h' : b'.Signs rs' b'') : b.Signs (rs ++ rs') b'' where
  seen := fun _ hu => h'.seen (h.seen hu)
  grows := by
    obtain ⟨new, hnew, rfl, hnodup, hfresh⟩ := h.grows
    obtain ⟨new', hnew', rfl, hnodup', hfresh'⟩ := h'.grows
    have howners : owners (new ++ new') = owners new ++ owners new' := List.filterMap_append
    refine ⟨new ++ new', by rw [hnew', hnew, List.append_assoc], List.filterMap_append, ?_, ?_⟩
    · rw [howners]
      refine hnodup.append hnodup' fun x hx hx' => ?_
      exact (hfresh' x hx').1 (hfresh x hx).2
    · intro x hx
      rw [howners, List.mem_append] at hx
      rcases hx with hx | hx
      · exact ⟨(hfresh x hx).1, h'.seen (hfresh x hx).2⟩
      · exact ⟨fun hs => (hfresh' x hx).1 (h.seen hs), (hfresh' x hx).2⟩

/-- Links are nobody's: an edge that follows from what a cursor refers to has no owner, so any
number of them may be added. -/
theorem of_links {es : List EdgeRecord} (hseen : b.seen_usrs ⊆ b'.seen_usrs)
    (hedges : b'.edges = b.edges ++ es) (hes : ∀ e ∈ es, e.edge_type.isLink = true) :
    b.Signs [] b' where
  seen := hseen
  grows := by
    have howners : owners es = [] := by
      rw [owners, List.filterMap_eq_nil_iff]
      intro e he
      have hlink := hes e he
      rw [EdgeRecord.owner]
      cases hk : e.edge_type <;> rw [hk] at hlink <;> first | rfl | exact absurd hlink (by decide)
    have hreturns : returnPairs es = [] := by
      rw [returnPairs, List.filterMap_eq_nil_iff]
      intro e he
      have hlink := hes e he
      rw [EdgeRecord.returned, if_neg fun hk => by rw [hk] at hlink; exact nomatch hlink]
    refine ⟨es, hedges, hreturns, ?_, ?_⟩
    · rw [howners]
      exact List.nodup_nil
    · rw [howners]
      exact fun x hx => absurd hx List.not_mem_nil

/-- Where no edge is added, there is nothing to account for. -/
theorem of_edges (hseen : b.seen_usrs ⊆ b'.seen_usrs) (hedges : b'.edges = b.edges) :
    b.Signs [] b' :=
  of_links hseen (by rw [hedges, List.append_nil]) fun _ he => absurd he List.not_mem_nil

/-- Doing nothing gives no function a result type. -/
theorem refl (b : Batch) : b.Signs [] b := of_edges (fun _ => id) rfl

/-- The edges that come with a USR: it was free, so it has no others. -/
theorem own {usr : String} {l : List EdgeRecord} (h : (b.see usr).Signs [] b')
    (hfree : usr ∉ b.seen_usrs) (hseen : b'.seen_usrs ⊆ b''.seen_usrs)
    (hedges : b''.edges = b'.edges ++ l) (hreturns : returnPairs l = [])
    (hnodup : (owners l).Nodup) (hown : ∀ x ∈ owners l, x.2 = usr) : b.Signs [] b'' where
  seen := fun _ hu => hseen (h.seen (List.mem_cons_of_mem _ hu))
  grows := by
    obtain ⟨new, hnew, hrs, hn, hfresh⟩ := h.grows
    have howners : owners (new ++ l) = owners new ++ owners l := List.filterMap_append
    refine ⟨new ++ l, by rw [hedges, hnew, List.append_assoc]; rfl, ?_, ?_, ?_⟩
    · rw [returnPairs, List.filterMap_append]
      rw [returnPairs] at hrs hreturns
      rw [hrs, hreturns, List.append_nil]
    · rw [howners]
      refine hn.append hnodup fun x hx hx' => (hfresh x hx).1 ?_
      rw [hown x hx']
      exact List.mem_cons_self
    · intro x hx
      rw [howners, List.mem_append] at hx
      rcases hx with hx | hx
      · exact ⟨fun hs => (hfresh x hx).1 (List.mem_cons_of_mem _ hs), hseen (hfresh x hx).2⟩
      · rw [hown x hx]
        exact ⟨hfree, hseen (h.seen List.mem_cons_self)⟩

end Signs

/-- An edge with a target that may be missing: it is appended if the target is there. -/
theorem edges_addEdge? (b : Batch) (s : String) (t : Option String) (k : EdgeType) :
    (b.addEdge? s t k).edges = b.edges ++ t.toList.map fun t => ⟨s, t, k, []⟩ := by
  cases t with
  | none => exact (List.append_nil _).symm
  | some t => rfl

/-- An edge that may be missing takes no USR. -/
@[simp] theorem seen_usrs_addEdge? (b : Batch) (s : String) (t : Option String) (k : EdgeType) :
    (b.addEdge? s t k).seen_usrs = b.seen_usrs := by
  cases t <;> rfl

end Batch

open Batch

/-! ### The blocks -/

/-- Interning a type gives no function a result type: the edge to what the type points to is owned
by the type, whose USR was free. -/
theorem signs_typeStep {t : CType} {b b' : Batch} {usr : Option String}
    (h : TypeStep sha1 t b b' usr) : b.Signs [] b' := by
  induction h with
  | unspelled | taken => exact Signs.refl _
  | new => exact Signs.of_edges (fun _ => List.mem_cons_of_mem _) rfl
  | @chain t pointee b b' usr k _ hfree hk _ ih =>
    have htake : (b.see (t.usr sha1)).Signs [] (b.takeType sha1 t) :=
      Signs.of_edges (fun _ => id) rfl
    have hsee := htake.trans ih
    rcases chainEdge_cases hk with rfl | rfl
    · exact hsee.own (l := [⟨t.usr sha1, usr, .pointsTo, []⟩]) hfree (fun _ => id) rfl rfl
        (List.nodup_singleton _) fun x hx => by rw [List.mem_singleton.mp hx]
    · exact hsee.own (l := [⟨t.usr sha1, usr, .refersTo, []⟩]) hfree (fun _ => id) rfl rfl
        (List.nodup_singleton _) fun x hx => by rw [List.mem_singleton.mp hx]

/-- The same of a type that may be missing, or raise when it is read. -/
theorem signs_getOrCreateTypeOf (type : Acc (Option CType)) (b : Batch) :
    b.Signs [] (getOrCreateTypeOf sha1 b type).1 := by
  rcases typeStep_getOrCreateTypeOf sha1 type b with h | ⟨t, -, h⟩
  · rw [h]
    exact Signs.refl b
  · exact signs_typeStep sha1 h

/-- The USR that is returned does not depend on what is there. -/
theorem snd_getOrCreateTypeOf (type : Acc (Option CType)) (b : Batch) :
    (getOrCreateTypeOf sha1 b type).2 = typeUsrOf sha1 type := by
  rcases type with e | (_ | t)
  · rfl
  · rfl
  · have hstep := typeStep_getOrCreateType sha1 t b
    change (getOrCreateType sha1 b t).2 = _
    rw [typeUsrOf]
    generalize (getOrCreateType sha1 b t).1 = b' at hstep
    generalize (getOrCreateType sha1 b t).2 = usr at hstep
    cases hstep with
    | unspelled hs => rw [if_pos hs]
    | taken hs => rw [if_neg hs]
    | new hs => rw [if_neg hs]
    | chain hs => exact (if_neg hs).symm

/-- The `OF_TYPE` edge of a node whose USR was free. -/
theorem Batch.Signs.ofType {b b' : Batch} {usr : String} (h : (b.see usr).Signs [] b')
    (hfree : usr ∉ b.seen_usrs) (target : Option String) :
    b.Signs [] (b'.addEdge? usr target .ofType) := by
  refine h.own hfree (by rw [seen_usrs_addEdge?]; exact fun _ => id) (edges_addEdge? ..) ?_ ?_ ?_
  · cases target <;> rfl
  · cases target with
    | none => exact List.nodup_nil
    | some t => exact List.nodup_singleton _
  · cases target with
    | none => exact fun x hx => absurd hx List.not_mem_nil
    | some t => exact fun x hx => by rw [List.mem_singleton.mp hx]

/-- The edges of a symbol's own node: they come with a USR that was free. -/
theorem signs_emitSymbol (c : CursorInfo) (children : List Cursor) (node_type : NodeType)
    (b : Batch) : b.Signs [] (emitSymbol sha1 c children node_type b) := by
  have htake : (b.see c.safeUsr).Signs [] (b.takeSymbol c children node_type) :=
    Signs.of_edges (fun _ => id) rfl
  unfold emitSymbol
  split_ifs with hseen
  · exact Signs.refl b
  · exact (htake.trans (signs_getOrCreateTypeOf sha1 c.type _)).ofType hseen _
  · exact Signs.of_edges (fun _ => List.mem_cons_of_mem _) rfl

/-- **The return type stands outside the guard:** it is linked at every cursor. -/
theorem signs_emitReturns {c : CursorInfo} (hk : kindIn c.kindName functionCursorKinds = true)
    (b : Batch) : b.Signs ((typeUsrOf sha1 c.result_type).map fun usr => (c.safeUsr, usr)).toList
      (emitReturns sha1 c b) := by
  have htype := signs_getOrCreateTypeOf sha1 c.result_type b
  rw [emitReturns, if_pos hk, linkType, snd_getOrCreateTypeOf]
  cases typeUsrOf sha1 c.result_type with
  | none => exact htype
  | some usr =>
    refine htype.trans ⟨fun _ => id, [⟨c.safeUsr, usr, .returns, []⟩], rfl, rfl, ?_, ?_⟩
    · exact List.nodup_nil
    · exact fun x hx => absurd hx List.not_mem_nil

/-- A parameter owns its two edges, `HAS_PARAM` and `OF_TYPE`, and it is taken together with them.
-/
theorem signs_linkParam {b : Batch} {usr : String} {idx : ℕ} (hfree : paramUsr usr idx ∉ b.seen_usrs)
    (param : Param) (spelling : String) :
    b.Signs [] (linkParam usr param idx spelling
      (getOrCreateTypeOf sha1 (b.see (paramUsr usr idx)) param.type)) := by
  have htype := signs_getOrCreateTypeOf sha1 param.type (b.see (paramUsr usr idx))
  rw [linkParam]
  generalize getOrCreateTypeOf sha1 (b.see (paramUsr usr idx)) param.type = r at htype
  obtain ⟨b', target⟩ := r
  refine htype.own (l := ⟨usr, paramUsr usr idx, .hasParam, [("index", .int idx)]⟩ ::
    target.toList.map fun t => ⟨paramUsr usr idx, t, .ofType, []⟩) hfree ?_ ?_ ?_ ?_ ?_
  · rw [seen_usrs_addEdge?]
    exact fun _ => id
  · rw [edges_addEdge?, List.append_cons]
    rfl
  · cases target <;> rfl
  · cases target with
    | none => exact List.nodup_singleton _
    | some t => simp [owners, EdgeRecord.owner]
  · cases target <;> simp [owners, EdgeRecord.owner]

/-- The loop over the parameters: each has a USR of its own, made of its index. -/
theorem signs_emitParamsFrom (usr : String) (params : List Param) (idx : ℕ) (b : Batch) :
    b.Signs [] (emitParamsFrom sha1 usr idx params b) := by
  induction params generalizing idx b with
  | nil => exact Signs.refl b
  | cons param rest ih =>
    rw [emitParamsFrom]
    split_ifs with hseen
    · exact ih _ _
    · cases param.spelling with
      | error e =>
        have hsee : b.Signs [] (b.see (paramUsr usr idx)) :=
          Signs.of_edges (fun _ => List.mem_cons_of_mem _) rfl
        exact hsee.trans (signs_getOrCreateTypeOf sha1 param.type _)
      | ok spelling => exact (signs_linkParam sha1 hseen param spelling).trans (ih _ _)

/-- The branch of a schema cursor: the edges of its node stand behind the guard, and the result
type, if the cursor is a function, does not. -/
theorem signs_emitSchema {c : CursorInfo} {node_type : NodeType} (hs : c.schema = some node_type)
    (hf : c.foreign file_path = false) (ctx : Ctx) (children : List Cursor) (b : Batch) :
    b.Signs (c.returned sha1 file_path).toList
      (emitSchema sha1 (fileUsr file_path) ctx node_type c children b) := by
  rw [emitSchema, emitCalls_eq_self hs]
  have hsymbol := signs_emitSymbol sha1 c children node_type b
  generalize emitSymbol sha1 c children node_type b = b₁ at hsymbol
  have hparent := Signs.of_links ((covers_le sha1).emitParentEdge file_path ctx c b₁).seen
    (edges_emitParentEdge ..) (by simpa using isLink_parentEdge file_path ctx c)
  generalize emitParentEdge (fileUsr file_path) ctx.parent_usr ctx.parent_kind c b₁ = b₂ at hparent
  have hinherits := Signs.of_links ((covers_le sha1).emitInherits c children b₂).seen (edges_emitInherits ..)
    (isLink_inheritsEdges c children)
  have hlinks := (hsymbol.trans hparent).trans hinherits
  by_cases hk : kindIn c.kindName functionCursorKinds = true
  · have hfun := isFunctionOf_of_kindIn file_path hs hf hk
    have hparams := signs_emitParamsFrom sha1 c.safeUsr c.get_arguments 0
      (emitReturns sha1 c (emitInherits c children b₂))
    rw [emitParams, if_pos hk, CursorInfo.returned, if_pos hfun]
    simpa using (hlinks.trans (signs_emitReturns sha1 hk _)).trans hparams
  · have hfun : c.isFunctionOf file_path = false := by simp [CursorInfo.isFunctionOf, hk]
    rw [emitParams, if_neg hk, emitReturns, if_neg hk, CursorInfo.returned, hfun]
    exact hlinks

/-- A cursor that is no function of the file gives no `RETURNS` edge. -/
theorem returned_eq_none {c : CursorInfo} (h : c.isFunctionOf file_path = false) :
    c.returned sha1 file_path = none := by
  rw [CursorInfo.returned, h]
  rfl

/-- **A visit** gives a function cursor of the file its result type. -/
theorem signs_emit (b : Batch) (v : Visit) :
    b.Signs (v.2.label.returned sha1 file_path).toList (emit sha1 file_path b v) := by
  have hfun := fun h : v.2.label.isFunctionOf file_path = true => schema_of_isFunctionOf file_path h
  have hnone : ¬v.2.label.isFunctionOf file_path = true →
      v.2.label.returned sha1 file_path = none := fun h =>
    returned_eq_none sha1 file_path (eq_false_of_ne_true h)
  obtain ⟨ctx, t⟩ := v
  rcases branch_cases sha1 file_path ctx t with
    ⟨hk, -, hemit⟩ | ⟨hk, -, hemit⟩ | ⟨hk, -, hemit⟩ | ⟨-, hf, -, hemit⟩ |
    ⟨-, hf, node_type, hs, -, hemit⟩ | ⟨-, -, hs, -, hemit⟩ <;>
  rw [hemit b]
  · rw [hnone fun h => (hfun h).1.1 hk]
    exact Signs.refl b
  · rw [hnone fun h => (hfun h).1.2.1 hk]
    exact Signs.of_links ((covers_le sha1).emitInclusion file_path _ b).seen (edges_emitInclusion ..)
      (isLink_inclusionEdges file_path _)
  · rw [hnone fun h => Bool.false_ne_true ((hfun h).1.2.2.symm.trans hk)]
    exact Signs.of_links (le_addEdge? _ _ _ _).seen (edges_emitUseSite ..)
      (isLink_useEdges file_path _ _)
  · rw [hnone fun h => Bool.false_ne_true ((hfun h).2.1.symm.trans hf)]
    exact Signs.refl b
  · exact signs_emitSchema sha1 file_path hs hf ctx _ b
  · rw [hnone fun h => Option.some_ne_none _ ((hfun h).2.2.symm.trans hs)]
    exact Signs.refl b

/-- The whole walk: the result types are those of the function cursors that are visited, in the
order of the visits. -/
theorem signs_foldl_emit (vs : List Visit) (b : Batch) :
    b.Signs (vs.filterMap fun v => v.2.label.returned sha1 file_path)
      (vs.foldl (emit sha1 file_path) b) := by
  induction vs generalizing b with
  | nil => exact Signs.refl b
  | cons v vs ih =>
    have hcons : ((v :: vs).filterMap fun v => v.2.label.returned sha1 file_path) =
        (v.2.label.returned sha1 file_path).toList ++
          vs.filterMap fun v => v.2.label.returned sha1 file_path := by
      rw [List.filterMap_cons]
      cases v.2.label.returned sha1 file_path <;> rfl
    rw [hcons]
    exact (signs_emit sha1 file_path b v).trans (ih _)

/-- **The `RETURNS` edges of an export** are those of its function cursors, in their order. -/
theorem returnPairs_collected (t : Cursor) :
    returnPairs (collected sha1 file_path t).edges = returnedIn sha1 file_path t := by
  obtain ⟨new, hnew, hreturns, -⟩ :=
    (signs_foldl_emit sha1 file_path (visits file_path t) (initialBatch file_path)).grows
  rw [collected, hnew]
  exact hreturns

/-- **No owner has two edges of a type,** since its USR is taken together with them and is never
free again. -/
theorem nodup_owners_collected (t : Cursor) :
    (owners (collected sha1 file_path t).edges).Nodup := by
  obtain ⟨new, hnew, -, hnodup, -⟩ :=
    (signs_foldl_emit sha1 file_path (visits file_path t) (initialBatch file_path)).grows
  rw [collected, hnew]
  exact hnodup

/-! ### The nodes of functions -/

/-- A cursor with the label of a function is of a function kind. -/
theorem isFunctionOf_of_schema {c : CursorInfo} (hs : c.schema = some .function)
    (hf : c.foreign file_path = false) : c.isFunctionOf file_path = true := by
  refine isFunctionOf_of_kindIn file_path hs hf ?_
  obtain ⟨-, hfield⟩ | ⟨k, hk, htable⟩ := CursorInfo.schema_cases hs
  · unfold classifyField at hfield
    split_ifs at hfield
  · rw [hk]
    cases k <;> first | rfl | cases htable

/-- A visit appends a function's node at a function cursor whose USR is free, and nowhere else. -/
theorem function_mem_emit_iff (b : Batch) (v : Visit) (usr : String) :
    (usr, NodeType.function) ∈ symbolNodes (emit sha1 file_path b v).nodes ↔
      (usr, NodeType.function) ∈ symbolNodes b.nodes ∨
        v.2.label.isFunctionOf file_path = true ∧ v.2.label.safeUsr = usr ∧ usr ∉ b.seen_usrs := by
  have hfun := fun h : v.2.label.isFunctionOf file_path = true => schema_of_isFunctionOf file_path h
  have hno : ∀ {b' : Batch}, b.Frame b' → ¬v.2.label.isFunctionOf file_path = true →
      ((usr, NodeType.function) ∈ symbolNodes b'.nodes ↔
        (usr, NodeType.function) ∈ symbolNodes b.nodes ∨
          v.2.label.isFunctionOf file_path = true ∧ v.2.label.safeUsr = usr ∧
            usr ∉ b.seen_usrs) := fun hframe h => by
    rw [hframe.nodes, or_iff_left fun hv => h hv.1]
  obtain ⟨ctx, t⟩ := v
  rcases branch_cases sha1 file_path ctx t with
    ⟨hk, -, hemit⟩ | ⟨hk, -, hemit⟩ | ⟨hk, -, hemit⟩ | ⟨-, hf, -, hemit⟩ |
    ⟨hord, hf, node_type, hs, -, hemit⟩ | ⟨-, -, hs, -, hemit⟩ <;>
  rw [hemit b]
  · exact hno (Frame.refl b) fun h => (hfun h).1.1 hk
  · exact hno (frame_emitInclusion file_path _ b) fun h => (hfun h).1.2.1 hk
  · exact hno (frame_addEdge? _ _ _ _) fun h => Bool.false_ne_true ((hfun h).1.2.2.symm.trans hk)
  · exact hno (Frame.refl b) fun h => Bool.false_ne_true ((hfun h).2.1.symm.trans hf)
  · rw [(frame_emitSchema sha1 file_path hs ctx t.children b).nodes, emitSymbol]
    have hsymbol := isSymbol_of_schema hord.1 hs
    have hlabel : (usr, NodeType.function) = (t.label.safeUsr, node_type) ↔
        t.label.isFunctionOf file_path = true ∧ t.label.safeUsr = usr := by
      rw [Prod.mk.injEq]
      constructor
      · rintro ⟨rfl, rfl⟩
        exact ⟨isFunctionOf_of_schema file_path hs hf, rfl⟩
      · rintro ⟨h, rfl⟩
        exact ⟨rfl, Option.some.inj ((hfun h).2.2.symm.trans hs)⟩
    split_ifs with hseen htype
    · rw [or_iff_left]
      rintro ⟨-, rfl, hfree⟩
      exact hfree hseen
    · rw [linkType, (frame_addEdge? _ _ _ _).nodes, (frame_getOrCreateTypeOf sha1 _ _).nodes,
        symbolNodes_takeSymbol b _ _ hsymbol, List.mem_append, List.mem_singleton, hlabel]
      refine or_congr_right ⟨fun h => ⟨h.1, h.2, ?_⟩, fun h => ⟨h.1, h.2.1⟩⟩
      rw [← h.2]
      exact hseen
    · rw [symbolNodes_takeSymbol b _ _ hsymbol, List.mem_append, List.mem_singleton, hlabel]
      refine or_congr_right ⟨fun h => ⟨h.1, h.2, ?_⟩, fun h => ⟨h.1, h.2.1⟩⟩
      rw [← h.2]
      exact hseen
  · exact hno (Frame.refl b) fun h => Option.some_ne_none _ ((hfun h).2.2.symm.trans hs)

/-- After some visits: a function's node comes from the first cursor that found the USR free. -/
theorem function_mem_foldl_emit_iff (vs : List Visit) (b : Batch) (usr : String) :
    (usr, NodeType.function) ∈ symbolNodes (vs.foldl (emit sha1 file_path) b).nodes ↔
      (usr, NodeType.function) ∈ symbolNodes b.nodes ∨
        ∃ before v after, vs = before ++ v :: after ∧ v.2.label.isFunctionOf file_path = true ∧
          v.2.label.safeUsr = usr ∧ usr ∉ (before.foldl (emit sha1 file_path) b).seen_usrs := by
  induction vs generalizing b with
  | nil =>
    rw [List.foldl_nil, or_iff_left]
    rintro ⟨before, v, after, hvs, -⟩
    exact absurd hvs.symm (by simp)
  | cons v vs ih =>
    rw [List.foldl_cons, ih, function_mem_emit_iff, or_assoc]
    refine or_congr_right ⟨?_, ?_⟩
    · rintro (h | ⟨before, w, after, rfl, h⟩)
      · exact ⟨[], v, vs, rfl, h⟩
      · exact ⟨v :: before, w, after, rfl, h⟩
    · rintro ⟨_ | ⟨v', before⟩, w, after, hvs, h⟩
      · obtain ⟨rfl, rfl⟩ := List.cons.inj hvs
        exact Or.inl h
      · obtain ⟨rfl, rfl⟩ := List.cons.inj hvs
        exact Or.inr ⟨before, w, after, rfl, h⟩

/-- **The nodes of functions:** those whose USR a function cursor of the file found free. -/
theorem exists_function_iff (t : Cursor) (usr : String) :
    (∃ n ∈ (collected sha1 file_path t).nodes, n.label = .function ∧ n.usr = usr) ↔
      TakesUsr sha1 file_path t usr := by
  have hmem : ∀ nodes : List NodeRecord, (usr, NodeType.function) ∈ symbolNodes nodes ↔
      ∃ n ∈ nodes, n.label = .function ∧ n.usr = usr := by
    intro nodes
    rw [symbolNodes, List.mem_filterMap]
    refine exists_congr fun n => and_congr_right fun _ => ?_
    constructor
    · intro h
      split_ifs at h
      obtain ⟨husr, hlabel⟩ := Prod.mk.inj (Option.some.inj h)
      exact ⟨hlabel, husr⟩
    · rintro ⟨hlabel, rfl⟩
      rw [hlabel]
      rfl
  rw [← hmem, collected, function_mem_foldl_emit_iff, or_iff_right, TakesUsr]
  simp [initialBatch, symbolNodes, fileNode, NodeType.isSymbol]

/-! ### When there is one `RETURNS` edge -/

/-- At most one item of a list has a property exactly if no two items at different places both have
it. -/
theorem length_filter_le_one_iff {α : Type} {p : α → Bool} {l : List α} :
    (l.filter p).length ≤ 1 ↔ l.Pairwise fun x y => p x = true → ¬p y = true := by
  have hle : ∀ l : List α, l.length ≤ 1 ↔ l.Pairwise fun _ _ => False
    | [] => by simp
    | [x] => by simp
    | x :: y :: l => iff_of_false (by simp) fun h => List.rel_of_pairwise_cons h List.mem_cons_self
  rw [hle, List.pairwise_filter]

/-- Counting the edges of a function counts their ends. -/
theorem length_returnsFrom (edges : List EdgeRecord) (usr : String) :
    (returnsFrom edges usr).length = ((returnPairs edges).filter fun x => x.1 = usr).length := by
  induction edges with
  | nil => rfl
  | cons e edges ih =>
    unfold returnsFrom returnPairs at ih ⊢
    by_cases hk : e.edge_type = .returns
    · have hreturned : e.returned = some (e.source_usr, e.target_usr) := if_pos hk
      rw [List.filterMap_cons_some hreturned]
      by_cases hu : e.source_usr = usr
      · rw [List.filter_cons_of_pos (by simp [hk, hu]), List.filter_cons_of_pos (by simp [hu]),
          List.length_cons, List.length_cons, ih]
      · rw [List.filter_cons_of_neg (by simp [hu]), List.filter_cons_of_neg (by simp [hu]), ih]
    · have hreturned : e.returned = none := if_neg hk
      rw [List.filterMap_cons_none hreturned, List.filter_cons_of_neg (by simp [hk]), ih]

/-- The owners being distinct, only `RETURNS` edges can be there twice. -/
theorem nodup_triples_iff {edges : List EdgeRecord} (h : (owners edges).Nodup) :
    ((edges.filter fun e => !e.edge_type.isLink).map EdgeRecord.triple).Nodup ↔
      (returnPairs edges).Nodup := by
  have howners := List.pairwise_filterMap.mp h
  unfold returnPairs List.Nodup
  rw [List.pairwise_map, List.pairwise_filter, List.pairwise_filterMap]
  constructor
  · intro hdistinct
    refine hdistinct.imp fun {e e'} hne x hx y hy hxy => ?_
    unfold EdgeRecord.returned at hx hy
    split_ifs at hx hy with hk hk'
    obtain rfl := Option.some.inj hx
    obtain rfl := Option.some.inj hy
    obtain ⟨hs, ht⟩ := Prod.mk.inj hxy
    refine hne (by rw [hk]; rfl) (by rw [hk']; rfl) ?_
    rw [EdgeRecord.triple, EdgeRecord.triple, hs, ht, hk, hk']
  · intro hreturns
    refine (howners.and hreturns).imp fun {e e'} hne hk hk' htriple => ?_
    obtain ⟨howner, hreturned⟩ := hne
    obtain ⟨hs, hrest⟩ := Prod.mk.inj htriple
    obtain ⟨ht, htype⟩ := Prod.mk.inj hrest
    unfold EdgeRecord.owner at howner
    unfold EdgeRecord.returned at hreturned
    rw [← hs, ← ht, ← htype] at howner hreturned
    cases hkind : e.edge_type <;> rw [hkind] at hk howner hreturned
    all_goals first
      | exact absurd hk (by decide)
      | exact howner _ rfl _ rfl rfl
      | exact hreturned _ rfl _ rfl rfl

/-- That no two entries have one key, except that keys outside `Q` may have several values: each key
of `Q` comes once, and no entry comes twice. -/
theorem pairwise_once_iff {l : List (String × String)} {Q : String → Prop} :
    (l.Pairwise fun x y => x.1 = y.1 → x.2 ≠ y.2 ∧ ¬Q x.1) ↔
      (∀ usr, Q usr → (l.filter fun x => x.1 = usr).length ≤ 1) ∧ l.Nodup := by
  simp only [length_filter_le_one_iff, decide_eq_true_eq]
  constructor
  · intro h
    refine ⟨fun usr husr => h.imp fun {x y} hxy hx hy => ?_, h.imp fun {x y} hxy heq => ?_⟩
    · refine (hxy (hx.trans hy.symm)).2 ?_
      rw [hx]
      exact husr
    · exact (hxy (congrArg Prod.fst heq)).1 (congrArg Prod.snd heq)
  · rintro ⟨honce, hnodup⟩
    refine List.pairwise_iff_forall_sublist.mpr fun {x y} hxy heq => ⟨fun hsame => ?_, fun hx => ?_⟩
    · exact List.pairwise_iff_forall_sublist.mp hnodup hxy (Prod.ext heq hsame)
    · exact List.pairwise_iff_forall_sublist.mp (honce x.1 hx) hxy rfl heq.symm

/-- **Signature edges are single-valued** if and only if no two function cursors of the file with a
spelled result type share a USR that a function took, and none that share one return the same. -/
theorem singleValued_iff {t : Cursor} {r : List NodeRecord × List EdgeRecord}
    (hr : extractNodesAndEdges sha1 file_path t = .ok r) :
    SingleValued sha1 file_path t r.1 r.2 ↔ ReturnsOnce sha1 file_path t := by
  obtain ⟨-, rfl⟩ := (extract_eq_ok_iff sha1 file_path).mp hr
  have hdistinct := nodup_triples_iff (nodup_owners_collected sha1 file_path t)
  have hcount : ∀ usr, (returnsFrom (collected sha1 file_path t).edges usr).length =
      ((returnedIn sha1 file_path t).filter fun x => x.1 = usr).length := fun usr => by
    rw [length_returnsFrom, returnPairs_collected]
  rw [returnPairs_collected] at hdistinct
  rw [ReturnsOnce, pairwise_once_iff]
  constructor
  · intro h
    refine ⟨fun usr htakes => ?_, hdistinct.mp h.distinct⟩
    obtain ⟨n, hn, hlabel, rfl⟩ := (exists_function_iff sha1 file_path t usr).mpr htakes
    rw [← hcount]
    exact h.at_most_one n hn hlabel
  · rintro ⟨honce, hnodup⟩
    have hle : ∀ n ∈ (collected sha1 file_path t).nodes, n.label = .function →
        (returnsFrom (collected sha1 file_path t).edges n.usr).length ≤ 1 := by
      intro n hn hlabel
      rw [hcount]
      exact honce n.usr ((exists_function_iff sha1 file_path t n.usr).mp ⟨n, hn, hlabel, rfl⟩)
    refine ⟨hle, fun n hn hlabel hmem => Nat.le_antisymm (hle n hn hlabel) ?_, hdistinct.mpr hnodup⟩
    obtain ⟨x, hx, hxn⟩ := List.mem_map.mp hmem
    rw [hcount]
    exact List.length_pos_of_mem (List.mem_filter.mpr ⟨hx, decide_eq_true hxn⟩)

/-- **With USRs as libclang makes them,** and none that a function shares with another symbol, the
condition is that no USR comes twice. -/
theorem returnsOnce_iff_nodup {t : Cursor} {r : List NodeRecord × List EdgeRecord}
    (hr : extractNodesAndEdges sha1 file_path t = .ok r)
    (hnative : ∀ s ∈ t.subtrees, s.label.safeUsr = "" ∨ Native s.label.safeUsr)
    (hlabels : ∀ s ∈ reached t, ∀ s' ∈ reached t, ∀ usr l l',
      s.label.symbol file_path = some (usr, l) → s'.label.symbol file_path = some (usr, l') → l' = l) :
    ReturnsOnce sha1 file_path t ↔ ((returnedIn sha1 file_path t).map Prod.fst).Nodup := by
  have htakes : ∀ x ∈ returnedIn sha1 file_path t, TakesUsr sha1 file_path t x.1 := by
    intro x hx
    obtain ⟨v, hv, hreturned⟩ := List.mem_filterMap.mp hx
    rw [CursorInfo.returned] at hreturned
    split_ifs at hreturned with hfun
    obtain ⟨usr, -, rfl⟩ := Option.map_eq_some_iff.mp hreturned
    obtain ⟨hord, hf, hs⟩ := schema_of_isFunctionOf file_path hfun
    have hreached : v.2 ∈ reached t := by
      rw [← visit_map_snd file_path t ⟨none, none, none⟩]
      exact List.mem_map_of_mem hv
    have hsymbol : v.2.label.symbol file_path = some (v.2.label.safeUsr, .function) := by
      rw [symbol_of_ordinary file_path hord hf, hs]
      rfl
    have hlookup := lookup_symbolsOf file_path hreached hsymbol fun s hs l hl =>
      hlabels v.2 hreached s hs _ _ _ hsymbol hl
    have hnode := (mem_symbolNodes_iff sha1 file_path hr hnative _ _).mpr hlookup
    obtain ⟨-, rfl⟩ := (extract_eq_ok_iff sha1 file_path).mp hr
    rw [collected, function_mem_foldl_emit_iff] at hnode
    refine hnode.resolve_left ?_
    simp [initialBatch, symbolNodes, fileNode, NodeType.isSymbol]
  rw [ReturnsOnce, List.Nodup, List.pairwise_map]
  constructor
  · intro h
    refine List.Pairwise.imp_of_mem ?_ h
    intro x y hx _ hxy heq
    exact (hxy heq).2 (htakes x hx)
  · exact fun h => h.imp fun {x y} hne heq => absurd heq hne

/-- `int f(); int f() { }` -/
def redeclaredTree : Cursor :=
  .node { kind := .ok (.other 350) } [
    .node { kind := .ok .functionDecl, get_usr := .ok "c:@F@f#", spelling := .ok "f",
            location := .ok { file := "/proj/a.cpp", line := 1, column := 5 },
            result_type := .ok (some (.last { spelling := .ok "int" } none)) } [],
    .node { kind := .ok .functionDecl, get_usr := .ok "c:@F@f#", spelling := .ok "f",
            location := .ok { file := "/proj/a.cpp", line := 2, column := 5 },
            result_type := .ok (some (.last { spelling := .ok "int" } none)),
            is_definition := .ok true } []]

/-- `get_children()` raises nowhere in this tree. -/
theorem redeclaredTree_children : ∀ s ∈ redeclaredTree.subtrees, s.label.children_raise = none := by
  simp [redeclaredTree]

/-- **A function that is declared and defined returns its type twice:** the walk emits the `RETURNS`
edge at each of its cursors, without asking whether the function has been seen. -/
theorem redeclaredTree_not_singleValued :
    ∃ r, extractNodesAndEdges default "/proj/a.cpp" redeclaredTree = .ok r ∧
      ¬SingleValued default "/proj/a.cpp" redeclaredTree r.1 r.2 := by
  obtain ⟨r, hr⟩ := exists_extract_of_children default "/proj/a.cpp" redeclaredTree_children
  refine ⟨r, hr, fun hsingle => ?_⟩
  obtain ⟨-, rfl⟩ := (extract_eq_ok_iff default "/proj/a.cpp").mp hr
  have hnodes : ((collected default "/proj/a.cpp" redeclaredTree).nodes.map fun n =>
      (n.label, n.usr)) = [(.file, "file:///proj/a.cpp"), (.function, "c:@F@f#"),
        (.type, "type:46f8ab7c0cff9df7cd124852e26022a6bf89e315")] := by rfl
  have hreturns : (returnsFrom (collected default "/proj/a.cpp" redeclaredTree).edges
      "c:@F@f#").length = 2 := by rfl
  have hmem : (NodeType.function, "c:@F@f#") ∈
      (collected default "/proj/a.cpp" redeclaredTree).nodes.map fun n => (n.label, n.usr) := by
    rw [hnodes]
    decide
  obtain ⟨n, hn, heq⟩ := List.mem_map.mp hmem
  obtain ⟨hlabel, husr⟩ := Prod.mk.inj heq
  have hle := hsingle.at_most_one n hn hlabel
  rw [husr, hreturns] at hle
  omega

/-- `singleValued_iff` at the tree with a function that is declared and then defined. -/
theorem singleValued_iff_redeclaredTree :
    ∃ r, extractNodesAndEdges default "/proj/a.cpp" redeclaredTree = .ok r ∧
      (SingleValued default "/proj/a.cpp" redeclaredTree r.1 r.2 ↔
        ReturnsOnce default "/proj/a.cpp" redeclaredTree) := by
  obtain ⟨r, hr⟩ := exists_extract_of_children default "/proj/a.cpp" redeclaredTree_children
  exact ⟨r, hr, singleValued_iff default "/proj/a.cpp" hr⟩

end Export
end CppMcp
