/-
# The walk as a fold over what it visits

Neither the cursors `_walk_cursor` reaches nor the context it reaches them in
depend on what has been collected so far.  So the walk is `Rose.visit` with
`ctxBelow`, folded with `emit` (`walkCursor_eq_ok_iff`): it fails exactly when
`get_children()` raises at a cursor it descends from, and otherwise applies
`emit` to the cursors visited, in order.  `extract_eq_ok_iff` is the same of
`extract_nodes_and_edges`.
-/

import CppMcp.Export.Walk

namespace CppMcp
namespace Export

/-- The context `_walk_cursor` hands to the children of a cursor, `none` where it
returns without recursing. -/
def ctxBelow (file_path : String) (ctx : Ctx) (c : CursorInfo) : Option Ctx :=
  if c.kindName = some .parmDecl then none
  else if c.kindName = some .inclusionDirective then none
  else if kindIn c.kindName referenceCursorKinds then some ctx
  else if c.foreign file_path then some ⟨none, none, ctx.enclosing_func_usr⟩
  else
    match c.schema with
    | some _ => some ⟨some c.safeUsr, c.kindName, c.nextEnclosing ctx.enclosing_func_usr⟩
    | none => some ctx

/-- A visit: a cursor with everything below it, in its context. -/
abbrev Visit := Ctx × Cursor

/-- What `_walk_cursor` emits at a cursor before it recurses. -/
def emit (sha1 : Py.Sha1) (file_path : String) (b : Batch) (v : Visit) : Batch :=
  let c := v.2.label
  if c.kindName = some .parmDecl then b
  else if c.kindName = some .inclusionDirective then emitInclusion (fileUsr file_path) c b
  else if kindIn c.kindName referenceCursorKinds then
    emitUseSite (fileUsr file_path) v.1.enclosing_func_usr c b
  else if c.foreign file_path then b
  else
    match c.schema with
    | some node_type => emitSchema sha1 (fileUsr file_path) v.1 node_type c v.2.children b
    | none => b

/-- The walk descends from the cursor and `get_children()` raises there. -/
def Raises (file_path : String) (v : Visit) : Prop :=
  (ctxBelow file_path v.1 v.2.label).isSome ∧ v.2.label.children_raise ≠ none

variable (sha1 : Py.Sha1) (file_path : String)

/-- The cursor is none of those `_walk_cursor` takes before it looks at the file
the cursor stands in. -/
def CursorInfo.Ordinary (c : CursorInfo) : Prop :=
  c.kindName ≠ some .parmDecl ∧ c.kindName ≠ some .inclusionDirective ∧
    kindIn c.kindName referenceCursorKinds = false

/-- The kinds of the use-sites are none of those the walk stops at. -/
theorem CursorInfo.ne_of_reference {c : CursorInfo}
    (h : kindIn c.kindName referenceCursorKinds = true) :
    c.kindName ≠ some .parmDecl ∧ c.kindName ≠ some .inclusionDirective := by
  constructor <;> intro hk <;> rw [hk] at h <;> exact absurd h (by decide)

/-- A schema cursor has a USR: one without gets no label. -/
theorem CursorInfo.safeUsr_ne_empty {c : CursorInfo} {node_type : NodeType}
    (hs : c.schema = some node_type) : c.safeUsr ≠ "" := by
  intro hempty
  rw [CursorInfo.schema, if_pos hempty] at hs
  cases hs

/-- **Where a label comes from:** a `FIELD_DECL` is labelled by its storage, a cursor of any other kind by
the table. -/
theorem CursorInfo.schema_cases {c : CursorInfo} {node_type : NodeType}
    (hs : c.schema = some node_type) :
    c.kindName = some .fieldDecl ∧ classifyField c = node_type ∨
      ∃ k, c.kindName = some k ∧ kindToNodeType k = some node_type := by
  rw [CursorInfo.schema, if_neg (CursorInfo.safeUsr_ne_empty hs), classifyNode] at hs
  split at hs
  next hk => exact Or.inl ⟨hk, Option.some.inj hs⟩
  next k _ hk => exact Or.inr ⟨k, hk, hs⟩
  next => cases hs

/-- **The six branches of `_walk_cursor`,** each with what it emits at the cursor
and the context it hands down. -/
theorem branch_cases (ctx : Ctx) (t : Cursor) :
    (t.label.kindName = some .parmDecl ∧ ctxBelow file_path ctx t.label = none ∧
      ∀ b, emit sha1 file_path b (ctx, t) = b) ∨
    (t.label.kindName = some .inclusionDirective ∧ ctxBelow file_path ctx t.label = none ∧
      ∀ b, emit sha1 file_path b (ctx, t) = emitInclusion (fileUsr file_path) t.label b) ∨
    (kindIn t.label.kindName referenceCursorKinds = true ∧
      ctxBelow file_path ctx t.label = some ctx ∧
      ∀ b, emit sha1 file_path b (ctx, t) =
        emitUseSite (fileUsr file_path) ctx.enclosing_func_usr t.label b) ∨
    (t.label.Ordinary ∧ t.label.foreign file_path = true ∧
      ctxBelow file_path ctx t.label = some ⟨none, none, ctx.enclosing_func_usr⟩ ∧
      ∀ b, emit sha1 file_path b (ctx, t) = b) ∨
    (t.label.Ordinary ∧ t.label.foreign file_path = false ∧ ∃ node_type,
      t.label.schema = some node_type ∧
      ctxBelow file_path ctx t.label = some ⟨some t.label.safeUsr, t.label.kindName,
        t.label.nextEnclosing ctx.enclosing_func_usr⟩ ∧
      ∀ b, emit sha1 file_path b (ctx, t) =
        emitSchema sha1 (fileUsr file_path) ctx node_type t.label t.children b) ∨
    (t.label.Ordinary ∧ t.label.foreign file_path = false ∧ t.label.schema = none ∧
      ctxBelow file_path ctx t.label = some ctx ∧ ∀ b, emit sha1 file_path b (ctx, t) = b) := by
  unfold ctxBelow emit CursorInfo.Ordinary
  by_cases hparm : t.label.kindName = some .parmDecl
  · simp [hparm]
  by_cases hincl : t.label.kindName = some .inclusionDirective
  · simp [hincl]
  by_cases href : kindIn t.label.kindName referenceCursorKinds = true
  · simp [hparm, hincl, href]
  by_cases hfor : t.label.foreign file_path = true
  · simp [hparm, hincl, href, hfor]
  cases hs : t.label.schema <;>
  · simp only [hparm, hincl, href, hfor]
    simpa [hs] using ⟨hparm, hincl⟩

/-- `_walk_cursor` returns at the cursor without looking below it. -/
def CursorInfo.stopsWalk (c : CursorInfo) : Bool :=
  c.kindName == some .parmDecl || c.kindName == some .inclusionDirective

/-- Nothing is handed down exactly at the cursors that the walk stops at. -/
theorem ctxBelow_eq_none_iff (ctx : Ctx) (c : CursorInfo) :
    ctxBelow file_path ctx c = none ↔ c.stopsWalk = true := by
  have hstop : c.stopsWalk = true ↔
      c.kindName = some .parmDecl ∨ c.kindName = some .inclusionDirective := by
    simp [CursorInfo.stopsWalk]
  rw [hstop]
  have hcases := branch_cases default file_path ctx (.node c [])
  simp only [Rose.label_node] at hcases
  rcases hcases with ⟨hk, h, -⟩ | ⟨hk, h, -⟩ | ⟨hk, h, -⟩ | ⟨⟨hp, hi, -⟩, -, h, -⟩ |
    ⟨⟨hp, hi, -⟩, -, _, -, h, -⟩ | ⟨⟨hp, hi, -⟩, -, -, h, -⟩
  · simp [h, hk]
  · simp [h, hk]
  · rw [h]
    obtain ⟨hp, hi⟩ := CursorInfo.ne_of_reference hk
    exact ⟨fun h => absurd h (by simp), fun hpi => (hpi.elim hp hi).elim⟩
  all_goals
    rw [h]
    exact ⟨fun h => absurd h (by simp), fun hpi => (hpi.elim hp hi).elim⟩

/-- One call of `_walk_cursor`: it emits at its cursor, and goes on to the children in the context
that it hands down, if it does. -/
theorem walkCursor_node (b : Batch) (ctx : Ctx) (c : CursorInfo) (children : List Cursor) :
    walkCursor sha1 file_path b ctx (.node c children) =
      match ctxBelow file_path ctx c with
      | none => .ok (emit sha1 file_path b (ctx, .node c children))
      | some ctx' => c.getChildren.bind fun _ =>
          walkChildren sha1 file_path (emit sha1 file_path b (ctx, .node c children)) ctx'
            children := by
  rw [walkCursor]
  rcases branch_cases sha1 file_path ctx (.node c children) with
    ⟨hk, hctx, hemit⟩ | ⟨hk, hctx, hemit⟩ | ⟨hk, hctx, hemit⟩ | ⟨⟨hp, hi, hr⟩, hf, hctx, hemit⟩ |
    ⟨⟨hp, hi, hr⟩, hf, node_type, hs, hctx, hemit⟩ | ⟨⟨hp, hi, hr⟩, hf, hs, hctx, hemit⟩ <;>
  rw [Rose.label_node] at * <;> rw [hemit b, hctx]
  · rw [if_pos hk]
  · rw [if_neg (by rw [hk]; decide), if_pos hk]
  · obtain ⟨hp, hi⟩ := CursorInfo.ne_of_reference hk
    rw [if_neg hp, if_neg hi, if_pos hk]
    rfl
  · rw [if_neg hp, if_neg hi, if_neg (by rw [hr]; decide), if_pos hf]
    rfl
  · rw [if_neg hp, if_neg hi, if_neg (by rw [hr]; decide), if_neg (by rw [hf]; decide), hs]
    rfl
  · rw [if_neg hp, if_neg hi, if_neg (by rw [hr]; decide), if_neg (by rw [hf]; decide), hs]
    rfl

/-- Going on to the children returns exactly if asking for them does not raise and what follows
returns. -/
theorem getChildren_bind_eq_ok {c : CursorInfo} {α : Type} {f : Unit → Acc α} {a : α} :
    c.getChildren.bind f = .ok a ↔ c.children_raise = none ∧ f () = .ok a := by
  unfold CursorInfo.getChildren
  cases c.children_raise <;> simp [Except.bind]

/-- **The walk is a fold.**  It gives a batch if and only if `get_children()`
raises at no cursor it descends from, and then the batch is `emit` applied to the
cursors visited one after the other. -/
theorem walkCursor_eq_ok_iff (t : Cursor) (ctx : Ctx) (b b' : Batch) :
    walkCursor sha1 file_path b ctx t = .ok b' ↔
      (∀ v ∈ Rose.visit (ctxBelow file_path) ctx t, ¬Raises file_path v) ∧
        (Rose.visit (ctxBelow file_path) ctx t).foldl (emit sha1 file_path) b = b' := by
  induction t using Rose.induct generalizing ctx b b' with
  | node c ts ih =>
    have below : ∀ (us : List Cursor), (∀ u ∈ us, u ∈ ts) → ∀ ctx b b',
        walkChildren sha1 file_path b ctx us = .ok b' ↔
          (∀ v ∈ us.flatMap (Rose.visit (ctxBelow file_path) ctx), ¬Raises file_path v) ∧
            (us.flatMap (Rose.visit (ctxBelow file_path) ctx)).foldl (emit sha1 file_path) b =
              b' := by
      intro us hus
      induction us with
      | nil => intro ctx b b'; simp [walkChildren]
      | cons u us ihu =>
        intro ctx b b'
        rw [walkChildren, List.flatMap_cons, List.foldl_append, List.forall_mem_append]
        constructor
        · intro h
          cases hu : walkCursor sha1 file_path b ctx u with
          | error e => rw [hu] at h; exact absurd h (by simp [bind, Except.bind])
          | ok b₁ =>
            rw [hu] at h
            obtain ⟨h₁, rfl⟩ := (ih u (hus u List.mem_cons_self) ctx b b₁).mp hu
            obtain ⟨h₂, rfl⟩ := (ihu (fun w h => hus w (List.mem_cons_of_mem _ h)) ctx _ b').mp h
            exact ⟨⟨h₁, h₂⟩, rfl⟩
        · rintro ⟨⟨h₁, h₂⟩, h⟩
          rw [(ih u (hus u List.mem_cons_self) ctx b _).mpr ⟨h₁, rfl⟩]
          exact (ihu (fun w h => hus w (List.mem_cons_of_mem _ h)) ctx _ b').mpr ⟨h₂, h⟩
    rw [walkCursor_node, Rose.visit_node, List.forall_mem_cons, List.foldl_cons]
    have hroot : ∀ ctx', ctxBelow file_path ctx c = some ctx' →
        (¬Raises file_path (ctx, .node c ts) ↔ c.children_raise = none) := by
      intro ctx' h
      simp [Raises, h]
    cases hctx : ctxBelow file_path ctx c with
    | none => simp [Raises, hctx]
    | some ctx' =>
      simp only [Option.toList_some, List.flatMap_cons, List.flatMap_nil, List.append_nil]
      rw [getChildren_bind_eq_ok, below ts (fun _ h => h), hroot ctx' hctx, and_assoc]

/-- What the extraction of `file_path` visits below the root `t`. -/
def visits (t : Cursor) : List Visit := Rose.visit (ctxBelow file_path) ⟨none, none, none⟩ t

/-- The batch the walk collects, before `REFERENCES` edges are suppressed. -/
def collected (t : Cursor) : Batch :=
  (visits file_path t).foldl (emit sha1 file_path) (initialBatch file_path)

/-! ### `CALLS` edges are never emitted -/

/-- `CALL_EXPR` is not a schema kind, so a cursor that gets a label is of another kind. -/
theorem kindName_ne_callExpr {c : CursorInfo} {node_type : NodeType}
    (h : c.schema = some node_type) : c.kindName ≠ some .callExpr := by
  intro hcall
  obtain ⟨hfield, -⟩ | ⟨k, hk, htable⟩ := CursorInfo.schema_cases h
  · cases hfield.symm.trans hcall
  · cases hk.symm.trans hcall
    cases htable

/-- **The block for call expressions is dead:** it stands in the branch of the
schema cursors. -/
theorem emitCalls_eq_self {c : CursorInfo} {node_type : NodeType} (h : c.schema = some node_type)
    (parent_usr : Option String) (b : Batch) : emitCalls parent_usr c b = b := by
  unfold emitCalls
  rw [if_neg (kindName_ne_callExpr h)]

end Export
end CppMcp
