/-
# Call sites and use-sites

What the module docstring of `src/cpp_mcp/graphdb/exporter.py` asks of `CALLS` and
`REFERENCES` edges, said of the tree alone: a *place* is a subtree with its
ancestors, and `callOf` and `useOf` are the edges that the cursor there should
give, its source being the innermost enclosing function of the file.

The walk hands down the same function (`enclosing_of_descend`), but it does not
reach what stands below a parameter declaration (`visited_iff`).  So the
`REFERENCES` edges are complete exactly when no use-site is lost there
(`references_complete_iff`).  `CALLS` edges are never emitted, so they are
complete exactly when there is nothing to emit (`calls_exact_iff`).
-/

import CppMcp.Export.Links

namespace CppMcp
namespace Export

/-- A subtree with the cursors above it, nearest first. -/
abbrev Place := List CursorInfo × Cursor

/-- The cursor is located in the file. -/
def CursorInfo.StandsIn (c : CursorInfo) (file_path : String) : Prop :=
  (safeLocation c.location).1 = file_path

/-- The cursor is a function or method of the file: not one of another file, and
with a USR. -/
def CursorInfo.isFunctionOf (file_path : String) (c : CursorInfo) : Bool :=
  kindIn c.kindName functionCursorKinds && !c.foreign file_path && c.safeUsr != ""

/-- The place is below a cursor where the walk stops. -/
def Hidden (p : Place) : Prop := ∃ a ∈ p.1, a.stopsWalk = true

instance (p : Place) : Decidable (Hidden p) := inferInstanceAs (Decidable (∃ a ∈ p.1, _))

variable (file_path : String)

/-- The USR of the innermost function of the file among the ancestors. -/
def enclosingFunction (anc : List CursorInfo) : Option String :=
  (anc.find? (CursorInfo.isFunctionOf file_path)).map CursorInfo.safeUsr

/-- Source and target of the `REFERENCES` edge that a use-site should give. -/
def useOf (p : Place) : Option (String × String) :=
  if kindIn p.2.label.kindName referenceCursorKinds then
    p.2.label.target.map fun u => ((enclosingFunction file_path p.1).getD (fileUsr file_path), u)
  else none

/-- Source and target of the `CALLS` edge that a call site should give: calls
outside functions give none. -/
def callOf (p : Place) : Option (String × String) :=
  if p.2.label.kindName = some .callExpr then
    (enclosingFunction file_path p.1).bind fun g => p.2.label.target.map fun u => (g, u)
  else none

/-- **`REFERENCES` edges are complete:** every use-site of the file has its edge,
unless a `CALLS` edge covers the pair. -/
def ReferencesComplete (t : Cursor) (edges : List EdgeRecord) : Prop :=
  ∀ p ∈ t.paths, p.2.label.StandsIn file_path → ∀ s u, useOf file_path p = some (s, u) →
    ⟨s, u, .references, []⟩ ∈ edges ∨ (s, u) ∈ callsPairs edges

/-- **`CALLS` edges are exact:** every call site of the file has its edge, there
are no others, and no `REFERENCES` edge has the pair of one. -/
structure CallsExact (t : Cursor) (edges : List EdgeRecord) : Prop where
  complete : ∀ p ∈ t.paths, p.2.label.StandsIn file_path → ∀ q, callOf file_path p = some q →
    q ∈ callsPairs edges
  sound : ∀ q ∈ callsPairs edges, ∃ p ∈ t.paths, p.2.label.StandsIn file_path ∧
    callOf file_path p = some q
  suppressed : ∀ e ∈ edges, e.edge_type = .references →
    (e.source_usr, e.target_usr) ∉ callsPairs edges

/-! ### What the walk reaches -/

/-- A function of the file is of a function kind. -/
theorem kindIn_of_isFunctionOf {c : CursorInfo} (h : c.isFunctionOf file_path = true) :
    kindIn c.kindName functionCursorKinds = true := by
  simp only [CursorInfo.isFunctionOf, Bool.and_eq_true] at h
  exact h.1.1

/-- A schema cursor of a function kind is a function of the file, if it stands there. -/
theorem isFunctionOf_of_kindIn {c : CursorInfo} {node_type : NodeType}
    (hs : c.schema = some node_type) (hf : c.foreign file_path = false)
    (hk : kindIn c.kindName functionCursorKinds = true) : c.isFunctionOf file_path = true := by
  simp [CursorInfo.isFunctionOf, hk, hf, CursorInfo.safeUsr_ne_empty hs]

/-- A function kind is a schema kind, and none of those taken first. -/
theorem schema_of_isFunctionOf {c : CursorInfo} (h : c.isFunctionOf file_path = true) :
    c.Ordinary ∧ c.foreign file_path = false ∧ c.schema = some .function := by
  simp only [CursorInfo.isFunctionOf, Bool.and_eq_true, Bool.not_eq_true', bne_iff_ne] at h
  obtain ⟨⟨hk, hf⟩, hu⟩ := h
  obtain ⟨k, hmem, hkind⟩ := kindIn_iff.mp hk
  unfold CursorInfo.Ordinary CursorInfo.schema classifyNode
  rw [if_neg hu, hkind]
  simp only [functionCursorKinds, List.mem_cons, List.not_mem_nil, or_false] at hmem
  rcases hmem with rfl | rfl | rfl | rfl | rfl <;>
    exact ⟨by decide, hf, rfl⟩

/-- Below a cursor the enclosing function is the cursor itself if it is one. -/
theorem enclosing_of_ctxBelow {ctx ctx' : Ctx} {c : CursorInfo}
    (h : ctxBelow file_path ctx c = some ctx') :
    ctx'.enclosing_func_usr =
      if c.isFunctionOf file_path then some c.safeUsr else ctx.enclosing_func_usr := by
  have hcases := branch_cases default file_path ctx (.node c [])
  simp only [Rose.label_node, h] at hcases
  have hord : c.isFunctionOf file_path = true → c.Ordinary ∧ c.foreign file_path = false ∧
    c.schema = some .function := schema_of_isFunctionOf file_path
  rcases hcases with ⟨-, hc, -⟩ | ⟨-, hc, -⟩ | ⟨hk, hc, -⟩ | ⟨-, hf, hc, -⟩ |
    ⟨-, hf, node_type, hs, hc, -⟩ | ⟨-, -, hs, hc, -⟩
  · exact absurd hc (by simp)
  · exact absurd hc (by simp)
  · obtain rfl := Option.some.inj hc
    rw [if_neg fun hfun => by rw [(hord hfun).1.2.2] at hk; exact Bool.false_ne_true hk]
  · obtain rfl := Option.some.inj hc
    rw [if_neg fun hfun => by rw [(hord hfun).2.1] at hf; exact Bool.false_ne_true hf]
  · obtain rfl := Option.some.inj hc
    simp [CursorInfo.nextEnclosing, CursorInfo.isFunctionOf, hf, CursorInfo.safeUsr_ne_empty hs]
  · obtain rfl := Option.some.inj hc
    rw [if_neg fun hfun => by rw [(hord hfun).2.2] at hs; exact Option.some_ne_none _ hs]

/-- **The walk hands down the innermost enclosing function,** the last function of the file among
the ancestors of a cursor. -/
theorem enclosing_of_descend {anc : List CursorInfo} {ctx : Ctx}
    (h : Rose.descend (ctxBelow file_path) ⟨none, none, none⟩ anc = some ctx) :
    ctx.enclosing_func_usr = enclosingFunction file_path anc := by
  induction anc generalizing ctx with
  | nil => obtain rfl := Option.some.inj h; rfl
  | cons c anc ih =>
    obtain ⟨ctx₀, h₀, h⟩ := Option.bind_eq_some_iff.mp h
    rw [enclosing_of_ctxBelow file_path h, ih h₀, enclosingFunction, enclosingFunction,
      List.find?_cons]
    cases c.isFunctionOf file_path <;> rfl

/-- The walk comes to a place exactly if it stops at none of the ancestors. -/
theorem descend_isSome_iff (anc : List CursorInfo) :
    (Rose.descend (ctxBelow file_path) ⟨none, none, none⟩ anc).isSome ↔
      ∀ a ∈ anc, a.stopsWalk = false := by
  induction anc with
  | nil => simp [Rose.descend]
  | cons c anc ih =>
    rw [List.forall_mem_cons, ← ih, Rose.descend]
    cases Rose.descend (ctxBelow file_path) ⟨none, none, none⟩ anc with
    | none => simp
    | some ctx =>
      rw [Option.bind_some, Option.isSome_iff_ne_none, ne_eq, ctxBelow_eq_none_iff]
      simp

/-- **What is visited:** the places that are not hidden, with their enclosing
function. -/
theorem visited_iff {t s : Cursor} {g : Option String} :
    (∃ ctx, (ctx, s) ∈ visits file_path t ∧ ctx.enclosing_func_usr = g) ↔
      ∃ p ∈ t.paths, ¬Hidden p ∧ p.2 = s ∧ enclosingFunction file_path p.1 = g := by
  have hsome : ∀ p : Place, ¬Hidden p ↔
      (Rose.descend (ctxBelow file_path) ⟨none, none, none⟩ p.1).isSome := by
    intro p
    rw [descend_isSome_iff, Hidden]
    simp
  constructor
  · rintro ⟨ctx, hmem, rfl⟩
    obtain ⟨anc, hp, hdesc⟩ := Rose.mem_visit_iff.mp hmem
    exact ⟨(anc, s), hp, (hsome (anc, s)).mpr (by rw [hdesc]; rfl), rfl,
      (enclosing_of_descend file_path hdesc).symm⟩
  · rintro ⟨⟨anc, s⟩, hp, hvis, rfl, rfl⟩
    obtain ⟨ctx, hdesc⟩ := Option.isSome_iff_exists.mp ((hsome _).mp hvis)
    exact ⟨ctx, Rose.mem_visit_iff.mpr ⟨anc, hp, hdesc⟩, enclosing_of_descend file_path hdesc⟩

/-! ### The `REFERENCES` edges of an export -/

/-- A visit emits a `REFERENCES` edge only at a use-site. -/
theorem mem_linkEdges_references_iff {v : Visit} {s u : String} :
    ⟨s, u, .references, []⟩ ∈ linkEdges file_path v ↔
      kindIn v.2.label.kindName referenceCursorKinds = true ∧ v.2.label.target = some u ∧
        s = v.1.enclosing_func_usr.getD (fileUsr file_path) := by
  constructor
  · intro h
    obtain ⟨-, h⟩ | ⟨hr, h⟩ | ⟨-, hparent | h⟩ := (mem_linkEdges_iff file_path).mp h
    · cases edge_type_of_mem_inclusionEdges h
    · obtain ⟨target, htarget, heq⟩ := List.mem_map.mp h
      cases heq
      exact ⟨hr, Option.mem_toList.mp htarget, rfl⟩
    · rcases parentEdge_cases file_path v.1 v.2.label with ⟨p, -, h⟩ | ⟨k, rfl | rfl, h⟩ <;>
        cases hparent.trans h
    · cases edge_type_of_mem_inheritsEdges h
  · rintro ⟨hr, hu, rfl⟩
    refine (mem_linkEdges_iff file_path).mpr (Or.inr (Or.inl ⟨hr, ?_⟩))
    exact List.mem_map.mpr ⟨u, Option.mem_toList.mpr hu, rfl⟩

/-- **The `REFERENCES` edges** are those of the use-sites that are not hidden,
whatever file these stand in. -/
theorem mem_collected_references_iff (sha1 : Py.Sha1) {t : Cursor} {s u : String} :
    ⟨s, u, .references, []⟩ ∈ (collected sha1 file_path t).edges ↔
      ∃ q ∈ t.paths, ¬Hidden q ∧ useOf file_path q = some (s, u) := by
  rw [mem_collected_edges_iff sha1 file_path rfl]
  constructor
  · rintro ⟨⟨ctx, c⟩, hmem, hv⟩
    obtain ⟨hk, hu, rfl⟩ := (mem_linkEdges_references_iff file_path).mp hv
    obtain ⟨q, hq, hvis, rfl, henc⟩ := (visited_iff file_path).mp ⟨ctx, hmem, rfl⟩
    refine ⟨q, hq, hvis, ?_⟩
    dsimp only at hk hu ⊢
    rw [useOf, if_pos hk, hu, Option.map_some, henc]
  · rintro ⟨q, hq, hvis, huse⟩
    obtain ⟨ctx, hmem, henc⟩ := (visited_iff file_path).mpr ⟨q, hq, hvis, rfl, rfl⟩
    unfold useOf at huse
    split_ifs at huse with hk
    obtain ⟨u', hu, heq⟩ := Option.map_eq_some_iff.mp huse
    obtain ⟨rfl, rfl⟩ := Prod.mk.inj heq
    exact ⟨(ctx, q.2), hmem, (mem_linkEdges_references_iff file_path).mpr ⟨hk, hu, by rw [henc]⟩⟩

/-- An export has no `CALLS` edge: the block that would give one is never reached. -/
theorem callsPairs_collected (sha1 : Py.Sha1) (t : Cursor) :
    callsPairs (collected sha1 file_path t).edges = [] := by
  rw [callsPairs, List.map_eq_nil_iff, List.filter_eq_nil_iff]
  intro e he
  simpa using collected_ne_calls sha1 file_path t e he

/-! ### Completeness -/

variable {file_path}

/-- **When the `CALLS` edges are exact:** when no call site of the file has an edge to give. The
block of `_walk_cursor` that makes them is behind the test for the kinds that get a node, and a
`CALL_EXPR` gets none. -/
theorem calls_exact_iff {sha1 : Py.Sha1} {t : Cursor} {r : List NodeRecord × List EdgeRecord}
    (h : extractNodesAndEdges sha1 file_path t = .ok r) :
    CallsExact file_path t r.2 ↔
      ∀ p ∈ t.paths, p.2.label.StandsIn file_path → callOf file_path p = none := by
  obtain ⟨-, rfl⟩ := (extract_eq_ok_iff sha1 file_path).mp h
  have hnil := callsPairs_collected file_path sha1 t
  constructor
  · intro hex p hp hin
    refine Option.eq_none_iff_forall_ne_some.mpr fun q hq => ?_
    have hmem := hex.complete p hp hin q hq
    rw [hnil] at hmem
    exact List.not_mem_nil hmem
  · intro hnone
    refine ⟨fun p hp hin q hq => ?_, fun q hq => ?_, fun e _ _ hq => ?_⟩
    · rw [hnone p hp hin] at hq
      exact absurd hq (by simp)
    · rw [hnil] at hq
      exact absurd hq List.not_mem_nil
    · rw [hnil] at hq
      exact absurd hq List.not_mem_nil

/-- `void f() { g(); }` -/
def callingTree : Cursor :=
  .node { kind := .ok (.other 350) } [
    .node { kind := .ok .functionDecl, get_usr := .ok "c:@F@f#", spelling := .ok "f",
            location := .ok { file := "/proj/a.cpp", line := 1, column := 6 },
            is_definition := .ok true } [
      .node { kind := .ok (.other 202),
              location := .ok { file := "/proj/a.cpp", line := 1, column := 10 } } [
        .node { kind := .ok .callExpr, spelling := .ok "g",
                location := .ok { file := "/proj/a.cpp", line := 1, column := 12 },
                referenced := .ok (some ⟨.ok "c:@F@g#"⟩) } []]]]

/-- `get_children()` raises nowhere in this tree. -/
theorem callingTree_children : ∀ s ∈ callingTree.subtrees, s.label.children_raise = none := by
  simp [callingTree]

/-- **A call inside a function has no `CALLS` edge,** neither from the function nor from anywhere
else. -/
theorem callingTree_not_exact :
    ∃ r, extractNodesAndEdges default "/proj/a.cpp" callingTree = .ok r ∧
      ¬CallsExact "/proj/a.cpp" callingTree r.2 := by
  obtain ⟨r, hr⟩ := exists_extract_of_children default "/proj/a.cpp" callingTree_children
  refine ⟨r, hr, fun hex => ?_⟩
  obtain ⟨-, rfl⟩ := (extract_eq_ok_iff default "/proj/a.cpp").mp hr
  have hcomplete := hex.complete
  simp only [callsPairs_collected, callingTree, Rose.paths, Rose.visit_node, Option.toList_some,
    List.flatMap_cons, List.flatMap_nil, List.append_nil, List.mem_cons, List.not_mem_nil,
    or_false, forall_eq_or_imp, forall_eq] at hcomplete
  exact hcomplete.2.2.2 rfl ("c:@F@f#", "c:@F@g#") (by decide)

/-- `calls_exact_iff` at the tree of a function that calls another. -/
theorem calls_exact_iff_callingTree :
    ∃ r, extractNodesAndEdges default "/proj/a.cpp" callingTree = .ok r ∧
      (CallsExact "/proj/a.cpp" callingTree r.2 ↔
        ∀ p ∈ callingTree.paths, p.2.label.StandsIn "/proj/a.cpp" →
          callOf "/proj/a.cpp" p = none) :=
  (exists_extract_of_children default "/proj/a.cpp" callingTree_children).imp fun _ hr =>
    ⟨hr, calls_exact_iff hr⟩

/-- **When the `REFERENCES` edges are complete:** when every hidden use-site of
the file has the same source and target as one that is not hidden. -/
theorem references_complete_iff {sha1 : Py.Sha1} {t : Cursor}
    {r : List NodeRecord × List EdgeRecord} (h : extractNodesAndEdges sha1 file_path t = .ok r) :
    ReferencesComplete file_path t r.2 ↔
      ∀ p ∈ t.paths, p.2.label.StandsIn file_path → (useOf file_path p).isSome → Hidden p →
        ∃ q ∈ t.paths, ¬Hidden q ∧ useOf file_path q = useOf file_path p := by
  obtain ⟨-, rfl⟩ := (extract_eq_ok_iff sha1 file_path).mp h
  unfold ReferencesComplete
  simp only [callsPairs_collected, List.not_mem_nil, or_false, mem_collected_references_iff]
  constructor
  · intro hcomplete p hp hin hsome _
    obtain ⟨⟨s, u⟩, huse⟩ := Option.isSome_iff_exists.mp hsome
    obtain ⟨q, hq, hvis, huse'⟩ := hcomplete p hp hin s u huse
    exact ⟨q, hq, hvis, huse'.trans huse.symm⟩
  · intro hcond p hp hin s u huse
    by_cases hhid : Hidden p
    · obtain ⟨q, hq, hvis, huse'⟩ := hcond p hp hin (by rw [huse]; rfl) hhid
      exact ⟨q, hq, hvis, huse'.trans huse⟩
    · exact ⟨p, hp, hhid, huse⟩

/-- `void f(T x);` -/
def parameterTypeTree : Cursor :=
  .node { kind := .ok (.other 350) } [
    .node { kind := .ok .functionDecl, get_usr := .ok "c:@F@f#$@S@T#", spelling := .ok "f",
            location := .ok { file := "/proj/a.cpp", line := 1, column := 6 } } [
      .node { kind := .ok .parmDecl, spelling := .ok "x",
              location := .ok { file := "/proj/a.cpp", line := 1, column := 10 } } [
        .node { kind := .ok .typeRef, spelling := .ok "struct T",
                location := .ok { file := "/proj/a.cpp", line := 1, column := 8 },
                referenced := .ok (some ⟨.ok "c:@S@T"⟩) } []]]]

/-- `get_children()` raises nowhere in this tree. -/
theorem parameterTypeTree_children :
    ∀ s ∈ parameterTypeTree.subtrees, s.label.children_raise = none := by
  simp [parameterTypeTree]

/-- **The type of a parameter is not recorded as a use:** the walk returns early at a `PARM_DECL`,
and the reference to the type stands below it. -/
theorem parameterTypeTree_not_complete :
    ∃ r, extractNodesAndEdges default "/proj/a.cpp" parameterTypeTree = .ok r ∧
      ¬ReferencesComplete "/proj/a.cpp" parameterTypeTree r.2 := by
  obtain ⟨r, hr⟩ := exists_extract_of_children default "/proj/a.cpp" parameterTypeTree_children
  refine ⟨r, hr, fun hcomplete => ?_⟩
  obtain ⟨-, rfl⟩ := (extract_eq_ok_iff default "/proj/a.cpp").mp hr
  simp only [ReferencesComplete, callsPairs_collected, List.not_mem_nil, or_false,
    mem_collected_references_iff, parameterTypeTree, Rose.paths, Rose.visit_node,
    Option.toList_some, List.flatMap_cons, List.flatMap_nil, List.append_nil,
    List.mem_cons, exists_eq_or_imp, exists_eq_left, forall_eq_or_imp, forall_eq] at hcomplete
  have huse := hcomplete.2.2.2 rfl "c:@F@f#$@S@T#" "c:@S@T" (by decide)
  revert huse
  decide

/-- `references_complete_iff` at the tree of a function whose parameter has a type with a name. -/
theorem references_complete_iff_parameterTypeTree :
    ∃ r, extractNodesAndEdges default "/proj/a.cpp" parameterTypeTree = .ok r ∧
      (ReferencesComplete "/proj/a.cpp" parameterTypeTree r.2 ↔
        ∀ p ∈ parameterTypeTree.paths, p.2.label.StandsIn "/proj/a.cpp" →
          (useOf "/proj/a.cpp" p).isSome → Hidden p →
            ∃ q ∈ parameterTypeTree.paths, ¬Hidden q ∧
              useOf "/proj/a.cpp" q = useOf "/proj/a.cpp" p) :=
  (exists_extract_of_children default "/proj/a.cpp" parameterTypeTree_children).imp fun _ hr =>
    ⟨hr, references_complete_iff hr⟩

end Export
end CppMcp
