/-
# The edges that do not depend on what is already collected

The edges between a function, its parameters and their types are only emitted
when a USR is new.  All others, the *links* (`EdgeType.isLink`), are emitted at
every visit of the cursor they come from: an `INCLUDES` edge at an inclusion
directive, a `REFERENCES` edge at a use-site, the edge to the parent and the
`INHERITS` edges at a schema cursor.  `linkEdges` says which, and
`link_edges_collected` that these are the links of an export, in the order of
the visits.  There is no `CALLS` edge among them (`extract_eq_ok_iff`: nothing is
suppressed either).
-/

import CppMcp.Export.Visit

namespace CppMcp
namespace Export

/-- The edge types emitted at every visit. -/
def EdgeType.isLink : EdgeType → Bool
  | defines | declares | calls | inherits | references | includes | memberOf => true
  | returns | hasParam | ofType | pointsTo | refersTo => false

/-- The links among the edges of a batch. -/
def Batch.links (b : Batch) : List EdgeRecord := b.edges.filter fun e => e.edge_type.isLink

namespace Batch

variable (b : Batch)

/-- Adding an edge appends it to the links if its type is that of a link, and leaves them alone
otherwise. -/
theorem links_addEdge (s t : String) (k : EdgeType) (props : Props) :
    (b.addEdge s t k props).links = b.links ++ if k.isLink then [⟨s, t, k, props⟩] else [] := by
  rw [links, addEdge, List.filter_append]
  cases hk : k.isLink <;> simp [hk, links]

/-- An edge of another type is not one of the links. -/
@[simp] theorem links_addEdge_of_not_isLink {k : EdgeType} (hk : k.isLink = false) (s t : String)
    (props : Props) : (b.addEdge s t k props).links = b.links := by
  rw [links_addEdge, hk]; simp

/-- Nor is one that may have no target, as those that lead to a type are. -/
theorem links_addEdge?_of_not_isLink {k : EdgeType} (hk : k.isLink = false) (s : String)
    (t : Option String) : (b.addEdge? s t k).links = b.links := by
  cases t with
  | none => rfl
  | some t => exact links_addEdge_of_not_isLink b hk s t []

end Batch

variable (sha1 : Py.Sha1) (file_path : String)

/-! ### The blocks that emit no link -/

/-- One step of the type table records `POINTS_TO` and its kin, and none of these is a link. -/
theorem links_typeStep {t : CType} {b b' : Batch} {usr : Option String}
    (h : TypeStep sha1 t b b' usr) : b'.links = b.links := by
  induction h with
  | unspelled | taken | new => rfl
  | chain _ _ hk _ ih =>
    rcases chainEdge_cases hk with rfl | rfl <;>
      exact (Batch.links_addEdge_of_not_isLink _ rfl _ _ _).trans ih

/-- Entering a type in the table adds no link, however many steps it takes. -/
theorem links_getOrCreateTypeOf (type : Acc (Option CType)) (b : Batch) :
    (getOrCreateTypeOf sha1 b type).1.links = b.links := by
  rcases typeStep_getOrCreateTypeOf sha1 type b with h | ⟨t, -, h⟩
  · rw [h]
  · exact links_typeStep sha1 h

/-- Writing the node of a symbol with its type adds no link. -/
theorem links_emitSymbol (c : CursorInfo) (children : List Cursor) (node_type : NodeType)
    (b : Batch) : (emitSymbol sha1 c children node_type b).links = b.links := by
  unfold emitSymbol
  split_ifs
  · rfl
  · exact (Batch.links_addEdge?_of_not_isLink _ rfl _ _).trans (links_getOrCreateTypeOf ..)
  · rfl

/-- The `RETURNS` edge of a function is not a link. -/
theorem links_emitReturns (c : CursorInfo) (b : Batch) :
    (emitReturns sha1 c b).links = b.links := by
  unfold emitReturns
  split_ifs
  · exact (Batch.links_addEdge?_of_not_isLink _ rfl _ _).trans (links_getOrCreateTypeOf ..)
  · rfl

/-- The loop over the arguments adds `PARAM_OF` and `OF_TYPE` edges, which are not links. -/
theorem links_emitParamsFrom (usr : String) (params : List Param) (idx : ℕ) (b : Batch) :
    (emitParamsFrom sha1 usr idx params b).links = b.links := by
  induction params generalizing idx b with
  | nil => rfl
  | cons param rest ih =>
    rw [emitParamsFrom]
    split_ifs
    · exact ih _ _
    · have htype := links_getOrCreateTypeOf sha1 param.type (b.see (paramUsr usr idx))
      cases param.spelling with
      | error e => exact htype
      | ok spelling =>
        refine (ih _ _).trans ((Batch.links_addEdge?_of_not_isLink _ rfl _ _).trans ?_)
        exact (Batch.links_addEdge_of_not_isLink _ rfl _ _ _).trans htype

/-- The arguments of a function add no link, whatever kind the cursor is of. -/
theorem links_emitParams (c : CursorInfo) (b : Batch) : (emitParams sha1 c b).links = b.links := by
  unfold emitParams
  split_ifs
  · exact links_emitParamsFrom ..
  · rfl

/-! ### The blocks that emit links -/

/-- The `INCLUDES` edge of an inclusion directive. -/
def inclusionEdges (c : CursorInfo) : List EdgeRecord :=
  match c.get_included_file with
  | .ok (some (.ok inc_path)) => [⟨fileUsr file_path, fileUsr inc_path, .includes, []⟩]
  | _ => []

/-- The `REFERENCES` edge of a use-site. -/
def useEdges (enclosing_func_usr : Option String) (c : CursorInfo) : List EdgeRecord :=
  c.target.toList.map fun target =>
    ⟨enclosing_func_usr.getD (fileUsr file_path), target, .references, []⟩

/-- The edge between a schema cursor and its parent. -/
def parentEdge (ctx : Ctx) (c : CursorInfo) : EdgeRecord :=
  match ctx.parent_usr with
  | some parent_usr =>
    if kindIn ctx.parent_kind memberParentKinds && kindIn c.kindName memberKinds then
      ⟨c.safeUsr, parent_usr, .memberOf, [("access", .str (resolveAccess c ctx.parent_kind))]⟩
    else ⟨parent_usr, c.safeUsr, c.bodyEdge, []⟩
  | none => ⟨fileUsr file_path, c.safeUsr, c.bodyEdge, []⟩

/-- The `INHERITS` edges of a class. -/
def inheritsEdges (c : CursorInfo) (children : List Cursor) : List EdgeRecord :=
  if kindIn c.kindName inheritingKinds && c.children_raise.isNone then
    (baseUsrs children).map fun base_usr => ⟨c.safeUsr, base_usr, .inherits, []⟩
  else []

/-- The links that a visit emits, whatever has been collected before. -/
def linkEdges (v : Visit) : List EdgeRecord :=
  let c := v.2.label
  if c.kindName = some .parmDecl then []
  else if c.kindName = some .inclusionDirective then inclusionEdges file_path c
  else if kindIn c.kindName referenceCursorKinds then
    useEdges file_path v.1.enclosing_func_usr c
  else if c.foreign file_path then []
  else if c.schema = none then []
  else parentEdge file_path v.1 c :: inheritsEdges c v.2.children

/-- The edge to the parent is a `MEMBER_OF` edge to a class, or a `DEFINES` or
`DECLARES` edge from the parent, the file if there is none. -/
theorem parentEdge_cases (ctx : Ctx) (c : CursorInfo) :
    (∃ p, ctx.parent_usr = some p ∧ parentEdge file_path ctx c =
      ⟨c.safeUsr, p, .memberOf, [("access", .str (resolveAccess c ctx.parent_kind))]⟩) ∨
    ∃ k, (k = .defines ∨ k = .declares) ∧ parentEdge file_path ctx c =
      ⟨ctx.parent_usr.getD (fileUsr file_path), c.safeUsr, k, []⟩ := by
  have hdef : c.bodyEdge = .defines ∨ c.bodyEdge = .declares := by
    unfold CursorInfo.bodyEdge
    split_ifs <;> simp
  unfold parentEdge
  cases hp : ctx.parent_usr with
  | none => exact Or.inr ⟨_, hdef, rfl⟩
  | some p =>
    by_cases hm : (kindIn ctx.parent_kind memberParentKinds && kindIn c.kindName memberKinds) = true
    · exact Or.inl ⟨p, rfl, if_pos hm⟩
    · exact Or.inr ⟨_, hdef, if_neg hm⟩

/-- Whichever of its three types the edge to the parent has, it is a link. -/
theorem isLink_parentEdge (ctx : Ctx) (c : CursorInfo) :
    (parentEdge file_path ctx c).edge_type.isLink = true := by
  rcases parentEdge_cases file_path ctx c with ⟨p, -, h⟩ | ⟨k, rfl | rfl, h⟩ <;> rw [h] <;> rfl

/-- What an inclusion directive adds to the edges: one `INCLUDES` edge, or nothing where the
included file is not known. -/
theorem edges_emitInclusion (c : CursorInfo) (b : Batch) :
    (emitInclusion (fileUsr file_path) c b).edges = b.edges ++ inclusionEdges file_path c := by
  unfold emitInclusion inclusionEdges
  rcases c.get_included_file with e | (_ | (e | inc_path))
  · simp
  · simp
  · simp
  · dsimp only
    split_ifs <;> rfl

/-- What a use-site adds to the edges: one `REFERENCES` edge, or nothing where the referenced cursor
has no USR. -/
theorem edges_emitUseSite (enclosing_func_usr : Option String) (c : CursorInfo) (b : Batch) :
    (emitUseSite (fileUsr file_path) enclosing_func_usr c b).edges =
      b.edges ++ useEdges file_path enclosing_func_usr c := by
  unfold emitUseSite useEdges
  cases c.target <;> simp [Batch.addEdge?, Batch.addEdge]

/-- Every schema cursor of the file gets exactly one edge to its parent or to the file. -/
theorem edges_emitParentEdge (ctx : Ctx) (c : CursorInfo) (b : Batch) :
    (emitParentEdge (fileUsr file_path) ctx.parent_usr ctx.parent_kind c b).edges =
      b.edges ++ [parentEdge file_path ctx c] := by
  unfold emitParentEdge parentEdge
  cases ctx.parent_usr with
  | none => rfl
  | some p => dsimp only; split_ifs <;> rfl

/-- A class gets one `INHERITS` edge for each base specifier among its children whose base has a
USR. -/
theorem edges_emitInherits (c : CursorInfo) (children : List Cursor) (b : Batch) :
    (emitInherits c children b).edges = b.edges ++ inheritsEdges c children := by
  have fold : ∀ (us : List String) (b : Batch),
      (us.foldl (fun b base_usr => b.addEdge c.safeUsr base_usr .inherits) b).edges =
        b.edges ++ us.map fun base_usr => ⟨c.safeUsr, base_usr, .inherits, []⟩ := by
    intro us
    induction us with
    | nil => simp
    | cons u us ih => intro b; rw [List.foldl_cons, ih]; simp [Batch.addEdge]
  unfold emitInherits inheritsEdges
  split_ifs
  · exact fold _ b
  · simp

/-- Appending a list of links to the edges appends it to the links. -/
theorem links_of_edges_append {b b' : Batch} {l : List EdgeRecord}
    (h : b'.edges = b.edges ++ l) (hl : ∀ e ∈ l, e.edge_type.isLink = true) :
    b'.links = b.links ++ l := by
  rw [Batch.links, h, List.filter_append, List.filter_eq_self.mpr hl, Batch.links]

section EdgeTypes

variable {file_path} {c : CursorInfo} {e : EdgeRecord}

/-- Inclusion directives make `INCLUDES` edges only. -/
theorem edge_type_of_mem_inclusionEdges (h : e ∈ inclusionEdges file_path c) :
    e.edge_type = .includes := by
  unfold inclusionEdges at h
  split at h
  · cases List.mem_singleton.mp h
    rfl
  · cases h

/-- Use-sites make `REFERENCES` edges only. -/
theorem edge_type_of_mem_useEdges {enclosing_func_usr : Option String}
    (h : e ∈ useEdges file_path enclosing_func_usr c) : e.edge_type = .references := by
  obtain ⟨_, -, rfl⟩ := List.mem_map.mp h
  rfl

/-- Base specifiers make `INHERITS` edges only. -/
theorem edge_type_of_mem_inheritsEdges {children : List Cursor} (h : e ∈ inheritsEdges c children) :
    e.edge_type = .inherits := by
  unfold inheritsEdges at h
  split_ifs at h
  · obtain ⟨_, -, rfl⟩ := List.mem_map.mp h
    rfl
  · cases h

end EdgeTypes

/-- The edges of an inclusion directive are links. -/
theorem isLink_inclusionEdges (c : CursorInfo) :
    ∀ e ∈ inclusionEdges file_path c, e.edge_type.isLink = true := fun e he => by
  rw [edge_type_of_mem_inclusionEdges he]
  rfl

/-- The edges of a use-site are links. -/
theorem isLink_useEdges (enclosing_func_usr : Option String) (c : CursorInfo) :
    ∀ e ∈ useEdges file_path enclosing_func_usr c, e.edge_type.isLink = true := fun e he => by
  rw [edge_type_of_mem_useEdges he]
  rfl

/-- The edges of the base specifiers of a class are links. -/
theorem isLink_inheritsEdges (c : CursorInfo) (children : List Cursor) :
    ∀ e ∈ inheritsEdges c children, e.edge_type.isLink = true := fun e he => by
  rw [edge_type_of_mem_inheritsEdges he]
  rfl

/-- **The links of a visit:** those of an inclusion directive, of a use-site, or of a schema cursor of
the file. -/
theorem mem_linkEdges_iff {v : Visit} {e : EdgeRecord} : e ∈ linkEdges file_path v ↔
    (v.2.label.kindName = some .inclusionDirective ∧ e ∈ inclusionEdges file_path v.2.label) ∨
    (kindIn v.2.label.kindName referenceCursorKinds = true ∧
      e ∈ useEdges file_path v.1.enclosing_func_usr v.2.label) ∨
    (v.2.label.Ordinary ∧ v.2.label.foreign file_path = false ∧ v.2.label.schema ≠ none) ∧
      (e = parentEdge file_path v.1 v.2.label ∨ e ∈ inheritsEdges v.2.label v.2.children) := by
  constructor
  · intro h
    unfold linkEdges at h
    dsimp only at h
    split_ifs at h with hparm hincl href hfor hschema
    · cases h
    · exact Or.inl ⟨hincl, h⟩
    · exact Or.inr (Or.inl ⟨href, h⟩)
    · cases h
    · cases h
    · exact Or.inr (Or.inr ⟨⟨⟨hparm, hincl, Bool.eq_false_iff.mpr href⟩,
        Bool.eq_false_iff.mpr hfor, hschema⟩, List.mem_cons.mp h⟩)
  · rintro (⟨hincl, h⟩ | ⟨href, h⟩ | ⟨⟨⟨hparm, hincl, href⟩, hfor, hschema⟩, h⟩)
    · rw [linkEdges, if_neg (by rw [hincl]; decide), if_pos hincl]
      exact h
    · obtain ⟨hparm, hincl⟩ := CursorInfo.ne_of_reference href
      rw [linkEdges, if_neg hparm, if_neg hincl, if_pos href]
      exact h
    · rw [linkEdges, if_neg hparm, if_neg hincl, if_neg (by rw [href]; decide),
        if_neg (by rw [hfor]; decide), if_neg hschema]
      exact List.mem_cons.mpr h

/-- A cursor that gets a node adds the edge to its parent and those to its bases, in this order, and
no other link. -/
theorem links_emitSchema {c : CursorInfo} {node_type : NodeType} (hs : c.schema = some node_type)
    (ctx : Ctx) (children : List Cursor) (b : Batch) :
    (emitSchema sha1 (fileUsr file_path) ctx node_type c children b).links =
      b.links ++ parentEdge file_path ctx c :: inheritsEdges c children := by
  unfold emitSchema
  rw [links_emitParams, links_emitReturns, emitCalls_eq_self hs,
    links_of_edges_append (edges_emitInherits ..) (isLink_inheritsEdges _ _),
    links_of_edges_append (edges_emitParentEdge ..) (by simpa using isLink_parentEdge ..),
    links_emitSymbol, List.append_assoc, List.singleton_append]

/-- **Every visit appends its links** to those that the batch has, whatever else it records. -/
theorem links_emit (b : Batch) (v : Visit) :
    (emit sha1 file_path b v).links = b.links ++ linkEdges file_path v := by
  obtain ⟨ctx, t⟩ := v
  unfold linkEdges
  rcases branch_cases sha1 file_path ctx t with
    ⟨hk, -, hemit⟩ | ⟨hk, -, hemit⟩ | ⟨hk, -, hemit⟩ | ⟨⟨hp, hi, hr⟩, hf, -, hemit⟩ |
    ⟨⟨hp, hi, hr⟩, hf, node_type, hs, -, hemit⟩ | ⟨⟨hp, hi, hr⟩, hf, hs, -, hemit⟩ <;>
  rw [hemit b]
  · simp [hk]
  · rw [links_of_edges_append (edges_emitInclusion ..) (isLink_inclusionEdges _ _)]
    simp [hk]
  · rw [links_of_edges_append (edges_emitUseSite ..) (isLink_useEdges _ _ _)]
    obtain ⟨hp, hi⟩ := CursorInfo.ne_of_reference hk
    simp [hp, hi, hk]
  · simp [hp, hi, hr, hf]
  · rw [links_emitSchema sha1 file_path hs]
    simp [hp, hi, hr, hf, hs]
  · simp [hp, hi, hr, hf, hs]

/-- **The links of an export are those of its visits, in their order.** -/
theorem link_edges_collected (t : Cursor) :
    (collected sha1 file_path t).links = (visits file_path t).flatMap (linkEdges file_path) := by
  have fold : ∀ (vs : List Visit) (b : Batch),
      (vs.foldl (emit sha1 file_path) b).links = b.links ++ vs.flatMap (linkEdges file_path) := by
    intro vs
    induction vs with
    | nil => simp
    | cons v vs ih => intro b; rw [List.foldl_cons, ih, links_emit, List.flatMap_cons,
        List.append_assoc]
  rw [collected, fold]
  rfl

/-- Membership in the links, for an edge of a link type. -/
theorem mem_collected_edges_iff {t : Cursor} {e : EdgeRecord} (he : e.edge_type.isLink = true) :
    e ∈ (collected sha1 file_path t).edges ↔ ∃ v ∈ visits file_path t, e ∈ linkEdges file_path v := by
  rw [← List.mem_flatMap, ← link_edges_collected sha1, Batch.links, List.mem_filter]
  exact ⟨fun h => ⟨h, he⟩, fun h => h.1⟩

/-! ### No `CALLS` edge -/

/-- No visit makes a `CALLS` edge: the exporter's branch for calls is behind the test for a node
kind, and a call expression is of none. -/
theorem linkEdges_ne_calls (v : Visit) : ∀ e ∈ linkEdges file_path v, e.edge_type ≠ .calls := by
  intro e he hcalls
  obtain ⟨-, he⟩ | ⟨-, he⟩ | ⟨-, rfl | he⟩ := (mem_linkEdges_iff file_path).mp he
  · cases (edge_type_of_mem_inclusionEdges he).symm.trans hcalls
  · cases (edge_type_of_mem_useEdges he).symm.trans hcalls
  · rcases parentEdge_cases file_path v.1 v.2.label with ⟨p, -, h⟩ | ⟨k, rfl | rfl, h⟩ <;>
      rw [h] at hcalls <;> cases hcalls
  · cases (edge_type_of_mem_inheritsEdges he).symm.trans hcalls

/-- **No export has a `CALLS` edge,** whatever the tree and the file. -/
theorem collected_ne_calls (t : Cursor) :
    ∀ e ∈ (collected sha1 file_path t).edges, e.edge_type ≠ .calls := by
  intro e he hcalls
  obtain ⟨v, -, hv⟩ := (mem_collected_edges_iff sha1 file_path (by rw [hcalls]; rfl)).mp he
  exact linkEdges_ne_calls file_path v e hv hcalls

/-- **What `extract_nodes_and_edges` returns:** it returns exactly when
`get_children()` raises nowhere it is called to descend, and then the nodes and
the edges that the visits collected, none of them suppressed. -/
theorem extract_eq_ok_iff {t : Cursor} {r : List NodeRecord × List EdgeRecord} :
    extractNodesAndEdges sha1 file_path t = .ok r ↔
      (∀ v ∈ visits file_path t, ¬Raises file_path v) ∧
        r = ((collected sha1 file_path t).nodes, (collected sha1 file_path t).edges) := by
  have hsup : suppressReferences (collected sha1 file_path t).edges =
      (collected sha1 file_path t).edges := by
    have hnil : callsPairs (collected sha1 file_path t).edges = [] := by
      rw [callsPairs, List.map_eq_nil_iff, List.filter_eq_nil_iff]
      intro e he
      simpa using collected_ne_calls sha1 file_path t e he
    rw [suppressReferences, if_pos hnil]
  have hwalk := walkCursor_eq_ok_iff sha1 file_path t ⟨none, none, none⟩ (initialBatch file_path)
  unfold extractNodesAndEdges
  constructor
  · intro h
    cases hb : walkCursor sha1 file_path (initialBatch file_path) ⟨none, none, none⟩ t with
    | error e => rw [hb] at h; exact absurd h (by simp [bind, Except.bind])
    | ok b =>
      obtain ⟨hr, hcol⟩ := (hwalk b).mp hb
      rw [hb] at h
      refine ⟨hr, ?_⟩
      rw [← hsup]
      unfold collected visits
      rw [hcol]
      exact (Except.ok.inj h).symm
  · rintro ⟨hr, rfl⟩
    rw [(hwalk _).mpr ⟨hr, rfl⟩, ← hsup]
    rfl

/-- If `get_children()` raises at no cursor of the tree, the export returns a result. -/
theorem exists_extract_of_children {t : Cursor}
    (h : ∀ s ∈ t.subtrees, s.label.children_raise = none) :
    ∃ r, extractNodesAndEdges sha1 file_path t = .ok r :=
  ⟨_, (extract_eq_ok_iff sha1 file_path).mpr
    ⟨fun v hv hr => hr.2 (h v.2 (Rose.mem_subtrees_of_mem_visit hv)), rfl⟩⟩

end Export
end CppMcp
