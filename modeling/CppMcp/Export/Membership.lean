/-
# Members and their classes

A `MEMBER_OF` edge should join each member of a class of the file to that class, with its access, and
nothing else.  `_walk_cursor` in `src/cpp_mcp/graphdb/exporter.py` emits one where a cursor of a listed
kind stands in the context of a class.  The list has no kind for member function templates, and none for
static data members that are `VAR_DECL`s; and a cursor can stand in the context of a class without being
directly in it, such as the function that a friend declaration names.

`membershipComplete_iff` says that the edges are right exactly if whatever is left out or misplaced in
this way is made up for by another cursor with the same USRs.
-/

import CppMcp.Export.Links

namespace CppMcp
namespace Export

/-- The kinds of the members of a class: fields, static data members, and member functions with their
templates. -/
def classMemberKinds : List CursorKind :=
  [.fieldDecl, .varDecl, .cxxMethod, .constructor_, .destructor, .functionTemplate]

/-- The access of a member: its own, or else that of the kind of class. -/
def accessOf (c p : CursorInfo) : String :=
  match c.access_specifier with
  | .ok .isPublic => "public"
  | .ok .isProtected => "protected"
  | .ok .isPrivate => "private"
  | _ => if p.kindName = some .structDecl ∨ p.kindName = some .unionDecl then "public" else "private"

/-- The edge from a member to its class. -/
def memberEdge (c p : CursorInfo) : EdgeRecord :=
  ⟨c.safeUsr, p.safeUsr, .memberOf, [("access", .str (accessOf c p))]⟩

section Walk

variable (file_path : String) (t : Cursor)

/-- A cursor of the file stands directly in a class of the file, as a member of it; `anc` is what the
class stands in, the nearest first. -/
structure Member (anc : List CursorInfo) (s : Cursor) (p : CursorInfo) : Prop where
  path : (p :: anc, s) ∈ t.paths
  parent_kind : kindIn p.kindName memberParentKinds = true
  parent_in_file : p.foreign file_path = false
  kind : kindIn s.label.kindName classMemberKinds = true
  in_file : s.label.foreign file_path = false
  usr : s.label.safeUsr ≠ ""

/-- **Membership is complete:** each member has an edge to its class, and each `MEMBER_OF` edge is the
edge of a member, with its access. -/
structure MembershipComplete (edges : List EdgeRecord) : Prop where
  complete : ∀ anc s p, Member file_path t anc s p →
    ∃ e ∈ edges, e.edge_type = .memberOf ∧ e.source_usr = s.label.safeUsr ∧ e.target_usr = p.safeUsr
  sound : ∀ e ∈ edges, e.edge_type = .memberOf →
    ∃ anc s p, Member file_path t anc s p ∧ e = memberEdge s.label p

/-! ### Whose context a cursor stands in -/

variable {t}

/-- The walk hands the context that it came with on to the children. -/
def CursorInfo.handsOn (c : CursorInfo) : Bool :=
  kindIn c.kindName referenceCursorKinds || (!c.foreign file_path && c.schema.isNone)

/-- The cursor whose context the walk hands down below `anc`. -/
def holder : List CursorInfo → Option CursorInfo
  | [] => none
  | a :: anc =>
    if a.handsOn file_path then holder anc else if a.foreign file_path then none else some a

/-- The context is that of a cursor. -/
structure Ctx.Of (ctx : Ctx) (q : Option CursorInfo) : Prop where
  parent_usr : ctx.parent_usr = q.map CursorInfo.safeUsr
  parent_kind : ctx.parent_kind = q.bind CursorInfo.kindName

/-- One cursor further down, the context is again that of the cursor that `holder` finds: one that
hands on keeps it, one of another file clears it, and any other puts itself in. -/
theorem ctxBelow_of {ctx ctx' : Ctx} {a : CursorInfo} {anc : List CursorInfo}
    (hctx : ctx.Of (holder file_path anc)) (h : ctxBelow file_path ctx a = some ctx') :
    ctx'.Of (holder file_path (a :: anc)) := by
  have hcases := branch_cases default file_path ctx (.node a [])
  simp only [Rose.label_node] at hcases
  rcases hcases with ⟨-, hnone, -⟩ | ⟨-, hnone, -⟩ | ⟨href, hsome, -⟩ | ⟨⟨-, -, href⟩, hfor, hsome, -⟩ |
    ⟨⟨-, -, href⟩, hfor, _, hschema, hsome, -⟩ | ⟨⟨-, -, href⟩, hfor, hschema, hsome, -⟩
  · cases hnone.symm.trans h
  · cases hnone.symm.trans h
  · cases hsome.symm.trans h
    rwa [holder, if_pos (by simp [CursorInfo.handsOn, href])]
  · cases hsome.symm.trans h
    rw [holder, if_neg (by simp [CursorInfo.handsOn, href, hfor]), if_pos hfor]
    exact ⟨rfl, rfl⟩
  · cases hsome.symm.trans h
    rw [holder, if_neg (by simp [CursorInfo.handsOn, href, hschema]), if_neg (by simp [hfor])]
    exact ⟨rfl, rfl⟩
  · cases hsome.symm.trans h
    rwa [holder, if_pos (by simp [CursorInfo.handsOn, hfor, hschema])]

/-- **The context handed down,** and that one is wherever nothing above stops the walk. -/
theorem descend_eq_some {anc : List CursorInfo} {ctx : Ctx}
    (h : Rose.descend (ctxBelow file_path) ⟨none, none, none⟩ anc = some ctx) :
    (∀ a ∈ anc, a.stopsWalk = false) ∧ ctx.Of (holder file_path anc) := by
  induction anc generalizing ctx with
  | nil =>
    cases h
    exact ⟨fun a ha => absurd ha List.not_mem_nil, rfl, rfl⟩
  | cons a anc ih =>
    obtain ⟨above, habove, hbelow⟩ := Option.bind_eq_some_iff.mp h
    obtain ⟨hstops, hof⟩ := ih habove
    have hstop : a.stopsWalk = false := by
      rw [← Bool.not_eq_true, ← ctxBelow_eq_none_iff file_path above a, hbelow]
      exact nofun
    exact ⟨List.forall_mem_cons.mpr ⟨hstop, hstops⟩, ctxBelow_of file_path hof hbelow⟩

/-- Below cursors none of which stops the walk, some context is handed down, whatever files the
cursors are of. -/
theorem exists_descend {anc : List CursorInfo} (h : ∀ a ∈ anc, a.stopsWalk = false) :
    ∃ ctx, Rose.descend (ctxBelow file_path) ⟨none, none, none⟩ anc = some ctx := by
  induction anc with
  | nil => exact ⟨_, rfl⟩
  | cons a anc ih =>
    obtain ⟨hstop, hstops⟩ := List.forall_mem_cons.mp h
    obtain ⟨above, habove⟩ := ih hstops
    have hsome : ctxBelow file_path above a ≠ none := fun hnone => by
      rw [ctxBelow_eq_none_iff, hstop] at hnone
      cases hnone
    obtain ⟨ctx, hctx⟩ := Option.ne_none_iff_exists'.mp hsome
    exact ⟨ctx, by rw [Rose.descend, habove, Option.bind_some, hctx]⟩

/-! ### Which `MEMBER_OF` edges there are -/

/-- A kind that is listed has a label, and the walk looks at the file of such a cursor. -/
theorem ordinary_of_memberKinds {c : CursorInfo} (h : kindIn c.kindName memberKinds = true) :
    c.Ordinary ∧ (c.safeUsr ≠ "" → c.schema ≠ none) := by
  obtain ⟨k, hmem, hk⟩ := kindIn_iff.mp h
  unfold CursorInfo.Ordinary CursorInfo.schema classifyNode
  simp only [memberKinds, List.mem_cons, List.not_mem_nil, or_false] at hmem
  rw [hk]
  obtain rfl | rfl | rfl | rfl := hmem <;>
    exact ⟨by decide, fun husr hnone => absurd hnone (by rw [if_neg husr]; exact nofun)⟩

/-- `_resolve_access` writes the access of the member itself, or else the default of the kind of
class that it stands in. -/
theorem resolveAccess_eq_accessOf (c p : CursorInfo) : resolveAccess c p.kindName = accessOf c p := by
  unfold resolveAccess accessOf
  cases hkind : p.kindName with
  | none => rfl
  | some k => cases k <;> rfl

/-- A cursor of the file is of a listed kind and stands in the context of a class. -/
structure Placed (t : Cursor) (anc : List CursorInfo) (s : Cursor) (q : CursorInfo) : Prop where
  path : (anc, s) ∈ t.paths
  reached : ∀ a ∈ anc, a.stopsWalk = false
  holds : holder file_path anc = some q
  parent_kind : kindIn q.kindName memberParentKinds = true
  kind : kindIn s.label.kindName memberKinds = true
  in_file : s.label.foreign file_path = false
  usr : s.label.safeUsr ≠ ""

/-- The edge from a parent that is no class is `DEFINES` or `DECLARES`, never `MEMBER_OF`. -/
theorem bodyEdge_ne_memberOf (c : CursorInfo) : c.bodyEdge ≠ .memberOf := by
  unfold CursorInfo.bodyEdge
  split_ifs <;> exact nofun

/-- The edge to the parent is a `MEMBER_OF` edge if the cursor is of a listed kind and the parent is a
class. -/
theorem eq_parentEdge_memberOf_iff {ctx : Ctx} {c : CursorInfo} {e : EdgeRecord}
    (he : e.edge_type = .memberOf) : e = parentEdge file_path ctx c ↔
      kindIn c.kindName memberKinds = true ∧ kindIn ctx.parent_kind memberParentKinds = true ∧
        ∃ parent_usr, ctx.parent_usr = some parent_usr ∧ e = ⟨c.safeUsr, parent_usr, .memberOf,
          [("access", .str (resolveAccess c ctx.parent_kind))]⟩ := by
  have hbody : ∀ s u, e ≠ ⟨s, u, c.bodyEdge, []⟩ := fun s u heq =>
    bodyEdge_ne_memberOf c ((congrArg EdgeRecord.edge_type heq).symm.trans he)
  unfold parentEdge
  cases ctx.parent_usr with
  | none => exact iff_of_false (hbody _ _) fun h => nomatch h.2.2
  | some parent_usr =>
    simp only [Option.some.injEq, exists_eq_left']
    split_ifs with hmember
    · obtain ⟨hparent, hkind⟩ := Bool.and_eq_true_iff.mp hmember
      exact ⟨fun heq => ⟨hkind, hparent, heq⟩, fun h => h.2.2⟩
    · refine iff_of_false (hbody _ _) fun h => hmember ?_
      rw [h.1, h.2.1]
      rfl

/-- A visit emits a `MEMBER_OF` edge if the cursor is of a listed kind in the context of a class. -/
theorem mem_linkEdges_memberOf_iff {v : Visit} {e : EdgeRecord} (he : e.edge_type = .memberOf) :
    e ∈ linkEdges file_path v ↔ kindIn v.2.label.kindName memberKinds = true ∧
      v.2.label.foreign file_path = false ∧ v.2.label.safeUsr ≠ "" ∧
      kindIn v.1.parent_kind memberParentKinds = true ∧ ∃ parent_usr, v.1.parent_usr = some parent_usr ∧
        e = ⟨v.2.label.safeUsr, parent_usr, .memberOf,
          [("access", .str (resolveAccess v.2.label v.1.parent_kind))]⟩ := by
  constructor
  · intro h
    obtain ⟨-, h⟩ | ⟨-, h⟩ | ⟨⟨-, hfile, hschema⟩, hedge | h⟩ := (mem_linkEdges_iff file_path).mp h
    · cases (edge_type_of_mem_inclusionEdges h).symm.trans he
    · cases (edge_type_of_mem_useEdges h).symm.trans he
    · obtain ⟨hkind, hparent, hedge⟩ := (eq_parentEdge_memberOf_iff file_path he).mp hedge
      obtain ⟨node_type, hlabel⟩ := Option.ne_none_iff_exists'.mp hschema
      exact ⟨hkind, hfile, CursorInfo.safeUsr_ne_empty hlabel, hparent, hedge⟩
    · cases (edge_type_of_mem_inheritsEdges h).symm.trans he
  · rintro ⟨hkind, hfile, husr, hparent, hedge⟩
    obtain ⟨hord, hschema⟩ := ordinary_of_memberKinds hkind
    refine (mem_linkEdges_iff file_path).mpr (Or.inr (Or.inr ⟨⟨hord, hfile, hschema husr⟩, ?_⟩))
    exact Or.inl ((eq_parentEdge_memberOf_iff file_path he).mpr ⟨hkind, hparent, hedge⟩)

/-- **The `MEMBER_OF` edges** are those of the cursors that are placed in classes. -/
theorem mem_collected_memberOf_iff (sha1 : Py.Sha1) {e : EdgeRecord} (he : e.edge_type = .memberOf) :
    e ∈ (collected sha1 file_path t).edges ↔
      ∃ anc s q, Placed file_path t anc s q ∧ e = memberEdge s.label q := by
  rw [mem_collected_edges_iff sha1 file_path (by rw [he]; rfl)]
  constructor
  · rintro ⟨⟨ctx, s⟩, hv, hmem⟩
    obtain ⟨anc, hpath, hctx⟩ := Rose.mem_visit_iff.mp hv
    obtain ⟨hkind, hfile, husr, hparent, parent_usr, hparent_usr, rfl⟩ :=
      (mem_linkEdges_memberOf_iff file_path he).mp hmem
    obtain ⟨hreached, hof⟩ := descend_eq_some file_path hctx
    obtain ⟨q, hq, hqusr⟩ := Option.map_eq_some_iff.mp (hof.parent_usr.symm.trans hparent_usr)
    have hqkind : ctx.parent_kind = q.kindName := by rw [hof.parent_kind, hq, Option.bind_some]
    refine ⟨anc, s, q, ⟨hpath, hreached, hq, hqkind ▸ hparent, hkind, hfile, husr⟩, ?_⟩
    rw [memberEdge, ← resolveAccess_eq_accessOf, ← hqkind, hqusr]
  · rintro ⟨anc, s, q, h, rfl⟩
    obtain ⟨ctx, hctx⟩ := exists_descend file_path h.reached
    obtain ⟨-, hof⟩ := descend_eq_some file_path hctx
    have hqusr : ctx.parent_usr = some q.safeUsr := by rw [hof.parent_usr, h.holds, Option.map_some]
    have hqkind : ctx.parent_kind = q.kindName := by rw [hof.parent_kind, h.holds, Option.bind_some]
    refine ⟨(ctx, s), Rose.mem_visit_iff.mpr ⟨anc, h.path, hctx⟩, ?_⟩
    refine (mem_linkEdges_memberOf_iff file_path he).mpr
      ⟨h.kind, h.in_file, h.usr, hqkind ▸ h.parent_kind, q.safeUsr, hqusr, ?_⟩
    rw [memberEdge, ← resolveAccess_eq_accessOf, ← hqkind]

/-! ### When they are right -/

/-- The walk leaves a member out: its kind is not listed, or its class has no USR, or the walk stops
before it gets there. -/
def LeftOut (anc : List CursorInfo) (s : Cursor) (p : CursorInfo) : Prop :=
  kindIn s.label.kindName memberKinds = false ∨ p.safeUsr = "" ∨ ∃ a ∈ anc, a.stopsWalk = true

variable (t)

/-- **What is left out or misplaced is made up for:** for each member that is left out, a cursor with its
USR is placed in a class with the USR of its class; and for each cursor that is placed in a class without
being directly in it, a member has its edge. -/
structure MembersCovered : Prop where
  left_out : ∀ anc s p, Member file_path t anc s p → LeftOut anc s p →
    ∃ anc' s' q, Placed file_path t anc' s' q ∧ s'.label.safeUsr = s.label.safeUsr ∧
      q.safeUsr = p.safeUsr
  misplaced : ∀ a anc s q, Placed file_path t (a :: anc) s q → a.handsOn file_path = true →
    ∃ anc' s' p, Member file_path t anc' s' p ∧ memberEdge s'.label p = memberEdge s.label q

variable {t}

/-- The kinds of class are not among those at which `_walk_cursor` returns early, so what stands in
a class is reached through it. -/
theorem CursorInfo.not_stopsWalk_of_parentKind {p : CursorInfo}
    (h : kindIn p.kindName memberParentKinds = true) : p.stopsWalk = false := by
  obtain ⟨k, hmem, hk⟩ := kindIn_iff.mp h
  unfold CursorInfo.stopsWalk
  simp only [memberParentKinds, List.mem_cons, List.not_mem_nil, or_false] at hmem
  rw [hk]
  obtain rfl | rfl | rfl | rfl := hmem <;> rfl

/-- A class with a USR does not hand on the context that it came with: it puts itself in its place
or, if foreign, clears it. -/
theorem CursorInfo.not_handsOn_of_parentKind {p : CursorInfo}
    (h : kindIn p.kindName memberParentKinds = true) (husr : p.safeUsr ≠ "") :
    p.handsOn file_path = false := by
  obtain ⟨k, hmem, hk⟩ := kindIn_iff.mp h
  unfold CursorInfo.handsOn CursorInfo.schema classifyNode
  simp only [memberParentKinds, List.mem_cons, List.not_mem_nil, or_false] at hmem
  rw [hk, if_neg husr]
  obtain rfl | rfl | rfl | rfl := hmem <;> exact Bool.and_false _

/-- A member that is not left out is placed in its class. -/
theorem Member.placed {anc : List CursorInfo} {s : Cursor} {p : CursorInfo}
    (h : Member file_path t anc s p) (hin : ¬LeftOut anc s p) : Placed file_path t (p :: anc) s p := by
  obtain ⟨hkind, hpusr, hreached⟩ : kindIn s.label.kindName memberKinds = true ∧ p.safeUsr ≠ "" ∧
      ∀ a ∈ anc, a.stopsWalk = false := by
    simpa [LeftOut] using hin
  refine ⟨h.path, ?_, ?_, h.parent_kind, hkind, h.in_file, h.usr⟩
  · exact List.forall_mem_cons.mpr ⟨CursorInfo.not_stopsWalk_of_parentKind h.parent_kind, hreached⟩
  · have hstays := CursorInfo.not_handsOn_of_parentKind file_path h.parent_kind hpusr
    rw [holder, if_neg (by rw [hstays]; decide), if_neg (by rw [h.parent_in_file]; decide)]

/-- A cursor that is placed in the class next above it is a member of that class. -/
theorem Placed.member {a : CursorInfo} {anc : List CursorInfo} {s : Cursor} {q : CursorInfo}
    (h : Placed file_path t (a :: anc) s q) (hstays : a.handsOn file_path = false) :
    Member file_path t anc s q := by
  have hholds := h.holds
  rw [holder, if_neg (by rw [hstays]; decide)] at hholds
  split_ifs at hholds with hforeign
  cases hholds
  have hmember : kindIn s.label.kindName classMemberKinds = true := by
    obtain ⟨k, hmem, hk⟩ := kindIn_iff.mp h.kind
    have hlisted : ∀ k ∈ memberKinds, k ∈ classMemberKinds := by decide
    exact kindIn_iff.mpr ⟨k, hlisted k hmem, hk⟩
  exact ⟨h.path, h.parent_kind, by simpa using hforeign, hmember, h.in_file, h.usr⟩

/-- **When membership is complete.** The `MEMBER_OF` edges are those of the members of the classes,
each with its access, exactly if what the list of kinds leaves out, or a context handed down
misplaces, is made up for by another member with the same edge. -/
theorem membershipComplete_iff {sha1 : Py.Sha1} {file_path : String} {t : Cursor}
    {r : List NodeRecord × List EdgeRecord} (h : extractNodesAndEdges sha1 file_path t = .ok r) :
    MembershipComplete file_path t r.2 ↔ MembersCovered file_path t := by
  obtain ⟨-, rfl⟩ := (extract_eq_ok_iff sha1 file_path).mp h
  constructor
  · intro hcomplete
    refine ⟨fun anc s p hmember _ => ?_, fun a anc s q hplaced _ => ?_⟩
    · obtain ⟨e, he, htype, hsource, htarget⟩ := hcomplete.complete anc s p hmember
      obtain ⟨anc', s', q, hplaced, rfl⟩ := (mem_collected_memberOf_iff file_path sha1 htype).mp he
      exact ⟨anc', s', q, hplaced, hsource, htarget⟩
    · have he := (mem_collected_memberOf_iff file_path sha1 rfl).mpr ⟨_, s, q, hplaced, rfl⟩
      obtain ⟨anc', s', p, hmember, heq⟩ := hcomplete.sound _ he rfl
      exact ⟨anc', s', p, hmember, heq.symm⟩
  · intro hcovered
    refine ⟨fun anc s p hmember => ?_, fun e he htype => ?_⟩
    · obtain ⟨anc', s', q, hplaced, hsource, htarget⟩ : ∃ anc' s' q, Placed file_path t anc' s' q ∧
          s'.label.safeUsr = s.label.safeUsr ∧ q.safeUsr = p.safeUsr := by
        by_cases hleft : LeftOut anc s p
        · exact hcovered.left_out anc s p hmember hleft
        · exact ⟨_, s, p, hmember.placed file_path hleft, rfl, rfl⟩
      exact ⟨memberEdge s'.label q,
        (mem_collected_memberOf_iff file_path sha1 rfl).mpr ⟨anc', s', q, hplaced, rfl⟩, rfl, hsource,
        htarget⟩
    · obtain ⟨anc, s, q, hplaced, rfl⟩ := (mem_collected_memberOf_iff file_path sha1 htype).mp he
      cases anc with
      | nil => exact absurd hplaced.holds nofun
      | cons a anc =>
        cases hands : a.handsOn file_path with
        | true =>
          obtain ⟨anc', s', p, hmember, heq⟩ := hcovered.misplaced a anc s q hplaced hands
          exact ⟨anc', s', p, hmember, heq.symm⟩
        | false => exact ⟨anc, s, q, hplaced.member file_path hands, rfl⟩

end Walk

/-- A class `A` of `/proj/a.cpp` with one member. -/
def classTree (kind : CursorKind) (usr : String) : Cursor :=
  .node { kind := .ok (.other 350) } [
    .node { kind := .ok .classDecl, get_usr := .ok "c:@S@A", spelling := .ok "A",
            location := .ok { file := "/proj/a.cpp", line := 1, column := 7 } } [
      .node { kind := .ok kind, get_usr := .ok usr, spelling := .ok "f",
              location := .ok { file := "/proj/a.cpp", line := 2, column := 8 },
              access_specifier := .ok .isPublic } []]]

/-- In the tree of the example no cursor raises on `get_children()`, so its export returns a result.
-/
theorem classTree_children (kind : CursorKind) (usr : String) :
    ∀ s ∈ (classTree kind usr).subtrees, s.label.children_raise = none := by
  simp [classTree]

/-- `membershipComplete_iff` at a class of the file with one method in it, where the walk returns a
result. -/
theorem membershipComplete_iff_classTree :
    ∃ r, extractNodesAndEdges default "/proj/a.cpp" (classTree .cxxMethod "c:@S@A@F@f#") = .ok r ∧
      (MembershipComplete "/proj/a.cpp" (classTree .cxxMethod "c:@S@A@F@f#") r.2 ↔
        MembersCovered "/proj/a.cpp" (classTree .cxxMethod "c:@S@A@F@f#")) := by
  obtain ⟨r, hr⟩ := exists_extract_of_children default "/proj/a.cpp"
    (classTree_children .cxxMethod "c:@S@A@F@f#")
  exact ⟨r, hr, membershipComplete_iff hr⟩

/-- **A member function template has no edge to its class,** because its kind is not in the list
that `_walk_cursor` asks for. -/
theorem member_template_has_no_edge :
    ∃ r, extractNodesAndEdges default "/proj/a.cpp" (classTree .functionTemplate "c:@S@A@FT@f") =
        .ok r ∧ ¬MembershipComplete "/proj/a.cpp" (classTree .functionTemplate "c:@S@A@FT@f") r.2 := by
  obtain ⟨r, hr⟩ := exists_extract_of_children default "/proj/a.cpp"
    (classTree_children .functionTemplate "c:@S@A@FT@f")
  refine ⟨r, hr, fun hcomplete => ?_⟩
  obtain ⟨-, rfl⟩ := (extract_eq_ok_iff default "/proj/a.cpp").mp hr
  have hedges : (collected default "/proj/a.cpp" (classTree .functionTemplate "c:@S@A@FT@f")).edges =
      [⟨"file:///proj/a.cpp", "c:@S@A", .declares, []⟩,
        ⟨"c:@S@A", "c:@S@A@FT@f", .declares, []⟩] := by rfl
  obtain ⟨e, he, htype, -, -⟩ := hcomplete.complete _ _ _
    { path := List.mem_cons_of_mem _ (List.mem_cons_of_mem _ List.mem_cons_self)
      parent_kind := rfl
      parent_in_file := rfl
      kind := rfl
      in_file := rfl
      usr := by decide }
  rw [hedges] at he
  simp only [List.mem_cons, List.not_mem_nil, or_false] at he
  obtain rfl | rfl := he <;> cases htype

end Export
end CppMcp
