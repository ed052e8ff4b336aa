/-
# What other files say about the export of one

The export of a file should not depend on cursors that stand in other files.
`strip` is the tree as far as the file is concerned: cursors of other files are
blank, and left out where nothing of the file stands below them.  Two trees that
agree on it (`SameInFile`) should have the same export.

They do not, since `_walk_cursor` looks at some cursors before it looks at the
file they stand in.  Three things come through: the inclusion directives and
use-sites of other files (`UseQuiet`), the base specifiers and `final` attributes
of other files on classes of this one (`HeadQuiet`), and parameter declarations,
inclusion directives and use-sites of other files that stand above cursors of this
one (`NoHiding`).  A fourth is that the walk descends from a cursor of another file
and is given no children but an exception (`Descends`).  Where there is none of these
the export is that of the stripped tree, also where it raises (`extract_strip`); and
each inclusion directive or use-site that comes through changes the export
(`use_counts`).
-/

import CppMcp.Export.Links

namespace CppMcp
namespace Export

variable (file_path : String)

/-- Every cursor of the tree stands in another file. -/
def allForeign (t : Cursor) : Bool := t.subtrees.all fun s => s.label.foreign file_path

/-- A cursor of another file that says nothing. -/
def blank : CursorInfo :=
  { kind := .ok (.other 0), location := .ok { file := some (file_path ++ "*") } }

/-- **The tree as far as the file is concerned.** -/
def strip : Cursor → Cursor :=
  Rose.prune (fun t => !allForeign file_path t)
    fun c => if c.foreign file_path then blank file_path else c

/-- **The trees differ only in cursors of other files.** -/
def SameInFile (t t' : Cursor) : Prop := strip file_path t = strip file_path t'

/-- The subtrees that the walk reaches. -/
def reached (t : Cursor) : List Cursor :=
  (Rose.visit (fun (_ : Unit) c => if c.stopsWalk then none else some ()) () t).map Prod.snd

/-- The cursor gives an `INCLUDES` or `REFERENCES` edge. -/
def CursorInfo.recordsUse (c : CursorInfo) : Bool :=
  if c.kindName = some .inclusionDirective then
    match c.get_included_file with
    | .ok (some (.ok _)) => true
    | _ => false
  else kindIn c.kindName referenceCursorKinds && c.target.isSome

/-- A base specifier that adds a base or ends the loop over them. -/
def CursorInfo.namesBase (c : CursorInfo) : Bool :=
  c.kindName == some .cxxBaseSpecifier &&
    match c.get_definition with
    | .ok none => false
    | .ok (some base_def) => base_def.safeUsr != ""
    | .error _ => true

/-- No cursor of another file gives an `INCLUDES` or `REFERENCES` edge. -/
def UseQuiet (t : Cursor) : Prop :=
  ∀ s ∈ reached t, s.label.foreign file_path = true → s.label.recordsUse = false

/-- No base specifier and no `final` attribute of another file stands directly below
a class of this one. -/
def HeadQuiet (t : Cursor) : Prop :=
  ∀ s ∈ reached t, s.label.foreign file_path = false → s.label.schema = some .class_ →
    ∀ u ∈ s.children, u.label.foreign file_path = true →
      u.label.namesBase = false ∧ u.label.kindName ≠ some .cxxFinalAttr

/-- No cursor of this file stands below a parameter declaration, an inclusion
directive or a use-site of another. -/
def NoHiding (t : Cursor) : Prop :=
  ∀ s ∈ reached t, s.label.foreign file_path = true →
    (s.label.stopsWalk || kindIn s.label.kindName referenceCursorKinds) = true →
      allForeign file_path s = true

/-- Where the walk descends from a cursor of another file, `get_children()` does not raise. -/
def Descends (t : Cursor) : Prop :=
  ∀ s ∈ reached t, s.label.foreign file_path = true → s.label.stopsWalk = false →
    s.label.children_raise = none

/-- **Nothing of another file comes through.** -/
structure Quiet (t : Cursor) : Prop where
  use : UseQuiet file_path t
  head : HeadQuiet file_path t
  below : NoHiding file_path t
  descends : Descends file_path t

/-! ### Stripping and reaching -/

/-- The blank cursor stands in a file of another name, so it is foreign to the exported one. -/
theorem foreign_blank : (blank file_path).foreign file_path = true := by
  have hne : file_path ++ "*" ≠ file_path := by
    intro h
    have := congrArg (fun s => s.toList.length) h
    simp at this
  have hempty : file_path ++ "*" ≠ "" := by
    intro h
    have := congrArg (fun s => s.toList.length) h
    simp at this
  simp [blank, CursorInfo.foreign, safeLocation, hne, hempty]

/-- A tree is of other files throughout if its root is and its children are. -/
theorem allForeign_node (c : CursorInfo) (ts : List Cursor) :
    allForeign file_path (.node c ts) =
      (c.foreign file_path && ts.all fun t => allForeign file_path t) := by
  simp [allForeign, List.all_flatMap]

/-- Stripping a node blanks it if it is foreign, drops the children that are foreign throughout and
strips the others. -/
theorem strip_node (c : CursorInfo) (ts : List Cursor) :
    strip file_path (.node c ts) =
      .node (if c.foreign file_path then blank file_path else c)
        ((ts.filter fun t => !allForeign file_path t).map (strip file_path)) := by
  have hlist : ∀ us : List Cursor,
      Rose.pruneList (fun t => !allForeign file_path t)
        (fun c => if c.foreign file_path then blank file_path else c) us =
      (us.filter fun t => !allForeign file_path t).map (strip file_path) := by
    intro us
    induction us with
    | nil => rfl
    | cons u us ih =>
      rw [Rose.pruneList, ih]
      cases h : !allForeign file_path u <;> simp [h, strip]
  rw [strip, Rose.prune, hlist]
  rfl

/-- The root of a stripped tree is the root itself or, in place of a foreign one, the blank cursor.
-/
theorem label_strip (t : Cursor) :
    (strip file_path t).label =
      if t.label.foreign file_path then blank file_path else t.label := by
  cases t
  rw [strip_node]
  rfl

/-- The walk reaches the node and, unless it returns early there, all that is reached from its
children. -/
@[simp] theorem reached_node (c : CursorInfo) (ts : List Cursor) :
    reached (.node c ts) = .node c ts :: if c.stopsWalk then [] else ts.flatMap reached := by
  unfold reached
  rw [Rose.visit_node]
  cases c.stopsWalk <;> simp [List.map_flatMap]

/-- The walk reaches the root that it starts from, also where it goes no further. -/
theorem mem_reached_self (t : Cursor) : t ∈ reached t := by
  cases t
  rw [reached_node]
  exact List.mem_cons_self

/-- The walk reaches every child of a cursor at which it does not return early. -/
theorem mem_reached_of_mem_children {s t : Cursor} (hstop : t.label.stopsWalk = false)
    (h : s ∈ t.children) : s ∈ reached t := by
  obtain ⟨c, ts⟩ := t
  have hstop' : c.stopsWalk = false := hstop
  rw [reached_node, hstop']
  exact List.mem_cons_of_mem _ (List.mem_flatMap.mpr ⟨s, h, mem_reached_self s⟩)

/-- All that the walk reaches is in the tree. -/
theorem mem_subtrees_of_mem_reached {s t : Cursor} (h : s ∈ reached t) : s ∈ t.subtrees := by
  obtain ⟨v, hv, rfl⟩ := List.mem_map.mp h
  exact Rose.mem_subtrees_of_mem_visit hv

/-- In a tree of other files no child is left. -/
theorem filter_children_eq_nil {c : CursorInfo} {ts : List Cursor}
    (h : allForeign file_path (.node c ts) = true) :
    (ts.filter fun t => !allForeign file_path t) = [] := by
  rw [allForeign_node, Bool.and_eq_true, List.all_eq_true] at h
  exact List.filter_eq_nil_iff.mpr fun t ht => by simp [h.2 t ht]

/-- A context is handed down only by a cursor at which the walk does not return early. -/
theorem stopsWalk_of_ctxBelow {ctx ctx' : Ctx} {c : CursorInfo}
    (h : ctxBelow file_path ctx c = some ctx') : c.stopsWalk = false := by
  rw [← Bool.not_eq_true, ← ctxBelow_eq_none_iff file_path ctx, h]
  simp

/-- The cursors visited are those reached, whatever context the walk has brought along. -/
theorem visit_map_snd (t : Cursor) (ctx : Ctx) :
    (Rose.visit (ctxBelow file_path) ctx t).map Prod.snd = reached t := by
  refine Rose.visit_map_snd_congr (fun ctx _ c => ?_) t ctx ()
  cases hs : c.stopsWalk
  · have hne : ctxBelow file_path ctx c ≠ none := fun h => by
      rw [(ctxBelow_eq_none_iff file_path ctx c).mp h] at hs
      exact Bool.false_ne_true hs.symm
    obtain ⟨ctx', h⟩ := Option.ne_none_iff_exists'.mp hne
    rw [h]
    rfl
  · rw [(ctxBelow_eq_none_iff file_path ctx c).mpr hs]
    rfl

/-- A predicate on all that is reached holds of all that is reached below. -/
theorem forall_reached_child {P : Cursor → Prop} {c : CursorInfo} {ts : List Cursor}
    (h : ∀ s ∈ reached (.node c ts), P s) (hs : c.stopsWalk = false) {t : Cursor} (ht : t ∈ ts) :
    ∀ s ∈ reached t, P s := by
  intro s hmem
  refine h s ?_
  rw [reached_node, hs]
  exact List.mem_cons_of_mem _ (List.mem_flatMap.mpr ⟨t, ht, hmem⟩)

/-- Below a quiet cursor that the walk goes through, each child is quiet too. -/
theorem Quiet.child {c : CursorInfo} {ts : List Cursor} (h : Quiet file_path (.node c ts))
    (hs : c.stopsWalk = false) {t : Cursor} (ht : t ∈ ts) : Quiet file_path t where
  use := forall_reached_child h.use hs ht
  head := forall_reached_child h.head hs ht
  below := forall_reached_child h.below hs ht
  descends := forall_reached_child h.descends hs ht

/-- At the root of such a tree the walk is given the children. -/
theorem Descends.getChildren {c : CursorInfo} {ts : List Cursor} (h : Descends file_path (.node c ts))
    (hf : c.foreign file_path = true) (hs : c.stopsWalk = false) : c.getChildren = .ok () := by
  have hraise : c.children_raise = none := h _ (mem_reached_self _) hf hs
  rw [CursorInfo.getChildren, hraise]

/-! ### Quiet trees export what stands in the file -/

variable (sha1 : Py.Sha1)

/-- A cursor of another file that records no use adds nothing. -/
theorem emit_of_foreign (ctx : Ctx) {t : Cursor} (hf : t.label.foreign file_path = true)
    (hu : t.label.recordsUse = false) (b : Batch) : emit sha1 file_path b (ctx, t) = b := by
  rcases branch_cases sha1 file_path ctx t with
    ⟨-, -, hemit⟩ | ⟨hk, -, hemit⟩ | ⟨hk, -, hemit⟩ | ⟨-, -, -, hemit⟩ |
    ⟨-, hf', -⟩ | ⟨-, hf', -⟩
  · exact hemit b
  · rw [hemit, emitInclusion]
    rw [CursorInfo.recordsUse, if_pos hk] at hu
    split
    · rename_i inc_path h
      rw [h] at hu
      exact absurd hu (by simp)
    · rfl
  · have htarget : t.label.target = none := by
      have hi : t.label.kindName ≠ some .inclusionDirective := by
        rintro h; rw [h] at hk; exact absurd hk (by decide)
      rw [CursorInfo.recordsUse, if_neg hi, hk, Bool.true_and] at hu
      exact Option.isNone_iff_eq_none.mp (by simpa using hu)
    rw [hemit, emitUseSite, htarget]
    rfl
  · exact hemit b
  · rw [hf] at hf'
    exact absurd hf' (by simp)
  · rw [hf] at hf'
    exact absurd hf' (by simp)

/-- The bases and the `final` attribute of a class are those of its own file. -/
theorem head_strip (ts : List Cursor)
    (h : ∀ u ∈ ts, u.label.foreign file_path = true →
      u.label.namesBase = false ∧ u.label.kindName ≠ some .cxxFinalAttr) :
    baseUsrs ((ts.filter fun t => !allForeign file_path t).map (strip file_path)) = baseUsrs ts ∧
      (((ts.filter fun t => !allForeign file_path t).map (strip file_path)).any
          fun u => u.label.kindName == some .cxxFinalAttr) =
        ts.any fun u => u.label.kindName == some .cxxFinalAttr := by
  induction ts with
  | nil => exact ⟨rfl, rfl⟩
  | cons u ts ih =>
    obtain ⟨hbase, hfinal⟩ := ih fun w hw => h w (List.mem_cons_of_mem _ hw)
    by_cases hf : u.label.foreign file_path = true
    · obtain ⟨hub, huf⟩ := h u List.mem_cons_self hf
      have hskip : baseUsrs (u :: ts) = baseUsrs ts := by
        rw [baseUsrs]
        split_ifs with hk
        · rw [CursorInfo.namesBase, hk] at hub
          split <;> simp_all
        · rfl
      rw [hskip, List.any_cons, ← hbase, ← hfinal, beq_false_of_ne huf, Bool.false_or]
      cases ha : allForeign file_path u
      · simp only [List.filter_cons, ha, Bool.not_false, if_true, List.map_cons, baseUsrs,
          List.any_cons, label_strip, hf]
        exact ⟨rfl, rfl⟩
      · simp only [List.filter_cons, ha, Bool.not_true, Bool.false_eq_true, if_false, and_self]
    · have ha : allForeign file_path u = false := by
        cases u
        rw [allForeign_node, Bool.and_eq_false_iff]
        exact Or.inl (by simpa using hf)
      simp only [List.filter_cons, ha, Bool.not_false, if_true, List.map_cons, baseUsrs,
        List.any_cons, label_strip, hf, if_false, hbase, hfinal, Bool.false_eq_true, and_self]

/-- Only a class has base specifiers that the exporter looks at. -/
theorem schema_of_inheriting {c : CursorInfo} {node_type : NodeType}
    (h : kindIn c.kindName inheritingKinds = true) (hs : c.schema = some node_type) :
    node_type = .class_ := by
  obtain ⟨k, hmem, hk⟩ := kindIn_iff.mp h
  simp only [inheritingKinds, List.mem_cons, List.not_mem_nil, or_false] at hmem
  obtain ⟨hfield, -⟩ | ⟨k', hk', htable⟩ := CursorInfo.schema_cases hs
  · cases hk.symm.trans hfield
    exact absurd hmem (by decide)
  · cases hk.symm.trans hk'
    rcases hmem with rfl | rfl | rfl <;> exact (Option.some.inj htable).symm

/-- Only the properties and the bases of a class are read off the children. -/
theorem emitSchema_congr {ctx : Ctx} {c : CursorInfo} {node_type : NodeType}
    {children children' : List Cursor}
    (hprops : node_type = .class_ → emitClassProps c children = emitClassProps c children')
    (hinh : ∀ b, emitInherits c children b = emitInherits c children' b) (b : Batch) :
    emitSchema sha1 (fileUsr file_path) ctx node_type c children b =
      emitSchema sha1 (fileUsr file_path) ctx node_type c children' b := by
  have hsymbol : symbolProps c children node_type = symbolProps c children' node_type := by
    unfold symbolProps
    by_cases hclass : node_type = .class_
    · rw [if_pos hclass, if_pos hclass, hprops hclass]
    · rw [if_neg hclass, if_neg hclass]
  unfold emitSchema emitSymbol Batch.takeSymbol
  rw [hsymbol, hinh]

/-- A cursor of the file adds the same in the stripped tree. -/
theorem emit_strip (ctx : Ctx) {c : CursorInfo} {ts : List Cursor}
    (hf : c.foreign file_path = false) (h : HeadQuiet file_path (.node c ts)) (b : Batch) :
    emit sha1 file_path b (ctx, strip file_path (.node c ts)) =
      emit sha1 file_path b (ctx, .node c ts) := by
  have hschema : ∀ node_type, c.schema = some node_type →
      emitSchema sha1 (fileUsr file_path) ctx node_type c
          ((ts.filter fun t => !allForeign file_path t).map (strip file_path)) b =
        emitSchema sha1 (fileUsr file_path) ctx node_type c ts b := by
    intro node_type hs
    have hroot := mem_reached_self (.node c ts)
    have hhead := fun hclass : node_type = .class_ =>
      head_strip file_path ts (h _ hroot hf (hclass ▸ hs))
    refine emitSchema_congr file_path sha1 (fun hclass => ?_) (fun b => ?_) b
    · simp only [emitClassProps, (hhead hclass).2]
    · unfold emitInherits
      split_ifs with hk
      · rw [Bool.and_eq_true] at hk
        rw [(hhead (schema_of_inheriting hk.1 hs)).1]
      · rfl
  rw [strip_node, hf, if_neg Bool.false_ne_true]
  unfold emit
  dsimp only [Rose.label_node, Rose.children_node]
  cases hs : c.schema with
  | none => rfl
  | some node_type =>
    dsimp only
    rw [hschema node_type hs]

/-- **A tree of other files adds nothing,** if it records no use and its children are there. -/
theorem walkCursor_allForeign {t : Cursor} (ha : allForeign file_path t = true)
    (hu : UseQuiet file_path t) (hd : Descends file_path t) (ctx : Ctx) (b : Batch) :
    walkCursor sha1 file_path b ctx t = .ok b := by
  induction t using Rose.induct generalizing ctx b with
  | node c ts ih =>
    rw [allForeign_node, Bool.and_eq_true, List.all_eq_true] at ha
    have hemit := emit_of_foreign file_path sha1 ctx (t := .node c ts) ha.1
      (hu _ (mem_reached_self _) ha.1) b
    rw [walkCursor_node, hemit]
    cases hctx : ctxBelow file_path ctx c with
    | none => rfl
    | some ctx' =>
      have hs := stopsWalk_of_ctxBelow file_path hctx
      have hchildren := hd.getChildren file_path ha.1 hs
      have below : ∀ us : List Cursor, (∀ u ∈ us, u ∈ ts) →
          walkChildren sha1 file_path b ctx' us = .ok b := by
        intro us hus
        induction us with
        | nil => rfl
        | cons u us ihu =>
          have hmem := hus u List.mem_cons_self
          rw [walkChildren, ih u hmem (ha.2 u hmem) (forall_reached_child hu hs hmem)
            (forall_reached_child hd hs hmem)]
          exact ihu fun w hw => hus w (List.mem_cons_of_mem _ hw)
      dsimp only
      rw [hchildren]
      exact below ts fun _ h => h

/-- The stripped children of a quiet cursor give what the children give. -/
theorem walkChildren_strip {ts : List Cursor}
    (ih : ∀ t ∈ ts, ∀ ctx b, walkCursor sha1 file_path b ctx (strip file_path t) =
      walkCursor sha1 file_path b ctx t)
    (hu : ∀ t ∈ ts, UseQuiet file_path t) (hd : ∀ t ∈ ts, Descends file_path t) (ctx : Ctx)
    (b : Batch) :
    walkChildren sha1 file_path b ctx
        ((ts.filter fun t => !allForeign file_path t).map (strip file_path)) =
      walkChildren sha1 file_path b ctx ts := by
  induction ts generalizing b with
  | nil => rfl
  | cons t ts iht =>
    have hrest := iht (fun u hu => ih u (List.mem_cons_of_mem _ hu))
      (fun u h => hu u (List.mem_cons_of_mem _ h)) fun u h => hd u (List.mem_cons_of_mem _ h)
    cases ha : allForeign file_path t
    · rw [List.filter_cons_of_pos (by simp [ha]), List.map_cons, walkChildren, walkChildren,
        ih t List.mem_cons_self]
      exact congrArg _ (funext hrest)
    · rw [List.filter_cons_of_neg (by simp [ha]), hrest, walkChildren,
        walkCursor_allForeign file_path sha1 ha (hu t List.mem_cons_self) (hd t List.mem_cons_self)]
      rfl

/-- Below a cursor of another file there is no parent. -/
theorem ctxBelow_of_foreign (ctx : Ctx) {c : CursorInfo} (hf : c.foreign file_path = true)
    (hs : c.stopsWalk = false) (hk : kindIn c.kindName referenceCursorKinds = false) :
    ctxBelow file_path ctx c = some ⟨none, none, ctx.enclosing_func_usr⟩ := by
  have hstop : ctxBelow file_path ctx c ≠ none := fun hn => by
    rw [(ctxBelow_eq_none_iff file_path ctx c).mp hn] at hs
    exact absurd hs (by simp)
  unfold ctxBelow at hstop ⊢
  split_ifs at hstop ⊢ with hp hi hr
  · exact absurd rfl hstop
  · exact absurd rfl hstop
  · rw [hk] at hr
    exact absurd hr (by simp)
  · rfl

/-- A blank cursor hands down the enclosing function only, as every cursor of another file does. -/
theorem ctxBelow_blank (ctx : Ctx) :
    ctxBelow file_path ctx (blank file_path) = some ⟨none, none, ctx.enclosing_func_usr⟩ :=
  ctxBelow_of_foreign file_path ctx (foreign_blank file_path) rfl rfl

/-- A blank cursor adds nothing to the batch: it is foreign, and neither an inclusion directive nor
a use-site. -/
theorem emit_blank (ctx : Ctx) (ts : List Cursor) (b : Batch) :
    emit sha1 file_path b (ctx, .node (blank file_path) ts) = b :=
  emit_of_foreign file_path sha1 ctx (t := .node (blank file_path) ts) (foreign_blank file_path)
    rfl b

/-- The walk goes through a blank cursor to what stands below it. -/
theorem walkCursor_blank (ctx : Ctx) (b : Batch) (ts : List Cursor) :
    walkCursor sha1 file_path b ctx (.node (blank file_path) ts) =
      walkChildren sha1 file_path b ⟨none, none, ctx.enclosing_func_usr⟩ ts := by
  rw [walkCursor_node, ctxBelow_blank, emit_blank]
  rfl

/-- **The stripped tree gives what a quiet tree gives,** a batch or an exception. -/
theorem walkCursor_strip {t : Cursor} (hq : Quiet file_path t) (ctx : Ctx) (b : Batch) :
    walkCursor sha1 file_path b ctx (strip file_path t) = walkCursor sha1 file_path b ctx t := by
  induction t using Rose.induct generalizing ctx b with
  | node c ts ih =>
    have hroot := mem_reached_self (.node c ts)
    have hchildren : c.stopsWalk = false → ∀ ctx b,
        walkChildren sha1 file_path b ctx
            ((ts.filter fun t => !allForeign file_path t).map (strip file_path)) =
          walkChildren sha1 file_path b ctx ts :=
      fun hs => walkChildren_strip file_path sha1
        (fun t ht => ih t ht (hq.child file_path hs ht))
        (fun t ht => (hq.child file_path hs ht).use)
        fun t ht => (hq.child file_path hs ht).descends
    cases hf : c.foreign file_path with
    | false =>
      have hemit := emit_strip file_path sha1 ctx hf hq.head b
      rw [strip_node, hf, if_neg Bool.false_ne_true] at hemit ⊢
      rw [walkCursor_node, walkCursor_node, hemit]
      cases hctx : ctxBelow file_path ctx c with
      | none => rfl
      | some ctx' =>
        exact congrArg _ (funext fun _ => hchildren (stopsWalk_of_ctxBelow file_path hctx) _ _)
    | true =>
      rw [strip_node, hf, if_pos rfl, walkCursor_blank]
      by_cases hk : (c.stopsWalk || kindIn c.kindName referenceCursorKinds) = true
      · -- nothing of the file stands below, so no child is left
        have ha := hq.below _ hroot hf hk
        rw [walkCursor_allForeign file_path sha1 ha hq.use hq.descends,
          filter_children_eq_nil file_path ha]
        rfl
      · rw [Bool.not_eq_true, Bool.or_eq_false_iff] at hk
        have hget := hq.descends.getChildren file_path hf hk.1
        rw [walkCursor_node, ctxBelow_of_foreign file_path ctx hf hk.1 hk.2,
          emit_of_foreign file_path sha1 _ (t := .node c ts) hf (hq.use _ hroot hf), hget]
        exact hchildren hk.1 _ _

/-- **The export of a quiet tree is that of the stripped tree,** also where it raises. -/
theorem extract_strip {t : Cursor} (hq : Quiet file_path t) :
    extractNodesAndEdges sha1 file_path (strip file_path t) =
      extractNodesAndEdges sha1 file_path t := by
  unfold extractNodesAndEdges
  rw [walkCursor_strip file_path sha1 hq]

/-- A tree that is exported has been asked for all children on the way. -/
theorem descends_of_extract {t : Cursor} {r : List NodeRecord × List EdgeRecord}
    (h : extractNodesAndEdges sha1 file_path t = .ok r) : Descends file_path t := by
  intro s hs _ hstop
  rw [← visit_map_snd file_path t ⟨none, none, none⟩] at hs
  obtain ⟨v, hv, rfl⟩ := List.mem_map.mp hs
  by_contra hraise
  refine ((extract_eq_ok_iff sha1 file_path).mp h).1 v hv ⟨?_, hraise⟩
  rw [Option.isSome_iff_ne_none]
  intro hnone
  rw [(ctxBelow_eq_none_iff file_path v.1 v.2.label).mp hnone] at hstop
  exact absurd hstop (by simp)

/-! ### What comes through is counted -/

/-- The edges recorded at inclusion directives and use-sites. -/
def EdgeRecord.isUse (e : EdgeRecord) : Bool :=
  e.edge_type == .includes || e.edge_type == .references

/-- The edges that record uses, `INCLUDES` and `REFERENCES`, are among those that link what the walk
has visited. -/
theorem isLink_of_isUse {e : EdgeRecord} (h : e.isUse = true) : e.edge_type.isLink = true := by
  rw [EdgeRecord.isUse, Bool.or_eq_true, beq_iff_eq, beq_iff_eq] at h
  rcases h with h | h <;> rw [h] <;> rfl

/-- One such edge for every visit of a cursor that records a use. -/
theorem countP_linkEdges (v : Visit) :
    (linkEdges file_path v).countP EdgeRecord.isUse = if v.2.label.recordsUse then 1 else 0 := by
  have hparent : (parentEdge file_path v.1 v.2.label).isUse = false := by
    rcases parentEdge_cases file_path v.1 v.2.label with ⟨p, -, h⟩ | ⟨k, rfl | rfl, h⟩ <;>
      rw [h] <;> rfl
  have hinh : (inheritsEdges v.2.label v.2.children).countP EdgeRecord.isUse = 0 := by
    rw [List.countP_eq_zero]
    unfold inheritsEdges
    split_ifs <;> simp [EdgeRecord.isUse]
  unfold linkEdges CursorInfo.recordsUse
  dsimp only
  by_cases hi : v.2.label.kindName = some .inclusionDirective
  · rw [if_neg (by rw [hi]; decide), if_pos hi, if_pos hi]
    unfold inclusionEdges
    rcases v.2.label.get_included_file with e | (_ | (e | inc_path)) <;> rfl
  by_cases hr : kindIn v.2.label.kindName referenceCursorKinds = true
  · have hp : v.2.label.kindName ≠ some .parmDecl := by
      rintro h; rw [h] at hr; exact absurd hr (by decide)
    rw [if_neg hp, if_neg hi, if_pos hr, if_neg hi, hr, useEdges]
    cases v.2.label.target <;> rfl
  · rw [if_neg hi, if_neg hi, if_neg hr, Bool.eq_false_iff.mpr hr, Bool.false_and,
      if_neg Bool.false_ne_true]
    split_ifs
    · rfl
    · rfl
    · rfl
    · rw [List.countP_cons, hinh, hparent]
      rfl

/-- **The `INCLUDES` and `REFERENCES` edges** are as many as the cursors reached that
record a use. -/
theorem countP_collected (t : Cursor) :
    (collected sha1 file_path t).edges.countP EdgeRecord.isUse =
      (reached t).countP fun s => s.label.recordsUse := by
  have hlinks : (collected sha1 file_path t).edges.countP EdgeRecord.isUse =
      (collected sha1 file_path t).links.countP EdgeRecord.isUse := by
    rw [Batch.links, List.countP_filter]
    refine List.countP_congr fun e _ => ?_
    rw [Bool.and_eq_true]
    exact ⟨fun h => ⟨h, isLink_of_isUse h⟩, fun h => h.1⟩
  have hvisits : ∀ vs : List Visit, (vs.flatMap (linkEdges file_path)).countP EdgeRecord.isUse =
      (vs.map Prod.snd).countP fun s => s.label.recordsUse := by
    intro vs
    induction vs with
    | nil => rfl
    | cons v vs ih =>
      rw [List.flatMap_cons, List.countP_append, ih, countP_linkEdges, List.map_cons,
        List.countP_cons, Nat.add_comm]
  rw [hlinks, link_edges_collected, hvisits, visits, visit_map_snd]

/-- In a tree of other files all that record a use are of other files. -/
theorem countP_allForeign {t : Cursor} (h : allForeign file_path t = true) :
    (reached t).countP (fun s => s.label.recordsUse && s.label.foreign file_path) =
      (reached t).countP fun s => s.label.recordsUse := by
  refine List.countP_congr fun s hs => ?_
  have hf : s.label.foreign file_path = true := by
    obtain ⟨v, hv, rfl⟩ := List.mem_map.mp hs
    exact List.all_eq_true.mp h _ (Rose.mem_subtrees_of_mem_visit hv)
  rw [hf, Bool.and_true]

/-- **Stripping takes away the uses of other files** and, if nothing is hidden, no
others. -/
theorem countP_strip {t : Cursor} (h : NoHiding file_path t) :
    (reached t).countP (fun s => s.label.recordsUse) =
      (reached (strip file_path t)).countP (fun s => s.label.recordsUse) +
        (reached t).countP fun s => s.label.recordsUse && s.label.foreign file_path := by
  induction t using Rose.induct with
  | node c ts ih =>
    have hroot := mem_reached_self (.node c ts)
    have below : c.stopsWalk = false → ∀ us : List Cursor, (∀ u ∈ us, u ∈ ts) →
        (us.flatMap reached).countP (fun s => s.label.recordsUse) =
          (((us.filter fun t => !allForeign file_path t).map (strip file_path)).flatMap
              reached).countP (fun s => s.label.recordsUse) +
            (us.flatMap reached).countP fun s =>
              s.label.recordsUse && s.label.foreign file_path := by
      intro hs us hus
      induction us with
      | nil => rfl
      | cons u us ihu =>
        have hmem := hus u List.mem_cons_self
        have hrest := ihu fun w hw => hus w (List.mem_cons_of_mem _ hw)
        rw [List.flatMap_cons, List.countP_append, List.countP_append, hrest]
        cases ha : allForeign file_path u
        · rw [List.filter_cons_of_pos (by simp [ha]), List.map_cons, List.flatMap_cons,
            List.countP_append, ih u hmem (forall_reached_child h hs hmem)]
          omega
        · rw [List.filter_cons_of_neg (by simp [ha]), countP_allForeign file_path ha]
          omega
    rw [strip_node, reached_node, reached_node, List.countP_cons, List.countP_cons,
      List.countP_cons]
    simp only [Rose.label_node]
    by_cases hf : c.foreign file_path = true
    · have hblank : (blank file_path).recordsUse = false := rfl
      have hwalks : (blank file_path).stopsWalk = false := rfl
      simp only [hf, if_true, hblank, hwalks, Bool.and_true, Bool.false_eq_true, if_false]
      cases hs : c.stopsWalk
      · have := below hs ts fun _ h => h
        by_cases hc : c.recordsUse = true <;>
          simp only [hc, Bool.false_eq_true, if_false, if_true] <;> omega
      · have ha := h _ hroot hf (by simp [hs])
        rw [filter_children_eq_nil file_path ha]
        by_cases hc : c.recordsUse = true <;> simp [hc]
    · simp only [hf, Bool.and_false, Bool.false_eq_true, if_false]
      cases hs : c.stopsWalk
      · have := below hs ts fun _ h => h
        by_cases hc : c.recordsUse = true <;>
          simp only [hc, Bool.false_eq_true, if_false, if_true] <;> omega
      · by_cases hc : c.recordsUse = true <;> simp [hc]

/-- **Each use of another file is an edge too many:** against a quiet tree that is the
same in the file, so many more edges are recorded as cursors of other files record a
use.  That the quiet tree is exported shows that it descends. -/
theorem use_counts {t t' : Cursor} (hsame : SameInFile file_path t t')
    (hbelow : NoHiding file_path t) (huse' : UseQuiet file_path t') (hhead' : HeadQuiet file_path t')
    (hbelow' : NoHiding file_path t') {r r' : List NodeRecord × List EdgeRecord}
    (hr : extractNodesAndEdges sha1 file_path t = .ok r)
    (hr' : extractNodesAndEdges sha1 file_path t' = .ok r') :
    r.2.countP EdgeRecord.isUse = r'.2.countP EdgeRecord.isUse +
      (reached t).countP fun s => s.label.recordsUse && s.label.foreign file_path := by
  have hquiet : Quiet file_path t' := ⟨huse', hhead', hbelow', descends_of_extract file_path sha1 hr'⟩
  have hstrip := (extract_strip file_path sha1 hquiet).trans hr'
  rw [← hsame] at hstrip
  obtain ⟨-, rfl⟩ := (extract_eq_ok_iff sha1 file_path).mp hr
  obtain ⟨-, rfl⟩ := (extract_eq_ok_iff sha1 file_path).mp hstrip
  rw [countP_collected, countP_collected, countP_strip file_path hbelow]

/-- **When the export is local.**  Trees in which nothing of another file comes
through, and that are the same in this file, have the same export: the same nodes and
edges, or the same exception.  Conversely, where nothing of this file is hidden, a tree
has the export of one through which no other file comes only if no inclusion directive
and no use-site of another file comes through. -/
theorem export_local_of_quiet :
    (∀ t t', SameInFile file_path t t' → Quiet file_path t → Quiet file_path t' →
      extractNodesAndEdges sha1 file_path t = extractNodesAndEdges sha1 file_path t') ∧
    ∀ t t' r, SameInFile file_path t t' → NoHiding file_path t →
      UseQuiet file_path t' → HeadQuiet file_path t' → NoHiding file_path t' →
      extractNodesAndEdges sha1 file_path t = .ok r →
      extractNodesAndEdges sha1 file_path t' = .ok r → UseQuiet file_path t := by
  constructor
  · intro t t' hsame hq hq'
    rw [← extract_strip file_path sha1 hq, ← extract_strip file_path sha1 hq', hsame]
  · intro t t' r hsame hbelow huse' hhead' hbelow' hr hr' s hs hf
    have hcount := use_counts file_path sha1 hsame hbelow huse' hhead' hbelow' hr hr'
    have hzero : (reached t).countP
        (fun s => s.label.recordsUse && s.label.foreign file_path) = 0 := by omega
    have hs := List.countP_eq_zero.mp hzero s hs
    rw [hf, Bool.and_true] at hs
    exact Bool.eq_false_iff.mpr hs

/-- A translation unit of which only the given cursors stand in `lib.h`. -/
def headerTree (header : List CursorInfo) : Cursor :=
  .node { kind := .ok (.other 350) } (header.map fun c =>
    .node { c with location := .ok { file := "/proj/lib.h", line := 1, column := 1 } } [])

/-- `#include "detail.h"` and a use of a type. -/
def headerUses : List CursorInfo :=
  [{ kind := .ok .inclusionDirective, get_included_file := .ok (some (.ok "/proj/detail.h")) },
    { kind := .ok .typeRef, referenced := .ok (some ⟨.ok "c:@S@T"⟩) }]

/-- **What a header includes and uses is recorded as the file's own:** both edges start at the File
node of `a.cpp`, though the cursors stand in `lib.h`. -/
theorem headerUses_not_local :
    SameInFile "/proj/a.cpp" (headerTree headerUses) (headerTree []) ∧
      ∃ r r', extractNodesAndEdges default "/proj/a.cpp" (headerTree headerUses) = .ok r ∧
        extractNodesAndEdges default "/proj/a.cpp" (headerTree []) = .ok r' ∧ r ≠ r' ∧
        ⟨"file:///proj/a.cpp", "file:///proj/detail.h", .includes, []⟩ ∈ r.2 ∧
        ⟨"file:///proj/a.cpp", "c:@S@T", .references, []⟩ ∈ r.2 := by
  obtain ⟨r, hr⟩ := exists_extract_of_children default "/proj/a.cpp" (t := headerTree headerUses)
    (by simp [headerTree, headerUses])
  obtain ⟨r', hr'⟩ := exists_extract_of_children default "/proj/a.cpp" (t := headerTree [])
    (by simp [headerTree])
  refine ⟨rfl, r, r', hr, hr', ?_⟩
  obtain ⟨-, rfl⟩ := (extract_eq_ok_iff default "/proj/a.cpp").mp hr
  obtain ⟨-, rfl⟩ := (extract_eq_ok_iff default "/proj/a.cpp").mp hr'
  have hedges : (collected default "/proj/a.cpp" (headerTree headerUses)).edges =
      [⟨"file:///proj/a.cpp", "file:///proj/detail.h", .includes, []⟩,
        ⟨"file:///proj/a.cpp", "c:@S@T", .references, []⟩] := by rfl
  have hedges' : (collected default "/proj/a.cpp" (headerTree [])).edges = [] := by rfl
  refine ⟨fun heq => ?_, ?_, ?_⟩
  · rw [Prod.mk.injEq, hedges, hedges'] at heq
    exact List.cons_ne_nil _ _ heq.2
  · rw [hedges]
    exact List.mem_cons_self
  · rw [hedges]
    exact List.mem_cons_of_mem _ List.mem_cons_self

/-- `export_local_of_quiet` at a header that declares a variable, or nothing. -/
theorem export_local_of_quiet_variable :
    (∃ r, extractNodesAndEdges default "/proj/a.cpp" (headerTree [{ kind := .ok .varDecl }]) = .ok r) ∧
    extractNodesAndEdges default "/proj/a.cpp" (headerTree [{ kind := .ok .varDecl }]) =
      extractNodesAndEdges default "/proj/a.cpp" (headerTree []) ∧
    UseQuiet "/proj/a.cpp" (headerTree [{ kind := .ok .varDecl }]) := by
  have hquiet : Quiet "/proj/a.cpp" (headerTree [{ kind := .ok .varDecl }]) := by
    constructor
    · unfold UseQuiet; decide
    · unfold HeadQuiet; decide
    · unfold NoHiding; decide
    · unfold Descends; decide
  have hquiet' : Quiet "/proj/a.cpp" (headerTree []) := by
    constructor
    · unfold UseQuiet; decide
    · unfold HeadQuiet; decide
    · unfold NoHiding; decide
    · unfold Descends; decide
  obtain ⟨r, hr⟩ := exists_extract_of_children default "/proj/a.cpp"
    (t := headerTree [{ kind := .ok .varDecl }]) (by simp [headerTree])
  have hsame : SameInFile "/proj/a.cpp" (headerTree [{ kind := .ok .varDecl }]) (headerTree []) :=
    rfl
  have hlocal := export_local_of_quiet "/proj/a.cpp" default
  have heq := hlocal.1 _ _ hsame hquiet hquiet'
  exact ⟨⟨r, hr⟩, heq, hlocal.2 _ _ r hsame hquiet.below hquiet'.use hquiet'.head hquiet'.below hr
    (heq ▸ hr)⟩

end Export
end CppMcp
