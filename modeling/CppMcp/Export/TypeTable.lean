/-
# The table of types

`_get_or_create_type`, called for one type after another on one batch.  A type's node is appended
before those of its chain and its edge after them, so in the middle of a call the nodes on the way
down are there and their edges are not.  A whole call has a closed form all the same
(`getOrCreateType_eq`): it appends the levels of the type down to the first that is taken, and their
edges from the last to the first.

So where a spelling tells the type, the calls build a table of the types that they reach, each once,
and each with the edge to its pointee or referent (`types_exact`).
-/

import CppMcp.Export.TypeChain
import CppMcp.Export.Typed
import CppMcp.Lib.Interning

namespace CppMcp
namespace Export

/-- The pointee of a pointer, the referent of a reference. -/
def CType.pointee : CType → Option CType
  | .last _ _ => none
  | .pointing t pointee => if (chainEdge t).isSome then some pointee else none

/-- The type, its pointee or referent, and so on. -/
def CType.levels : CType → List CType
  | .last t raises => [.last t raises]
  | .pointing t pointee =>
    .pointing t pointee :: if (chainEdge t).isSome then pointee.levels else []

/-- The types that are reached from the arguments. -/
def reachable (types : List CType) : List CType := types.flatMap CType.levels

variable (sha1 : Py.Sha1)

/-- The USR of a type's node. -/
def CType.usr (t : CType) : String := t.info.usr sha1

/-- The node of a type. -/
def typeNode (t : CType) : NodeRecord := ⟨.type, t.usr sha1, typeProps t.info⟩

/-- The edge of a pointer or a reference. -/
def pointeeEdge : CType → Option EdgeRecord
  | .last _ _ => none
  | .pointing t pointee =>
    (chainEdge t).map fun k => ⟨t.usr sha1, pointee.usr sha1, k, []⟩

/-- Calls of `_get_or_create_type` one after another: the batch afterwards, and what they
returned. -/
def getOrCreateTypes : Batch → List CType → Batch × List (Option String)
  | b, [] => (b, [])
  | b, t :: types =>
    let called := getOrCreateType sha1 b t
    let rest := getOrCreateTypes called.1 types
    (rest.1, called.2 :: rest.2)

/-- Every type has a spelling, and the spelling tells the type. -/
structure SpellingTells (types : List CType) : Prop where
  spelled : ∀ t ∈ types, t.info.spelled ≠ ""
  tells : ∀ t ∈ types, ∀ t' ∈ types, t.info.spelled = t'.info.spelled → t = t'

/-- The edges that start at a type's node. -/
def edgesOf (b : Batch) (t : CType) : List EdgeRecord :=
  b.edges.filter fun e => e.source_usr = t.usr sha1

/-- **The batch has exactly these types:** one node for each spelling, and from it one `POINTS_TO`
edge if it is a pointer, one `REFERS_TO` edge if it is a reference, and no other. -/
structure TypesExact (types : List CType) (b : Batch) : Prop where
  one_node : ∀ t ∈ types,
    (b.nodes.filter fun n => n.props.lookup "spelling" = some (.str t.info.spelled)) =
      [typeNode sha1 t]
  nodes : ∀ n ∈ b.nodes, ∃ t ∈ types, n = typeNode sha1 t
  pointers : ∀ info pointee, .pointing info pointee ∈ types → info.kind = .ok .pointer →
    pointee ∈ types ∧ edgesOf sha1 b (.pointing info pointee) =
      [⟨info.usr sha1, pointee.usr sha1, .pointsTo, []⟩]
  references : ∀ info pointee, .pointing info pointee ∈ types →
    info.kind = .ok .lvalueReference ∨ info.kind = .ok .rvalueReference →
    pointee ∈ types ∧ edgesOf sha1 b (.pointing info pointee) =
      [⟨info.usr sha1, pointee.usr sha1, .refersTo, []⟩]
  others : ∀ t ∈ types, t.pointee = none → edgesOf sha1 b t = []
  edges : ∀ e ∈ b.edges, ∃ t ∈ types, e ∈ edgesOf sha1 b t

/-! ### One call -/

variable {sha1}

/-- The levels of a type are its chain: each is what the one before points to. -/
theorem chain_levels (t : CType) : Interning.Chain CType.pointee t t.levels := by
  induction t with
  | last t raises => exact .last rfl
  | pointing t pointee ih =>
    rw [CType.levels]
    split_ifs with hk
    · exact .step (if_pos hk) ih
    · exact .last (if_neg hk)

/-- A type is the first of its own levels. -/
theorem CType.mem_levels (t : CType) : t ∈ t.levels := (chain_levels t).head_mem

/-- The levels of a pointer or a reference are itself and those of what it points to. -/
theorem CType.levels_of_chainEdge {t : TypeInfo} {k : EdgeType} (hk : chainEdge t = some k)
    (pointee : CType) :
    (CType.pointing t pointee).levels = .pointing t pointee :: pointee.levels := by
  rw [CType.levels, if_pos (Option.isSome_of_mem hk)]

variable (sha1) in
/-- The levels appended from the first on, and their edges from the last on. -/
def Batch.addLevels (b : Batch) (levels : List CType) : Batch where
  nodes := b.nodes ++ levels.map (typeNode sha1)
  edges := b.edges ++ (levels.filterMap (pointeeEdge sha1)).reverse
  seen_usrs := (levels.map (CType.usr sha1)).reverse ++ b.seen_usrs

/-- Adding no levels leaves the batch as it is. -/
theorem Batch.addLevels_nil (b : Batch) : b.addLevels sha1 [] = b := by
  simp [Batch.addLevels]

/-- Adding one level that points to nothing is taking that type. -/
theorem Batch.addLevels_singleton {t : CType} (h : pointeeEdge sha1 t = none) (b : Batch) :
    b.addLevels sha1 [t] = b.takeType sha1 t.info := by
  simp [Batch.addLevels, Batch.takeType, Batch.see, Batch.addNode, typeNode, CType.usr, h]

/-- The node of a type comes before its chain, and its edge after it. -/
theorem Batch.addLevels_cons {t : TypeInfo} {pointee : CType} {k : EdgeType}
    (hk : chainEdge t = some k) (b : Batch) (levels : List CType) :
    b.addLevels sha1 (.pointing t pointee :: levels) =
      ((b.takeType sha1 t).addLevels sha1 levels).addEdge (t.usr sha1) (pointee.usr sha1) k := by
  simp [Batch.addLevels, Batch.takeType, Batch.see, Batch.addNode, Batch.addEdge, typeNode,
    pointeeEdge, hk, CType.info, CType.usr]

variable (sha1) in
/-- The levels of a type that a call finds new. -/
def newLevels (b : Batch) (t : CType) : List CType :=
  Interning.fresh (CType.usr sha1) b.seen_usrs t.levels

/-- A type whose USR is taken brings no new levels, whatever stands below it. -/
theorem newLevels_of_taken {b : Batch} {t : CType} (h : t.usr sha1 ∈ b.seen_usrs) :
    newLevels sha1 b t = [] := by
  cases t with
  | last => exact Interning.fresh_cons_of_mem h _
  | pointing => exact Interning.fresh_cons_of_mem h _

/-- A new type that has no edge is all that is new. -/
theorem addLevels_of_new {b : Batch} {t : CType} (h : t.usr sha1 ∉ b.seen_usrs)
    (hlevels : t.levels = [t]) (hedge : pointeeEdge sha1 t = none) :
    b.addLevels sha1 (newLevels sha1 b t) = b.takeType sha1 t.info := by
  rw [newLevels, hlevels, Interning.fresh_cons_of_not_mem h, Interning.fresh_nil,
    Batch.addLevels_singleton hedge]

/-- A new pointer or reference comes with what is new below it: it is not among its own levels, so
that its mark stops nothing there. -/
theorem newLevels_of_new {s : Set CType} (hkey : Set.InjOn (CType.usr sha1) s) {b : Batch}
    {t : TypeInfo} {pointee : CType} {k : EdgeType} (hk : chainEdge t = some k)
    (hs : ∀ u ∈ (CType.pointing t pointee).levels, u ∈ s) (h : t.usr sha1 ∉ b.seen_usrs) :
    newLevels sha1 b (.pointing t pointee) =
      .pointing t pointee :: newLevels sha1 (b.takeType sha1 t) pointee := by
  have hnodup := (chain_levels (.pointing t pointee)).nodup
  rw [CType.levels_of_chainEdge hk] at hs hnodup
  obtain ⟨hself, hbelow⟩ := List.forall_mem_cons.mp hs
  have htaken : CType.usr sha1 (.pointing t pointee) ∉ b.seen_usrs := h
  have hbelow_new : newLevels sha1 (b.takeType sha1 t) pointee =
      Interning.fresh (CType.usr sha1) b.seen_usrs pointee.levels :=
    Interning.fresh_cons_taken fun u hu heq =>
      (List.nodup_cons.mp hnodup).1 (hkey (hbelow u hu) hself heq ▸ hu)
  rw [hbelow_new, newLevels, CType.levels_of_chainEdge hk, Interning.fresh_cons_of_not_mem htaken]

/-- **What a call does:** it appends the levels of the type down to the first that is taken, and
their edges in the other order. -/
theorem getOrCreateType_eq {s : Set CType} (hkey : Set.InjOn (CType.usr sha1) s)
    (hspelled : ∀ t ∈ s, t.info.spelled ≠ "") {t : CType} (hs : ∀ u ∈ t.levels, u ∈ s)
    (b : Batch) :
    getOrCreateType sha1 b t = (b.addLevels sha1 (newLevels sha1 b t), some (t.usr sha1)) := by
  induction t generalizing b with
  | last t raises =>
    have ht : t.spelled ≠ "" := hspelled _ (hs _ (CType.mem_levels _))
    rw [getOrCreateType, if_neg ht]
    split_ifs with htaken
    · rw [newLevels_of_taken htaken, Batch.addLevels_nil]
      rfl
    · rw [addLevels_of_new htaken rfl rfl]
      rfl
  | pointing t pointee ih =>
    have ht : t.spelled ≠ "" := hspelled _ (hs _ (CType.mem_levels _))
    rw [getOrCreateType, if_neg ht]
    split_ifs with htaken
    · rw [newLevels_of_taken htaken, Batch.addLevels_nil]
      rfl
    · cases hk : chainEdge t with
      | none =>
        have hlevels : (CType.pointing t pointee).levels = [.pointing t pointee] := by
          simp [CType.levels, hk]
        have hedge : pointeeEdge sha1 (.pointing t pointee) = none := by simp [pointeeEdge, hk]
        rw [addLevels_of_new htaken hlevels hedge]
        rfl
      | some k =>
        have hbelow : ∀ u ∈ pointee.levels, u ∈ s := by
          rw [CType.levels_of_chainEdge hk] at hs
          exact (List.forall_mem_cons.mp hs).2
        rw [newLevels_of_new hkey hk hs htaken, Batch.addLevels_cons hk]
        simp only [linkType, ih hbelow, Batch.addEdge?]
        rfl

/-! ### The calls -/

variable (sha1) in
/-- The batch is a table of types, each with its node and its edge. -/
structure IsTable (b : Batch) (table : List CType) : Prop where
  nodes : b.nodes = table.map (typeNode sha1)
  edges : b.edges.Perm (table.filterMap (pointeeEdge sha1))
  seen : ∀ usr, usr ∈ b.seen_usrs ↔ usr ∈ table.map (CType.usr sha1)

/-- A batch without anything holds the empty table. -/
theorem isTable_nil : IsTable sha1 ⟨[], [], []⟩ [] where
  nodes := rfl
  edges := .nil
  seen _ := Iff.rfl

/-- A call enters the levels of its type into the table that the batch holds. -/
theorem IsTable.enter {b : Batch} {table : List CType} (h : IsTable sha1 b table) (t : CType) :
    IsTable sha1 (b.addLevels sha1 (newLevels sha1 b t))
      (Interning.enter (CType.usr sha1) table t.levels) := by
  rw [newLevels, Interning.enter, Interning.fresh_congr h.seen]
  refine ⟨?_, ?_, fun usr => ?_⟩
  · rw [Batch.addLevels, h.nodes, List.map_append]
  · rw [Batch.addLevels, List.filterMap_append]
    exact h.edges.append (List.reverse_perm _)
  · rw [Batch.addLevels, List.mem_append, List.mem_reverse, List.map_append, List.mem_append,
      h.seen, or_comm]

/-- **The calls enter the levels of their arguments into the table**, and each returns the USR of
its argument. -/
theorem isTable_getOrCreateTypes {s : Set CType}
    (hkey : Set.InjOn (CType.usr sha1) s)
    (hspelled : ∀ t ∈ s, t.info.spelled ≠ "") {types : List CType}
    (hs : ∀ t ∈ types, ∀ u ∈ t.levels, u ∈ s) {b : Batch} {table : List CType}
    (h : IsTable sha1 b table) :
    IsTable sha1 (getOrCreateTypes sha1 b types).1
        (Interning.enterAll (CType.usr sha1) table (types.map CType.levels)) ∧
      (getOrCreateTypes sha1 b types).2 = types.map fun t => some (t.usr sha1) := by
  induction types generalizing b table with
  | nil => exact ⟨h, rfl⟩
  | cons t types ih =>
    obtain ⟨ht, htypes⟩ := List.forall_mem_cons.mp hs
    obtain ⟨htable, hreturned⟩ := ih htypes (h.enter t)
    rw [getOrCreateTypes, getOrCreateType_eq hkey hspelled ht]
    exact ⟨htable, congrArg (_ :: ·) hreturned⟩

/-! ### The table -/

/-- Where digests do not collide, and the spelling tells the type, so does the USR. -/
theorem usr_injOn (hsha1 : Function.Injective sha1.hexdigest) {types : List CType}
    (h : SpellingTells types) : Set.InjOn (CType.usr sha1) {t | t ∈ types} :=
  fun t ht t' ht' heq => h.tells t ht t' ht' (spelling_of_typeUsr hsha1 heq)

/-- The edge from a type to what it points to begins at the type. -/
theorem source_of_pointeeEdge {t : CType} {e : EdgeRecord} (h : pointeeEdge sha1 t = some e) :
    e.source_usr = t.usr sha1 := by
  cases t with
  | last => exact absurd h (by simp [pointeeEdge])
  | pointing t pointee =>
    obtain ⟨k, -, rfl⟩ := Option.map_eq_some_iff.mp h
    rfl

section Table

variable {b : Batch} {table types : List CType} (hb : IsTable sha1 b table)
  (h : Interning.Interned (CType.usr sha1) CType.pointee {t | t ∈ types} table)
include hb h

/-- The edges of a type in the table are its own. -/
theorem edgesOf_eq {t : CType} (ht : t ∈ table) :
    edgesOf sha1 b t = (pointeeEdge sha1 t).toList := by
  have hperm := hb.edges.filter fun e => e.source_usr = t.usr sha1
  have hfilter : (table.filterMap (pointeeEdge sha1)).filter (fun e => e.source_usr = t.usr sha1) =
      (table.filter fun u => u.usr sha1 = t.usr sha1).filterMap (pointeeEdge sha1) := by
    rw [List.filter_filterMap, List.filterMap_filter]
    refine List.filterMap_congr fun u _ => ?_
    cases hu : pointeeEdge sha1 u with
    | none => simp
    | some e => simp [Option.filter, source_of_pointeeEdge hu]
  rw [hfilter, h.filter_key ht] at hperm
  cases hedge : pointeeEdge sha1 t with
  | none =>
    rw [List.filterMap_cons_none hedge, List.filterMap_nil] at hperm
    exact List.perm_nil.mp hperm
  | some e =>
    rw [List.filterMap_cons_some hedge, List.filterMap_nil] at hperm
    exact List.perm_singleton.mp hperm

/-- The nodes with the spelling of a type in the table are its own. -/
theorem filter_spelling (hsha1 : Function.Injective sha1.hexdigest) {t : CType} (ht : t ∈ table) :
    (b.nodes.filter fun n => n.props.lookup "spelling" = some (.str t.info.spelled)) =
      [typeNode sha1 t] := by
  have hspelling : ∀ u : CType,
      (typeNode sha1 u).props.lookup "spelling" = some (.str t.info.spelled) ↔
        u.usr sha1 = t.usr sha1 := by
    intro u
    have hlookup : (typeNode sha1 u).props.lookup "spelling" = some (.str u.info.spelled) := rfl
    rw [hlookup, Option.some_inj, PropVal.str.injEq]
    exact ⟨fun heq => congrArg (typeUsr sha1) heq, fun heq => spelling_of_typeUsr hsha1 heq⟩
  rw [hb.nodes, List.filter_map]
  simp only [Function.comp_def, hspelling]
  rw [h.filter_key ht]
  rfl

/-- The pointee of a type in the table is there, and an edge leads to it. -/
theorem edgesOf_of_chainEdge (hmem : ∀ t, t ∈ table ↔ t ∈ types) {info : TypeInfo}
    {pointee : CType} (ht : .pointing info pointee ∈ types) {k : EdgeType}
    (hk : chainEdge info = some k) :
    pointee ∈ types ∧ edgesOf sha1 b (.pointing info pointee) =
      [⟨info.usr sha1, pointee.usr sha1, k, []⟩] := by
  have htable := (hmem _).mpr ht
  have hpointee : CType.pointee (.pointing info pointee) = some pointee := by
    simp [CType.pointee, hk]
  refine ⟨(hmem _).mp (h.closed _ htable _ hpointee), ?_⟩
  rw [edgesOf_eq hb h htable, pointeeEdge, hk]
  rfl

/-- **A table that was filled chain by chain is exact:** each type that can be reached has one node, with
its properties, and one edge to its pointee. -/
theorem typesExact_of_isTable (hsha1 : Function.Injective sha1.hexdigest)
    (hmem : ∀ t, t ∈ table ↔ t ∈ types) : TypesExact sha1 types b where
  one_node t ht := filter_spelling hb h hsha1 ((hmem t).mpr ht)
  nodes n hn := by
    rw [hb.nodes] at hn
    obtain ⟨t, ht, rfl⟩ := List.mem_map.mp hn
    exact ⟨t, (hmem t).mp ht, rfl⟩
  pointers info pointee ht hkind :=
    edgesOf_of_chainEdge hb h hmem ht (by simp [chainEdge, hkind])
  references info pointee ht hkind := by
    refine edgesOf_of_chainEdge hb h hmem ht ?_
    rcases hkind with hkind | hkind <;> simp [chainEdge, hkind]
  others t ht hnone := by
    rw [edgesOf_eq hb h ((hmem t).mpr ht)]
    cases t with
    | last => rfl
    | pointing info pointee =>
      cases hk : chainEdge info with
      | none => simp [pointeeEdge, hk]
      | some k => exact absurd hnone (by simp [CType.pointee, hk])
  edges e he := by
    obtain ⟨t, ht, hedge⟩ := List.mem_filterMap.mp (hb.edges.mem_iff.mp he)
    have hsource := source_of_pointeeEdge hedge
    exact ⟨t, (hmem t).mp ht, List.mem_filter.mpr ⟨he, by simpa using hsource⟩⟩

end Table

/-- **The types invariant:** where every type that is reached has a spelling and the spelling tells
the type, calls of `_get_or_create_type` on one batch build exactly the types that are reached, and
each returns the USR of its argument's spelling. -/
theorem types_exact (hsha1 : Function.Injective sha1.hexdigest) {types : List CType}
    (h : SpellingTells (reachable types)) :
    TypesExact sha1 (reachable types) (getOrCreateTypes sha1 ⟨[], [], []⟩ types).1 ∧
      (getOrCreateTypes sha1 ⟨[], [], []⟩ types).2 =
        types.map fun t => some (typeUsr sha1 t.info.spelled) := by
  have hkey := usr_injOn hsha1 h
  have hreached : ∀ t ∈ types, ∀ u ∈ t.levels, u ∈ reachable types :=
    fun t ht u hu => List.mem_flatMap.mpr ⟨t, ht, hu⟩
  obtain ⟨htable, hreturned⟩ := isTable_getOrCreateTypes hkey h.spelled hreached isTable_nil
  have hchains : ∀ c ∈ types.map CType.levels, ∃ t, Interning.Chain CType.pointee t c := by
    intro c hc
    obtain ⟨t, -, rfl⟩ := List.mem_map.mp hc
    exact ⟨t, chain_levels t⟩
  have hin : ∀ c ∈ types.map CType.levels, ∀ u ∈ c, u ∈ reachable types := by
    intro c hc
    obtain ⟨t, ht, rfl⟩ := List.mem_map.mp hc
    exact hreached t ht
  obtain ⟨hinterned, hmem⟩ := Interning.Interned.nil.enterAll hkey hchains hin
  refine ⟨typesExact_of_isTable htable hinterned hsha1 fun t => (hmem t).trans ?_, hreturned⟩
  simp [reachable]

/-- `int *`. -/
def intPointer : CType :=
  .pointing { spelling := .ok "int *", kind := .ok .pointer } (.last { spelling := .ok "int" } none)

/-- `int **`, from the middle of the chain of `int **&`. -/
def intPointers : CType := .pointing { spelling := .ok "int **", kind := .ok .pointer } intPointer

/-- `int **&`. -/
def intPointersRef : CType :=
  .pointing { spelling := .ok "int **&", kind := .ok .lvalueReference } intPointers

/-- The spelling tells each type of this chain. -/
theorem spellingTells_intPointers :
    SpellingTells (reachable [intPointer, intPointersRef, intPointers]) := by
  have hcases : ∀ t ∈ reachable [intPointer, intPointersRef, intPointers],
      t = intPointersRef ∨ t = intPointers ∨ t = intPointer ∨
        t = .last { spelling := .ok "int" } none := by
    simp [reachable, intPointer, intPointers, intPointersRef, CType.levels, chainEdge]
  refine ⟨fun t ht => ?_, fun t ht t' ht' heq => ?_⟩
  · rcases hcases t ht with rfl | rfl | rfl | rfl <;> decide
  · rcases hcases t ht with rfl | rfl | rfl | rfl <;>
      rcases hcases t' ht' with rfl | rfl | rfl | rfl <;>
        first
        | rfl
        | exact absurd heq (by decide)

/-- `types_exact` where the chain of `int **&` comes to `int *`, which has been entered before it.
-/
theorem types_exact_intPointers :
    TypesExact hexSha1 (reachable [intPointer, intPointersRef, intPointers])
        (getOrCreateTypes hexSha1 ⟨[], [], []⟩ [intPointer, intPointersRef, intPointers]).1 ∧
      (getOrCreateTypes hexSha1 ⟨[], [], []⟩ [intPointer, intPointersRef, intPointers]).2 =
        [intPointer, intPointersRef, intPointers].map fun t =>
          some (typeUsr hexSha1 t.info.spelled) :=
  types_exact hexSha1_injective spellingTells_intPointers

end Export
end CppMcp
