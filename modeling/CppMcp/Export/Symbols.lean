/-
# Symbol nodes

The nodes of an export are files, types, parameters and symbols.  A symbol's node is appended at the
first cursor of the file that has its USR, unless something else has taken that: and nothing has,
where libclang's USRs are none of those that the exporter makes up (`Native`).  So which symbol
nodes there are can be read off the cursors (`mem_symbolNodes_iff`).
-/

import CppMcp.Export.Growth
import CppMcp.Export.Locality

namespace CppMcp
namespace Export

/-- The labels of symbols. -/
def NodeType.isSymbol : NodeType → Bool
  | .file | .type | .parameter => false
  | _ => true

/-- A USR as libclang makes them.  Those that the exporter makes up begin with `file://` or `type:`,
or have `#param:` in them. -/
def Native (usr : String) : Prop :=
  Py.startswith usr "c:" = true ∧ Py.contains usr "#param:" = false

instance (usr : String) : Decidable (Native usr) := inferInstanceAs (Decidable (_ ∧ _))

/-- The USR and the label of each symbol node. -/
def symbolNodes (nodes : List NodeRecord) : List (String × NodeType) :=
  nodes.filterMap fun n => if n.label.isSymbol then some (n.usr, n.label) else none

/-- The USR and the label of the node of a symbol cursor of the file. -/
def CursorInfo.symbol (file_path : String) (c : CursorInfo) : Option (String × NodeType) :=
  if c.kindName = some .parmDecl ∨ c.kindName = some .inclusionDirective ∨
      kindIn c.kindName referenceCursorKinds = true ∨ c.foreign file_path = true then none
  else c.schema.map fun node_type => (c.safeUsr, node_type)

/-- The symbol cursors of the file, in the order of the walk. -/
def symbolsOf (file_path : String) (t : Cursor) : List (String × NodeType) :=
  (reached t).filterMap fun s => s.label.symbol file_path

/-! ### USRs that the exporter makes up -/

/-- The USR that the exporter makes up for a file is none of libclang's. -/
theorem not_native_fileUsr (file_path : String) : ¬Native (fileUsr file_path) := by
  rintro ⟨h, -⟩
  rw [Py.startswith_iff, fileUsr, String.toList_append] at h
  exact absurd (List.cons_prefix_cons.mp h).1 (by decide)

/-- The USR that it makes up for a type is none of libclang's. -/
theorem not_native_typeUsr (sha1 : Py.Sha1) (spelling : String) :
    ¬Native (typeUsr sha1 spelling) := by
  rintro ⟨h, -⟩
  rw [Py.startswith_iff, typeUsr, String.toList_append] at h
  exact absurd (List.cons_prefix_cons.mp h).1 (by decide)

/-- The USR that it makes up for a parameter is none of libclang's. -/
theorem not_native_paramUsr (usr : String) (idx : ℕ) : ¬Native (paramUsr usr idx) := by
  rintro ⟨-, h⟩
  have hinfix : "#param:".toList <:+: (paramUsr usr idx).toList := by
    rw [paramUsr, String.toList_append, String.toList_append]
    exact ⟨usr.toList, (toString idx).toList, rfl⟩
  rw [Py.contains] at h
  exact absurd hinfix (of_decide_eq_false h)

/-! ### What leaves the symbols alone -/

namespace Batch

/-- No symbol's node is appended, and no native USR is taken. -/
structure Frame (b b' : Batch) : Prop where
  nodes : symbolNodes b'.nodes = symbolNodes b.nodes
  seen : ∀ u, Native u → (u ∈ b'.seen_usrs ↔ u ∈ b.seen_usrs)

variable {b b' b'' : Batch}

/-- Doing nothing leaves the symbols alone. -/
theorem Frame.refl (b : Batch) : b.Frame b := ⟨rfl, fun _ _ => Iff.rfl⟩

/-- Two steps that leave the symbols alone leave them alone together. -/
theorem Frame.trans (h : b.Frame b') (h' : b'.Frame b'') : b.Frame b'' :=
  ⟨h'.nodes.trans h.nodes, fun u hu => (h'.seen u hu).trans (h.seen u hu)⟩

/-- Taking a USR that is made up takes none that a symbol could have. -/
theorem frame_see (b : Batch) {usr : String} (h : ¬Native usr) : b.Frame (b.see usr) where
  nodes := rfl
  seen u hu := by
    rw [see, List.mem_cons]
    exact or_iff_right (by rintro rfl; exact h hu)

/-- A node with a label of no symbol leaves the symbols alone. -/
theorem frame_addNode (b : Batch) {n : NodeRecord} (h : n.label.isSymbol = false) :
    b.Frame (b.addNode n) where
  nodes := by
    rw [addNode, symbolNodes, List.filterMap_append, List.filterMap_cons_none (by simp [h])]
    exact List.append_nil _
  seen _ _ := Iff.rfl

/-- An edge leaves the symbols alone. -/
theorem frame_addEdge (b : Batch) (s t : String) (k : EdgeType) (props : Props) :
    b.Frame (b.addEdge s t k props) := ⟨rfl, fun _ _ => Iff.rfl⟩

/-- So does an edge that may be missing. -/
theorem frame_addEdge? (b : Batch) (s : String) (t : Option String) (k : EdgeType) :
    b.Frame (b.addEdge? s t k) := by
  cases t with
  | none => exact Frame.refl b
  | some t => exact frame_addEdge b s t k []

end Batch

open Batch

variable (sha1 : Py.Sha1) (file_path : String)

/-- The node of a type leaves the symbols alone. -/
theorem frame_takeType (b : Batch) (t : TypeInfo) : b.Frame (b.takeType sha1 t) :=
  (frame_see b (not_native_typeUsr sha1 _)).trans (frame_addNode _ rfl)

/-- One step of the interning of a type leaves the symbols alone: all it takes are made-up USRs. -/
theorem frame_typeStep {t : CType} {b b' : Batch} {usr : Option String}
    (h : TypeStep sha1 t b b' usr) : b.Frame b' := by
  induction h with
  | unspelled | taken => exact Frame.refl _
  | new => exact frame_takeType sha1 _ _
  | chain _ _ _ _ ih =>
    exact (frame_takeType sha1 _ _).trans (ih.trans (frame_addEdge _ _ _ _ _))

/-- So does interning a type that may be missing or raise. -/
theorem frame_getOrCreateTypeOf (type : Acc (Option CType)) (b : Batch) :
    b.Frame (getOrCreateTypeOf sha1 b type).1 := by
  rcases typeStep_getOrCreateTypeOf sha1 type b with h | ⟨t, -, h⟩
  · rw [h]; exact Frame.refl b
  · exact frame_typeStep sha1 h

/-- Linking a node to its type leaves the symbols alone. -/
theorem frame_linkType (b : Batch) (usr : String) (k : EdgeType) (type : Acc (Option CType)) :
    b.Frame (linkType usr k (getOrCreateTypeOf sha1 b type)) :=
  (frame_getOrCreateTypeOf sha1 type b).trans (frame_addEdge? _ _ _ _)

/-- An inclusion brings a file's node, and no symbol's. -/
theorem frame_emitInclusion (c : CursorInfo) (b : Batch) :
    b.Frame (emitInclusion (fileUsr file_path) c b) := by
  unfold emitInclusion
  split
  · split_ifs
    · exact frame_addEdge _ _ _ _ _
    · exact (frame_see b (not_native_fileUsr _)).trans
        ((frame_addNode _ rfl).trans (frame_addEdge _ _ _ _ _))
  · exact Frame.refl b

/-- The edge from the parent of a symbol brings no node. -/
theorem frame_emitParentEdge (ctx : Ctx) (c : CursorInfo) (b : Batch) :
    b.Frame (emitParentEdge (fileUsr file_path) ctx.parent_usr ctx.parent_kind c b) := by
  unfold emitParentEdge
  split
  · split_ifs <;> exact frame_addEdge _ _ _ _ _
  · exact frame_addEdge _ _ _ _ _

/-- The edges to base classes bring no node. -/
theorem frame_emitInherits (c : CursorInfo) (children : List Cursor) (b : Batch) :
    b.Frame (emitInherits c children b) := by
  have fold : ∀ (us : List String) (b : Batch),
      b.Frame (us.foldl (fun b base_usr => b.addEdge c.safeUsr base_usr .inherits) b) := by
    intro us
    induction us with
    | nil => exact Frame.refl
    | cons u us ih => exact fun b => (frame_addEdge b _ _ _ _).trans (ih _)
  unfold emitInherits
  split_ifs
  · exact fold _ b
  · exact Frame.refl b

/-- A result type brings the nodes of types only. -/
theorem frame_emitReturns (c : CursorInfo) (b : Batch) : b.Frame (emitReturns sha1 c b) := by
  unfold emitReturns
  split_ifs
  · exact frame_linkType sha1 _ _ _ _
  · exact Frame.refl b

/-- The loop over the parameters brings their nodes and those of their types, which are no symbols.
-/
theorem frame_emitParamsFrom (usr : String) (params : List Param) (idx : ℕ) (b : Batch) :
    b.Frame (emitParamsFrom sha1 usr idx params b) := by
  induction params generalizing idx b with
  | nil => exact Frame.refl b
  | cons param rest ih =>
    have htype := (frame_see b (not_native_paramUsr usr idx)).trans
      (frame_getOrCreateTypeOf sha1 param.type _)
    rw [emitParamsFrom]
    split_ifs
    · exact ih _ _
    · cases param.spelling with
      | error e => exact htype
      | ok spelling =>
        refine htype.trans (Frame.trans ?_ (ih _ _))
        exact (frame_addNode _ rfl).trans ((frame_addEdge _ _ _ _ _).trans (frame_addEdge? _ _ _ _))

/-- So do the parameters of a function cursor. -/
theorem frame_emitParams (c : CursorInfo) (b : Batch) : b.Frame (emitParams sha1 c b) := by
  unfold emitParams
  split_ifs
  · exact frame_emitParamsFrom sha1 _ _ _ _
  · exact Frame.refl b

/-- After the symbol itself, the branch of a schema cursor leaves the symbols alone. -/
theorem frame_emitSchema {c : CursorInfo} {node_type : NodeType} (hs : c.schema = some node_type)
    (ctx : Ctx) (children : List Cursor) (b : Batch) :
    (emitSymbol sha1 c children node_type b).Frame
      (emitSchema sha1 (fileUsr file_path) ctx node_type c children b) := by
  rw [emitSchema, emitCalls_eq_self hs]
  exact (frame_emitParentEdge file_path ctx c _).trans <| (frame_emitInherits c children _).trans <|
    (frame_emitReturns sha1 c _).trans <| frame_emitParams sha1 c _

/-! ### Who takes a native USR -/

/-- A schema kind that is not that of a parameter gives the label of a symbol. -/
theorem isSymbol_of_kind {k : CursorKind} {node_type : NodeType} (hk : k ≠ .parmDecl)
    (h : kindToNodeType k = some node_type) : node_type.isSymbol = true := by
  unfold kindToNodeType at h
  split at h <;> cases h <;> first | rfl | exact absurd rfl hk

/-- The label of a cursor that is no parameter is one of a symbol. -/
theorem isSymbol_of_schema {c : CursorInfo} {node_type : NodeType}
    (hparm : c.kindName ≠ some .parmDecl) (hs : c.schema = some node_type) :
    node_type.isSymbol = true := by
  obtain ⟨-, rfl⟩ | ⟨k, hk, htable⟩ := CursorInfo.schema_cases hs
  · unfold classifyField
    split_ifs <;> rfl
  · exact isSymbol_of_kind (fun h => hparm (hk.trans (congrArg some h))) htable

/-- **What has been recorded of the symbols** after some cursors: the first of each USR. -/
structure Records (b : Batch) (symbols : List (String × NodeType)) : Prop where
  nodes : ∀ u l, (u, l) ∈ symbolNodes b.nodes ↔ symbols.lookup u = some l
  seen : ∀ u, Native u → (u ∈ b.seen_usrs ↔ (symbols.lookup u).isSome)

/-- What has been recorded of the symbols stays right where they are left alone. -/
theorem Records.frame {b b' : Batch} {symbols : List (String × NodeType)}
    (h : Records b symbols) (hf : b.Frame b') : Records b' symbols where
  nodes u l := by rw [hf.nodes]; exact h.nodes u l
  seen u hu := (hf.seen u hu).trans (h.seen u hu)

/-- A batch begins with the node of its file, and nothing recorded of symbols. -/
theorem records_initialBatch : Records (initialBatch file_path) [] where
  nodes u l := by simp [initialBatch, symbolNodes, fileNode, NodeType.isSymbol]
  seen u hu := by
    have hne : u ≠ fileUsr file_path := by
      rintro rfl
      exact not_native_fileUsr _ hu
    simp [initialBatch, hne]

/-- A symbol that comes later is looked up only if none with its USR came earlier. -/
theorem lookup_concat (symbols : List (String × NodeType)) (usr : String) (l : NodeType) (u : String) :
    (symbols ++ [(usr, l)]).lookup u =
      (symbols.lookup u).or (if u = usr then some l else none) := by
  rw [List.lookup_append]
  congr 1
  by_cases hu : u = usr
  · simp [hu]
  · rw [List.lookup_cons, beq_eq_false_iff_ne.mpr hu, if_neg hu]
    rfl

/-- Taking a symbol appends its node to those of the symbols. -/
theorem symbolNodes_takeSymbol (b : Batch) (c : CursorInfo) (children : List Cursor)
    {node_type : NodeType} (h : node_type.isSymbol = true) :
    symbolNodes (b.takeSymbol c children node_type).nodes =
      symbolNodes b.nodes ++ [(c.safeUsr, node_type)] := by
  rw [Batch.takeSymbol, Batch.addNode, symbolNodes, List.filterMap_append]
  simp [Batch.see, h, symbolNodes]

/-- The node of a symbol that has not been met is appended. -/
theorem Records.takeSymbol {b : Batch} {symbols : List (String × NodeType)} (h : Records b symbols)
    {c : CursorInfo} {node_type : NodeType} (hsymbol : node_type.isSymbol = true)
    (hnative : Native c.safeUsr) (hnew : c.safeUsr ∉ b.seen_usrs) (children : List Cursor) :
    Records (b.takeSymbol c children node_type) (symbols ++ [(c.safeUsr, node_type)]) where
  nodes u l := by
    have hnone : symbols.lookup c.safeUsr = none := by
      rw [← Option.not_isSome_iff_eq_none, ← h.seen _ hnative]
      exact hnew
    rw [symbolNodes_takeSymbol b c children hsymbol, List.mem_append, h.nodes, lookup_concat,
      List.mem_singleton, Prod.mk.injEq]
    by_cases hu : u = c.safeUsr
    · subst hu
      simp [hnone, eq_comm]
    · simp [hu]
  seen u hu := by
    have hseen : u ∈ (b.takeSymbol c children node_type).seen_usrs ↔
        u = c.safeUsr ∨ u ∈ b.seen_usrs := List.mem_cons
    rw [hseen, h.seen u hu, lookup_concat]
    by_cases hu : u = c.safeUsr <;> simp [hu]

/-- A symbol that has been met adds nothing: its USR is taken, and the one that came first is the
one that is looked up. -/
theorem Records.again {b : Batch} {symbols : List (String × NodeType)} (h : Records b symbols)
    {usr : String} (hnative : Native usr) (hseen : usr ∈ b.seen_usrs) (l : NodeType) :
    Records b (symbols ++ [(usr, l)]) := by
  obtain ⟨l', hl'⟩ := Option.isSome_iff_exists.mp ((h.seen _ hnative).mp hseen)
  have hsame : ∀ u, (symbols ++ [(usr, l)]).lookup u = symbols.lookup u := by
    intro u
    rw [lookup_concat]
    by_cases hu : u = usr
    · rw [hu, hl', Option.some_or]
    · rw [if_neg hu, Option.or_none]
  exact
    { nodes := fun u l => by rw [hsame]; exact h.nodes u l
      seen := fun u hu => by rw [hsame]; exact h.seen u hu }

/-- **A symbol cursor's node is appended unless there has been one with its USR.** -/
theorem Records.emitSymbol {b : Batch} {symbols : List (String × NodeType)} (h : Records b symbols)
    {c : CursorInfo} {node_type : NodeType} (hsymbol : node_type.isSymbol = true)
    (hnative : Native c.safeUsr) (children : List Cursor) :
    Records (emitSymbol sha1 c children node_type b) (symbols ++ [(c.safeUsr, node_type)]) := by
  unfold Export.emitSymbol
  split_ifs with hseen htype
  · exact h.again hnative hseen node_type
  · exact (h.takeSymbol hsymbol hnative hseen children).frame (frame_linkType sha1 _ _ _ _)
  · exact h.takeSymbol hsymbol hnative hseen children

/-- Cursors of these kinds, and those of other files, record no symbol. -/
theorem symbol_eq_none {c : CursorInfo} (h : c.kindName = some .parmDecl ∨
    c.kindName = some .inclusionDirective ∨ kindIn c.kindName referenceCursorKinds = true ∨
      c.foreign file_path = true) : c.symbol file_path = none :=
  if_pos h

/-- A cursor of the file that none of the special branches takes records the symbol of its label. -/
theorem symbol_of_ordinary {c : CursorInfo} (h : c.Ordinary) (hf : c.foreign file_path = false) :
    c.symbol file_path = c.schema.map fun node_type => (c.safeUsr, node_type) := by
  obtain ⟨hp, hi, hr⟩ := h
  rw [CursorInfo.symbol, if_neg]
  rintro (h | h | h | h)
  · exact hp h
  · exact hi h
  · exact absurd (hr.symm.trans h) Bool.false_ne_true
  · exact absurd (hf.symm.trans h) Bool.false_ne_true

/-- A symbol that is recorded has the USR and the label of a cursor that is not foreign. -/
theorem of_symbol_eq_some {c : CursorInfo} {u : String} {l : NodeType}
    (h : c.symbol file_path = some (u, l)) :
    c.safeUsr = u ∧ c.schema = some l ∧ c.foreign file_path = false := by
  unfold CursorInfo.symbol at h
  split_ifs at h with hno
  obtain ⟨l', hs, heq⟩ := Option.map_eq_some_iff.mp h
  obtain ⟨husr, rfl⟩ := Prod.mk.inj heq
  exact ⟨husr, hs, eq_false_of_ne_true (not_or.mp (not_or.mp (not_or.mp hno).2).2).2⟩

/-- One visit records the symbol of its cursor, if it has one, whatever else it emits. -/
theorem Records.emit {b : Batch} {symbols : List (String × NodeType)} (h : Records b symbols)
    (v : Visit) (hnative : v.2.label.safeUsr = "" ∨ Native v.2.label.safeUsr) :
    Records (emit sha1 file_path b v)
      (symbols ++ (v.2.label.symbol file_path).toList) := by
  obtain ⟨ctx, t⟩ := v
  rcases branch_cases sha1 file_path ctx t with
    ⟨hk, -, hemit⟩ | ⟨hk, -, hemit⟩ | ⟨hk, -, hemit⟩ | ⟨-, hf, -, hemit⟩ |
    ⟨hord, hf, node_type, hs, -, hemit⟩ | ⟨hord, hf, hs, -, hemit⟩ <;>
  rw [hemit b]
  · rw [symbol_eq_none file_path (Or.inl hk), Option.toList_none, List.append_nil]
    exact h
  · rw [symbol_eq_none file_path (Or.inr (Or.inl hk)), Option.toList_none, List.append_nil]
    exact h.frame (frame_emitInclusion file_path _ b)
  · rw [symbol_eq_none file_path (Or.inr (Or.inr (Or.inl hk))), Option.toList_none,
      List.append_nil]
    exact h.frame (frame_addEdge? _ _ _ _)
  · rw [symbol_eq_none file_path (Or.inr (Or.inr (Or.inr hf))), Option.toList_none,
      List.append_nil]
    exact h
  · have husr := CursorInfo.safeUsr_ne_empty hs
    rw [symbol_of_ordinary file_path hord hf, hs, Option.map_some, Option.toList_some]
    exact (h.emitSymbol sha1 (isSymbol_of_schema hord.1 hs) (hnative.resolve_left husr)
      t.children).frame (frame_emitSchema sha1 file_path hs ctx t.children b)
  · rw [symbol_of_ordinary file_path hord hf, hs, Option.map_none, Option.toList_none,
      List.append_nil]
    exact h

/-- So the whole walk records the symbols of the cursors that are visited, in their order. -/
theorem Records.foldl {b : Batch} {symbols : List (String × NodeType)} (h : Records b symbols)
    (vs : List Visit)
    (hnative : ∀ v ∈ vs, v.2.label.safeUsr = "" ∨ Native v.2.label.safeUsr) :
    Records (vs.foldl (Export.emit sha1 file_path) b)
      (symbols ++ (vs.map Prod.snd).filterMap fun s => s.label.symbol file_path) := by
  induction vs generalizing b symbols with
  | nil => simpa using h
  | cons v vs ih =>
    have hrest := ih (h.emit sha1 file_path v (hnative v List.mem_cons_self))
      fun w hw => hnative w (List.mem_cons_of_mem _ hw)
    rw [List.foldl_cons, List.map_cons, List.filterMap_cons]
    cases hsym : v.2.label.symbol file_path with
    | none => simpa [hsym] using hrest
    | some x => simpa [hsym] using hrest

/-- **The symbol nodes of an export:** for each USR the first cursor of the file that has it. -/
theorem mem_symbolNodes_iff {t : Cursor} {r : List NodeRecord × List EdgeRecord}
    (hr : extractNodesAndEdges sha1 file_path t = .ok r)
    (hnative : ∀ s ∈ t.subtrees, s.label.safeUsr = "" ∨ Native s.label.safeUsr)
    (u : String) (l : NodeType) :
    (u, l) ∈ symbolNodes r.1 ↔ (symbolsOf file_path t).lookup u = some l := by
  obtain ⟨-, rfl⟩ := (extract_eq_ok_iff sha1 file_path).mp hr
  have h := (records_initialBatch file_path).foldl sha1 file_path (visits file_path t)
    fun v hv => hnative v.2 (Rose.mem_subtrees_of_mem_visit hv)
  rw [List.nil_append, visits, visit_map_snd] at h
  exact h.nodes u l

/-- A USR whose cursors all have one label has that label. -/
theorem lookup_symbolsOf {t s : Cursor} {u : String} {l : NodeType} (hs : s ∈ reached t)
    (h : s.label.symbol file_path = some (u, l))
    (hall : ∀ s' ∈ reached t, ∀ l', s'.label.symbol file_path = some (u, l') → l' = l) :
    (symbolsOf file_path t).lookup u = some l := by
  have hmem : (u, l) ∈ symbolsOf file_path t := List.mem_filterMap.mpr ⟨s, hs, h⟩
  cases hlookup : (symbolsOf file_path t).lookup u with
  | none =>
    exact absurd (beq_self_eq_true u) (by simpa using List.lookup_eq_none_iff.mp hlookup _ hmem)
  | some l' =>
    obtain ⟨l₁, l₂, heq, -⟩ := List.lookup_eq_some_iff.mp hlookup
    have hmem' : (u, l') ∈ symbolsOf file_path t := by
      rw [heq]
      exact List.mem_append_right _ List.mem_cons_self
    obtain ⟨s', hs', h'⟩ := List.mem_filterMap.mp hmem'
    exact congrArg some (hall s' hs' l' h')

/-! ### Under another name -/

/-- The symbol cursors that stand in no file: no file has the empty name. -/
def unplacedSymbols (t : Cursor) : List (String × NodeType) := symbolsOf "" t

variable {file_path}

/-- A file in which no cursor stands has only those. -/
theorem symbolsOf_eq_unplaced {t : Cursor}
    (h : ∀ s ∈ reached t, (safeLocation s.label.location).1 ≠ file_path) :
    symbolsOf file_path t = unplacedSymbols t := by
  refine List.filterMap_congr fun s hs => ?_
  have hforeign : s.label.foreign file_path = s.label.foreign "" := by
    simp [CursorInfo.foreign, h s hs]
  rw [CursorInfo.symbol, CursorInfo.symbol, hforeign]

/-- The cursors that stand in no file count for every file. -/
theorem mem_symbolsOf_of_unplaced {t : Cursor} {x : String × NodeType}
    (h : x ∈ unplacedSymbols t) (file_path : String) : x ∈ symbolsOf file_path t := by
  obtain ⟨s, hs, hx⟩ := List.mem_filterMap.mp h
  refine List.mem_filterMap.mpr ⟨s, hs, ?_⟩
  unfold CursorInfo.symbol at hx ⊢
  split_ifs at hx with hno
  have hplaced : ¬s.label.foreign "" = true := (not_or.mp (not_or.mp (not_or.mp hno).2).2).2
  have hforeign : s.label.foreign file_path = s.label.foreign "" := by
    have hname : (safeLocation s.label.location).1 = "" := by
      simpa [CursorInfo.foreign] using hplaced
    simp [CursorInfo.foreign, hname]
  rw [hforeign, if_neg hno]
  exact hx

/-- **One tree under two names,** the second of which is that of no cursor: the symbols are the same
if those of the first are among the cursors of no file. -/
theorem lookup_symbolsOf_iff {file_path' : String} {t : Cursor}
    (h : ∀ s ∈ reached t, (safeLocation s.label.location).1 ≠ file_path') :
    (∀ u l, (symbolsOf file_path' t).lookup u = some l ↔ (symbolsOf file_path t).lookup u = some l) ↔
      ∀ u l, (symbolsOf file_path t).lookup u = some l → (unplacedSymbols t).lookup u = some l := by
  rw [symbolsOf_eq_unplaced h]
  refine ⟨fun hsame u l => (hsame u l).mpr, fun hamong u l => ⟨fun hu => ?_, hamong u l⟩⟩
  obtain ⟨l₁, l₂, heq, -⟩ := List.lookup_eq_some_iff.mp hu
  have hmem : (u, l) ∈ symbolsOf file_path t :=
    mem_symbolsOf_of_unplaced (by rw [heq]; simp) file_path
  obtain ⟨l', hl'⟩ : ∃ l', (symbolsOf file_path t).lookup u = some l' := by
    cases hnone : (symbolsOf file_path t).lookup u with
    | some l' => exact ⟨l', rfl⟩
    | none => exact absurd (beq_self_eq_true u) (by simpa using List.lookup_eq_none_iff.mp hnone _ hmem)
  rw [hl', ← hu, ← hamong u l' hl']

end Export
end CppMcp
