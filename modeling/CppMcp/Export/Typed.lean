/-
# Types and parameter lists

A variable, a field and a parameter bring an `OF_TYPE` edge with them when their USR is taken, and a
parameter a `HAS_PARAM` edge.  `Made` says what each node of an export is made from and that these
edges are there; there are no others, since an owner has no two edges of a type
(`nodup_owners_collected`).

So every such node has exactly one type, and every function the list of its parameters
(`types_complete`), as long as no USR that the exporter makes up for a parameter or a type is also
that of a cursor or a file.
-/

import CppMcp.Export.Agree
import CppMcp.Export.Reachable
import CppMcp.Export.Signature
import CppMcp.Py.Uuid
import Mathlib.Data.List.Pairwise

namespace CppMcp
namespace Export

/-- The `HAS_PARAM` edge of an argument. -/
def paramEdge (usr : String) (idx : ℕ) : EdgeRecord :=
  ⟨usr, paramUsr usr idx, .hasParam, [("index", .int idx)]⟩

/-- The node has one `OF_TYPE` edge, to the Type node of the type's spelling. -/
def HasType (nodes : List NodeRecord) (edges : List EdgeRecord) (usr : String)
    (type : Acc (Option CType)) : Prop :=
  ∃ t spelling, type = .ok (some t) ∧ t.info.spelling = .ok spelling ∧
    ∃ m ∈ nodes, m.label = .type ∧ m.props.lookup "spelling" = some (.str spelling) ∧
      (edges.filter fun e => e.edge_type = .ofType ∧ e.source_usr = usr) =
        [⟨usr, m.usr, .ofType, []⟩]

/-- The `HAS_PARAM` edges of the function carry the indices of `n` arguments, each once, to
different Parameter nodes. -/
structure HasParams (nodes : List NodeRecord) (edges : List EdgeRecord) (usr : String)
    (n : ℕ) : Prop where
  edges : (edges.filter fun e => e.edge_type = .hasParam ∧ e.source_usr = usr).Perm
    ((List.range n).map (paramEdge usr))
  distinct : ((List.range n).map (paramUsr usr)).Nodup
  nodes : ∀ idx < n, ∃ m ∈ nodes, m.label = .parameter ∧ m.usr = paramUsr usr idx

/-- **Types and parameter lists are complete:** each node is that of a cursor or an argument, and
has its type, or its parameters. -/
structure TypesComplete (file_path : String) (t : Cursor) (nodes : List NodeRecord)
    (edges : List EdgeRecord) : Prop where
  symbols : ∀ n ∈ nodes, n.label ∈ [NodeType.field, .globalVariable] →
    ∃ v ∈ visits file_path t,
      n = ⟨n.label, v.2.label.safeUsr, symbolProps v.2.label v.2.children n.label⟩ ∧
      HasType nodes edges n.usr v.2.label.type
  parameters : ∀ n ∈ nodes, n.label = .parameter → ∃ v ∈ visits file_path t,
    v.2.label.isFunctionOf file_path = true ∧ ∃ idx param spelling,
      v.2.label.get_arguments[idx]? = some param ∧
      n = ⟨.parameter, paramUsr v.2.label.safeUsr idx, paramProps param idx spelling⟩ ∧
      HasType nodes edges n.usr param.type
  functions : ∀ n ∈ nodes, n.label = .function → ∃ v ∈ visits file_path t,
    v.2.label.isFunctionOf file_path = true ∧ v.2.label.safeUsr = n.usr ∧
      HasParams nodes edges n.usr v.2.label.get_arguments.length

/-! ### What is asked of the tree -/

/-- The type has a spelling. -/
def Spelled (type : Acc (Option CType)) : Prop :=
  ∃ t spelling, type = .ok (some t) ∧ t.info.spelling = .ok spelling ∧ spelling ≠ ""

/-- The types of variables, fields and parameters have spellings. -/
structure AllTyped (t : Cursor) : Prop where
  declared : ∀ s ∈ t.subtrees,
    s.label.kindName = some .varDecl ∨ s.label.kindName = some .fieldDecl → Spelled s.label.type
  arguments : ∀ s ∈ t.subtrees, ∀ p ∈ s.label.get_arguments, Spelled p.type

/-- The redeclarations of a function have the same number of arguments. -/
def SameArity (t : Cursor) : Prop :=
  ∀ s ∈ t.subtrees, ∀ s' ∈ t.subtrees, kindIn s.label.kindName functionCursorKinds = true →
    kindIn s'.label.kindName functionCursorKinds = true → s.label.safeUsr = s'.label.safeUsr →
    s.label.get_arguments.length = s'.label.get_arguments.length

/-- No cursor has a USR of the forms that are made up for parameters and types. -/
structure NoSynthetic (sha1 : Py.Sha1) (t : Cursor) : Prop where
  param : ∀ s ∈ t.subtrees, ∀ usr idx, s.label.safeUsr ≠ paramUsr usr idx
  type : ∀ s ∈ t.subtrees, ∀ spelling, s.label.safeUsr ≠ typeUsr sha1 spelling

/-- The file, and the files that are included. -/
def IsFile (file_path : String) (vs : List Visit) (path : String) : Prop :=
  path = file_path ∨ ∃ v ∈ vs, v.2.label.get_included_file = .ok (some (.ok path))

/-- No file has the USR of an argument of a function. -/
def FilesApart (file_path : String) (t : Cursor) : Prop :=
  ∀ f ∈ t.subtrees, kindIn f.label.kindName functionCursorKinds = true → ∀ idx path,
    IsFile file_path (visits file_path t) path → fileUsr path ≠ paramUsr f.label.safeUsr idx

/-! ### USRs that differ -/

/-- A text is read back from before its last `#`. -/
theorem append_hash_inj {l l' m m' : List Char} (h : l ++ '#' :: m = l' ++ '#' :: m')
    (hm : '#' ∉ m) (hm' : '#' ∉ m') : l = l' ∧ m = m' := by
  have hlonger : ∀ {k n n' : List Char}, '#' ∉ n → '#' :: n = k ++ '#' :: n' → k = [] := by
    intro k n n' hn heq
    cases k with
    | nil => rfl
    | cons c k =>
      refine absurd ?_ hn
      rw [(List.cons.inj heq).2]
      exact List.mem_append_right _ List.mem_cons_self
  rcases List.append_eq_append_iff.mp h with ⟨k, rfl, hk⟩ | ⟨k, rfl, hk⟩
  · obtain rfl := hlonger hm hk
    exact ⟨(List.append_nil l).symm, (List.cons.inj hk).2⟩
  · obtain rfl := hlonger hm' hk
    exact ⟨List.append_nil l', (List.cons.inj hk).2.symm⟩

/-- **The USR of a parameter tells the function and the index.** -/
theorem paramUsr_inj {usr usr' : String} {idx idx' : ℕ}
    (h : paramUsr usr idx = paramUsr usr' idx') : usr = usr' ∧ idx = idx' := by
  have hlist : ∀ (usr : String) (idx : ℕ), (paramUsr usr idx).toList =
      usr.toList ++ '#' :: ("param:".toList ++ idx.repr.toList) := by
    intro usr idx
    rw [paramUsr, String.toList_append, String.toList_append, List.append_assoc]
    rfl
  have hno : ∀ idx : ℕ, '#' ∉ "param:".toList ++ idx.repr.toList := by
    intro idx hmem
    rcases List.mem_append.mp hmem with hmem | hmem
    · exact absurd hmem (by decide)
    · exact absurd (Py.isDigit_of_mem_repr hmem) (by decide)
  have heq := congrArg String.toList h
  rw [hlist, hlist] at heq
  obtain ⟨husr, hidx⟩ := append_hash_inj heq (hno idx) (hno idx')
  exact ⟨String.toList_inj.mp husr,
    Py.repr_nat_injective (String.toList_inj.mp (List.append_cancel_left hidx))⟩

/-- The USR of a file and that of a type begin differently. -/
theorem fileUsr_ne_typeUsr (sha1 : Py.Sha1) (path spelling : String) :
    fileUsr path ≠ typeUsr sha1 spelling := by
  intro h
  have heq := congrArg String.toList h
  rw [fileUsr, typeUsr, String.toList_append, String.toList_append] at heq
  exact absurd (List.cons.inj heq).1 (by decide)

/-- Where digests differ, so do the USRs of types. -/
theorem spelling_of_typeUsr {sha1 : Py.Sha1} (h : Function.Injective sha1.hexdigest)
    {spelling spelling' : String} (heq : typeUsr sha1 spelling = typeUsr sha1 spelling') :
    spelling = spelling' :=
  h (String.append_right_inj _ |>.mp heq)

/-! ### What a node is made from -/

/-- The edge to the type, if that has a spelling, is there. -/
def LinksType (sha1 : Py.Sha1) (edges : List EdgeRecord) (usr : String)
    (type : Acc (Option CType)) : Prop :=
  ∀ target, typeUsrOf sha1 type = some target → ⟨usr, target, .ofType, []⟩ ∈ edges

/-- **What a node of an export is made from,** and the edges it brings with it. -/
inductive Made (sha1 : Py.Sha1) (file_path : String) (vs : List Visit) (edges : List EdgeRecord) :
    NodeRecord → Prop
  | file {path : String} (props : Props) (h : IsFile file_path vs path) :
    Made sha1 file_path vs edges ⟨.file, fileUsr path, props⟩
  | type (t : TypeInfo) : Made sha1 file_path vs edges ⟨.type, t.usr sha1, typeProps t⟩
  | symbol {v : Visit} {node_type : NodeType} (hv : v ∈ vs) (hord : v.2.label.Ordinary)
    (hf : v.2.label.foreign file_path = false) (hs : v.2.label.schema = some node_type)
    (htype : node_type ∈ [NodeType.field, .globalVariable] →
      LinksType sha1 edges v.2.label.safeUsr v.2.label.type) :
    Made sha1 file_path vs edges
      ⟨node_type, v.2.label.safeUsr, symbolProps v.2.label v.2.children node_type⟩
  | param {v : Visit} {idx : ℕ} {param : Param} (spelling : String) (hv : v ∈ vs)
    (hfun : v.2.label.isFunctionOf file_path = true)
    (harg : v.2.label.get_arguments[idx]? = some param)
    (hedge : paramEdge v.2.label.safeUsr idx ∈ edges)
    (htype : LinksType sha1 edges (paramUsr v.2.label.safeUsr idx) param.type) :
    Made sha1 file_path vs edges
      ⟨.parameter, paramUsr v.2.label.safeUsr idx, paramProps param idx spelling⟩

/-- The edge is the one of an argument of a function of the file. -/
def IsParamEdge (file_path : String) (vs : List Visit) (e : EdgeRecord) : Prop :=
  ∃ v ∈ vs, v.2.label.isFunctionOf file_path = true ∧
    ∃ idx < v.2.label.get_arguments.length, e = paramEdge v.2.label.safeUsr idx

/-- A node that has been made of something stays so when edges are added. -/
theorem Made.mono {sha1 : Py.Sha1} {file_path : String} {vs : List Visit}
    {edges edges' : List EdgeRecord} {n : NodeRecord} (hsub : edges ⊆ edges')
    (h : Made sha1 file_path vs edges n) : Made sha1 file_path vs edges' n := by
  cases h with
  | file props h => exact .file props h
  | type t => exact .type t
  | symbol hv hord hf hs htype =>
    exact .symbol hv hord hf hs fun hk target ht => hsub (htype hk target ht)
  | param spelling hv hfun harg hedge htype =>
    exact .param spelling hv hfun harg (hsub hedge) fun target ht => hsub (htype target ht)

/-- **From `b` to `b'` each new node is made from something,** and each new `HAS_PARAM` edge is that
of an argument. -/
structure Makes (sha1 : Py.Sha1) (file_path : String) (vs : List Visit) (b b' : Batch) : Prop where
  le : b.le b'
  nodes : ∀ n ∈ b'.nodes, n ∈ b.nodes ∨ Made sha1 file_path vs b'.edges n
  params : ∀ e ∈ b'.edges, e.edge_type = .hasParam → e ∈ b.edges ∨ IsParamEdge file_path vs e

variable {sha1 : Py.Sha1} {file_path : String} {vs : List Visit}

namespace Makes

variable {b b' b'' : Batch}

/-- Doing nothing makes nothing. -/
theorem refl (b : Batch) : Makes sha1 file_path vs b b :=
  ⟨Batch.le_refl b, fun _ => Or.inl, fun _ he _ => Or.inl he⟩

/-- What two steps make, they make together. -/
theorem trans (h : Makes sha1 file_path vs b b') (h' : Makes sha1 file_path vs b' b'') :
    Makes sha1 file_path vs b b'' where
  le := h.le.trans h'.le
  nodes := by
    intro n hn
    rcases h'.nodes n hn with hn | hn
    · exact (h.nodes n hn).imp_right (Made.mono h'.le.edges.subset)
    · exact Or.inr hn
  params := by
    intro e he hk
    rcases h'.params e he hk with he | he
    · exact h.params e he hk
    · exact Or.inr he

/-- Taking a USR makes no node. -/
theorem see (b : Batch) (usr : String) : Makes sha1 file_path vs b (b.see usr) :=
  ⟨Batch.le_see b usr, fun _ => Or.inl, fun _ he _ => Or.inl he⟩

/-- Edges of other types than `HAS_PARAM` may be appended: no node is new, and no edge has to be
that of an argument. -/
theorem of_edges {es : List EdgeRecord} (hle : b.le b') (hnodes : b'.nodes = b.nodes)
    (hedges : b'.edges = b.edges ++ es) (hes : ∀ e ∈ es, e.edge_type ≠ .hasParam) :
    Makes sha1 file_path vs b b' where
  le := hle
  nodes := fun n hn => Or.inl (hnodes ▸ hn)
  params := by
    intro e he hk
    rw [hedges, List.mem_append] at he
    exact he.imp_right fun he => absurd hk (hes e he)

/-- One edge that is no `HAS_PARAM` edge makes no node. -/
theorem addEdge (b : Batch) (s t : String) {k : EdgeType} (hk : k ≠ .hasParam) (props : Props) :
    Makes sha1 file_path vs b (b.addEdge s t k props) :=
  of_edges (Batch.le_addEdge b s t k props) rfl rfl fun e he => by
    rw [List.mem_singleton.mp he]
    exact hk

/-- Nor does one whose target may be missing. -/
theorem addEdge? (b : Batch) (s : String) (t : Option String) {k : EdgeType} (hk : k ≠ .hasParam) :
    Makes sha1 file_path vs b (b.addEdge? s t k) := by
  cases t with
  | none => exact refl b
  | some t => exact addEdge b s t hk []

/-- Nor do links. -/
theorem of_links {es : List EdgeRecord} (hle : b.le b') (hnodes : b'.nodes = b.nodes)
    (hedges : b'.edges = b.edges ++ es) (hes : ∀ e ∈ es, e.edge_type.isLink = true) :
    Makes sha1 file_path vs b b' :=
  of_edges hle hnodes hedges fun e he hk => by
    have hlink := hes e he
    rw [hk] at hlink
    exact nomatch hlink

/-- A new node, and what comes after it: the node has to be made of something once all of that is
there. -/
theorem node {n : NodeRecord} (h : Makes sha1 file_path vs (b.addNode n) b')
    (hn : Made sha1 file_path vs b'.edges n) : Makes sha1 file_path vs b b' where
  le := (Batch.le_addNode b n).trans h.le
  nodes := by
    intro m hm
    rcases h.nodes m hm with hm | hm
    · rcases List.mem_append.mp hm with hm | hm
      · exact Or.inl hm
      · rw [List.mem_singleton.mp hm]
        exact Or.inr hn
    · exact Or.inr hm
  params := h.params

end Makes

/-- The node of a type is made of the type. -/
theorem makes_takeType (b : Batch) (t : TypeInfo) :
    Makes sha1 file_path vs b (b.takeType sha1 t) :=
  (Makes.see b _).trans ((Makes.refl _).node (.type t))

/-- One step of the interning of a type makes the nodes of types. -/
theorem makes_typeStep {t : CType} {b b' : Batch} {usr : Option String}
    (h : TypeStep sha1 t b b' usr) : Makes sha1 file_path vs b b' := by
  induction h with
  | unspelled | taken => exact Makes.refl _
  | new => exact makes_takeType _ _
  | chain _ _ hk _ ih =>
    refine (makes_takeType _ _).trans (ih.trans (Makes.addEdge _ _ _ ?_ _))
    rcases chainEdge_cases hk with rfl | rfl <;> decide

/-- So does interning a type that may be missing or raise. -/
theorem makes_getOrCreateTypeOf (type : Acc (Option CType)) (b : Batch) :
    Makes sha1 file_path vs b (getOrCreateTypeOf sha1 b type).1 := by
  rcases typeStep_getOrCreateTypeOf sha1 type b with h | ⟨t, -, h⟩
  · rw [h]
    exact Makes.refl b
  · exact makes_typeStep h

/-- The edge to a type that has a spelling is appended. -/
theorem linksType_addEdge? (b b' : Batch) (usr : String) (type : Acc (Option CType)) :
    LinksType sha1 (b.addEdge? usr (getOrCreateTypeOf sha1 b' type).2 .ofType).edges usr type := by
  intro target ht
  rw [snd_getOrCreateTypeOf, ht]
  exact List.mem_append_right _ (List.mem_singleton.mpr rfl)

/-! ### The blocks -/

/-- Linking a node to its type makes the nodes of types. -/
theorem makes_linkType (type : Acc (Option CType)) (b : Batch) (usr : String) {k : EdgeType}
    (hk : k ≠ .hasParam) :
    Makes sha1 file_path vs b (linkType usr k (getOrCreateTypeOf sha1 b type)) :=
  (makes_getOrCreateTypeOf type b).trans (Makes.addEdge? _ _ _ hk)

/-- A symbol's node is made of the cursor at which it is emitted. -/
theorem makes_emitSymbol {v : Visit} {node_type : NodeType} (hv : v ∈ vs)
    (hord : v.2.label.Ordinary) (hf : v.2.label.foreign file_path = false)
    (hs : v.2.label.schema = some node_type) (b : Batch) :
    Makes sha1 file_path vs b (emitSymbol sha1 v.2.label v.2.children node_type b) := by
  unfold emitSymbol
  split_ifs with hseen htype
  · exact Makes.refl b
  · have hlink : Makes sha1 file_path vs (b.takeSymbol v.2.label v.2.children node_type)
        (linkType v.2.label.safeUsr .ofType (getOrCreateTypeOf sha1
          (b.takeSymbol v.2.label v.2.children node_type) v.2.label.type)) :=
      makes_linkType _ _ _ (by decide)
    exact (Makes.see b _).trans (hlink.node (.symbol hv hord hf hs fun _ =>
      linksType_addEdge? _ _ _ _))
  · exact (Makes.see b _).trans ((Makes.refl _).node (.symbol hv hord hf hs fun h => absurd h htype))

/-- A result type makes the nodes of types. -/
theorem makes_emitReturns (c : CursorInfo) (b : Batch) :
    Makes sha1 file_path vs b (emitReturns sha1 c b) := by
  unfold emitReturns
  split_ifs
  · exact makes_linkType _ _ _ (by decide)
  · exact Makes.refl b

/-- A parameter's node is made of an argument of its function, and its `HAS_PARAM` edge tells which.
-/
theorem makes_linkParam {v : Visit} {idx : ℕ} {param : Param} (hv : v ∈ vs)
    (hfun : v.2.label.isFunctionOf file_path = true)
    (harg : v.2.label.get_arguments[idx]? = some param) (spelling : String) (b : Batch) :
    Makes sha1 file_path vs b (linkParam v.2.label.safeUsr param idx spelling
      (getOrCreateTypeOf sha1 (b.see (paramUsr v.2.label.safeUsr idx)) param.type)) := by
  have htype : Makes sha1 file_path vs _ _ :=
    makes_getOrCreateTypeOf param.type (b.see (paramUsr v.2.label.safeUsr idx))
  have hedge : ∀ b : Batch, Makes sha1 file_path vs b (b.addEdge v.2.label.safeUsr
      (paramUsr v.2.label.safeUsr idx) .hasParam [("index", .int idx)]) := fun b =>
    { le := Batch.le_addEdge b _ _ _ _
      nodes := fun _ => Or.inl
      params := by
        intro e he _
        rcases List.mem_append.mp he with he | he
        · exact Or.inl he
        · exact Or.inr ⟨v, hv, hfun, idx, (List.getElem?_eq_some_iff.mp harg).1,
            List.mem_singleton.mp he⟩ }
  refine (Makes.see b _).trans (htype.trans (Makes.node ((hedge _).trans
    (Makes.addEdge? _ _ _ (by decide))) ?_))
  refine .param spelling hv hfun harg ?_ (linksType_addEdge? _ _ _ _)
  exact (Batch.le_addEdge? _ _ _ _).edges.subset
    (List.mem_append_right _ (List.mem_singleton.mpr rfl))

/-- The loop over the parameters makes each parameter's node of the argument at its index, by
induction on those that are left. -/
theorem makes_emitParamsFrom {v : Visit} (hv : v ∈ vs)
    (hfun : v.2.label.isFunctionOf file_path = true) (params : List Param) (idx : ℕ) (b : Batch)
    (hargs : ∀ k param, params[k]? = some param → v.2.label.get_arguments[idx + k]? = some param) :
    Makes sha1 file_path vs b (emitParamsFrom sha1 v.2.label.safeUsr idx params b) := by
  induction params generalizing idx b with
  | nil => exact Makes.refl b
  | cons param rest ih =>
    have hrest : ∀ k param, rest[k]? = some param →
        v.2.label.get_arguments[idx + 1 + k]? = some param := by
      intro k param hk
      rw [Nat.add_right_comm]
      exact hargs (k + 1) param hk
    rw [emitParamsFrom]
    split_ifs with hseen
    · exact ih _ _ hrest
    · cases param.spelling with
      | error e => exact (Makes.see b _).trans (makes_getOrCreateTypeOf _ _)
      | ok spelling =>
        exact (makes_linkParam hv hfun (hargs 0 param rfl) spelling b).trans (ih _ _ hrest)

/-- The branch of a schema cursor makes its nodes of that cursor, of its arguments and of their
types. -/
theorem makes_emitSchema {v : Visit} {node_type : NodeType} (hv : v ∈ vs)
    (hord : v.2.label.Ordinary) (hf : v.2.label.foreign file_path = false)
    (hs : v.2.label.schema = some node_type) (b : Batch) :
    Makes sha1 file_path vs b (emitSchema sha1 (fileUsr file_path) v.1 node_type v.2.label
      v.2.children b) := by
  have hlinks : ∀ b : Batch, Makes sha1 file_path vs b (emitInherits v.2.label v.2.children
      (emitParentEdge (fileUsr file_path) v.1.parent_usr v.1.parent_kind v.2.label b)) := fun b =>
    (Makes.of_links ((covers_le sha1).emitParentEdge file_path v.1 v.2.label b) (nodes_emitParentEdge ..)
      (edges_emitParentEdge ..) (by simpa using isLink_parentEdge file_path v.1 v.2.label)).trans
    (Makes.of_links ((covers_le sha1).emitInherits v.2.label v.2.children _) (nodes_emitInherits ..)
      (edges_emitInherits ..) (isLink_inheritsEdges v.2.label v.2.children))
  rw [emitSchema, emitCalls_eq_self hs]
  refine (makes_emitSymbol hv hord hf hs b).trans ((hlinks _).trans
    ((makes_emitReturns v.2.label _).trans ?_))
  unfold emitParams
  split_ifs with hk
  · have hfun := isFunctionOf_of_kindIn file_path hs hf hk
    exact makes_emitParamsFrom hv hfun _ 0 _ fun k param h => by rwa [Nat.zero_add]
  · exact Makes.refl _

/-- An inclusion makes the node of the included file of the cursor of the directive. -/
theorem makes_emitInclusion {v : Visit} (hv : v ∈ vs) (b : Batch) :
    Makes sha1 file_path vs b (emitInclusion (fileUsr file_path) v.2.label b) := by
  unfold emitInclusion
  split
  · rename_i inc_path hinc
    have hfile : IsFile file_path vs inc_path := Or.inr ⟨v, hv, hinc⟩
    split_ifs with hseen
    · exact Makes.addEdge b _ _ (by decide) _
    · exact ((Makes.see b _).trans ((Makes.refl _).node (.file _ hfile))).trans
        (Makes.addEdge _ _ _ (by decide) _)
  · exact Makes.refl b

/-- **A visit** makes its nodes from its own cursor: the symbol, its arguments, the file that it
includes and the types of these. -/
theorem makes_emit {v : Visit} (hv : v ∈ vs) (b : Batch) :
    Makes sha1 file_path vs b (emit sha1 file_path b v) := by
  obtain ⟨ctx, t⟩ := v
  rcases branch_cases sha1 file_path ctx t with
    ⟨-, -, hemit⟩ | ⟨-, -, hemit⟩ | ⟨-, -, hemit⟩ | ⟨-, -, -, hemit⟩ |
    ⟨hord, hf, node_type, hs, -, hemit⟩ | ⟨-, -, -, -, hemit⟩ <;>
  rw [hemit b]
  · exact Makes.refl b
  · exact makes_emitInclusion hv b
  · exact Makes.addEdge? _ _ _ (by decide)
  · exact Makes.refl b
  · exact makes_emitSchema hv hord hf hs b
  · exact Makes.refl b

/-- A walk makes its nodes of the cursors it visits, one visit after the other. -/
theorem makes_foldl_emit (ws : List Visit) (hws : ∀ v ∈ ws, v ∈ vs) (b : Batch) :
    Makes sha1 file_path vs b (ws.foldl (emit sha1 file_path) b) := by
  induction ws generalizing b with
  | nil => exact Makes.refl b
  | cons v ws ih =>
    exact (makes_emit (hws v List.mem_cons_self) b).trans
      (ih (fun w hw => hws w (List.mem_cons_of_mem _ hw)) _)

/-- So the whole export is made of what the walk visits, beginning with the node of the file itself.
-/
theorem makes_collected (t : Cursor) : Makes sha1 file_path (visits file_path t)
    (initialBatch file_path) (collected sha1 file_path t) :=
  makes_foldl_emit _ (fun _ => id) _

/-- **Every node of an export** is made from a file, a symbol, an argument or a type that the walk
has visited. -/
theorem made_of_mem {t : Cursor} {n : NodeRecord} (hn : n ∈ (collected sha1 file_path t).nodes) :
    Made sha1 file_path (visits file_path t) (collected sha1 file_path t).edges n := by
  rcases (makes_collected t).nodes n hn with hn | hn
  · rw [List.mem_singleton.mp hn]
    exact .file _ (Or.inl rfl)
  · exact hn

/-! ### One edge of an owner -/

section Owners

variable {edges : List EdgeRecord} (h : (owners edges).Nodup)
include h

/-- Edges that have owners are distinct, as the owners are. -/
theorem nodup_filter_of_owner {p : EdgeRecord → Bool} (hp : ∀ e, p e = true → e.owner ≠ none) :
    (edges.filter p).Nodup := by
  refine List.pairwise_filter.mpr ((List.pairwise_filterMap.mp h).imp ?_)
  rintro e e' hne he - rfl
  obtain ⟨x, hx⟩ := Option.ne_none_iff_exists'.mp (hp e he)
  exact hne x hx x hx rfl

/-- Two edges with one owner are the same edge. -/
theorem eq_of_owner {e e' : EdgeRecord} {x : EdgeType × String} (he : e ∈ edges) (he' : e' ∈ edges)
    (hx : e.owner = some x) (hx' : e'.owner = some x) : e = e' := by
  by_contra hne
  have hsymm : Std.Symm fun e e' : EdgeRecord => ∀ y ∈ e.owner, ∀ y' ∈ e'.owner, y ≠ y' :=
    ⟨fun _ _ h y hy y' hy' => (h y' hy' y hy).symm⟩
  exact (List.pairwise_filterMap.mp h).forall he he' hne x hx x hx' rfl

/-- A node that owns an `OF_TYPE` edge has no other. -/
theorem filter_ofType_eq {usr target : String}
    (he : (⟨usr, target, .ofType, []⟩ : EdgeRecord) ∈ edges) :
    (edges.filter fun e => e.edge_type = .ofType ∧ e.source_usr = usr) =
      [⟨usr, target, .ofType, []⟩] := by
  have howner : ∀ e : EdgeRecord, decide (e.edge_type = .ofType ∧ e.source_usr = usr) = true →
      e.owner = some (.ofType, usr) := by
    intro e hp
    obtain ⟨hk, rfl⟩ := of_decide_eq_true hp
    rw [EdgeRecord.owner, hk]
  have hnodup : (edges.filter fun e => e.edge_type = .ofType ∧ e.source_usr = usr).Nodup :=
    nodup_filter_of_owner h fun e hp => by
      rw [howner e hp]
      exact Option.some_ne_none _
  refine List.perm_singleton.mp ((List.perm_ext_iff_of_nodup hnodup (List.nodup_singleton _)).mpr ?_)
  intro e
  rw [List.mem_filter, List.mem_singleton]
  constructor
  · exact fun hmem => eq_of_owner h hmem.1 he (howner e hmem.2) rfl
  · rintro rfl
    exact ⟨he, decide_eq_true ⟨rfl, rfl⟩⟩

end Owners

/-! ### The export -/

section Complete

variable {t : Cursor}

/-- The cursor of a variable's or a field's node is a variable or a field. -/
theorem kindName_of_schema {c : CursorInfo} {node_type : NodeType}
    (hs : c.schema = some node_type) (htype : node_type ∈ [NodeType.field, .globalVariable]) :
    c.kindName = some .varDecl ∨ c.kindName = some .fieldDecl := by
  obtain ⟨hfield, -⟩ | ⟨k, hk, htable⟩ := CursorInfo.schema_cases hs
  · exact Or.inr hfield
  · cases k with
    | varDecl => exact Or.inl hk
    | _ => exact absurd htype (by cases htable <;> decide)

/-- **The node with the USR of a type** is the one of that type. -/
theorem typeNode_of_usr (hsha1 : Function.Injective sha1.hexdigest) (hsyn : NoSynthetic sha1 t)
    {m : NodeRecord} (hm : m ∈ (collected sha1 file_path t).nodes) {spelling : String}
    (husr : m.usr = typeUsr sha1 spelling) :
    m.label = .type ∧ m.props.lookup "spelling" = some (.str spelling) := by
  cases made_of_mem hm with
  | file => exact absurd husr (fileUsr_ne_typeUsr sha1 _ _)
  | type type =>
    have hspelled : type.spelled = spelling := spelling_of_typeUsr hsha1 husr
    rw [← hspelled]
    exact ⟨rfl, rfl⟩
  | symbol hv => exact absurd husr (hsyn.type _ (Rose.mem_subtrees_of_mem_visit hv) _)
  | param => exact absurd husr.symm (typeUsr_ne_paramUsr sha1 _ _ _)

/-- What brings a type with it has that type. -/
theorem hasType_of_linksType (hsha1 : Function.Injective sha1.hexdigest) (hraise : NonRaising t)
    (hsyn : NoSynthetic sha1 t) {usr : String} {type : Acc (Option CType)} (hspelled : Spelled type)
    (hlink : LinksType sha1 (collected sha1 file_path t).edges usr type) :
    HasType (collected sha1 file_path t).nodes (collected sha1 file_path t).edges usr type := by
  obtain ⟨ct, spelling, rfl, hspelling, hne⟩ := hspelled
  have hs : ct.info.spelled = spelling := by rw [TypeInfo.spelled, hspelling, Acc.getD]
  have hedge := hlink (typeUsr sha1 spelling) (by
    rw [typeUsrOf, hs, if_neg hne, TypeInfo.usr, hs])
  have hclosed := closed_collected sha1 file_path (fun _ => id) hraise.clear
  obtain ⟨m, hm, husr⟩ := List.mem_map.mp ((hclosed.edges _ hedge).target rfl)
  obtain ⟨hlabel, hprops⟩ := typeNode_of_usr hsha1 hsyn hm husr
  refine ⟨ct, spelling, rfl, hspelling, m, hm, hlabel, hprops, ?_⟩
  rw [husr]
  exact filter_ofType_eq (nodup_owners_collected sha1 file_path t) hedge

/-- **Every argument of a function of the file** has its node and its edge. -/
theorem exists_paramNode (hraise : NonRaising t) (hsyn : NoSynthetic sha1 t)
    (hfiles : FilesApart file_path t) {v : Visit} (hv : v ∈ visits file_path t)
    (hfun : v.2.label.isFunctionOf file_path = true) {idx : ℕ}
    (hidx : idx < v.2.label.get_arguments.length) :
    (∃ m ∈ (collected sha1 file_path t).nodes, m.label = .parameter ∧
        m.usr = paramUsr v.2.label.safeUsr idx) ∧
      paramEdge v.2.label.safeUsr idx ∈ (collected sha1 file_path t).edges := by
  have hmet : (Declaration.argument v.2.label idx (v.2.label.get_arguments[idx])).Met file_path t :=
    ⟨v, hv, rfl, hfun, List.getElem?_eq_getElem hidx⟩
  have hexported : Declaration.Exported file_path t (collected sha1 file_path t).nodes _ :=
    exported_argument hraise.spelling hmet
  obtain ⟨m, hm, husr⟩ := List.mem_map.mp hexported.node
  change m.usr = paramUsr v.2.label.safeUsr idx at husr
  cases made_of_mem hm with
  | file _ hfile =>
    exact absurd husr (hfiles _ (Rose.mem_subtrees_of_mem_visit hv)
      (kindIn_of_isFunctionOf file_path hfun) _ _ hfile)
  | type => exact absurd husr (typeUsr_ne_paramUsr sha1 _ _ _)
  | symbol hw => exact absurd husr (hsyn.param _ (Rose.mem_subtrees_of_mem_visit hw) _ _)
  | param _ _ _ _ hedge =>
    obtain ⟨hfunction, hindex⟩ := paramUsr_inj husr
    rw [hfunction, hindex] at hedge
    exact ⟨⟨_, hm, rfl, husr⟩, hedge⟩

/-- A function of the file has a parameter node and a `HAS_PARAM` edge for each of its arguments,
and no further ones. -/
theorem hasParams_of_function (hraise : NonRaising t) (harity : SameArity t)
    (hsyn : NoSynthetic sha1 t) (hfiles : FilesApart file_path t) {v : Visit}
    (hv : v ∈ visits file_path t) (hfun : v.2.label.isFunctionOf file_path = true) :
    HasParams (collected sha1 file_path t).nodes (collected sha1 file_path t).edges
      v.2.label.safeUsr v.2.label.get_arguments.length where
  edges := by
    have howner : ∀ e : EdgeRecord,
        decide (e.edge_type = .hasParam ∧ e.source_usr = v.2.label.safeUsr) = true →
          e.owner ≠ none := by
      intro e hp
      rw [EdgeRecord.owner, (of_decide_eq_true hp).1]
      exact Option.some_ne_none _
    have hnodup := nodup_filter_of_owner (nodup_owners_collected sha1 file_path t) howner
    have hrange : ((List.range v.2.label.get_arguments.length).map
        (paramEdge v.2.label.safeUsr)).Nodup :=
      List.nodup_range.map fun i j heq => (paramUsr_inj (congrArg EdgeRecord.target_usr heq)).2
    refine (List.perm_ext_iff_of_nodup hnodup hrange).mpr fun e => ?_
    rw [List.mem_filter, decide_eq_true_eq, List.mem_map]
    constructor
    · rintro ⟨he, hk, hsource⟩
      rcases (makes_collected t).params e he hk with he | ⟨w, hw, hwfun, idx, hidx, rfl⟩
      · exact absurd he List.not_mem_nil
      · have hlength := harity w.2 (Rose.mem_subtrees_of_mem_visit hw) v.2
          (Rose.mem_subtrees_of_mem_visit hv) (kindIn_of_isFunctionOf file_path hwfun)
          (kindIn_of_isFunctionOf file_path hfun) hsource
        refine ⟨idx, List.mem_range.mpr (hlength ▸ hidx), ?_⟩
        rw [← hsource]
        rfl
    · rintro ⟨idx, hidx, rfl⟩
      exact ⟨(exists_paramNode hraise hsyn hfiles hv hfun (List.mem_range.mp hidx)).2, rfl, rfl⟩
  distinct := List.nodup_range.map fun i j heq => (paramUsr_inj heq).2
  nodes := fun idx hidx => (exists_paramNode hraise hsyn hfiles hv hfun hidx).1

/-- **Types and parameter lists are complete,** if nothing raises, the types have spellings, the
redeclarations of a function agree on the number of arguments and no USR that is made up is also
another's. -/
theorem types_complete (hsha1 : Function.Injective sha1.hexdigest) (hraise : NonRaising t)
    (htyped : AllTyped t) (harity : SameArity t) (hsyn : NoSynthetic sha1 t)
    (hfiles : FilesApart file_path t) :
    ∃ r, extractNodesAndEdges sha1 file_path t = .ok r ∧ TypesComplete file_path t r.1 r.2 := by
  obtain ⟨r, hr⟩ := exists_extract_of_children sha1 file_path hraise.get_children
  refine ⟨r, hr, ?_⟩
  obtain ⟨-, rfl⟩ := (extract_eq_ok_iff sha1 file_path).mp hr
  exact
    { symbols := by
        intro n hn hlabel
        cases made_of_mem hn with
        | file => exact absurd hlabel (by simp)
        | type => exact absurd hlabel (by simp)
        | param => exact absurd hlabel (by simp)
        | symbol hv _ _ hs htype =>
          have hspelled := htyped.declared _ (Rose.mem_subtrees_of_mem_visit hv)
            (kindName_of_schema hs hlabel)
          exact ⟨_, hv, rfl, hasType_of_linksType hsha1 hraise hsyn hspelled (htype hlabel)⟩
      parameters := by
        intro n hn hlabel
        cases made_of_mem hn with
        | file => exact nomatch hlabel
        | type => exact nomatch hlabel
        | @symbol v node_type _ hord _ hs =>
          obtain rfl : node_type = .parameter := hlabel
          exact nomatch isSymbol_of_schema hord.1 hs
        | param spelling hv hfun harg _ htype =>
          have hspelled := htyped.arguments _ (Rose.mem_subtrees_of_mem_visit hv) _
            (List.mem_of_getElem? harg)
          exact ⟨_, hv, hfun, _, _, spelling, harg, rfl,
            hasType_of_linksType hsha1 hraise hsyn hspelled htype⟩
      functions := by
        intro n hn hlabel
        cases made_of_mem hn with
        | file => exact nomatch hlabel
        | type => exact nomatch hlabel
        | param => exact nomatch hlabel
        | @symbol v node_type hv _ hf hs =>
          obtain rfl : node_type = .function := hlabel
          have hfun := isFunctionOf_of_schema file_path hs hf
          exact ⟨_, hv, hfun, rfl, hasParams_of_function hraise harity hsyn hfiles hv hfun⟩ }

end Complete

/-! ### USRs as libclang makes them -/

/-- The USR of a parameter has a hash sign in it, before its index. -/
theorem hash_mem_paramUsr (usr : String) (idx : ℕ) : '#' ∈ (paramUsr usr idx).toList := by
  simp [paramUsr]

/-- The USR of a parameter is not empty. -/
theorem paramUsr_ne_empty (usr : String) (idx : ℕ) : paramUsr usr idx ≠ "" := by
  intro heq
  have hhash := hash_mem_paramUsr usr idx
  rw [heq] at hhash
  exact List.not_mem_nil hhash

/-- The USR of a type is not empty. -/
theorem typeUsr_ne_empty (sha1 : Py.Sha1) (spelling : String) : typeUsr sha1 spelling ≠ "" := by
  intro heq
  have hlist := congrArg String.toList heq
  rw [typeUsr, String.toList_append] at hlist
  exact absurd (congrArg List.length hlist) (by simp)

/-- No synthetic USR is native, so a tree with libclang's own USRs has none of the exporter's. -/
theorem noSynthetic_of_native {t : Cursor}
    (h : ∀ s ∈ t.subtrees, s.label.safeUsr = "" ∨ Native s.label.safeUsr) :
    NoSynthetic sha1 t where
  param := by
    intro s hs usr idx heq
    have hnative := h s hs
    rw [heq] at hnative
    exact hnative.elim (paramUsr_ne_empty usr idx) (not_native_paramUsr usr idx)
  type := by
    intro s hs spelling heq
    have hnative := h s hs
    rw [heq] at hnative
    exact hnative.elim (typeUsr_ne_empty sha1 spelling) (not_native_typeUsr sha1 spelling)

/-- A native USR with something after it does not begin as that of a file. -/
theorem filesApart_of_native {t : Cursor}
    (h : ∀ s ∈ t.subtrees, s.label.safeUsr = "" ∨ Native s.label.safeUsr) :
    FilesApart file_path t := by
  intro f hf _ idx path _ heq
  have hlist := congrArg String.toList heq
  rw [fileUsr, paramUsr, String.toList_append, String.toList_append, String.toList_append,
    List.append_assoc] at hlist
  rcases h f hf with hempty | ⟨hnative, -⟩
  · rw [hempty] at hlist
    exact absurd (List.cons.inj hlist).1 (by decide)
  · obtain ⟨rest, hrest⟩ := (Py.startswith_iff).mp hnative
    rw [← hrest] at hlist
    exact absurd (List.cons.inj hlist).1 (by decide)

/-- Digests that tell texts apart: the code points in hexadecimal digits. -/
def hexSha1 : Py.Sha1 where
  hexdigest s := String.ofList (s.toList.flatMap (fun c => '1' :: Py.hexDigits 6 c.toNat) ++ ['0'])
  isHex := by
    intro s c hc
    have hdigit : ∀ n < 16, Py.hexDigit n ∈ "0123456789abcdef".toList := by decide
    rw [String.toList_ofList, List.mem_append, List.mem_flatMap, List.mem_singleton] at hc
    rcases hc with ⟨a, -, ha⟩ | rfl
    · rcases List.mem_cons.mp ha with rfl | ha
      · decide
      · exact Py.forall_mem_hexDigits (P := fun c => c ∈ "0123456789abcdef".toList) hdigit ha
    · decide

/-- The stand-in for the digest, which spells the text in hexadecimal digits, has no collisions. -/
theorem hexSha1_injective : Function.Injective hexSha1.hexdigest := by
  have hcode : PrefixCode fun c : Char => '1' :: Py.hexDigits 6 c.toNat := by
    intro c c' u u' heq
    have hlength : (Py.hexDigits 6 c.toNat).length = (Py.hexDigits 6 c'.toNat).length := by
      rw [Py.length_hexDigits, Py.length_hexDigits]
    obtain ⟨hdigits, hu⟩ := List.append_inj (List.cons.inj heq).2 hlength
    have hlt : ∀ c : Char, c.toNat < 16 ^ 6 := fun c => by
      have hvalid := c.valid
      rcases hvalid with h | ⟨-, h⟩ <;> exact Nat.lt_trans h (by decide)
    have hnat := Py.hexDigits_injective (hlt c) (hlt c') hdigits
    exact ⟨Char.toNat_inj.mp hnat, hu⟩
  have hstop : ∀ c : Char, ∃ x w, '1' :: Py.hexDigits 6 c.toNat = x :: w ∧ x ≠ '0' := fun c =>
    ⟨'1', _, rfl, by decide⟩
  intro s s' h
  have hlist := congrArg (· ++ ([] : List Char)) (String.ofList_injective h)
  exact String.toList_inj.mp (hcode.flatMap hstop hlist).1

/-- `int v; void f(int a); void f(int a) { }` -/
def typedTree : Cursor :=
  .node { kind := .ok (.other 350) } [
    .node { kind := .ok .varDecl, get_usr := .ok "c:@v", spelling := .ok "v",
            location := .ok { file := "/proj/a.cpp", line := 1, column := 5 },
            type := .ok (some (.last { spelling := .ok "int" } none)) } [],
    .node { kind := .ok .functionDecl, get_usr := .ok "c:@F@f#I#", spelling := .ok "f",
            location := .ok { file := "/proj/a.cpp", line := 1, column := 13 },
            get_arguments := [{ spelling := .ok "a",
                                type := .ok (some (.last { spelling := .ok "int" } none)) }] } [],
    .node { kind := .ok .functionDecl, get_usr := .ok "c:@F@f#I#", spelling := .ok "f",
            location := .ok { file := "/proj/a.cpp", line := 1, column := 27 },
            get_arguments := [{ spelling := .ok "a",
                                type := .ok (some (.last { spelling := .ok "int" } none)) }],
            is_definition := .ok true } []]

/-- Nothing raises in this tree. -/
theorem typedTree_nonRaising : NonRaising typedTree where
  get_children := by simp [typedTree]
  spelling := by simp [typedTree]

/-- Every type in this tree has a spelling. -/
theorem typedTree_allTyped : AllTyped typedTree where
  declared := by simp [typedTree, CursorInfo.kindName, Spelled, CType.info]
  arguments := by simp [typedTree, Spelled, CType.info]

/-- The two declarations of `f` in this tree have as many parameters as each other. -/
theorem typedTree_sameArity : SameArity typedTree := by
  simp [SameArity, typedTree, CursorInfo.kindName, kindIn, functionCursorKinds]

/-- The USRs in this tree are as libclang makes them. -/
theorem typedTree_native :
    ∀ s ∈ typedTree.subtrees, s.label.safeUsr = "" ∨ Native s.label.safeUsr := by
  have husrs : Native "c:@v" ∧ Native "c:@F@f#I#" := by decide
  simpa [typedTree, CursorInfo.safeUsr, Acc.getD] using husrs

/-- `types_complete` at that tree: a variable, and a function that is declared and then defined. -/
theorem types_complete_typedTree :
    ∃ r, extractNodesAndEdges hexSha1 "/proj/a.cpp" typedTree = .ok r ∧
      TypesComplete "/proj/a.cpp" typedTree r.1 r.2 :=
  types_complete hexSha1_injective typedTree_nonRaising typedTree_allTyped typedTree_sameArity
    (noSynthetic_of_native typedTree_native) (filesApart_of_native typedTree_native)

/-- A function whose USR begins as that of a file, and a file with the USR of its parameter. -/
def includedParamTree : Cursor :=
  .node { kind := .ok (.other 350) } [
    .node { kind := .ok .inclusionDirective,
            location := .ok { file := "/proj/a.cpp", line := 1, column := 1 },
            get_included_file := .ok (some (.ok "/x#param:0")) } [],
    .node { kind := .ok .functionDecl, get_usr := .ok "file:///x", spelling := .ok "f",
            location := .ok { file := "/proj/a.cpp", line := 2, column := 6 },
            get_arguments := [{ spelling := .ok "a",
                                type := .ok (some (.last { spelling := .ok "int" } none)) }] } []]

/-- Nothing raises in this tree either. -/
theorem includedParamTree_nonRaising : NonRaising includedParamTree where
  get_children := by simp [includedParamTree]
  spelling := by simp [includedParamTree]

/-- Every type in this tree has a spelling too. -/
theorem includedParamTree_allTyped : AllTyped includedParamTree where
  declared := by simp [includedParamTree, CursorInfo.kindName]
  arguments := by simp [includedParamTree, Spelled, CType.info]

/-- The function of this tree is declared once. -/
theorem includedParamTree_sameArity : SameArity includedParamTree := by
  simp [SameArity, includedParamTree, CursorInfo.kindName, kindIn, functionCursorKinds]

/-- No cursor of this tree has a USR that the exporter makes up. -/
theorem includedParamTree_noSynthetic : NoSynthetic hexSha1 includedParamTree where
  param := by
    have hfile : ∀ usr idx, "file:///x" ≠ paramUsr usr idx := by
      intro usr idx heq
      have hhash := hash_mem_paramUsr usr idx
      rw [← heq] at hhash
      exact absurd hhash (by decide)
    simpa [includedParamTree, CursorInfo.safeUsr, Acc.getD] using ⟨paramUsr_ne_empty, hfile⟩
  type := by
    have hfile : ∀ spelling, "file:///x" ≠ typeUsr hexSha1 spelling :=
      fileUsr_ne_typeUsr hexSha1 "/x"
    simpa [includedParamTree, CursorInfo.safeUsr, Acc.getD] using ⟨typeUsr_ne_empty hexSha1, hfile⟩

/-- **A function misses its parameter where a file has taken the USR:** an included file may have
any name, and the USR that is made of this one is that of the parameter. -/
theorem includedParamTree_not_complete :
    Function.Injective hexSha1.hexdigest ∧ NonRaising includedParamTree ∧
      AllTyped includedParamTree ∧ SameArity includedParamTree ∧
      NoSynthetic hexSha1 includedParamTree ∧
      ∃ r, extractNodesAndEdges hexSha1 "/proj/a.cpp" includedParamTree = .ok r ∧
        ¬TypesComplete "/proj/a.cpp" includedParamTree r.1 r.2 := by
  refine ⟨hexSha1_injective, includedParamTree_nonRaising, includedParamTree_allTyped,
    includedParamTree_sameArity, includedParamTree_noSynthetic, ?_⟩
  obtain ⟨r, hr⟩ := exists_extract_of_children hexSha1 "/proj/a.cpp"
    includedParamTree_nonRaising.get_children
  refine ⟨r, hr, fun hcomplete => ?_⟩
  obtain ⟨-, rfl⟩ := (extract_eq_ok_iff hexSha1 "/proj/a.cpp").mp hr
  have hlabels : (collected hexSha1 "/proj/a.cpp" includedParamTree).nodes.map NodeRecord.label =
      [.file, .file, .function] := by rfl
  have hfunction : NodeType.function ∈
      (collected hexSha1 "/proj/a.cpp" includedParamTree).nodes.map NodeRecord.label := by
    rw [hlabels]
    decide
  obtain ⟨n, hn, hlabel⟩ := List.mem_map.mp hfunction
  obtain ⟨v, hv, hfun, -, hparams⟩ := hcomplete.functions n hn hlabel
  have hone : ∀ s ∈ includedParamTree.subtrees, s.label.isFunctionOf "/proj/a.cpp" = true →
      s.label.get_arguments.length = 1 := by
    simp [includedParamTree, CursorInfo.isFunctionOf, CursorInfo.kindName, kindIn,
      functionCursorKinds]
  have hlength := hone v.2 (Rose.mem_subtrees_of_mem_visit hv) hfun
  obtain ⟨m, hm, hparam, -⟩ := hparams.nodes 0 (by omega)
  have hmem := List.mem_map_of_mem (f := NodeRecord.label) hm
  rw [hlabels, hparam] at hmem
  exact absurd hmem (by decide)

end Export
end CppMcp
