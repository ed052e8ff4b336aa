/-
# Use-sites and definitions

A `REFERENCES` edge of `src/cpp_mcp/graphdb/exporter.py` ends at the USR that
libclang gives the declaration referred to.  The declaration's node has that USR
when it is made at the declaration's own cursor.  The node of a parameter is not:
it is made in the loop over the function's arguments, under a synthetic USR
(`paramUsr`), while the cursor of the `PARM_DECL` is passed over.  So an edge to a
parameter ends at no node, and `usrs_agree_iff` says that these are the only edges
that miss their declaration.

A declaration and the declaration that a use-site refers to are the same when
libclang gives them the same USR: so are all redeclarations of one entity.
-/

import CppMcp.Export.Closure
import CppMcp.Export.Uses

namespace CppMcp
namespace Export

/-- What an export may make a node of: the cursor of a symbol, or an argument of
a function. -/
inductive Declaration where
  | symbol (c : CursorInfo)
  | argument (function : CursorInfo) (idx : ℕ) (param : Param)

namespace Declaration

/-- The declaration's own USR. -/
def get_usr : Declaration → Acc String
  | symbol c => c.get_usr
  | argument _ _ param => param.get_usr

/-- The USR under which `_walk_cursor` appends the declaration's node. -/
def nodeUsr : Declaration → String
  | symbol c => c.safeUsr
  | argument function idx _ => paramUsr function.safeUsr idx

/-- The walk comes past the declaration, in the file. -/
def Met (file_path : String) (t : Cursor) : Declaration → Prop
  | symbol c => ∃ v ∈ visits file_path t, v.2.label = c ∧
      c.Ordinary ∧ c.foreign file_path = false ∧ c.schema ≠ none
  | argument function idx param => ∃ v ∈ visits file_path t, v.2.label = function ∧
      function.isFunctionOf file_path = true ∧ function.get_arguments[idx]? = some param

/-- The declaration is exported as a node. -/
structure Exported (file_path : String) (t : Cursor) (nodes : List NodeRecord)
    (d : Declaration) : Prop where
  met : d.Met file_path t
  node : d.nodeUsr ∈ nodes.map NodeRecord.usr

end Declaration

/-- The cursor refers to the declaration. -/
def CursorInfo.RefersTo (c : CursorInfo) (d : Declaration) : Prop :=
  ∃ ref, c.referenced = .ok (some ref) ∧ ref.get_usr = d.get_usr

/-- The walk comes to a use-site of the file. -/
structure UseSite (file_path : String) (t : Cursor) (v : Visit) : Prop where
  visited : v ∈ visits file_path t
  kind : kindIn v.2.label.kindName referenceCursorKinds = true
  file : v.2.label.StandsIn file_path

/-- The edge that the branch of the use-sites appends there, if it does. -/
def siteEdges (file_path : String) (v : Visit) : List EdgeRecord :=
  (emitUseSite (fileUsr file_path) v.1.enclosing_func_usr v.2.label ⟨[], [], []⟩).edges

/-- **Use-sites and definitions agree on USRs:** the edge of a use-site that
refers to an exported declaration ends at the USR of that declaration's node. -/
def UsrsAgree (file_path : String) (t : Cursor) (nodes : List NodeRecord)
    (edges : List EdgeRecord) : Prop :=
  ∀ v, UseSite file_path t v → ∀ d : Declaration, d.Exported file_path t nodes →
    v.2.label.RefersTo d → ∀ e ∈ siteEdges file_path v, e ∈ edges ∧ e.target_usr = d.nodeUsr

/-- No use-site of the file refers to an argument of a function of the file, but
to one without a USR or whose own USR is the synthetic one. -/
def NoUseOfArgument (file_path : String) (t : Cursor) : Prop :=
  ∀ v, UseSite file_path t v → ∀ function idx param,
    (Declaration.argument function idx param).Met file_path t →
    v.2.label.RefersTo (.argument function idx param) →
    param.safeUsr = "" ∨ param.safeUsr = paramUsr function.safeUsr idx

variable {sha1 : Py.Sha1} {file_path : String} {t : Cursor}

/-! ### The edge of a use-site -/

/-- The edge that the branch of the use-sites appends is the one that the links of the visit list.
-/
theorem siteEdges_eq_useEdges (v : Visit) :
    siteEdges file_path v = useEdges file_path v.1.enclosing_func_usr v.2.label := by
  rw [siteEdges, edges_emitUseSite, List.nil_append]

/-- The edge ends at the declaration's own USR; there is none if that is empty. -/
theorem target_of_refersTo {c : CursorInfo} {d : Declaration} (h : c.RefersTo d) :
    c.target = if Acc.getD d.get_usr "" = "" then none else some (Acc.getD d.get_usr "") := by
  obtain ⟨ref, href, husr⟩ := h
  have hsafe : ref.safeUsr = Acc.getD d.get_usr "" := by rw [Ref.safeUsr, husr]
  rw [CursorInfo.target, href, ← hsafe]

/-- The edge of a use-site leads from the enclosing function, or the file, to the declaration's own
USR, if it has one. -/
theorem mem_siteEdges_iff {v : Visit} {d : Declaration} (h : v.2.label.RefersTo d)
    {e : EdgeRecord} :
    e ∈ siteEdges file_path v ↔ Acc.getD d.get_usr "" ≠ "" ∧
      e = ⟨v.1.enclosing_func_usr.getD (fileUsr file_path), Acc.getD d.get_usr "", .references,
        []⟩ := by
  rw [siteEdges_eq_useEdges, useEdges, target_of_refersTo h]
  split_ifs with hempty
  · simp [hempty]
  · simp [hempty]

/-- **The edge of a use-site is among the edges of the export.** -/
theorem siteEdges_subset_collected {v : Visit} (hv : UseSite file_path t v) :
    siteEdges file_path v ⊆ (collected sha1 file_path t).edges := by
  intro e he
  rw [siteEdges_eq_useEdges] at he
  refine (mem_collected_edges_iff sha1 file_path (isLink_useEdges file_path _ _ e he)).mpr
    ⟨v, hv.visited, ?_⟩
  exact (mem_linkEdges_iff file_path).mpr (Or.inr (Or.inl ⟨hv.kind, he⟩))

/-! ### The nodes of the arguments -/

/-- The loop over the arguments takes the USR of the first and goes on, if its
spelling can be read. -/
theorem exists_emitParamsFrom_cons (sha1 : Py.Sha1) (usr : String) (idx : ℕ) {param : Param}
    (rest : List Param) (b : Batch) (hsp : ∃ spelling, param.spelling = .ok spelling) :
    ∃ b', emitParamsFrom sha1 usr idx (param :: rest) b =
      emitParamsFrom sha1 usr (idx + 1) rest b' ∧ paramUsr usr idx ∈ b'.seen_usrs := by
  obtain ⟨spelling, hsp⟩ := hsp
  rw [emitParamsFrom]
  split_ifs with hseen
  · exact ⟨b, rfl, hseen⟩
  · rw [hsp]
    refine ⟨_, rfl, ?_⟩
    have hle := ((covers_le sha1).getOrCreateTypeOf param.type (b.see (paramUsr usr idx))).trans
      ((covers_le sha1).linkParam usr param idx spelling _)
    exact hle.seen List.mem_cons_self

/-- **The loop takes the USR of every argument,** in the order of their indices, if all spellings
can be read. -/
theorem paramUsr_mem_seen_emitParamsFrom (usr : String) (params : List Param)
    (hsp : ∀ p ∈ params, ∃ spelling, p.spelling = .ok spelling) (idx k : ℕ)
    (hk : k < params.length) (b : Batch) :
    paramUsr usr (idx + k) ∈ (emitParamsFrom sha1 usr idx params b).seen_usrs := by
  induction params generalizing idx k b with
  | nil => exact absurd hk (Nat.not_lt_zero k)
  | cons param rest ih =>
    obtain ⟨b', heq, hseen⟩ := exists_emitParamsFrom_cons sha1 usr idx rest b
      (hsp param List.mem_cons_self)
    rw [heq]
    cases k with
    | zero => exact ((covers_le sha1).emitParamsFrom usr rest (idx + 1) b').seen hseen
    | succ k =>
      have hrest := ih (fun p hp => hsp p (List.mem_cons_of_mem _ hp)) (idx + 1) k
        (by simpa using hk) b'
      rwa [Nat.add_right_comm] at hrest

/-- **Every argument of a function of the file has its node,** if the spellings
can be read. -/
theorem exported_argument (hspelled : ArgumentsSpelled t) {function : CursorInfo} {idx : ℕ}
    {param : Param} (hmet : (Declaration.argument function idx param).Met file_path t) :
    (Declaration.argument function idx param).Exported file_path t
      (collected sha1 file_path t).nodes := by
  refine ⟨hmet, ?_⟩
  obtain ⟨v, hv, rfl, hfun, harg⟩ := hmet
  obtain ⟨b, hle⟩ := exists_emit_le_collected sha1 file_path hv
  obtain ⟨hord, hforeign, hschema⟩ := schema_of_isFunctionOf file_path hfun
  have hkind := kindIn_of_isFunctionOf file_path hfun
  have hemit : paramUsr v.2.label.safeUsr idx ∈ (emit sha1 file_path b v).seen_usrs := by
    have hidx : idx < v.2.label.get_arguments.length := (List.getElem?_eq_some_iff.mp harg).1
    have hsp := hspelled v.2 (Rose.mem_subtrees_of_mem_visit hv)
    rw [emit, if_neg hord.1, if_neg hord.2.1, hord.2.2, hforeign, hschema]
    dsimp only
    rw [if_neg Bool.false_ne_true, if_neg Bool.false_ne_true, emitSchema, emitParams,
      if_pos hkind]
    simpa using paramUsr_mem_seen_emitParamsFrom v.2.label.safeUsr v.2.label.get_arguments hsp 0
      idx hidx _
  have hclosed := closed_collected sha1 file_path (fun _ => id) hspelled.clear
  exact hclosed.mem_usrs_of_seen (hle.seen hemit) id

/-! ### Agreement -/

/-- The own USR of a symbol is that of its node. -/
theorem getD_get_usr_symbol (c : CursorInfo) :
    Acc.getD (Declaration.symbol c).get_usr "" = (Declaration.symbol c).nodeUsr := rfl

/-- **When use-sites and definitions agree:** when no use-site refers to a
parameter.  That it must not takes that the parameters are exported, for which
their spellings have to be readable. -/
theorem usrs_agree_iff {r : List NodeRecord × List EdgeRecord}
    (h : extractNodesAndEdges sha1 file_path t = .ok r) :
    (NoUseOfArgument file_path t → UsrsAgree file_path t r.1 r.2) ∧
      (ArgumentsSpelled t → UsrsAgree file_path t r.1 r.2 → NoUseOfArgument file_path t) := by
  obtain ⟨-, rfl⟩ := (extract_eq_ok_iff sha1 file_path).mp h
  constructor
  · intro hno v hv d hd href e he
    refine ⟨siteEdges_subset_collected hv he, ?_⟩
    obtain ⟨husr, rfl⟩ := (mem_siteEdges_iff href).mp he
    cases d with
    | symbol c => exact getD_get_usr_symbol c
    | argument function idx param =>
      exact (hno v hv function idx param hd.met href).resolve_left husr
  · intro hspelled hagree v hv function idx param hmet href
    by_cases husr : param.safeUsr = ""
    · exact Or.inl husr
    · exact Or.inr (hagree v hv _ (exported_argument hspelled hmet) href _
        ((mem_siteEdges_iff href).mpr ⟨husr, rfl⟩)).2

/-- `int g(int x)`, with its cursor. -/
def takingFunction : CursorInfo :=
  { kind := .ok .functionDecl, get_usr := .ok "c:@F@g#I#", spelling := .ok "g",
    location := .ok { file := "/proj/b.cpp", line := 1, column := 5 }, is_definition := .ok true,
    get_arguments := [{ spelling := .ok "x", get_usr := .ok "c:b.cpp@6@F@g#I#@x" }] }

/-- A use of the declaration that has the USR. -/
def useOfUsr (usr : String) : Cursor :=
  .node { kind := .ok .declRefExpr,
          location := .ok { file := "/proj/b.cpp", line := 1, column := 16 },
          referenced := .ok (some ⟨.ok usr⟩) } []

/-- `int g(int x) { … }` with the use in the body. -/
def usingTree (usr : String) : Cursor :=
  .node { kind := .ok (.other 350) } [
    .node takingFunction [
      .node { kind := .ok .parmDecl, get_usr := .ok "c:b.cpp@6@F@g#I#@x", spelling := .ok "x",
              location := .ok { file := "/proj/b.cpp", line := 1, column := 11 } } [],
      useOfUsr usr]]

/-- In the tree of the example no cursor raises on `get_children()`, so its export returns a result.
-/
theorem usingTree_children (usr : String) :
    ∀ s ∈ (usingTree usr).subtrees, s.label.children_raise = none := by
  simp [usingTree, takingFunction, useOfUsr]

/-- What is visited of the tree: the unit, the function, its parameter and the use in its body. -/
theorem visits_usingTree (usr : String) :
    (visits "/proj/b.cpp" (usingTree usr)).map (fun v => v.2.label) =
      [{ kind := .ok (.other 350) }, takingFunction,
        { kind := .ok .parmDecl, get_usr := .ok "c:b.cpp@6@F@g#I#@x", spelling := .ok "x",
          location := .ok { file := "/proj/b.cpp", line := 1, column := 11 } },
        (useOfUsr usr).label] := rfl

/-- **The edge to a parameter misses the parameter's node:** it ends at libclang's USR of the
parameter, and the node has the synthetic one. -/
theorem usingTree_not_agree :
    ∃ r, extractNodesAndEdges default "/proj/b.cpp" (usingTree "c:b.cpp@6@F@g#I#@x") = .ok r ∧
      ¬UsrsAgree "/proj/b.cpp" (usingTree "c:b.cpp@6@F@g#I#@x") r.1 r.2 := by
  obtain ⟨r, hr⟩ := exists_extract_of_children default "/proj/b.cpp"
    (usingTree_children "c:b.cpp@6@F@g#I#@x")
  refine ⟨r, hr, fun hagree => ?_⟩
  obtain ⟨-, rfl⟩ := (extract_eq_ok_iff default "/proj/b.cpp").mp hr
  have hspelled : ArgumentsSpelled (usingTree "c:b.cpp@6@F@g#I#@x") := by
    simp [ArgumentsSpelled, usingTree, takingFunction, useOfUsr]
  have hvisit : ∀ c ∈ (visits "/proj/b.cpp" (usingTree "c:b.cpp@6@F@g#I#@x")).map
      (fun v => v.2.label), ∃ v ∈ visits "/proj/b.cpp" (usingTree "c:b.cpp@6@F@g#I#@x"),
        v.2.label = c := fun c hc => by simpa using hc
  rw [visits_usingTree] at hvisit
  obtain ⟨v, hv, hlabel⟩ := hvisit (useOfUsr "c:b.cpp@6@F@g#I#@x").label (by simp)
  have hsite : UseSite "/proj/b.cpp" (usingTree "c:b.cpp@6@F@g#I#@x") v :=
    ⟨hv, by rw [hlabel]; rfl, by rw [hlabel]; rfl⟩
  have hmet : (Declaration.argument takingFunction 0
      { spelling := .ok "x", get_usr := .ok "c:b.cpp@6@F@g#I#@x" }).Met "/proj/b.cpp"
      (usingTree "c:b.cpp@6@F@g#I#@x") := by
    obtain ⟨f, hf, hfun⟩ := hvisit takingFunction (by simp)
    exact ⟨f, hf, hfun, by decide, rfl⟩
  have href : v.2.label.RefersTo (.argument takingFunction 0
      { spelling := .ok "x", get_usr := .ok "c:b.cpp@6@F@g#I#@x" }) :=
    ⟨⟨.ok "c:b.cpp@6@F@g#I#@x"⟩, by rw [hlabel]; rfl, rfl⟩
  have htarget := (hagree v hsite _ (exported_argument hspelled hmet) href _
    ((mem_siteEdges_iff href).mpr ⟨by decide, rfl⟩)).2
  change "c:b.cpp@6@F@g#I#@x" = "c:@F@g#I##param:0" at htarget
  exact absurd htarget (by decide)

/-- `usrs_agree_iff` at the same function using a variable, where use-sites and definitions do
agree. -/
theorem usrs_agree_iff_usingTree :
    ∃ r, extractNodesAndEdges default "/proj/b.cpp" (usingTree "c:@v") = .ok r ∧
      UsrsAgree "/proj/b.cpp" (usingTree "c:@v") r.1 r.2 := by
  obtain ⟨r, hr⟩ := exists_extract_of_children default "/proj/b.cpp" (usingTree_children "c:@v")
  refine ⟨r, hr, (usrs_agree_iff hr).1 ?_⟩
  have hlabel : ∀ v ∈ visits "/proj/b.cpp" (usingTree "c:@v"), v.2.label ∈
      (visits "/proj/b.cpp" (usingTree "c:@v")).map (fun v => v.2.label) :=
    fun v hv => List.mem_map_of_mem hv
  simp only [visits_usingTree, List.mem_cons, List.not_mem_nil, or_false] at hlabel
  rintro v ⟨hv, hkind, -⟩ function idx param ⟨f, hf, rfl, hfun, harg⟩ ⟨ref, href, husr⟩
  have hfunction : f.2.label = takingFunction := by
    rcases hlabel f hf with h | h | h | h
    · rw [h] at hfun; exact absurd hfun (by decide)
    · exact h
    · rw [h] at hfun; exact absurd hfun (by decide)
    · rw [h] at hfun; exact absurd hfun (by decide)
  have hparam : param.get_usr = .ok "c:b.cpp@6@F@g#I#@x" := by
    rw [hfunction] at harg
    obtain rfl := List.mem_singleton.mp (List.mem_of_getElem? harg)
    rfl
  have huse : v.2.label = (useOfUsr "c:@v").label := by
    rcases hlabel v hv with h | h | h | h
    · rw [h] at hkind; exact absurd hkind (by decide)
    · rw [h] at hkind; exact absurd hkind (by decide)
    · rw [h] at hkind; exact absurd hkind (by decide)
    · exact h
  rw [huse] at href
  obtain rfl : (⟨.ok "c:@v"⟩ : Ref) = ref := Option.some.inj (Except.ok.inj href)
  change Except.ok "c:@v" = param.get_usr at husr
  rw [hparam] at husr
  exact absurd (Except.ok.inj husr) (by decide)

end Export
end CppMcp
