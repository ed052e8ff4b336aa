/-
# What the IndraDB executor makes of a query text

`src/cpp_mcp/graphdb/indradb_query_executor.py`: a text is read, its verb is looked up, its
arguments are checked, and only then is the client called.  So every text has one of three fates,
whatever the client and the limit are: it is rejected with one of the two exceptions meant for
that, an exception that is not meant for it leaves the executor, or the client is asked, and all
that can go wrong then is what the client raises (`fate_dispatchQuery`).

`closed_iff` says for which texts the second fate is ruled out and the third one is kept for
well-formed queries.
-/

import CppMcp.IndraDB.Answers

namespace CppMcp
namespace IndraDB

open Export (Exc Acc)
open Py (Json Uuid)

/-! ### Well-formed queries -/

/-- An ASCII letter or an underscore, followed by ASCII letters, digits or underscores. -/
def IsIdent (s : String) : Prop :=
  ∃ c cs, s.toList = c :: cs ∧ isIdentStart c = true ∧ ∀ x ∈ cs, isIdentRest x = true

/-- The keys of the arguments are the required ones, and optional ones. -/
def HasKeys (args : Args) (required optional : List String) : Prop :=
  (∀ k ∈ required, k ∈ args.map Prod.fst) ∧ ∀ k ∈ args.map Prod.fst, k ∈ required ++ optional

/-- An argument `t`. -/
def TypeArg (IsType : String → Prop) (args : Args) : Prop :=
  ∃ s, args.lookup "t" = some (.str s) ∧ IsType s

/-- The arguments of a query for a property. -/
def PropertyArgs (args : Args) : Prop :=
  HasKeys args ["name", "value"] [] ∧ (∃ s, args.lookup "name" = some (.str s)) ∧
    ∃ v, args.lookup "value" = some v ∧ v.isScalar = true

/-- The names of the arguments of `pipe`, and its vertex. -/
def PipeVertex (library : Library) (args : Args) : Prop :=
  HasKeys args ["direction", "vertex_id"] ["t"] ∧
    ∃ s id, args.lookup "vertex_id" = some (.str s) ∧ library.UUID s = .ok id

/-- **The arguments of a verb,** their names and types; `IsType` says what a type is. -/
def ArgsOk (IsType : String → Prop) (library : Library) : Verb → Args → Prop
  | .all_vertices, args => HasKeys args [] []
  | .all_edges, args => HasKeys args [] []
  | .vertex_with_type, args => HasKeys args ["t"] [] ∧ TypeArg IsType args
  | .edge_with_type, args => HasKeys args ["t"] [] ∧ TypeArg IsType args
  | .vertex_with_property_equal, args => PropertyArgs args
  | .edge_with_property_equal, args => PropertyArgs args
  | .pipe, args => PipeVertex library args ∧
      (∃ d : Direction, args.lookup "direction" = some (.str d.name)) ∧
      (args.lookup "t" = none ∨ args.lookup "t" = some .null ∨ TypeArg IsType args)

/-- **The text is a query:** an object with an allowed verb and the arguments of that verb. -/
def WellFormed (library : Library) (query : String) : Prop :=
  ∃ verb args, Asks library query verb args ∧ ArgsOk IsIdent library verb args

/-! ### Three fates -/

/-- The exceptions by which a query is rejected. -/
def Error.IsRejection : Error → Prop
  | .queryParse _ => True
  | .queryUnsupported _ => True
  | .unmapped _ => False

/-- The client raises `exc` at some query. -/
def Client.Raises (client : Client) (exc : Exc) : Prop :=
  (∃ q, client.vertices q = .error exc) ∨ (∃ q, client.edges q = .error exc) ∨
    (∃ q, client.vertexProperties q = .error exc) ∨ ∃ q, client.edgeProperties q = .error exc

/-- It returns, unless the client raises. -/
def Served {α : Type} (client : Client) (x : Except Error α) : Prop :=
  (∃ a, x = .ok a) ∨ ∃ exc, client.Raises exc ∧ x = .error (.unmapped exc)

namespace Served

variable {α β : Type} {client : Client}

/-- What only returns is served by every client. -/
theorem ok (a : α) : Served client (.ok a) := Or.inl ⟨a, rfl⟩

/-- Two parts that are served, one after the other, are served. -/
theorem bind {x : Except Error α} {f : α → Except Error β} (hx : Served client x)
    (hf : ∀ a, Served client (f a)) : Served client (x >>= f) := by
  rcases hx with ⟨a, rfl⟩ | ⟨exc, hraises, rfl⟩
  · exact hf a
  · exact Or.inr ⟨exc, hraises, rfl⟩

/-- A call is served if what it may raise is what the client raises. -/
theorem call {x : Acc α} (h : ∀ exc, x = .error exc → client.Raises exc) :
    Served client (IndraDB.call x) := by
  cases x with
  | ok a => exact ok a
  | error exc => exact Or.inr ⟨exc, h exc rfl, rfl⟩

/-- Asking for vertices is served. -/
theorem vertices (q : VertexQuery) : Served client (IndraDB.call (client.vertices q)) :=
  call fun _ h => Or.inl ⟨q, h⟩

/-- Asking for edges is served. -/
theorem edges (q : EdgeQuery) : Served client (IndraDB.call (client.edges q)) :=
  call fun _ h => Or.inr (Or.inl ⟨q, h⟩)

/-- Asking for the properties of vertices is served. -/
theorem vertexProperties (q : VertexQuery) :
    Served client (IndraDB.call (client.vertexProperties q)) :=
  call fun _ h => Or.inr (Or.inr (Or.inl ⟨q, h⟩))

/-- Asking for the properties of edges is served. -/
theorem edgeProperties (q : EdgeQuery) : Served client (IndraDB.call (client.edgeProperties q)) :=
  call fun _ h => Or.inr (Or.inr (Or.inr ⟨q, h⟩))

/-- A choice between two parts that are served is served. -/
theorem ite {p : Prop} [Decidable p] {x y : Except Error α} (hx : Served client x)
    (hy : Served client y) : Served client (if p then x else y) := by
  split_ifs
  · exact hx
  · exact hy

/-- The rows of some vertices are served: one call, and the rest is made of its answer. -/
theorem vertexRows (query : VertexQuery) (items : List Vertex) :
    Served client (IndraDB.vertexRows client query items) :=
  bind (bind (vertexProperties query) fun _ => ok _) fun _ => ok _

/-- The rows of some edges are served: one call, and the rest is made of its answer. -/
theorem edgeRows (query : EdgeQuery) (items : List Edge) :
    Served client (IndraDB.edgeRows client query items) :=
  bind (bind (edgeProperties query) fun _ => ok _) fun _ => ok _

end Served

/-- What is done for a client and a limit. -/
abbrev Task (α : Type) := Client → ℕ → Except Error α

/-- It is rejected, and no client is asked: the outcome is the same for all. -/
def Rejects {α : Type} (f : Task α) : Prop :=
  ∃ e, e.IsRejection ∧ ∀ client row_limit, f client row_limit = .error e

/-- An exception leaves the executor that no clause catches, whatever the client is. -/
def Crashes {α : Type} (f : Task α) : Prop :=
  ∃ exc, ∀ client row_limit, f client row_limit = .error (.unmapped exc)

/-- The client is asked. -/
def Opens {α : Type} (f : Task α) : Prop := ∀ client row_limit, Served client (f client row_limit)

/-- **One of three fates:** the client is asked if `accepted`, an exception escapes if `unforeseen`,
and otherwise it is rejected. -/
def Fate {α : Type} (accepted unforeseen : Prop) (f : Task α) : Prop :=
  (accepted ∧ ¬unforeseen ∧ Opens f) ∨ (¬accepted ∧ unforeseen ∧ Crashes f) ∨
    (¬accepted ∧ ¬unforeseen ∧ Rejects f)

/-- A check on the way to the client: it gives the one value that is `accepted`, raises what no
clause catches if `unforeseen`, and otherwise rejects. -/
def Checks {β : Type} (accepted : β → Prop) (unforeseen : Prop) (x : Except Error β) : Prop :=
  (∃ b, (∀ b', accepted b' ↔ b' = b) ∧ ¬unforeseen ∧ x = .ok b) ∨
    (unforeseen ∧ (∀ b, ¬accepted b) ∧ ∃ exc, x = .error (.unmapped exc)) ∨
    ((∀ b, ¬accepted b) ∧ ¬unforeseen ∧ ∃ e, e.IsRejection ∧ x = .error e)

namespace Fate

variable {α β : Type} {A A' U U' : Prop} {f : Task α}

/-- The conditions of a fate may be said in another way. -/
theorem congr (h : Fate A U f) (hA : A ↔ A') (hU : U ↔ U') : Fate A' U' f := by
  rw [← propext hA, ← propext hU]
  exact h

/-- What asks the client at once has the fate that it opens. -/
theorem of_opens (h : Opens f) : Fate True False f := Or.inl ⟨trivial, id, h⟩

/-- **A check, and what is done after it:** the whole is accepted if both accept, and an exception
escapes from either. -/
theorem bind {accepted : β → Prop} {unforeseen : Prop} {x : Except Error β}
    {A U : β → Prop} {f : β → Task α} (hx : Checks accepted unforeseen x)
    (hf : ∀ b, accepted b → Fate (A b) (U b) (f b)) :
    Fate (∃ b, accepted b ∧ A b) (unforeseen ∨ ∃ b, accepted b ∧ U b)
      fun client row_limit => x >>= fun b => f b client row_limit := by
  rcases hx with ⟨b, hb, hno, rfl⟩ | ⟨hunf, hnone, exc, rfl⟩ | ⟨hnone, hno, e, he, rfl⟩
  · have hacc := (hb b).mpr rfl
    have honly : ∀ P : β → Prop, (∃ b', accepted b' ∧ P b') ↔ P b := fun P => by
      simp only [hb, exists_eq_left]
    refine Fate.congr ?_ (honly A).symm (by rw [honly U, or_iff_right hno])
    exact hf b hacc
  · exact Or.inr (Or.inl ⟨fun ⟨b, hacc, _⟩ => hnone b hacc, Or.inl hunf, exc, fun _ _ => rfl⟩)
  · refine Or.inr (Or.inr ⟨?_, ?_, e, he, fun _ _ => rfl⟩)
    · rintro ⟨b, hacc, -⟩
      exact hnone b hacc
    · rintro (hunf | ⟨b, hacc, -⟩)
      · exact hno hunf
      · exact hnone b hacc

end Fate

/-! ### The checks -/

namespace Checks

variable {β : Type}

/-- A check that lets one value through and nothing else. -/
theorem of_ok {accepted : β → Prop} {x : Except Error β} {b : β} (h : ∀ b', accepted b' ↔ b' = b)
    (hx : x = .ok b) : Checks accepted False x := Or.inl ⟨b, h, id, hx⟩

/-- A check lets through what is accepted, and gives it as it is. -/
theorem eq_ok {accepted : β → Prop} {unforeseen : Prop} {x : Except Error β}
    (h : Checks accepted unforeseen x) {b : β} (hb : accepted b) : x = .ok b := by
  rcases h with ⟨b', hacc, -, rfl⟩ | ⟨-, hnone, -⟩ | ⟨hnone, -⟩
  · rw [(hacc b).mp hb]
  · exact absurd hb (hnone b)
  · exact absurd hb (hnone b)

/-- A check that accepts nothing here, and rejects with `DBQueryParseError`. -/
theorem of_queryParse {accepted : β → Prop} {x : Except Error β} {m : String}
    (h : ∀ b, ¬accepted b) (hx : x = .error (.queryParse m)) : Checks accepted False x :=
  Or.inr (Or.inr ⟨h, id, .queryParse m, trivial, hx⟩)

end Checks

/-- `_require_args` lets through exactly those arguments that have all required keys and no unknown
ones. -/
theorem checks_requireArgs (args : Args) (required optional : List String) :
    Checks (fun _ => HasKeys args required optional) False (requireArgs args required optional) := by
  have hmissing : (required.filter (· ∉ args.map Prod.fst)) = [] ↔
      ∀ k ∈ required, k ∈ args.map Prod.fst := by
    simp only [List.filter_eq_nil_iff, decide_eq_true_eq, not_not]
  have hextra : ((args.map Prod.fst).filter (· ∉ required ++ optional)) = [] ↔
      ∀ k ∈ args.map Prod.fst, k ∈ required ++ optional := by
    simp only [List.filter_eq_nil_iff, decide_eq_true_eq, not_not]
  unfold requireArgs
  dsimp only
  split_ifs with h₁ h₂
  · exact .of_queryParse (fun _ hkeys => h₁ (hmissing.mpr hkeys.1)) rfl
  · exact .of_queryParse (fun _ hkeys => h₂ (hextra.mpr hkeys.2)) rfl
  · exact .of_ok (b := ()) (fun _ => iff_of_true
      ⟨hmissing.mp (not_not.mp h₁), hextra.mp (not_not.mp h₂)⟩ rfl) rfl

/-- An argument whose name is among the keys is there. -/
theorem exists_lookup {args : Args} {name : String} (h : name ∈ args.map Prod.fst) :
    ∃ v, args.lookup name = some v := by
  cases hlookup : args.lookup name with
  | none =>
    obtain ⟨item, hitem, rfl⟩ := List.mem_map.mp h
    have hne := List.lookup_eq_none_iff.mp hlookup item hitem
    exact absurd hne (by simp)
  | some v => exact ⟨v, rfl⟩

/-- Reading an argument whose key has been checked gives its value and never raises. -/
theorem checks_get {args : Args} {name : String} (h : name ∈ args.map Prod.fst) :
    Checks (fun v => args.lookup name = some v) False (args.get name) := by
  obtain ⟨v, hlookup⟩ := exists_lookup h
  refine .of_ok (b := v) (fun v' => ?_) (by rw [Args.get, hlookup])
  rw [hlookup, Option.some.injEq, eq_comm]

/-- Reading a string argument whose key has been checked gives the string, and rejects every other
value. -/
theorem checks_getStr {args : Args} {name : String} (h : name ∈ args.map Prod.fst) :
    Checks (fun s => args.lookup name = some (.str s)) False (args.getStr name) := by
  obtain ⟨v, hlookup⟩ := exists_lookup h
  unfold Args.getStr Args.get
  rw [hlookup]
  cases v with
  | str s =>
    refine .of_ok (b := s) (fun s' => ?_) rfl
    rw [Option.some.injEq, Json.str.injEq, eq_comm]
  | _ => exact .of_queryParse (fun s hs => by simp at hs) rfl

/-- `_validate_t` lets through the strings that the regular expression matches, and rejects all
else. -/
theorem checks_validateT (t : Json) :
    Checks (fun s => t = .str s ∧ matchesTypeIdent s = true) False (validateT t) := by
  cases t with
  | str s =>
    unfold validateT
    dsimp only
    split_ifs with h
    · refine .of_ok (b := s) (fun s' => ?_) rfl
      rw [Json.str.injEq]
      exact ⟨fun h => h.1.symm, fun h' => ⟨h'.symm, h' ▸ h⟩⟩
    · refine .of_queryParse (fun s' hs => ?_) rfl
      rw [Json.str.injEq] at hs
      exact h (hs.1 ▸ hs.2)
  | _ => exact .of_queryParse (fun s hs => by simp at hs) rfl

/-- `_validate_uuid` lets through the strings that `uuid.UUID` reads, and rejects all else. -/
theorem checks_validateUuid (library : Library) (v : Json) :
    Checks (fun id => ∃ s, v = .str s ∧ library.UUID s = .ok id) False (validateUuid library v) := by
  cases v with
  | str s =>
    cases huuid : library.UUID s with
    | ok id =>
      refine .of_ok (b := id) (fun id' => ?_) (by simp only [validateUuid, huuid])
      simp only [Json.str.injEq, exists_eq_left', huuid, Except.ok.injEq, eq_comm]
    | error text =>
      refine .of_queryParse (fun id hid => ?_) (by simp only [validateUuid, huuid]; rfl)
      simp [huuid] at hid
  | _ => exact .of_queryParse (fun s hs => by simp at hs) rfl

/-- `_validate_scalar` lets through strings, numbers, booleans and `null`, and rejects lists and
objects. -/
theorem checks_validateScalar (v : Json) :
    Checks (fun v' => v' = v ∧ v.isScalar = true) False (validateScalar v) := by
  unfold validateScalar
  split_ifs with h
  · exact .of_ok (fun v' => and_iff_left h) rfl
  · exact .of_queryParse (fun v' hv => h hv.2) rfl

/-- A scalar can be looked up in a set of names: a string may be found there, and any other one is
not. -/
theorem hashableStr_of_isScalar {v : Json} (h : v.isScalar = true) :
    (∃ s, v = .str s ∧ hashableStr v = .ok (some s)) ∨
      ((∀ s, v ≠ .str s) ∧ hashableStr v = .ok none) := by
  cases v with
  | str s => exact Or.inl ⟨s, rfl, rfl⟩
  | list items => exact absurd h (by simp [Json.isScalar])
  | dict items => exact absurd h (by simp [Json.isScalar])
  | _ => exact Or.inr ⟨fun s hs => by simp at hs, rfl⟩

/-- A list or an object cannot be looked up in a set. -/
theorem hashableStr_of_not_isScalar {v : Json} (h : v.isScalar = false) :
    ∃ exc, hashableStr v = .error (.unmapped exc) := by
  cases v with
  | list items => exact ⟨_, rfl⟩
  | dict items => exact ⟨_, rfl⟩
  | _ => exact absurd h (by simp [Json.isScalar])

/-- **A value that is looked up in a table of names:** a name of the table is found, a list or an
object cannot be looked up, and anything else is rejected. -/
theorem checks_lookup {β : Type} {name : β → String} {ofName : String → Option β}
    (hname : ∀ s b, ofName s = some b ↔ s = name b) (hinj : Function.Injective name) {v : Json}
    {x : Except Error β} (hexc : ∀ e, hashableStr v = .error e → x = .error e)
    (hfound : ∀ o b, hashableStr v = .ok o → o.bind ofName = some b → x = .ok b)
    (hnone : ∀ o, hashableStr v = .ok o → o.bind ofName = none →
      ∃ e, e.IsRejection ∧ x = .error e) :
    Checks (fun b => v = .str (name b)) (v.isScalar = false) x := by
  cases hscalar : v.isScalar with
  | false =>
    obtain ⟨exc, hhash⟩ := hashableStr_of_not_isScalar hscalar
    refine Or.inr (Or.inl ⟨rfl, fun b hb => ?_, exc, hexc _ hhash⟩)
    rw [hb] at hscalar
    exact absurd hscalar (by simp [Json.isScalar])
  | true =>
    have hno : ¬(true = false) := by simp
    rcases hashableStr_of_isScalar hscalar with ⟨s, rfl, hs⟩ | ⟨hstr, hs⟩
    · cases hof : ofName s with
      | some b =>
        refine Or.inl ⟨b, fun b' => ?_, hno, hfound _ b hs hof⟩
        dsimp only
        rw [Json.str.injEq, (hname s b).mp hof]
        exact ⟨fun h => (hinj h).symm, fun h => by rw [h]⟩
      | none =>
        refine Or.inr (Or.inr ⟨fun b hb => ?_, hno, hnone _ hs hof⟩)
        rw [(hname s b).mpr (Json.str.inj hb)] at hof
        exact nomatch hof
    · exact Or.inr (Or.inr ⟨fun b hb => hstr _ hb, hno, hnone none hs rfl⟩)

/-- A direction is known by its name. -/
theorem Direction.ofName_eq_some_iff (s : String) (d : Direction) :
    Direction.ofName s = some d ↔ s = d.name := by
  constructor
  · intro h
    have hname := List.find?_some h
    exact (of_decide_eq_true hname).symm
  · rintro rfl
    cases d <;> decide

/-- A verb is known by its name. -/
theorem Verb.ofName_eq_some_iff (s : String) (verb : Verb) :
    Verb.ofName s = some verb ↔ s = verb.name := by
  constructor
  · intro h
    have hname := List.find?_some h
    exact (of_decide_eq_true hname).symm
  · rintro rfl
    exact ofName_name verb

/-- The direction is looked up before its type is checked: a list or an object raises a `TypeError`,
and any other value that is no name is rejected. -/
theorem checks_parseDirection (v : Json) :
    Checks (fun d => v = .str (Direction.name d)) (v.isScalar = false) (parseDirection v) := by
  refine checks_lookup Direction.ofName_eq_some_iff
    (fun d d' => by cases d <;> cases d' <;> decide) ?_ ?_ ?_
  · intro e he
    rw [parseDirection, he]
    rfl
  · intro o d ho hd
    rw [parseDirection, ho]
    simp only [bind, Except.bind] at hd ⊢
    rw [hd]
    rfl
  · intro o ho hd
    rw [parseDirection, ho]
    simp only [bind, Except.bind] at hd ⊢
    rw [hd]
    exact ⟨.queryParse _, trivial, rfl⟩

/-- So is the verb: a list or an object raises a `TypeError`, and any other value that is no name is
rejected. -/
theorem checks_parseVerb (v : Json) :
    Checks (fun verb => v = .str (Verb.name verb)) (v.isScalar = false) (parseVerb v) := by
  refine checks_lookup Verb.ofName_eq_some_iff
    (fun v v' => by cases v <;> cases v' <;> decide) ?_ ?_ ?_
  · intro e he
    rw [parseVerb, he]
    rfl
  · intro o verb ho hverb
    rw [parseVerb, ho]
    simp only [bind, Except.bind] at hverb ⊢
    rw [hverb]
    rfl
  · intro o ho hverb
    rw [parseVerb, ho]
    simp only [bind, Except.bind] at hverb ⊢
    rw [hverb]
    exact ⟨.queryUnsupported _, trivial, rfl⟩

/-! ### The verbs -/

section Verbs

variable (library : Library) (args : Args)

/-- The fate of `all_vertices`: the client is asked if there are no arguments. -/
theorem fate_allVertices : Fate (HasKeys args [] []) False
    fun client row_limit => allVertices client args row_limit := by
  unfold allVertices
  refine Fate.congr (Fate.bind (checks_requireArgs args [] []) fun _ _ => Fate.of_opens ?_)
    (by simp) (by simp)
  exact fun client row_limit =>
    Served.bind (Served.vertices _) fun _ => Served.bind (Served.vertexRows _ _) fun _ => Served.ok _

/-- The fate of `all_edges`: the client is asked if there are no arguments. -/
theorem fate_allEdges : Fate (HasKeys args [] []) False
    fun client row_limit => allEdges client args row_limit := by
  unfold allEdges
  refine Fate.congr (Fate.bind (checks_requireArgs args [] []) fun _ _ => Fate.of_opens ?_)
    (by simp) (by simp)
  exact fun client row_limit =>
    Served.bind (Served.edges _) fun _ => Served.bind (Served.edgeRows _ _) fun _ => Served.ok _

/-- The argument `t` of a verb is read and validated. -/
theorem fate_typeArg {α : Type} {f : String → Task α} (hf : ∀ t, Opens (f t)) :
    Fate (HasKeys args ["t"] [] ∧ TypeArg (matchesTypeIdent · = true) args) False
      fun client row_limit => (do
        requireArgs args ["t"] []
        let t ← validateT (← args.get "t")
        f t client row_limit) := by
  refine Fate.congr (Fate.bind (checks_requireArgs args ["t"] []) fun _ hkeys =>
    Fate.bind (checks_get (hkeys.1 _ List.mem_cons_self)) fun v _ =>
      Fate.bind (checks_validateT v) fun t _ => Fate.of_opens (hf t)) ?_ (by simp)
  simp only [TypeArg, and_true]
  constructor
  · rintro ⟨_, hkeys, v, hv, s, rfl, hs⟩
    exact ⟨hkeys, s, hv, hs⟩
  · rintro ⟨hkeys, s, hv, hs⟩
    exact ⟨(), hkeys, _, hv, s, rfl, hs⟩

/-- The fate of `vertex_with_type`: the client is asked if `t` is the only argument and matches. -/
theorem fate_vertexWithType :
    Fate (HasKeys args ["t"] [] ∧ TypeArg (matchesTypeIdent · = true) args) False
      fun client row_limit => vertexWithType client args row_limit := by
  unfold vertexWithType
  refine fate_typeArg args fun t client row_limit => ?_
  exact Served.bind (Served.vertices _) fun _ => Served.ite (Served.ok _)
    (Served.bind (Served.vertexRows _ _) fun _ => Served.ok _)

/-- The fate of `edge_with_type`: the client is asked if `t` is the only argument and matches. -/
theorem fate_edgeWithType :
    Fate (HasKeys args ["t"] [] ∧ TypeArg (matchesTypeIdent · = true) args) False
      fun client row_limit => edgeWithType client args row_limit := by
  unfold edgeWithType
  refine fate_typeArg args fun t client row_limit => ?_
  exact Served.bind (Served.edges _) fun _ => Served.ite (Served.ok _)
    (Served.bind (Served.edgeRows _ _) fun _ => Served.ok _)

/-- The arguments `name` and `value` of a verb are read and validated. -/
theorem fate_propertyArgs {α : Type} {f : String → Json → Task α}
    (hf : ∀ name value, Opens (f name value)) :
    Fate (PropertyArgs args) False fun client row_limit => (do
      requireArgs args ["name", "value"] []
      let prop_name ← args.getStr "name"
      let prop_value ← validateScalar (← args.get "value")
      f prop_name prop_value client row_limit) := by
  refine Fate.congr (Fate.bind (checks_requireArgs args ["name", "value"] []) fun _ hkeys =>
    Fate.bind (checks_getStr (hkeys.1 _ List.mem_cons_self)) fun name _ =>
      Fate.bind (checks_get (hkeys.1 "value" (by simp))) fun v _ =>
        Fate.bind (checks_validateScalar v) fun value _ => Fate.of_opens (hf name value)) ?_ (by simp)
  simp only [PropertyArgs, and_true]
  constructor
  · rintro ⟨_, hkeys, name, hname, v, hv, _, rfl, hscalar⟩
    exact ⟨hkeys, ⟨name, hname⟩, _, hv, hscalar⟩
  · rintro ⟨hkeys, ⟨name, hname⟩, v, hv, hscalar⟩
    exact ⟨(), hkeys, name, hname, v, hv, v, rfl, hscalar⟩

/-- The fate of `vertex_with_property_equal`: the client is asked if name and scalar value are
there, and nothing else. -/
theorem fate_vertexWithPropertyEqual : Fate (PropertyArgs args) False
    fun client row_limit => vertexWithPropertyEqual client args row_limit := by
  unfold vertexWithPropertyEqual
  refine fate_propertyArgs args fun name value client row_limit => ?_
  exact Served.bind (Served.vertices _) fun _ =>
    Served.bind (Served.vertexProperties _) fun _ => Served.ok _

/-- The fate of `edge_with_property_equal`: the client is asked if name and scalar value are there,
and nothing else. -/
theorem fate_edgeWithPropertyEqual : Fate (PropertyArgs args) False
    fun client row_limit => edgeWithPropertyEqual client args row_limit := by
  unfold edgeWithPropertyEqual
  refine fate_propertyArgs args fun name value client row_limit => ?_
  exact Served.bind (Served.edges _) fun _ =>
    Served.bind (Served.edgeProperties _) fun _ => Served.ok _

/-- The path of `pipe` for a client whose pipe gives vertices. -/
theorem served_pipeVertices (client : Client) (row_limit : ℕ) (vid : Uuid) (direction : Direction)
    (t_opt : Option String) : Served client (pipeVertices client row_limit vid direction t_opt) :=
  Served.bind (Served.vertices _) fun _ => Served.ite (Served.ok _)
    (Served.bind (Served.vertexRows _ _) fun _ => Served.ok _)

/-- The path of `pipe` for a client whose pipe gives edges. -/
theorem served_pipeEdges (client : Client) (row_limit : ℕ) (vid : Uuid) (direction : Direction)
    (t_opt : Option String) : Served client (pipeEdges client row_limit vid direction t_opt) :=
  Served.bind (Served.edges _) fun _ => Served.ite (Served.ok _)
    (Served.bind (Served.vertices _) fun _ => Served.ite (Served.ok _)
      (Served.bind (Served.vertexRows _ _) fun _ => Served.ok _))

/-- The argument `t` of `pipe` may be missing or `null`. -/
theorem fate_pipeT (vid : Uuid) (direction : Direction) :
    Fate (args.lookup "t" = none ∨ args.lookup "t" = some .null ∨
        TypeArg (matchesTypeIdent · = true) args) False
      fun client row_limit => (do
        let t_opt ← match args.lookup "t" with
          | none | some .null => pure none
          | some t => some <$> validateT t
        if client.has_outbound then pipeEdges client row_limit vid direction t_opt
        else pipeVertices client row_limit vid direction t_opt) := by
  have hopens : ∀ t_opt, Opens fun client row_limit =>
      if client.has_outbound then pipeEdges client row_limit vid direction t_opt
      else pipeVertices client row_limit vid direction t_opt := fun t_opt client row_limit =>
    Served.ite (served_pipeEdges ..) (served_pipeVertices ..)
  unfold TypeArg
  cases args.lookup "t" with
  | none => exact Or.inl ⟨Or.inl rfl, id, hopens none⟩
  | some v =>
    cases v with
    | null => exact Or.inl ⟨Or.inr (Or.inl rfl), id, hopens none⟩
    | str s =>
      by_cases hs : matchesTypeIdent s = true
      · have hvalid : validateT (.str s) = .ok s := by rw [validateT, if_pos hs]
        simp only [hvalid]
        exact Or.inl ⟨Or.inr (Or.inr ⟨s, rfl, hs⟩), id, hopens (some s)⟩
      · have hvalid : ∃ m, validateT (.str s) = .error (.queryParse m) :=
          ⟨_, by rw [validateT, if_neg hs]⟩
        obtain ⟨m, hm⟩ := hvalid
        simp only [hm]
        refine Or.inr (Or.inr ⟨?_, id, .queryParse m, trivial, fun _ _ => rfl⟩)
        rintro (h | h | ⟨s', h, hs'⟩)
        · exact absurd h (by simp)
        · exact absurd h (by simp)
        · cases h
          exact hs hs'
    | _ =>
      exact Or.inr (Or.inr ⟨by simp, id, .queryParse _, trivial, fun _ _ => rfl⟩)

/-- A direction that cannot be looked up, behind a vertex that is one. -/
def PipeUnhashable (library : Library) (args : Args) : Prop :=
  PipeVertex library args ∧ ∃ d, args.lookup "direction" = some d ∧ d.isScalar = false

/-- **The fate of `pipe`:** the client is asked if all arguments are fine, and an exception escapes
if the vertex is and the direction cannot be looked up. -/
theorem fate_pipe : Fate (ArgsOk (matchesTypeIdent · = true) library .pipe args)
    (PipeUnhashable library args) fun client row_limit => pipe client library args row_limit := by
  unfold pipe
  refine Fate.congr (Fate.bind (checks_requireArgs args ["direction", "vertex_id"] ["t"])
    fun _ hkeys => Fate.bind (checks_get (hkeys.1 "vertex_id" (by simp))) fun v _ =>
      Fate.bind (checks_validateUuid library v) fun vid _ =>
        Fate.bind (checks_get (hkeys.1 "direction" (by simp))) fun d _ =>
          Fate.bind (checks_parseDirection d) fun direction _ => fate_pipeT args vid direction)
    ?_ ?_
  · simp only [ArgsOk, PipeVertex]
    constructor
    · rintro ⟨_, hkeys, v, hv, id, ⟨s, rfl, hid⟩, _, hd, direction, rfl, ht⟩
      exact ⟨⟨hkeys, s, id, hv, hid⟩, ⟨direction, hd⟩, ht⟩
    · rintro ⟨⟨hkeys, s, id, hv, hid⟩, ⟨direction, hd⟩, ht⟩
      exact ⟨(), hkeys, _, hv, id, ⟨s, rfl, hid⟩, _, hd, direction, rfl, ht⟩
  · simp only [PipeUnhashable, PipeVertex, false_or, and_false, exists_const, exists_false, or_false]
    constructor
    · rintro ⟨hkeys, v, hv, id, ⟨s, rfl, hid⟩, d, hd, hscalar⟩
      exact ⟨⟨hkeys, s, id, hv, hid⟩, d, hd, hscalar⟩
    · rintro ⟨⟨hkeys, s, id, hv, hid⟩, d, hd, hscalar⟩
      exact ⟨hkeys, _, hv, id, ⟨s, rfl, hid⟩, d, hd, hscalar⟩

end Verbs

/-! ### A query text -/

/-- `json.loads` fails otherwise than with a `ValueError`, or the verb cannot be looked up. -/
def ParseUnforeseen (library : Library) (query : String) : Prop :=
  (∃ exc, library.loads query = .error (.other exc)) ∨
    ∃ payload, library.loads query = .ok (.dict payload) ∧
      (∃ args, (payload.lookup "args").getD (.dict []) = .dict args) ∧
      ((payload.lookup "query").getD .null).isScalar = false

/-- An argument that may be missing is a string only if it is there. -/
theorem getD_null_eq_str_iff {v : Option Json} {s : String} :
    v.getD .null = .str s ↔ v = some (.str s) := by
  cases v <;> simp

/-- What `_parse_query` makes of a text: the verb and arguments that it asks for, or a rejection, or
an exception from where nothing catches it. -/
theorem checks_parseQuery (library : Library) (query : String) :
    Checks (fun p : Verb × Args => Asks library query p.1 p.2) (ParseUnforeseen library query)
      (parseQuery library query) := by
  unfold parseQuery Asks ParseUnforeseen
  cases library.loads query with
  | error e =>
    cases e with
    | valueError text =>
      exact Or.inr (Or.inr ⟨by simp, by simp, .queryParse _, trivial, rfl⟩)
    | other exc => exact Or.inr (Or.inl ⟨Or.inl ⟨exc, rfl⟩, by simp, exc, rfl⟩)
  | ok payload =>
    simp only [pure_bind, Except.ok.injEq]
    cases payload with
    | dict payload =>
      simp only [Json.dict.injEq, exists_eq_left', reduceCtorEq, exists_false, false_or]
      cases hargs : (payload.lookup "args").getD (.dict []) with
      | dict args =>
        simp only [Json.dict.injEq, exists_eq', true_and, ← getD_null_eq_str_iff]
        generalize (payload.lookup "query").getD .null = v
        rcases checks_parseVerb v with
          ⟨verb, hverb, hno, hok⟩ | ⟨hunf, hnone, exc, hexc⟩ | ⟨hnone, hno, e, he, herr⟩
        · rw [hok]
          refine Or.inl ⟨(verb, args), fun p => ?_, hno, rfl⟩
          rw [Prod.ext_iff, @eq_comm _ p.2]
          exact and_congr_left' (hverb p.1)
        · rw [hexc]
          exact Or.inr (Or.inl ⟨hunf, fun p hp => hnone _ hp.1, exc, rfl⟩)
        · rw [herr]
          exact Or.inr (Or.inr ⟨fun p hp => hnone _ hp.1, hno, e, he, rfl⟩)
      | _ => exact Or.inr (Or.inr ⟨by simp, by simp, .queryParse _, trivial, rfl⟩)
    | _ => exact Or.inr (Or.inr ⟨by simp, by simp, .queryParse _, trivial, rfl⟩)

/-- An exception that no clause catches, behind a verb and its arguments. -/
def VerbUnforeseen (library : Library) (verb : Verb) (args : Args) : Prop :=
  verb = .pipe ∧ PipeUnhashable library args

/-- **The fate of a query text,** whatever the client and the limit are. -/
theorem fate_dispatchQuery (library : Library) (query : String) :
    Fate (∃ p : Verb × Args, Asks library query p.1 p.2 ∧
        ArgsOk (matchesTypeIdent · = true) library p.1 p.2)
      (ParseUnforeseen library query ∨
        ∃ p : Verb × Args, Asks library query p.1 p.2 ∧ VerbUnforeseen library p.1 p.2)
      fun client row_limit => dispatchQuery client library row_limit query := by
  unfold dispatchQuery
  refine Fate.bind (checks_parseQuery library query) fun p _ => ?_
  obtain ⟨verb, args⟩ := p
  cases verb with
  | all_vertices => exact (fate_allVertices args).congr Iff.rfl (by simp [VerbUnforeseen])
  | all_edges => exact (fate_allEdges args).congr Iff.rfl (by simp [VerbUnforeseen])
  | vertex_with_type => exact (fate_vertexWithType args).congr Iff.rfl (by simp [VerbUnforeseen])
  | edge_with_type => exact (fate_edgeWithType args).congr Iff.rfl (by simp [VerbUnforeseen])
  | vertex_with_property_equal =>
    exact (fate_vertexWithPropertyEqual args).congr Iff.rfl (by simp [VerbUnforeseen])
  | edge_with_property_equal =>
    exact (fate_edgeWithPropertyEqual args).congr Iff.rfl (by simp [VerbUnforeseen])
  | pipe => exact (fate_pipe library args).congr Iff.rfl (by simp [VerbUnforeseen])

/-- What is made of the rows changes no fate. -/
theorem Fate.map {α β : Type} {A U : Prop} {f : Task α} (h : Fate A U f) (g : α → β) :
    Fate A U fun client row_limit => f client row_limit >>= fun a => .ok (g a) := by
  rcases h with ⟨hA, hU, hopens⟩ | ⟨hA, hU, exc, hexc⟩ | ⟨hA, hU, e, he, herr⟩
  · exact Or.inl ⟨hA, hU, fun client row_limit =>
      (hopens client row_limit).bind fun _ => Served.ok _⟩
  · refine Or.inr (Or.inl ⟨hA, hU, exc, fun client row_limit => ?_⟩)
    dsimp only
    rw [hexc]
    rfl
  · refine Or.inr (Or.inr ⟨hA, hU, e, he, fun client row_limit => ?_⟩)
    dsimp only
    rw [herr]
    rfl

/-! ### Types -/

/-- The string ends in a newline. -/
def EndsInNewline (s : String) : Prop := s.toList.getLast? = some '\n'

/-- An identifier matches the regular expression. -/
theorem matchesTypeIdent_of_isIdent {s : String} (h : IsIdent s) : matchesTypeIdent s = true := by
  obtain ⟨c, cs, hs, hc, hcs⟩ := h
  unfold matchesTypeIdent
  rw [hs]
  simp only [hc, Bool.true_and, Bool.or_eq_true, List.all_eq_true]
  exact Or.inl hcs

/-- An identifier does not end in a newline. -/
theorem not_endsInNewline_of_isIdent {s : String} (h : IsIdent s) : ¬EndsInNewline s := by
  obtain ⟨c, cs, hs, hc, hcs⟩ := h
  unfold EndsInNewline
  rw [hs]
  intro hlast
  rcases List.mem_cons.mp (List.mem_of_getLast? hlast) with rfl | hmem
  · exact absurd hc (by decide)
  · exact absurd (hcs _ hmem) (by decide)

/-- **`$` also matches before a newline at the end,** and nothing else is let through. -/
theorem isIdent_of_matchesTypeIdent {s : String} (h : matchesTypeIdent s = true)
    (hnl : ¬EndsInNewline s) : IsIdent s := by
  unfold matchesTypeIdent at h
  unfold EndsInNewline at hnl
  unfold IsIdent
  cases hs : s.toList with
  | nil => rw [hs] at h; exact absurd h Bool.false_ne_true
  | cons c cs =>
    rw [hs] at h hnl
    simp only [Bool.and_eq_true, Bool.or_eq_true, List.all_eq_true, decide_eq_true_eq] at h
    refine ⟨c, cs, rfl, h.1, ?_⟩
    rcases h.2 with hcs | ⟨hlast, -⟩
    · exact hcs
    · exact absurd (by rw [List.getLast?_cons, hlast]; rfl) hnl

section ArgsOk

variable {IsType IsType' : String → Prop} {library : Library} {verb : Verb} {args : Args}

/-- What is found under a name has that name among the keys. -/
theorem mem_keys_of_lookup {name : String} {v : Json} (h : args.lookup name = some v) :
    name ∈ args.map Prod.fst := by
  obtain ⟨l₁, l₂, hargs, -⟩ := List.lookup_eq_some_iff.mp h
  rw [hargs]
  simp

/-- The arguments are fine for another notion of a type, if their own `t` is one. -/
theorem ArgsOk.mono (h : ArgsOk IsType library verb args)
    (ht : ∀ s, args.lookup "t" = some (.str s) → IsType s → IsType' s) :
    ArgsOk IsType' library verb args := by
  have htype : TypeArg IsType args → TypeArg IsType' args := fun ⟨s, hs, hst⟩ => ⟨s, hs, ht s hs hst⟩
  cases verb with
  | all_vertices => exact h
  | all_edges => exact h
  | vertex_with_type => exact ⟨h.1, htype h.2⟩
  | edge_with_type => exact ⟨h.1, htype h.2⟩
  | vertex_with_property_equal => exact h
  | edge_with_property_equal => exact h
  | pipe => exact ⟨h.1, h.2.1, h.2.2.imp_right fun h => h.imp_right htype⟩

/-- A string `t` among the arguments is a type. -/
theorem ArgsOk.isType (h : ArgsOk IsType library verb args) {s : String}
    (hs : args.lookup "t" = some (.str s)) : IsType s := by
  have hmem := mem_keys_of_lookup hs
  have htype : TypeArg IsType args → IsType s := by
    rintro ⟨s', hs', hst⟩
    cases hs.symm.trans hs'
    exact hst
  cases verb with
  | all_vertices => exact absurd (h.2 _ hmem) (by simp)
  | all_edges => exact absurd (h.2 _ hmem) (by simp)
  | vertex_with_type => exact htype h.2
  | edge_with_type => exact htype h.2
  | vertex_with_property_equal => exact absurd (h.1.2 _ hmem) (by simp)
  | edge_with_property_equal => exact absurd (h.1.2 _ hmem) (by simp)
  | pipe =>
    rcases h.2.2 with hnone | hnull | ht
    · exact nomatch hs.symm.trans hnone
    · exact nomatch hs.symm.trans hnull
    · exact htype ht

end ArgsOk

/-! ### Closed queries -/

/-- **What validation is for:** only what the client raises escapes; what is not a query is rejected
before the client is asked, and what is one is answered. -/
structure Closed (library : Library) (query : String) : Prop where
  escapes : ∀ client row_limit exc,
    execute client library row_limit query = .error (.unmapped exc) → client.Raises exc
  rejected : ¬WellFormed library query →
    ∃ e, e.IsRejection ∧ ∀ client row_limit, execute client library row_limit query = .error e
  answered : WellFormed library query → ∀ client row_limit, (∀ exc, ¬client.Raises exc) →
    ∃ r, execute client library row_limit query = .ok r

/-- None of the slips: reading the text raises nothing but a `ValueError`, the verb and a direction
that is reached are neither lists nor objects, and a type that is let through ends in no newline. -/
structure Tame (library : Library) (query : String) : Prop where
  foreseen : ¬ParseUnforeseen library query
  direction : ∀ args, Asks library query .pipe args → ¬PipeUnhashable library args
  newline : ∀ verb args, Asks library query verb args →
    ArgsOk (matchesTypeIdent · = true) library verb args →
      ∀ s, args.lookup "t" = some (.str s) → ¬EndsInNewline s

/-- A client that answers everything, with nothing. -/
def quietClient : Client where
  vertices _ := .ok []
  edges _ := .ok []
  vertexProperties _ := .ok []
  edgeProperties _ := .ok []
  has_outbound := true

/-- The quiet client raises nothing. -/
theorem quietClient_not_raises (exc : Exc) : ¬quietClient.Raises exc := by
  rintro (⟨q, h⟩ | ⟨q, h⟩ | ⟨q, h⟩ | ⟨q, h⟩) <;> exact nomatch h

/-- A text asks for one verb with one list of arguments. -/
theorem asks_unique {library : Library} {query : String} {verb verb' : Verb} {args args' : Args}
    (h : Asks library query verb args) (h' : Asks library query verb' args') :
    verb = verb' ∧ args = args' :=
  Prod.mk.inj (Except.ok.inj ((parseQuery_of_asks h).symm.trans (parseQuery_of_asks h')))

/-- **The fate of a query,** from its text to the result: making rows of the answer changes nothing.
-/
theorem fate_execute (library : Library) (query : String) :
    Fate (∃ p : Verb × Args, Asks library query p.1 p.2 ∧
        ArgsOk (matchesTypeIdent · = true) library p.1 p.2)
      (ParseUnforeseen library query ∨
        ∃ p : Verb × Args, Asks library query p.1 p.2 ∧ VerbUnforeseen library p.1 p.2)
      fun client row_limit => execute client library row_limit query :=
  (fate_dispatchQuery library query).map fun p =>
    (⟨p.1, p.1.length, decide (p.1.length < p.2)⟩ : QueryResult)

/-- Where validation is closed, there is no slip: a client that answers everything would see it. -/
theorem Closed.tame {library : Library} {query : String} (h : Closed library query) :
    Tame library query := by
  have hfate := fate_execute library query
  have hno : ¬(ParseUnforeseen library query ∨
      ∃ p : Verb × Args, Asks library query p.1 p.2 ∧ VerbUnforeseen library p.1 p.2) := by
    intro hU
    rcases hfate with ⟨-, hU', -⟩ | ⟨-, -, exc, hexc⟩ | ⟨-, hU', -⟩
    · exact hU' hU
    · exact quietClient_not_raises exc (h.escapes quietClient 0 exc (hexc quietClient 0))
    · exact hU' hU
  refine ⟨fun hp => hno (Or.inl hp), fun args hask hpipe =>
    hno (Or.inr ⟨(.pipe, args), hask, rfl, hpipe⟩), fun verb args hask hok s hs hnl => ?_⟩
  have hbad : ¬WellFormed library query := by
    rintro ⟨verb', args', hask', hok'⟩
    obtain ⟨rfl, rfl⟩ := asks_unique hask hask'
    exact not_endsInNewline_of_isIdent (hok'.isType hs) hnl
  obtain ⟨e, he, herr⟩ := h.rejected hbad
  rcases hfate with ⟨-, -, hopens⟩ | ⟨hA, -⟩ | ⟨hA, -⟩
  · rcases hopens quietClient 0 with ⟨r, hr⟩ | ⟨exc, hraises, -⟩
    · exact nomatch hr.symm.trans (herr quietClient 0)
    · exact quietClient_not_raises exc hraises
  · exact hA ⟨(verb, args), hask, hok⟩
  · exact hA ⟨(verb, args), hask, hok⟩

/-- Without a slip every fate is the one that is meant. -/
theorem Tame.closed {library : Library} {query : String} (h : Tame library query) :
    Closed library query := by
  rcases fate_execute library query with
    ⟨⟨p, hask, hok⟩, -, hopens⟩ | ⟨-, hU, -⟩ | ⟨hA, -, e, he, herr⟩
  · have hgood : WellFormed library query := ⟨p.1, p.2, hask, hok.mono fun s hs hst =>
      isIdent_of_matchesTypeIdent hst (h.newline p.1 p.2 hask hok s hs)⟩
    refine ⟨fun client row_limit exc hexc => ?_, fun hbad => absurd hgood hbad,
      fun _ client row_limit hquiet => ?_⟩
    · rcases hopens client row_limit with ⟨r, hr⟩ | ⟨exc', hraises, hr⟩
      · exact nomatch hexc.symm.trans hr
      · cases hexc.symm.trans hr
        exact hraises
    · rcases hopens client row_limit with hr | ⟨exc, hraises, -⟩
      · exact hr
      · exact absurd hraises (hquiet exc)
  · rcases hU with hU | ⟨⟨verb, args⟩, hask, rfl, hpipe⟩
    · exact absurd hU h.foreseen
    · exact absurd hpipe (h.direction args hask)
  · refine ⟨fun client row_limit exc hexc => ?_, fun _ => ⟨e, he, herr⟩, fun hgood => ?_⟩
    · cases hexc.symm.trans (herr client row_limit)
      exact he.elim
    · obtain ⟨verb, args, hask, hok⟩ := hgood
      exact absurd ⟨(verb, args), hask,
        hok.mono fun s _ hst => matchesTypeIdent_of_isIdent hst⟩ hA

/-- **Validation is closed exactly for the texts without a slip.** Only what the client raises
escapes, no client is asked with what is not a query, and every query is answered, unless reading
the text raises something unforeseen, a verb or direction is a list or an object, or a type ends in
a newline. -/
theorem closed_iff (library : Library) (query : String) :
    Closed library query ↔ Tame library query :=
  ⟨Closed.tame, Tame.closed⟩

/-- `{"query": ["all_vertices"], "args": {}}` -/
def listVerbQuery : String := "\x7b\"query\": [\"all_vertices\"], \"args\": \x7b\x7d\x7d"

/-- `json.loads` and `uuid.UUID`, as far as that query goes. -/
def listVerbLibrary : Library where
  loads text :=
    if text = listVerbQuery then
      .ok (.dict [("query", .list [.str "all_vertices"]), ("args", .dict [])])
    else .error (.valueError "Expecting value: line 1 column 1 (char 0)")
  UUID _ := .error "badly formed hexadecimal UUID string"

/-- **A verb in a list escapes as a `TypeError`,** because the verb is looked up in a set before its
type is checked. -/
theorem listVerbQuery_not_closed : ¬Closed listVerbLibrary listVerbQuery := by
  intro h
  have hloads : listVerbLibrary.loads listVerbQuery =
      .ok (.dict [("query", .list [.str "all_vertices"]), ("args", .dict [])]) := by
    simp only [listVerbLibrary, if_true]
  have hexecute : execute quietClient listVerbLibrary 0 listVerbQuery =
      .error (.unmapped ⟨"TypeError", "unhashable type: 'list'"⟩) := by
    rw [execute, dispatchQuery, parseQuery, hloads]
    rfl
  exact quietClient_not_raises _ (h.escapes quietClient 0 _ hexecute)

end IndraDB
end CppMcp
