/-
# The schema introspector for Neo4j

`Neo4jSchemaIntrospector` of `graphdb/schema_introspector.py`: the labels and the relationship types
are asked for, and then, name by name, how many items there are and what their properties are called.
A query cannot have a label as a parameter, so the name is written into the text, between backticks.

The names come out of the database.  Whatever they are, a text that is sent has a name in it that ends
at the second backtick (`describe_sends_quoted`): all others are skipped.
-/

import CppMcp.IndraDB.Introspector
import CppMcp.Lib.Logged

namespace CppMcp
namespace Neo4j

open Export (Exc Acc SCHEMA_VERSION)
open IndraDB (Description NOTE_LIVE NOTE_SAMPLE TypeEntry isIdentRest isIdentStart matchesTypeIdent
  sortTypes)
open Py (Json sortedStrs)

/-- The record of a count query: `rec["c"]` and `rec["sample"]`, which may be null. -/
structure CountRecord where
  c : ℕ
  sample : Option (List Json)

/-- What the driver answers in a session: the names in the records of a text, or what `single()` makes
of a text with its parameter `sample`. -/
structure SchemaSession where
  names : String → Acc (List String)
  count : String → ℤ → Acc (Option CountRecord)

/-- A method of the introspector: the texts it sends, and what it returns or raises. -/
abbrev Sending := Logged String Exc

/-! ### The texts -/

/-- The text that asks for the labels. -/
def LABELS : String := "CALL db.labels() YIELD label RETURN label"

/-- The text that asks for the relationship types. -/
def RELATIONSHIP_TYPES : String :=
  "CALL db.relationshipTypes() YIELD relationshipType RETURN relationshipType"

/-- What stands before a label. -/
def nodePrelude : String := "MATCH (n:"

/-- What stands after a label. -/
def nodeRest : String :=
  ") RETURN count(n) AS c, collect(distinct keys(n))[0..$sample] AS sample"

/-- What stands before a relationship type. -/
def edgePrelude : String := "MATCH ()-[r:"

/-- What stands after a relationship type. -/
def edgeRest : String :=
  "]->() RETURN count(r) AS c, collect(distinct keys(r))[0..$sample] AS sample"

/-- A name between backticks. -/
def quoted (prelude name rest : String) : String := prelude ++ "`" ++ name ++ "`" ++ rest

/-! ### The entries -/

/-- The keys in an entry of the sample. -/
def entryKeys : Json → List String
  | .list ks => ks.map Json.pyStr
  | entry => [entry.pyStr]

/-- `prop_keys`, each key once. -/
def sampleKeys (sample : Option (List Json)) : List String :=
  (sample.getD []).foldl (fun keys entry => (entryKeys entry).foldl (fun keys k => keys.insert k) keys)
    []

variable (session : SchemaSession)

/-- One turn of the loop over the names. -/
def describeName (prelude rest : String) (sample_size : ℤ) (types : List TypeEntry) (name : String) :
    Sending (List TypeEntry) :=
  if matchesTypeIdent name then do
    match ← Logged.send (quoted prelude name rest)
      (session.count (quoted prelude name rest) sample_size) with
    | none => return types
    | some rec => return types ++ [⟨name, rec.c, sortedStrs (sampleKeys rec.sample)⟩]
  else return types

/-- What `_describe_nodes` and `_describe_edges` both do. -/
def describeNames (namesText prelude rest : String) (sample_size : ℤ) :
    Sending (List TypeEntry) := do
  let names ← Logged.send namesText (session.names namesText)
  names.foldlM (describeName session prelude rest sample_size) []

/-- `_describe_nodes`. -/
def describeNodes (sample_size : ℤ) : Sending (List TypeEntry) :=
  describeNames session LABELS nodePrelude nodeRest sample_size

/-- `_describe_edges`. -/
def describeEdges (sample_size : ℤ) : Sending (List TypeEntry) :=
  describeNames session RELATIONSHIP_TYPES edgePrelude edgeRest sample_size

/-- `_build_notes`, which says nothing of the versions. -/
def buildNotes : List String := [NOTE_SAMPLE, NOTE_LIVE]

/-- `describe`. -/
def describe (session : Option SchemaSession) (sample_size : ℤ) : Sending Description :=
  match session with
  | none => Logged.lift (.error ⟨"DBUnreachableError", "Neo4j driver not connected"⟩)
  | some session => do
    let node_types ← describeNodes session sample_size
    let edge_types ← describeEdges session sample_size
    return {
      schema_version := SCHEMA_VERSION
      backend := "neo4j"
      node_types := sortTypes node_types
      edge_types := sortTypes edge_types
      vertices := (node_types.map TypeEntry.count).sum
      edges := (edge_types.map TypeEntry.count).sum
      notes := buildNotes }

/-! ### What is sent -/

/-- The character that names are quoted with. -/
def backtick : Char := Char.ofNat 96

/-- A text taken apart at its first quoted name: what stands before it, the name, and the rest. -/
def splitQuoted (text : String) : String × String × String :=
  let afterQuote := (text.toList.dropWhile (· ≠ backtick)).drop 1
  (String.ofList (text.toList.takeWhile (· ≠ backtick)),
    String.ofList (afterQuote.takeWhile (· ≠ backtick)),
    String.ofList ((afterQuote.dropWhile (· ≠ backtick)).drop 1))

/-- Where neither the prelude nor the name has a backtick, the text falls into its parts. -/
theorem splitQuoted_quoted {prelude name : String} (hprelude : backtick ∉ prelude.toList)
    (hname : backtick ∉ name.toList) (rest : String) :
    splitQuoted (quoted prelude name rest) = (prelude, name, rest) := by
  have hne : ∀ cs : List Char, backtick ∉ cs → ∀ c ∈ cs, decide (c ≠ backtick) = true :=
    fun cs h c hc => decide_eq_true fun heq => h (heq ▸ hc)
  have htext : (quoted prelude name rest).toList =
      prelude.toList ++ backtick :: (name.toList ++ backtick :: rest.toList) := by
    simp [quoted, backtick]
  have htake : ∀ cs rest : List Char, backtick ∉ cs →
      (cs ++ backtick :: rest).takeWhile (fun c => decide (c ≠ backtick)) = cs := fun cs rest h => by
    rw [List.takeWhile_append_of_pos (hne cs h), List.takeWhile_cons_of_neg (by simp),
      List.append_nil]
  have hdrop : ∀ cs rest : List Char, backtick ∉ cs →
      ((cs ++ backtick :: rest).dropWhile fun c => decide (c ≠ backtick)).drop 1 = rest :=
    fun cs rest h => by
      rw [List.dropWhile_append_of_pos (hne cs h), List.dropWhile_cons_of_neg (by simp)]
      rfl
  unfold splitQuoted
  simp only [htext]
  rw [htake _ _ hprelude, hdrop _ _ hprelude, htake _ _ hname, hdrop _ _ hname]
  simp

/-- There is no backtick in a name that passes. -/
theorem backtick_not_mem {name : String} (h : matchesTypeIdent name = true) :
    backtick ∉ name.toList := by
  have hrest : ∀ cs : List Char, cs.all isIdentRest = true → backtick ∉ cs := fun cs hall hmem =>
    absurd (List.all_eq_true.mp hall _ hmem) (by decide)
  unfold matchesTypeIdent at h
  split at h
  · exact absurd h Bool.false_ne_true
  · rename_i c cs hchars
    rw [hchars]
    obtain ⟨hstart, hcs⟩ := Bool.and_eq_true_iff.mp h
    rw [List.mem_cons, not_or]
    refine ⟨fun heq => ?_, ?_⟩
    · rw [← heq] at hstart
      exact absurd hstart (by decide)
    · rcases Bool.or_eq_true_iff.mp hcs with hall | hlast
      · exact hrest cs hall
      · -- the newline that `$` lets pass is none either
        obtain ⟨hlast, hall⟩ := Bool.and_eq_true_iff.mp hlast
        have hcs' := List.dropLast_append_getLast? _ (of_decide_eq_true hlast)
        rw [← hcs', List.mem_append, List.mem_singleton]
        rintro (hmem | heq)
        · exact hrest _ hall hmem
        · exact absurd heq (by decide)

/-- What the introspector may send: one of the two texts that ask for names, or a count query whose
name ends where it should. -/
def Sendable (text : String) : Prop :=
  text ∈ [LABELS, RELATIONSHIP_TYPES] ∨ ∃ name, matchesTypeIdent name = true ∧
    (splitQuoted text = (nodePrelude, name, nodeRest) ∨
      splitQuoted text = (edgePrelude, name, edgeRest))

/-- The loop over the names sends what may be sent: the text that lists them, and a query for each
name that passes. -/
theorem sends_describeNames {session : SchemaSession} {namesText prelude rest : String}
    (hnames : Sendable namesText)
    (hquoted : ∀ name, matchesTypeIdent name = true → Sendable (quoted prelude name rest))
    (sample_size : ℤ) :
    (describeNames session namesText prelude rest sample_size).Sends Sendable := by
  refine (Logged.Sends.send hnames _).bind fun names _ => .foldlM (fun name _ types => ?_) []
  unfold describeName
  split_ifs with hname
  · refine (Logged.Sends.send (hquoted name hname) _).bind fun rec _ => ?_
    cases rec with
    | none => exact .pure types
    | some rec => exact .pure _
  · exact .pure types

/-- **No name of the database breaks out of its query.**  Whatever labels and types it has, a text that
is sent, taken apart at the quoted name, gives the parts of the template around a name that is made of
letters, digits and underscores. -/
theorem describe_sends_quoted (session : Option SchemaSession) (sample_size : ℤ) :
    (describe session sample_size).Sends Sendable := by
  cases session with
  | none => exact fun _ h => absurd h List.not_mem_nil
  | some session =>
    refine Logged.Sends.bind (sends_describeNames (Or.inl (by simp)) (fun name hname => ?_) _)
      fun _ _ => Logged.Sends.bind (sends_describeNames (Or.inl (by simp)) (fun name hname => ?_) _)
        fun _ _ => .pure _
    · exact Or.inr ⟨name, hname, Or.inl (splitQuoted_quoted (by decide) (backtick_not_mem hname) _)⟩
    · exact Or.inr ⟨name, hname, Or.inr (splitQuoted_quoted (by decide) (backtick_not_mem hname) _)⟩

end Neo4j
end CppMcp
