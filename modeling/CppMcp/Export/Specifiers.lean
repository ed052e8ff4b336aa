/-
# `constexpr` and `thread_local` of a declaration

Where libclang does not say whether a function or a variable is `constexpr` or `thread_local`,
`src/cpp_mcp/graphdb/exporter.py` looks for the keyword among all the tokens of the declaration.  A
declaration is specified so by its specifiers alone.  So what is exported is right exactly if the keyword
occurs nowhere else, or is among the specifiers too (`flagsRight_iff`).
-/

import CppMcp.Export.Walk

namespace CppMcp
namespace Export

/-- A specifier of a declaration: a keyword or a name, or tokens that belong to one, as in
`decltype(...)`, `alignas(...)` or `template <...>`. -/
inductive Specifier where
  | keyword (sp : String)
  | nested (tokens : List String)
  deriving DecidableEq, Repr

/-- The tokens of a specifier. -/
def Specifier.tokens : Specifier → List String
  | keyword sp => [sp]
  | nested tokens => tokens

/-- The tokens of a declaration: its specifiers, and the rest with the declarator, and the body or the
initializer. -/
structure DeclarationTokens where
  specifiers : List Specifier
  rest : List String
  deriving DecidableEq, Repr

namespace DeclarationTokens

variable (d : DeclarationTokens)

/-- All tokens. -/
def tokens : List String := d.specifiers.flatMap Specifier.tokens ++ d.rest

/-- The declaration is specified so. -/
def Specified (keyword : String) : Prop := .keyword keyword ∈ d.specifiers

/-- The keyword stands where it says nothing of the declaration. -/
def Elsewhere (keyword : String) : Prop :=
  (∃ tokens, .nested tokens ∈ d.specifiers ∧ keyword ∈ tokens) ∨ keyword ∈ d.rest

variable {d}

/-- The tokens of a declaration are its specifiers and the rest, so a keyword among them is
specified or stands elsewhere. -/
theorem mem_tokens_iff {keyword : String} :
    keyword ∈ d.tokens ↔ d.Specified keyword ∨ d.Elsewhere keyword := by
  rw [tokens, List.mem_append, List.mem_flatMap, Elsewhere, ← or_assoc]
  refine or_congr_left ⟨?_, ?_⟩
  · rintro ⟨_ | _, hs, hk⟩
    · cases List.mem_singleton.mp hk
      exact Or.inl hs
    · exact Or.inr ⟨_, hs, hk⟩
  · rintro (hs | ⟨tokens, hs, hk⟩)
    · exact ⟨_, hs, List.mem_singleton_self _⟩
    · exact ⟨_, hs, hk⟩

end DeclarationTokens

/-- The scan for a keyword finds it anywhere among tokens that have spellings. -/
theorem hasToken_map_ok (keyword : String) (tokens : List String) :
    hasToken keyword (.ok (tokens.map Except.ok)) = true ↔ keyword ∈ tokens := by
  change scanFor keyword (tokens.map Except.ok) = true ↔ _
  induction tokens with
  | nil => exact iff_of_false nofun List.not_mem_nil
  | cons sp tokens ih =>
    rw [List.map_cons, scanFor, Bool.or_eq_true, ih, List.mem_cons, beq_iff_eq, eq_comm]

/-- The cursor's tokens are those of the declaration; and where libclang says that it is `constexpr` or
`thread_local`, if it says that at all, the declaration is specified so. -/
structure HasTokens (c : CursorInfo) (d : DeclarationTokens) : Prop where
  tokens : c.get_tokens = .ok (d.tokens.map Except.ok)
  is_constexpr : c.is_constexpr.holds = true → d.Specified "constexpr"
  is_thread_local : c.is_thread_local.holds = true → d.Specified "thread_local"

/-- What a cursor exports for a property. -/
def exported (c : CursorInfo) (children : List Cursor) (node_type : NodeType) (key : String) :
    Option PropVal :=
  (symbolProps c children node_type).lookup key

/-- **The flags are those of the declaration:** `is_constexpr` of a function, a field or a variable, and
`thread_local` as the `storage_class` of a variable. -/
structure FlagsRight (c : CursorInfo) (children : List Cursor) (node_type : NodeType)
    (d : DeclarationTokens) : Prop where
  is_constexpr : exported c children node_type "is_constexpr" = some (.bool true) ↔
    d.Specified "constexpr"
  storage_class : node_type = .globalVariable →
    (exported c children node_type "storage_class" = some (.str "thread_local") ↔
      d.Specified "thread_local")

/-- What the exporter says of `constexpr` is whether the keyword is anywhere among the tokens of the
declaration. -/
theorem exported_is_constexpr {c : CursorInfo} {children : List Cursor} {node_type : NodeType}
    {d : DeclarationTokens} (hnode : node_type ∈ [.function, .field, .globalVariable])
    (h : HasTokens c d) :
    exported c children node_type "is_constexpr" = some (.bool true) ↔ "constexpr" ∈ d.tokens := by
  have hscan : exported c children node_type "is_constexpr" =
      some (.bool (c.is_constexpr.holds || hasToken "constexpr" c.get_tokens)) := by
    simp only [List.mem_cons, List.not_mem_nil, or_false] at hnode
    obtain rfl | rfl | rfl := hnode <;> rfl
  rw [hscan, Option.some.injEq, PropVal.bool.injEq, Bool.or_eq_true, h.tokens, hasToken_map_ok]
  exact or_iff_right_of_imp fun hprobe =>
    DeclarationTokens.mem_tokens_iff.mpr (Or.inl (h.is_constexpr hprobe))

/-- What the exporter says of the storage class is whether `thread_local` is anywhere among the
tokens. -/
theorem exported_storage_class {c : CursorInfo} {children : List Cursor} {d : DeclarationTokens}
    (h : HasTokens c d) :
    exported c children .globalVariable "storage_class" = some (.str "thread_local") ↔
      "thread_local" ∈ d.tokens := by
  have hscan : exported c children .globalVariable "storage_class" =
      some (.str (storageClassValue c .globalVariable)) := rfl
  rw [hscan, Option.some.injEq, PropVal.str.injEq, storageClassValue, if_neg nofun, ← hasToken_map_ok,
    ← h.tokens]
  split_ifs with hprobe htoken
  · refine iff_of_true rfl ?_
    rw [h.tokens, hasToken_map_ok]
    exact DeclarationTokens.mem_tokens_iff.mpr (Or.inl (h.is_thread_local hprobe))
  · exact iff_of_true rfl htoken
  · refine iff_of_false ?_ htoken
    split <;> decide

/-- **The flags are right exactly if** each keyword that occurs elsewhere in the declaration is one of
its specifiers too. -/
theorem flagsRight_iff {c : CursorInfo} {children : List Cursor} {node_type : NodeType}
    {d : DeclarationTokens} (hnode : node_type ∈ [.function, .field, .globalVariable])
    (h : HasTokens c d) :
    FlagsRight c children node_type d ↔
      (d.Elsewhere "constexpr" → d.Specified "constexpr") ∧
        (node_type = .globalVariable → d.Elsewhere "thread_local" → d.Specified "thread_local") := by
  have hconstexpr : exported c children node_type "is_constexpr" = some (.bool true) ↔
      "constexpr" ∈ d.tokens := exported_is_constexpr hnode h
  constructor
  · intro hright
    refine ⟨fun helse => ?_, ?_⟩
    · exact hright.is_constexpr.mp (hconstexpr.mpr (DeclarationTokens.mem_tokens_iff.mpr (Or.inr helse)))
    · rintro rfl helse
      exact (hright.storage_class rfl).mp
        ((exported_storage_class h).mpr (DeclarationTokens.mem_tokens_iff.mpr (Or.inr helse)))
  · rintro ⟨hc, ht⟩
    refine ⟨?_, ?_⟩
    · rw [hconstexpr, DeclarationTokens.mem_tokens_iff]
      exact or_iff_left_of_imp hc
    · rintro rfl
      rw [exported_storage_class h, DeclarationTokens.mem_tokens_iff]
      exact or_iff_left_of_imp (ht rfl)

/-- A function with the tokens of a declaration. -/
def functionOf (d : DeclarationTokens) : CursorInfo where
  kind := .ok .functionDecl
  get_tokens := .ok (d.tokens.map Except.ok)

/-- A function cursor with these tokens, whose other attributes do not matter here. -/
theorem hasTokens_functionOf (d : DeclarationTokens) : HasTokens (functionOf d) d :=
  ⟨rfl, nofun, nofun⟩

/-- `constexpr int f() { return 1; }` -/
def constexprFunction : DeclarationTokens where
  specifiers := [.keyword "constexpr", .keyword "int"]
  rest := ["f", "(", ")", "\x7b", "return", "1", ";", "\x7d"]

/-- `int f() { if constexpr (true) return 1; }` -/
def constexprBranch : DeclarationTokens where
  specifiers := [.keyword "int"]
  rest := ["f", "(", ")", "\x7b", "if", "constexpr", "(", "true", ")", "return", "1", ";", "\x7d"]

/-- `flagsRight_iff` at a function that is specified `constexpr`: the keyword is where it should be.
-/
theorem flagsRight_iff_constexprFunction :
    FlagsRight (functionOf constexprFunction) [] .function constexprFunction ↔
      (constexprFunction.Elsewhere "constexpr" → constexprFunction.Specified "constexpr") ∧
        (NodeType.function = .globalVariable → constexprFunction.Elsewhere "thread_local" →
          constexprFunction.Specified "thread_local") :=
  flagsRight_iff (by decide) (hasTokens_functionOf _)

/-- **A function counts as `constexpr`** where a branch in its body is: the exporter looks for the
keyword among all tokens of the declaration, and the body belongs to them. -/
theorem constexprBranch_flagged :
    exported (functionOf constexprBranch) [] .function "is_constexpr" = some (.bool true) ∧
      ¬constexprBranch.Specified "constexpr" ∧
      ¬FlagsRight (functionOf constexprBranch) [] .function constexprBranch := by
  have hflag : exported (functionOf constexprBranch) [] .function "is_constexpr" =
      some (.bool true) := rfl
  have hspecified : ¬constexprBranch.Specified "constexpr" := by
    rw [DeclarationTokens.Specified]
    decide
  exact ⟨hflag, hspecified, fun hright => hspecified (hright.is_constexpr.mp hflag)⟩

end Export
end CppMcp
