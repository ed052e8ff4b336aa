/-
# The properties of a node

The classifier and property helpers of `src/cpp_mcp/graphdb/exporter.py`, from
`_is_static_member` to `_emit_class_props`.  Each probes its cursor attribute by
attribute, every probe guarded, so none of them raises; where libclang has no
attribute for a fact, the tokens of the cursor's extent are scanned.
-/

import CppMcp.Export.Cursor
import CppMcp.Export.Record
import CppMcp.Py.Str
import Mathlib.Data.Int.Basic

namespace CppMcp
namespace Export

/-- `_KIND_TO_NODE_TYPE`. -/
def kindToNodeType : CursorKind → Option NodeType
  | .namespace_ => some .namespace_
  | .classDecl | .structDecl | .classTemplate | .unionDecl => some .class_
  | .functionDecl | .cxxMethod | .constructor_ | .destructor | .functionTemplate => some .function
  | .varDecl => some .globalVariable
  | .parmDecl => some .parameter
  | .macroDefinition => some .macro_
  | .typedefDecl | .typeAliasDecl | .typeAliasTemplateDecl => some .typeAlias
  | _ => none

/-- `_MEMBER_PARENT_KINDS`. -/
def memberParentKinds : List CursorKind := [.classDecl, .structDecl, .classTemplate, .unionDecl]

/-- `_REFERENCE_CURSOR_KINDS`. -/
def referenceCursorKinds : List CursorKind := [.declRefExpr, .memberRefExpr, .typeRef]

/-- `_FUNCTION_CURSOR_KINDS`. -/
def functionCursorKinds : List CursorKind :=
  [.functionDecl, .cxxMethod, .constructor_, .destructor, .functionTemplate]

/-- The kinds whose members get a `MEMBER_OF` edge to their class. -/
def memberKinds : List CursorKind := [.fieldDecl, .cxxMethod, .constructor_, .destructor]

/-- The kinds whose base specifiers give `INHERITS` edges. -/
def inheritingKinds : List CursorKind := [.classDecl, .structDecl, .classTemplate]

/-- `kind in S`, the empty kind being in no set. -/
def kindIn (kind : Option CursorKind) (S : List CursorKind) : Bool :=
  match kind with
  | some k => S.contains k
  | none => false

/-- Membership in a set of kinds asks that the kind can be read. -/
theorem kindIn_iff {kind : Option CursorKind} {S : List CursorKind} :
    kindIn kind S = true ↔ ∃ k ∈ S, kind = some k := by
  cases kind with
  | none => simp [kindIn]
  | some k => simp [kindIn]

/-- A loop over the tokens that breaks at `keyword`; an exception ends it. -/
def scanFor (keyword : String) : List (Acc String) → Bool
  | [] => false
  | .error _ :: _ => false
  | .ok s :: rest => s == keyword || scanFor keyword rest

/-- The token-scan fallback for a keyword. -/
def hasToken (keyword : String) (tokens : Tokens) : Bool :=
  scanFor keyword (Acc.getD tokens [])

/-- The spellings of the tokens, those that raise being skipped. -/
def spellings (tokens : Tokens) : List String :=
  (Acc.getD tokens []).filterMap Except.toOption

/-- `_is_storage_static`. -/
def isStorageStatic (c : CursorInfo) : Bool :=
  match c.storage_class with
  | .ok sc => sc == .static
  | .error _ => false

/-- `_is_static_member`. -/
def isStaticMember (c : CursorInfo) : Bool :=
  match c.is_static_member with
  | some (.ok b) => b
  | _ => isStorageStatic c

/-- `_classify_field`. -/
def classifyField (c : CursorInfo) : NodeType :=
  if isStaticMember c then .globalVariable else .field

/-- `_classify_node`. -/
def classifyNode (c : CursorInfo) : Option NodeType :=
  match c.kindName with
  | some .fieldDecl => some (classifyField c)
  | some k => kindToNodeType k
  | none => none

/-- `_resolve_access`. -/
def resolveAccess (c : CursorInfo) (parent_kind : Option CursorKind) : String :=
  match c.access_specifier with
  | .ok .isPublic => "public"
  | .ok .isProtected => "protected"
  | .ok .isPrivate => "private"
  | _ => if kindIn parent_kind [.structDecl, .unionDecl] then "public" else "private"

/-- `_var_qualifiers`: `(is_const, is_constexpr)`. -/
def varQualifiers (c : CursorInfo) : Bool × Bool :=
  let is_const :=
    match c.type with
    | .ok (some t) => Acc.getD t.info.is_const_qualified false
    | _ => false
  let is_constexpr := c.is_constexpr.holds || hasToken "constexpr" c.get_tokens
  (is_const || is_constexpr, is_constexpr)

/-- `_storage_class_value`. -/
def storageClassValue (c : CursorInfo) (node_type : NodeType) : String :=
  if node_type = .field then "none"
  else if c.is_thread_local.holds then "thread_local"
  else if hasToken "thread_local" c.get_tokens then "thread_local"
  else
    match c.storage_class with
    | .ok .static => "static"
    | .ok .extern_ => "extern"
    | .ok .auto => "auto"
    | .ok .register => "register"
    | _ => "none"

/-- `kind.name` of a type kind. -/
def TypeKind.name : TypeKind → String
  | pointer => "POINTER"
  | lvalueReference => "LVALUEREFERENCE"
  | rvalueReference => "RVALUEREFERENCE"
  | other name => name

/-- `_type_props`. -/
def typeProps (t : TypeInfo) : Props :=
  let kinds : Bool × Bool × Bool × String :=
    match t.kind with
    | .ok k => (k == .pointer, k == .lvalueReference, k == .rvalueReference, k.name)
    | .error _ => (false, false, false, "")
  [("spelling", .str (Acc.getD t.spelling "")),
    ("is_const", .bool (Acc.getD t.is_const_qualified false)),
    ("is_volatile", .bool (Acc.getD t.is_volatile_qualified false)),
    ("is_pointer", .bool kinds.1),
    ("is_reference", .bool (kinds.2.1 || kinds.2.2.1)),
    ("is_lvalue_reference", .bool kinds.2.1),
    ("is_rvalue_reference", .bool kinds.2.2.1),
    ("kind", .str kinds.2.2.2)]

/-- `_render_default_value`: the tokens after the first `=`. -/
def renderDefaultValue (p : Param) : String :=
  Py.strip (String.intercalate " " ((spellings p.get_tokens).dropWhile (· ≠ "=")).tail)

/-- The tokens after the parenthesis that brings the depth back to zero. -/
def afterParameterList : ℤ → List String → Option (List String)
  | _, [] => none
  | depth, sp :: rest =>
    if sp = "(" then afterParameterList (depth + 1) rest
    else if sp = ")" then
      if depth - 1 = 0 then some rest else afterParameterList (depth - 1) rest
    else afterParameterList depth rest

/-- The scan for `volatile` up to a terminator. -/
def scanVolatile : List String → Bool
  | [] => false
  | sp :: rest =>
    if sp ∈ ["\x7b", ";", "="] then false
    else if sp = "->" then false
    else if sp = "volatile" then true
    else scanVolatile rest

/-- `_method_has_volatile_qualifier`. -/
def methodHasVolatileQualifier (c : CursorInfo) : Bool :=
  match afterParameterList 0 (spellings c.get_tokens) with
  | none => false
  | some rest => scanVolatile rest

/-- `_emit_function_signature_props`. -/
def emitFunctionSignatureProps (c : CursorInfo) : Props :=
  let is_noexcept :=
    match c.exception_specification_kind with
    | .ok k => k ∈ [.basicNoexcept, .computedNoexcept, .dynamicNone]
    | .error _ => false
  let cv := (if c.is_const_method.holds then ["const"] else []) ++
    (if methodHasVolatileQualifier c then ["volatile"] else [])
  let ref_qualifier :=
    match c.type with
    | .ok (some t) =>
      match t.info.get_ref_qualifier with
      | .ok .lvalue => "&"
      | .ok .rvalue => "&&"
      | _ => ""
    | _ => ""
  [("signature", .str (Acc.getD c.displayname "")),
    ("is_constexpr", .bool (c.is_constexpr.holds || hasToken "constexpr" c.get_tokens)),
    ("is_noexcept", .bool is_noexcept),
    ("is_deleted", .bool c.is_deleted_method.holds),
    ("is_defaulted", .bool c.is_default_method.holds),
    ("cv_qualifiers", .str (String.intercalate " " cv)),
    ("ref_qualifier", .str ref_qualifier)]

/-- `_emit_class_props`; `children` are the cursor's. -/
def emitClassProps (c : CursorInfo) (children : List Cursor) : Props :=
  let is_final := c.children_raise.isNone &&
    children.any fun child => child.label.kindName == some .cxxFinalAttr
  let record_kind :=
    match c.kindName with
    | some .classDecl | some .classTemplate => "class"
    | some .structDecl => "struct"
    | some .unionDecl => "union"
    | _ => ""
  [("is_final", .bool is_final), ("is_abstract", .bool c.is_abstract_record.holds),
    ("record_kind", .str record_kind)]

end Export
end CppMcp
