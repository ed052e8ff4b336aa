/-
# The cursors of libclang, as the exporter reads them

A translation unit is a tree of cursors.  Of each cursor the exporter
(`src/cpp_mcp/graphdb/exporter.py`) reads the attributes and calls the methods
that are the fields of `CursorInfo`, under their names in `clang.cindex`.  Any
of them may raise: an accessor is an `Acc`, its value or the exception.  Some
methods exist only in newer versions of libclang and are looked up with
`getattr(cursor, …, None)`: these are a `Probe`, `none` when absent.

`get_children()` gives the subtrees of the cursor, unless `children_raise` says
that it raises.  `get_arguments()` is a generator whose loop is wrapped in
`try`, so the field lists what it yields before it ends or raises.  A type is
followed along `get_pointee()` only, so it is a chain.
-/

import CppMcp.Lib.Rose
import Mathlib.Data.Nat.Notation

namespace CppMcp
namespace Export

/-- A Python exception: the name of its class and its message. -/
structure Exc where
  typeName : String
  message : String
  deriving DecidableEq, Repr

/-- What an accessor gives: a value, or an exception. -/
abbrev Acc (α : Type) := Except Exc α

/-- A method that may be missing: `none`, or what calling it gives. -/
abbrev Probe := Option (Acc Bool)

/-- The cursor kinds the exporter names; all others by their number. -/
inductive CursorKind where
  | namespace_ | classDecl | structDecl | classTemplate | unionDecl
  | functionDecl | cxxMethod | constructor_ | destructor | functionTemplate
  | varDecl | fieldDecl | parmDecl | macroDefinition
  | typedefDecl | typeAliasDecl | typeAliasTemplateDecl
  | declRefExpr | memberRefExpr | typeRef | callExpr
  | inclusionDirective | cxxBaseSpecifier | cxxFinalAttr
  | other (id : ℕ)
  deriving DecidableEq, Repr

/-- `TypeKind`. -/
inductive TypeKind where
  | pointer | lvalueReference | rvalueReference | other (name : String)
  deriving DecidableEq, Repr

/-- `StorageClass`. -/
inductive StorageClass where
  | static | extern_ | auto | register | other
  deriving DecidableEq, Repr

/-- `AccessSpecifier`: `PUBLIC`, `PROTECTED`, `PRIVATE`, or `INVALID` / `NONE`. -/
inductive AccessSpecifier where
  | isPublic | isProtected | isPrivate | unspecified
  deriving DecidableEq, Repr

/-- `ExceptionSpecificationKind`. -/
inductive ExceptionSpecificationKind where
  | basicNoexcept | computedNoexcept | dynamicNone | other
  deriving DecidableEq, Repr

/-- `RefQualifierKind`. -/
inductive RefQualifierKind where
  | none | lvalue | rvalue
  deriving DecidableEq, Repr

/-- A source location; `file` is `None` for cursors without one. -/
structure Location where
  file : Option String := none
  line : ℕ := 0
  column : ℕ := 0
  deriving DecidableEq, Repr

/-- What is read of one level of a type. -/
structure TypeInfo where
  spelling : Acc String
  kind : Acc TypeKind := .ok (.other "INT")
  is_const_qualified : Acc Bool := .ok false
  is_volatile_qualified : Acc Bool := .ok false
  get_ref_qualifier : Acc RefQualifierKind := .ok .none

/-- A type: `pointing` when `get_pointee()` gives a type, `last` when it gives
`None` or raises. -/
inductive CType where
  | last (info : TypeInfo) (raises : Option Exc)
  | pointing (info : TypeInfo) (pointee : CType)

/-- The level of the type itself. -/
def CType.info : CType → TypeInfo
  | last i _ => i
  | pointing i _ => i

/-- The tokens of a cursor's extent, each with its spelling. -/
abbrev Tokens := Acc (List (Acc String))

/-- A declaration that another cursor refers to, or a base class's definition. -/
structure Ref where
  get_usr : Acc String

/-- What is read of a cursor that `get_arguments()` yields. -/
structure Param where
  spelling : Acc String
  get_usr : Acc String := .ok ""
  type : Acc (Option CType) := .ok none
  location : Acc Location := .ok {}
  get_tokens : Tokens := .ok []

/-- What is read of a cursor, its children apart. -/
structure CursorInfo where
  kind : Acc CursorKind
  get_usr : Acc String := .ok ""
  spelling : Acc String := .ok ""
  displayname : Acc String := .ok ""
  location : Acc Location := .ok {}
  type : Acc (Option CType) := .ok none
  result_type : Acc (Option CType) := .ok none
  get_arguments : List Param := []
  get_tokens : Tokens := .ok []
  is_definition : Acc Bool := .ok false
  referenced : Acc (Option Ref) := .ok none
  get_definition : Acc (Option Ref) := .ok none
  /-- The included file's `name`. -/
  get_included_file : Acc (Option (Acc String)) := .ok none
  access_specifier : Acc AccessSpecifier := .ok .unspecified
  storage_class : Acc StorageClass := .ok .other
  exception_specification_kind : Acc ExceptionSpecificationKind := .ok .other
  is_static_member : Probe := none
  is_constexpr : Probe := none
  is_thread_local : Probe := none
  is_deleted_method : Probe := none
  is_default_method : Probe := none
  is_const_method : Probe := none
  is_abstract_record : Probe := none
  children_raise : Option Exc := none

/-- A cursor with everything below it. -/
abbrev Cursor := Rose CursorInfo

/-- The value of an accessor in a `try` whose handler falls back to `d`. -/
def Acc.getD {α : Type} (x : Acc α) (d : α) : α :=
  match x with
  | .ok a => a
  | .error _ => d

/-- A probe that is called in a `try`: absent or raising, it counts as false. -/
def Probe.holds (p : Probe) : Bool :=
  match p with
  | some (.ok b) => b
  | _ => false

namespace CursorInfo

variable (c : CursorInfo)

/-- `_kind_name`; `none` is the empty string. -/
def kindName : Option CursorKind :=
  match c.kind with
  | .ok k => some k
  | .error _ => none

/-- `_safe_usr`. -/
def safeUsr : String := Acc.getD c.get_usr ""

/-- `_safe_spelling`. -/
def safeSpelling : String := Acc.getD c.spelling ""

/-- `get_children()` either gives the children or raises. -/
def getChildren : Acc Unit :=
  match c.children_raise with
  | none => .ok ()
  | some e => .error e

end CursorInfo

/-- `_safe_usr` of a referenced declaration. -/
def Ref.safeUsr (r : Ref) : String := Acc.getD r.get_usr ""

/-- What `_safe_usr` gives of an argument.  The exporter does not call it there:
the argument's node has a synthetic USR. -/
def Param.safeUsr (p : Param) : String := Acc.getD p.get_usr ""

/-- `_safe_location`: the path (`""` without a file), the line and the column. -/
def safeLocation (location : Acc Location) : String × ℕ × ℕ :=
  match location with
  | .ok loc => (loc.file.getD "", loc.line, loc.column)
  | .error _ => ("", 0, 0)

end Export
end CppMcp
