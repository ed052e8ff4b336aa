/-
# Node and edge records

`src/cpp_mcp/graphdb/driver.py` (`NodeRecord`, `EdgeRecord`),
`src/cpp_mcp/graphdb/schema.py` (the labels) and
`src/cpp_mcp/graphdb/schema_version.py`.  The labels are enumerations; a `props`
dictionary is the list of its items in insertion order.
-/

import Mathlib.Data.Nat.Notation
import Mathlib.Tactic.Common

namespace CppMcp
namespace Export

/-- The node labels the exporter writes. -/
inductive NodeType where
  | file | namespace_ | class_ | function | field | globalVariable | macro_ | typeAlias | type
  | parameter
  deriving DecidableEq, Repr

/-- The label as the schema spells it. -/
def NodeType.text : NodeType → String
  | file => "File"
  | namespace_ => "Namespace"
  | class_ => "Class"
  | function => "Function"
  | field => "Field"
  | globalVariable => "GlobalVariable"
  | macro_ => "Macro"
  | typeAlias => "TypeAlias"
  | type => "Type"
  | parameter => "Parameter"

/-- The edge labels. -/
inductive EdgeType where
  | defines | declares | calls | inherits | references | includes | memberOf | returns | hasParam
  | ofType | pointsTo | refersTo
  deriving DecidableEq, Repr

/-- The label as the schema spells it. -/
def EdgeType.text : EdgeType → String
  | defines => "DEFINES"
  | declares => "DECLARES"
  | calls => "CALLS"
  | inherits => "INHERITS"
  | references => "REFERENCES"
  | includes => "INCLUDES"
  | memberOf => "MEMBER_OF"
  | returns => "RETURNS"
  | hasParam => "HAS_PARAM"
  | ofType => "OF_TYPE"
  | pointsTo => "POINTS_TO"
  | refersTo => "REFERS_TO"

/-- A property value. -/
inductive PropVal where
  | str (s : String) | bool (b : Bool) | int (n : ℕ)
  deriving DecidableEq, Repr

/-- The items of a `props` dictionary. -/
abbrev Props := List (String × PropVal)

/-- `NodeRecord`. -/
structure NodeRecord where
  label : NodeType
  usr : String
  props : Props
  deriving DecidableEq, Repr

/-- `EdgeRecord`. -/
structure EdgeRecord where
  source_usr : String
  target_usr : String
  edge_type : EdgeType
  props : Props
  deriving DecidableEq, Repr

/-- `SCHEMA_VERSION`. -/
def SCHEMA_VERSION : String := "v2"

end Export
end CppMcp
