/-
# JSON values and `json.dumps`

The values `json.loads` gives and `json.dumps` takes, and the text `json.dumps` writes with
its default options: separators `", "` and `": "`, and every character outside printable
ASCII escaped.  A character beyond the basic plane is escaped as a surrogate pair.

A `float` is given by its number and its `repr`; JSON as Python reads it has `NaN` and the
infinities.  A `dict` is the list of its items, in order, each key once.
-/

import CppMcp.Py.Str
import Mathlib.Data.Rat.Init

namespace CppMcp
namespace Py

/-- The number that a `float` is. -/
inductive FloatValue where
  | finite (q : ℚ) | inf (negative : Bool) | nan
  deriving DecidableEq

/-- A `float`, with what `repr` writes for it. -/
structure PyFloat where
  value : FloatValue
  text : String
  deriving DecidableEq

/-- A JSON value, as a Python object. -/
inductive Json where
  | null
  | bool (b : Bool)
  | int (n : ℤ)
  | float (x : PyFloat)
  | str (s : String)
  | list (items : List Json)
  | dict (items : List (String × Json))

/-- `\uXXXX`. -/
def unicodeEscape (n : ℕ) : List Char :=
  ['\\', 'u', hexDigit (n / 4096 % 16), hexDigit (n / 256 % 16), hexDigit (n / 16 % 16),
    hexDigit (n % 16)]

/-- One character inside the quotes of a JSON string (`py_encode_basestring_ascii`). -/
def dumpsChar (c : Char) : List Char :=
  if c = '"' then ['\\', '"']
  else if c = '\\' then ['\\', '\\']
  else if c = '\n' then ['\\', 'n']
  else if c = '\r' then ['\\', 'r']
  else if c = '\t' then ['\\', 't']
  else if c.toNat = 12 then ['\\', 'f']
  else if c.toNat = 8 then ['\\', 'b']
  else if 32 ≤ c.toNat ∧ c.toNat ≤ 126 then [c]
  else if c.toNat < 65536 then unicodeEscape c.toNat
  else unicodeEscape (55296 + (c.toNat - 65536) / 1024) ++
    unicodeEscape (56320 + (c.toNat - 65536) % 1024)

/-- `json.dumps` of a string. -/
def dumpsStr (s : String) : String := String.ofList ('"' :: s.toList.flatMap dumpsChar ++ ['"'])

/-- `json.dumps` of a `float`. -/
def dumpsFloat (x : PyFloat) : String :=
  match x.value with
  | .nan => "NaN"
  | .inf false => "Infinity"
  | .inf true => "-Infinity"
  | .finite _ => x.text

mutual

/-- `json.dumps`. -/
def dumps : Json → String
  | .null => "null"
  | .bool true => "true"
  | .bool false => "false"
  | .int n => toString n
  | .float x => dumpsFloat x
  | .str s => dumpsStr s
  | .list items => "[" ++ String.intercalate ", " (dumpsItems items) ++ "]"
  | .dict items => "\x7b" ++ String.intercalate ", " (dumpsPairs items) ++ "\x7d"

/-- The items of a list. -/
def dumpsItems : List Json → List String
  | [] => []
  | item :: items => dumps item :: dumpsItems items

/-- The items of a `dict`, each with its key. -/
def dumpsPairs : List (String × Json) → List String
  | [] => []
  | (key, value) :: items => (dumpsStr key ++ ": " ++ dumps value) :: dumpsPairs items

end

/-- `type(value).__name__`. -/
def Json.typeName : Json → String
  | .null => "NoneType"
  | .bool _ => "bool"
  | .int _ => "int"
  | .float _ => "float"
  | .str _ => "str"
  | .list _ => "list"
  | .dict _ => "dict"

mutual

/-- `repr` of a JSON value. -/
def Json.repr : Json → String
  | .null => "None"
  | .bool true => "True"
  | .bool false => "False"
  | .int n => toString n
  | .float x => x.text
  | .str s => Py.repr s
  | .list items => "[" ++ String.intercalate ", " (Json.reprItems items) ++ "]"
  | .dict items => "\x7b" ++ String.intercalate ", " (Json.reprPairs items) ++ "\x7d"

/-- The items of a list. -/
def Json.reprItems : List Json → List String
  | [] => []
  | item :: items => item.repr :: Json.reprItems items

/-- The items of a `dict`, each with its key. -/
def Json.reprPairs : List (String × Json) → List String
  | [] => []
  | (key, value) :: items => (Py.repr key ++ ": " ++ value.repr) :: Json.reprPairs items

end

/-- `isinstance(value, (str, int, float, bool, type(None)))`. -/
def Json.isScalar : Json → Bool
  | .list _ => false
  | .dict _ => false
  | _ => true

/-- The number that a value is; `bool` is a kind of `int`. -/
def Json.number : Json → Option FloatValue
  | .bool b => some (.finite (if b then 1 else 0))
  | .int n => some (.finite n)
  | .float x => some x.value
  | _ => none

/-- `stored == value` for a scalar `value`: numbers are equal as numbers, whatever their type,
and no number is equal to `nan`. -/
def Json.eqScalar (stored value : Json) : Bool :=
  match stored, value with
  | .null, .null => true
  | .str s, .str s' => decide (s = s')
  | stored, value =>
    match stored.number, value.number with
    | some x, some y => decide (x = y) && decide (x ≠ .nan)
    | _, _ => false

example : dumps (.dict [("id", .int 1), ("spelling", .str "a\"é")]) =
    "\x7b\"id\": 1, \"spelling\": \"a\\\"\\u00e9\"\x7d" := by decide +kernel

end Py
end CppMcp
