/-
# `int`, `shlex.split`, `str.splitlines` and `readlines`

What the server reads its settings and its source files with.  `int` takes a string with blanks
around it, a sign, and decimal digits of any script with single underscores between them.
`shlex.split` is the reader of `shlex` with `posix` and `whitespace_split`, character by character;
it raises where the text ends inside quotes or after a backslash.
-/

import CppMcp.Py.Str

namespace CppMcp
namespace Py

/-- The zeros of the scripts that have decimal digits; the other nine follow each. -/
def decimalZeros : List ℕ :=
  [0x30, 0x660, 0x6f0, 0x7c0, 0x966, 0x9e6, 0xa66, 0xae6, 0xb66, 0xbe6, 0xc66, 0xce6, 0xd66, 0xde6,
    0xe50, 0xed0, 0xf20, 0x1040, 0x1090, 0x17e0, 0x1810, 0x1946, 0x19d0, 0x1a80, 0x1a90, 0x1b50,
    0x1bb0, 0x1c40, 0x1c50, 0xa620, 0xa8d0, 0xa900, 0xa9d0, 0xa9f0, 0xaa50, 0xabf0, 0xff10, 0x104a0,
    0x10d30, 0x11066, 0x110f0, 0x11136, 0x111d0, 0x112f0, 0x11450, 0x114d0, 0x11650, 0x116c0,
    0x11730, 0x118e0, 0x11950, 0x11c50, 0x11d50, 0x11da0, 0x16a60, 0x16ac0, 0x16b50, 0x1d7ce,
    0x1d7d8, 0x1d7e2, 0x1d7ec, 0x1d7f6, 0x1e140, 0x1e2f0, 0x1e950, 0x1fbf0]

/-- `unicodedata.decimal` of a character. -/
def decimal (c : Char) : Option ℕ :=
  (decimalZeros.find? fun z => z ≤ c.toNat && c.toNat < z + 10).map (c.toNat - ·)

/-- The digits of a number, each underscore between two of them. -/
def digits : List Char → Option (List ℕ)
  | [] => none
  | [c] => (decimal c).map fun d => [d]
  | c :: '_' :: rest => do return (← decimal c) :: (← digits rest)
  | c :: rest => do return (← decimal c) :: (← digits rest)

/-- `int(s)`; `none` is the `ValueError`, which more than 4300 digits raise too. -/
def parseInt (s : String) : Option ℤ := do
  let (negative, rest) := match (strip s).toList with
    | '-' :: rest => (true, rest)
    | '+' :: rest => (false, rest)
    | rest => (false, rest)
  let ds ← digits rest
  if 4300 < ds.length then none
  else
    let n : ℕ := ds.foldl (fun n d => 10 * n + d) 0
    return if negative then -(n : ℤ) else n

/-- Where the reader of `shlex` stands: outside quotes, inside them, or behind a backslash, from
which it goes back to where it was. -/
inductive ShlexState where
  | plain
  | quoted (quote : Char)
  | escaped (back : Option Char)

/-- The reader of `shlex`.  `token` is what has been read of a token; an empty one has been begun if
quotes have. -/
def shlexLoop : ShlexState → Option (List Char) → List Char → Except String (List String)
  | .plain, token, [] => .ok (token.map String.ofList).toList
  | .plain, token, c :: rest =>
    if c ∈ [' ', '\t', '\r', '\n'] then do
      return (token.map String.ofList).toList ++ (← shlexLoop .plain none rest)
    else if c = '\\' then shlexLoop (.escaped none) token rest
    else if c = '\'' ∨ c = '"' then shlexLoop (.quoted c) (some (token.getD [])) rest
    else shlexLoop .plain (some (token.getD [] ++ [c])) rest
  | .quoted _, _, [] => .error "No closing quotation"
  | .quoted quote, token, c :: rest =>
    if c = quote then shlexLoop .plain token rest
    else if c = '\\' ∧ quote = '"' then shlexLoop (.escaped (some quote)) token rest
    else shlexLoop (.quoted quote) (some (token.getD [] ++ [c])) rest
  | .escaped _, _, [] => .error "No escaped character"
  | .escaped none, token, c :: rest => shlexLoop .plain (some (token.getD [] ++ [c])) rest
  | .escaped (some quote), token, c :: rest =>
    -- within quotes only the quote and the backslash are escaped
    let kept := if c ≠ '\\' ∧ c ≠ quote then ['\\', c] else [c]
    shlexLoop (.quoted quote) (some (token.getD [] ++ kept)) rest

/-- `shlex.split(s)`; the text of the `ValueError`. -/
def shlexSplit (s : String) : Except String (List String) := shlexLoop .plain none s.toList

example : shlexSplit "-std=c++20 -I'a b' \"\" -DX=\\\"y\\\"" =
    .ok ["-std=c++20", "-Ia b", "", "-DX=\"y\""] := by decide

example : parseInt " 1_000 " = some 1000 := by decide

/-- The characters that end a line for `str.splitlines`. -/
def isLineBreak (c : Char) : Bool :=
  c.toNat ∈ [0x0a, 0x0b, 0x0c, 0x0d, 0x1c, 0x1d, 0x1e, 0x85, 0x2028, 0x2029]

/-- `str.splitlines`; `line` is what has been read of a line, the last character first.  A carriage
return and a line feed are one break. -/
def splitlinesLoop : List Char → List Char → List (List Char)
  | line, [] => if line = [] then [] else [line.reverse]
  | line, '\r' :: '\n' :: rest => line.reverse :: splitlinesLoop [] rest
  | line, c :: rest =>
    if isLineBreak c then line.reverse :: splitlinesLoop [] rest else splitlinesLoop (c :: line) rest

/-- `s.splitlines()`. -/
def splitlines (s : String) : List String := (splitlinesLoop [] s.toList).map String.ofList

example : splitlines "a\r\n\nb\n" = ["a", "", "b"] := by decide

/-- `readlines` of a file opened as text; `line` is what has been read of a line, the last character
first.  A carriage return, a line feed, or both, end a line, which then ends with a line feed. -/
def readlinesLoop : List Char → List Char → List (List Char)
  | line, [] => if line = [] then [] else [line.reverse]
  | line, '\r' :: '\n' :: rest => ('\n' :: line).reverse :: readlinesLoop [] rest
  | line, c :: rest =>
    if c = '\n' ∨ c = '\r' then ('\n' :: line).reverse :: readlinesLoop [] rest
    else readlinesLoop (c :: line) rest

/-- `f.readlines()`, of what is in the file. -/
def readlines (text : String) : List String := (readlinesLoop [] text.toList).map String.ofList

example : readlines "a\r\n\nb" = ["a\n", "\n", "b"] := by decide

/-- `s.lower()`, of a string of ASCII characters. -/
def lower (s : String) : String := String.ofList (s.toList.map Char.toLower)

end Py
end CppMcp
