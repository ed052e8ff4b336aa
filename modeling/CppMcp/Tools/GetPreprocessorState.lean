/-
# The tool `get_preprocessor_state`

`tools/get_preprocessor_state.py`, from the translation unit on.  The macros are the macro definitions
among the cursors, each name once.  The conditionals are read off the lines of the file, with a stack of
the groups that are open: a branch counts as taken if a cursor stands on one of its lines.

The regular expression asks for the letters and digits of Unicode only to see where a word ends;
`alnum` is `str.isalnum` of the characters that are not ASCII.
-/

import CppMcp.Lib.Visitor
import CppMcp.Export.Cursor
import CppMcp.Py.Parse

namespace CppMcp
namespace Tools

open Export (Acc Exc Cursor CursorInfo CursorKind Tokens)

/-! ### `_collect_macros` -/

/-- An item of the list of macros. -/
structure Macro where
  name : String
  value : String
  defined_at : Option (String × ℕ)
  deriving DecidableEq, Repr

/-- `_extract_macro_value`. -/
def extractMacroValue (cursor : CursorInfo) : String :=
  let value : Acc String := do
    let tokens ← cursor.get_tokens
    if tokens.length ≤ 1 then return ""
    return String.intercalate " " (← tokens.tail.mapM id)
  Acc.getD value ""

/-- The name that a cursor defines as a macro, if it does. -/
def macroName (cursor : CursorInfo) : Option String :=
  if cursor.kindName = some .macroDefinition then
    let name := Acc.getD cursor.spelling ""
    if name = "" then none else some name
  else none

/-- What is listed of a definition. -/
def macroEntry (name : String) (cursor : CursorInfo) : Acc Macro := do
  let loc ← cursor.location
  return {
    name
    value := extractMacroValue cursor
    defined_at := loc.file.map fun file => (file, loc.line) }

/-- `macros` and `seen`. -/
structure MacroTable where
  macros : List Macro := []
  seen : List String := []

/-- `_visit` of `_collect_macros`, at one cursor. -/
def visitMacro (w : MacroTable) (cursor : CursorInfo) : Acc MacroTable :=
  match macroName cursor with
  | none => .ok w
  | some name =>
    if name ∈ w.seen then .ok w
    else do
      let entry ← macroEntry name cursor
      return ⟨w.macros ++ [entry], name :: w.seen⟩

/-- `_collect_macros`. -/
def collectMacros (cursor : Cursor) : Acc (List Macro) := do
  let w ← Rose.walkM visitMacro CursorInfo.getChildren cursor {}
  return w.macros

/-! ### `_scan_conditionals_via_tokens` -/

/-- The words that the pattern looks for. -/
inductive Directive where
  | ifdef | ifndef | if_ | elif | else_ | endif
  deriving DecidableEq, Repr

/-- The words as they are spelled. -/
def directives : List (String × Directive) :=
  [("ifdef", .ifdef), ("ifndef", .ifndef), ("if", .if_), ("elif", .elif), ("else", .else_),
    ("endif", .endif)]

/-- An item of the list of conditionals. -/
structure Conditional where
  directive : Directive
  condition : String
  evaluated_result : Option Bool
  start_line : ℕ
  end_line : Option ℕ
  deriving DecidableEq, Repr

section Scan

variable (alnum : Char → Bool)

/-- `\w`. -/
def isWord (c : Char) : Bool := if c.toNat < 128 then c.isAlphanum || c == '_' else alnum c

/-- `ifdef_re.match`: the word in lower case, and what stands behind it on the line.  The pattern also
takes `İ`, `ı` and `ſ` for letters of these words, but then `lower` gives none of them. -/
def matchDirective (line : String) : Option (Directive × String) :=
  match line.toList.dropWhile Py.isSpace with
  | '#' :: rest =>
    let rest := rest.dropWhile Py.isSpace
    let condition := (rest.dropWhile (isWord alnum)).takeWhile (· ≠ '\n')
    (directives.lookup (Py.lower (String.ofList (rest.takeWhile (isWord alnum))))).map fun word =>
      (word, Py.strip (String.ofList condition))
  | _ => none

/-- `conditionals` and `stack`, the top of the stack first. -/
structure ScanState where
  conditionals : List Conditional := []
  stack : List Conditional := []

variable (active_lines : List ℕ)

/-- `any(start <= al < stop for al in active_lines)`. -/
def anyActive (start stop : ℕ) : Bool := active_lines.any fun al => start ≤ al && al < stop

/-- A new entry for a directive. -/
def newEntry (directive : Directive) (condition : String) (lineno : ℕ) : Conditional :=
  ⟨directive, condition, none, lineno, none⟩

/-- The branch for `#elif` and `#else`. -/
def splitBranch (directive : Directive) (condition : String) (lineno : ℕ) (w : ScanState) : ScanState :=
  match w.stack with
  | [] => w
  | prev :: stack =>
    { conditionals :=
        match prev.evaluated_result with
        | none => w.conditionals ++
          [{ prev with
              evaluated_result := some (anyActive active_lines (prev.start_line + 1) lineno)
              end_line := some (lineno - 1) }]
        | some _ => w.conditionals
      stack := newEntry directive condition lineno :: stack }

/-- The branch for `#endif`. -/
def closeBranch (lineno : ℕ) (w : ScanState) : ScanState :=
  match w.stack with
  | [] => w
  | top :: stack =>
    let evaluated_result :=
      match top.evaluated_result with
      | none => some (anyActive active_lines (top.start_line + 1) (lineno + 1))
      | some result => some result
    { conditionals := w.conditionals ++ [{ top with evaluated_result, end_line := some lineno }]
      stack }

/-- One turn of the loop over the lines. -/
def scanLine (lineno : ℕ) (line_text : String) (w : ScanState) : ScanState :=
  match matchDirective alnum line_text with
  | none => w
  | some (.elif, condition) => splitBranch active_lines .elif condition lineno w
  | some (.else_, condition) => splitBranch active_lines .else_ condition lineno w
  | some (.endif, _) => closeBranch active_lines lineno w
  | some (directive, condition) =>
    { w with stack := newEntry directive condition lineno :: w.stack }

/-- The loop over the lines, from line `lineno` on. -/
def scanFrom : ℕ → List String → ScanState → ScanState
  | _, [], w => w
  | lineno, line_text :: lines, w =>
    scanFrom (lineno + 1) lines (scanLine alnum active_lines lineno line_text w)

/-- What is made of an entry that is left on the stack. -/
def finishEntry (total : ℕ) (entry : Conditional) : Conditional :=
  { entry with
    evaluated_result := some (entry.evaluated_result.getD false)
    end_line := some (entry.end_line.getD total) }

/-- The conditionals of the lines of a file. -/
def scanLines (lines : List String) : List Conditional :=
  let w := scanFrom alnum active_lines 1 lines {}
  w.conditionals ++ w.stack.reverse.map (finishEntry lines.length)

end Scan

/-- `_collect_lines`, at one cursor. -/
def visitLine (main_file : String) (active_lines : List ℕ) (cursor : CursorInfo) : List ℕ :=
  match cursor.location with
  | .ok loc => if loc.file = some main_file then loc.line :: active_lines else active_lines
  | .error _ => active_lines

/-- `active_lines`, once all cursors have been visited. -/
def activeLines (main_file : String) (cursor : Cursor) : Acc (List ℕ) :=
  Rose.walkM (fun active_lines cursor => .ok (visitLine main_file active_lines cursor))
    CursorInfo.getChildren cursor []

/-- A translation unit, as the tool uses it; `read_file` is what `open` and reading give. -/
structure RecordedUnit where
  cursor : Cursor
  spelling : String
  read_file : Acc String

section Tool

variable (alnum : Char → Bool) (tu : RecordedUnit)

/-- `_scan_conditionals_via_tokens`. -/
def scanConditionalsViaTokens : Acc (List Conditional) :=
  match tu.read_file with
  | .error _ => .ok []
  | .ok text => do
    let active_lines ← activeLines tu.spelling tu.cursor
    return scanLines alnum active_lines (Py.readlines text)

/-- `CursorKind.MACRO_INSTANTIATION`, by its number. -/
def MACRO_INSTANTIATION : CursorKind := .other 502

/-- `conditionals` and `seen_lines`. -/
structure Instantiations where
  conditionals : List Conditional := []
  seen_lines : List ℕ := []

/-- `_visit` of `_collect_conditionals`, at one cursor. -/
def visitInstantiation (w : Instantiations) (cursor : CursorInfo) : Instantiations :=
  if cursor.kindName = some MACRO_INSTANTIATION then
    match cursor.location with
    | .error _ => w
    | .ok loc =>
      if loc.file.isSome ∧ loc.line ∉ w.seen_lines then
        { conditionals :=
            match cursor.spelling with
            | .error _ => w.conditionals
            | .ok name => w.conditionals ++ [⟨.ifdef, name, some true, loc.line, some loc.line⟩]
          seen_lines := loc.line :: w.seen_lines }
      else w
  else w

/-- `_collect_conditionals`. -/
def collectConditionals : Acc (List Conditional) :=
  match scanConditionalsViaTokens alnum tu with
  | .ok conditionals => .ok conditionals
  | .error _ => do
    let w ← Rose.walkM (fun w cursor => .ok (visitInstantiation w cursor))
      CursorInfo.getChildren tu.cursor {}
    return w.conditionals

/-- `_do_get_preprocessor_state`, from the translation unit on: the macros and the conditionals. -/
def preprocessorState : Acc (List Macro × List Conditional) := do
  let macros ← collectMacros tu.cursor
  let conditionals ← collectConditionals alnum tu
  return (macros, conditionals)

end Tool

end Tools
end CppMcp
