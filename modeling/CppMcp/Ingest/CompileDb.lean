/-
# Compiler flags from the compilation database

`src/cpp_mcp/core/compile_db.py`.  libclang's `CompilationDatabase` is outside the
repository: loading one from a directory fails or gives a database, and that gives
for a file the argument lists of its compile commands, `none` for `None`, or raises.
-/

import CppMcp.Files.FileSystem
import CppMcp.Export.Cursor

namespace CppMcp
namespace Ingest

open Py (Path)
open Files (FileSystem)
open Export (Acc Exc)

/-- `getCompileCommands`: the arguments of each command. -/
abbrev CompilationDatabase := Path → Acc (Option (List (List String)))

/-- Where the flags come from. -/
inductive FlagSource where
  | compilationDb | default_
  deriving DecidableEq, Repr

/-- `_SYNTHETIC_SEPARATOR`. -/
def SYNTHETIC_SEPARATOR : String := "--"

/-- `_extract_flags`: the arguments of the first command without the compiler and the
file. -/
def extractFlags (db : CompilationDatabase) (file_path : Path) : Acc (Option (List String)) := do
  match ← db file_path with
  | none => return none
  | some [] => return none
  | some (args :: _) =>
    if SYNTHETIC_SEPARATOR ∈ args then return none
    else return some (args.drop 1).dropLast

/-- `resolve_flags`; `load` is `_load_compile_db`. -/
def resolveFlags (fs : FileSystem) (load : Path → Option CompilationDatabase) (file_path : Path)
    (build_path : Option Path) (default_flags : List String) :
    Acc (List String × FlagSource) :=
  match build_path with
  | none => .ok (default_flags, .default_)
  | some build_path =>
    if fs.isFile build_path then
      .error ⟨"InvalidArgumentError", "build_path must be a directory; got a regular file"⟩
    else
      match load build_path with
      | none => .ok (default_flags, .default_)
      | some db =>
        match extractFlags db file_path with
        | .error exc => .error exc
        | .ok none => .ok (default_flags, .default_)
        | .ok (some flags) => .ok (flags, .compilationDb)

end Ingest
end CppMcp
