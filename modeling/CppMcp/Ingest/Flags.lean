/-
# The flags of a compile command

A compile command names the compiler, then flags in any order, with the source file somewhere among
them.  `_extract_flags` of `src/cpp_mcp/core/compile_db.py` goes by position: it takes the last argument
for the source file, and a command with a `--` for one that libclang made up.

So `resolve_flags` gives the flags of a command exactly if there is no `--` and nothing stands behind the
source file, copies of its own name apart (`resolveFlags_eq_flags_iff`).
-/

import CppMcp.Ingest.CompileDb

namespace CppMcp
namespace Ingest

open Py (Path)
open Files (FileSystem)

/-- A compile command: the compiler, and the source file among the flags. -/
structure CompileCommand where
  compiler : String
  before : List String
  source : String
  after : List String

/-- `arguments`, as the database lists them. -/
def CompileCommand.arguments (cmd : CompileCommand) : List String :=
  cmd.compiler :: (cmd.before ++ cmd.source :: cmd.after)

/-- The arguments without the compiler and the source file. -/
def CompileCommand.flags (cmd : CompileCommand) : List String := cmd.before ++ cmd.after

/-- Taking the last item of a list away is taking the first one away only if all are the same. -/
theorem dropLast_cons_eq_iff {α : Type} {x : α} {l : List α} :
    (x :: l).dropLast = l ↔ ∀ a ∈ l, a = x := by
  induction l generalizing x with
  | nil => simp
  | cons y l ih =>
    rw [List.dropLast_cons_cons, List.cons.injEq, ih, List.forall_mem_cons]
    constructor
    · rintro ⟨rfl, h⟩
      exact ⟨rfl, h⟩
    · rintro ⟨rfl, h⟩
      exact ⟨rfl, h⟩

/-- What is taken for the flags of a command. -/
theorem dropLast_drop_arguments (cmd : CompileCommand) :
    (cmd.arguments.drop 1).dropLast = cmd.before ++ (cmd.source :: cmd.after).dropLast := by
  rw [CompileCommand.arguments, List.drop_succ_cons, List.drop_zero]
  exact List.dropLast_append_of_ne_nil (List.cons_ne_nil _ _)

/-- The flags that are extracted from the first command for a file. -/
theorem extractFlags_of_listed {db : CompilationDatabase} {file_path : Path} {cmd : CompileCommand}
    {more : List (List String)} (h : db file_path = .ok (some (cmd.arguments :: more))) :
    extractFlags db file_path = .ok (if SYNTHETIC_SEPARATOR ∈ cmd.arguments then none
      else some (cmd.before ++ (cmd.source :: cmd.after).dropLast)) := by
  unfold extractFlags
  rw [h, ← dropLast_drop_arguments]
  change (if SYNTHETIC_SEPARATOR ∈ cmd.arguments then _ else _) = _
  split_ifs <;> rfl

/-- **The flags of a listed command are given in full exactly if** the command has no `--` and its source
file comes last. -/
theorem resolveFlags_eq_flags_iff {fs : FileSystem} {load : Path → Option CompilationDatabase}
    {file_path build_path : Path} {db : CompilationDatabase} {cmd : CompileCommand}
    {more : List (List String)} (hdir : fs.isFile build_path = false)
    (hload : load build_path = some db)
    (hlisted : db file_path = .ok (some (cmd.arguments :: more))) (default_flags : List String) :
    resolveFlags fs load file_path (some build_path) default_flags =
        .ok (cmd.flags, .compilationDb) ↔
      SYNTHETIC_SEPARATOR ∉ cmd.arguments ∧ ∀ a ∈ cmd.after, a = cmd.source := by
  have hresolve : resolveFlags fs load file_path (some build_path) default_flags =
      .ok (if SYNTHETIC_SEPARATOR ∈ cmd.arguments then (default_flags, .default_)
        else (cmd.before ++ (cmd.source :: cmd.after).dropLast, .compilationDb)) := by
    simp only [resolveFlags, hdir, Bool.false_eq_true, if_false, hload,
      extractFlags_of_listed hlisted]
    split_ifs <;> rfl
  rw [hresolve, Except.ok.injEq]
  split_ifs with hsep
  · exact iff_of_false (fun h => nomatch (Prod.mk.inj h).2) fun h => h.1 hsep
  · rw [Prod.mk.injEq, and_iff_left rfl, and_iff_right hsep, CompileCommand.flags,
      List.append_cancel_left_eq, dropLast_cons_eq_iff]

/-- A directory `/build`. -/
def buildDir : FileSystem where
  entries := [(["build"], .dir)]
  nodup := by decide
  plain := by decide
  below := by decide

/-- `cc -O2 -c foo.cpp` -/
def sourceLast : CompileCommand := ⟨"cc", ["-O2", "-c"], "foo.cpp", []⟩

/-- `cc -c foo.cpp -o foo.o`, as many build systems write it. -/
def outputLast : CompileCommand := ⟨"cc", ["-c"], "foo.cpp", ["-o", "foo.o"]⟩

/-- A database that lists a command for every file. -/
def listing (cmd : CompileCommand) (_ : Path) : Option CompilationDatabase :=
  some fun _ => .ok (some [cmd.arguments])

/-- `resolveFlags_eq_flags_iff` at a command that has its source file last. -/
theorem resolveFlags_eq_flags_iff_sourceLast :
    resolveFlags buildDir (listing sourceLast) ["foo.cpp"] (some ["build"]) [] =
        .ok (sourceLast.flags, .compilationDb) ↔
      SYNTHETIC_SEPARATOR ∉ sourceLast.arguments ∧ ∀ a ∈ sourceLast.after, a = sourceLast.source :=
  resolveFlags_eq_flags_iff (by decide) rfl rfl []

/-- **The file stays and the option loses its operand** where the output comes last:
`_extract_flags` takes the last argument for the source file. -/
theorem outputLast_loses_operand :
    resolveFlags buildDir (listing outputLast) ["foo.cpp"] (some ["build"]) [] =
        .ok (["-c", "foo.cpp", "-o"], .compilationDb) ∧
      outputLast.flags = ["-c", "-o", "foo.o"] ∧
      resolveFlags buildDir (listing outputLast) ["foo.cpp"] (some ["build"]) [] ≠
        .ok (outputLast.flags, .compilationDb) := by
  have hgiven : resolveFlags buildDir (listing outputLast) ["foo.cpp"] (some ["build"]) [] =
      .ok (["-c", "foo.cpp", "-o"], .compilationDb) := by
    have hdir : buildDir.isFile ["build"] = false := by decide
    simp only [resolveFlags, hdir, Bool.false_eq_true, if_false, listing]
    rfl
  refine ⟨hgiven, rfl, ?_⟩
  rw [hgiven]
  decide

end Ingest
end CppMcp
