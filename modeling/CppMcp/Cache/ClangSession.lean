/-
# The session that parses

`src/cpp_mcp/core/clang_session.py`: `_parse_sync` and `_get_or_parse_sync`, which run on the one
worker thread.  libclang is outside the repository: `index.parse` is a function from
what it is called with to a translation unit or an exception.  The `Index`, created
at the first call and the same for all, is left out.
-/

import CppMcp.Cache.TUCache

namespace CppMcp
namespace Cache

open Py (Path)
open Files (FileSystem)
open Export (Acc)

/-- The arguments of `index.parse`; without `options` they are 0. -/
structure ParseCall where
  path : Path
  args : List String
  options : ℤ
  deriving DecidableEq, Repr

/-- What the session meets outside: the file system, `os.stat(…).st_mtime_ns` before and after a
parse, `hashlib.sha1` and `index.parse`. -/
structure World (TU : Type) where
  fs : FileSystem
  sha1 : Py.Sha1
  old_mtime : Path → Option ℤ
  new_mtime : Path → Option ℤ
  index_parse : ParseCall → Acc TU

/-- `ClangSession`. -/
structure ClangSession (TU : Type) where
  cache : TUCache TU

/-- What a request leaves: its result, the session, and the call of `index.parse`, if there
was one. -/
structure Answer (TU : Type) where
  result : Acc (TU × Bool)
  session : ClangSession TU
  parse_call : Option ParseCall

/-- What separates entries with options from those without. -/
def optionsFlag (options : ℤ) : String := "__options=" ++ toString options

/-- `effective_flags`. -/
def effectiveFlags (flags : List String) (options : ℤ) : List String :=
  if options = 0 then flags else flags ++ [optionsFlag options]

/-- The call that the parser handed to the cache makes. -/
def parserCall (options : ℤ) (path : Path) (flags : List String) : ParseCall :=
  ⟨path, flags.filter fun x => !Py.startswith x "__options=", options⟩

variable {TU : Type}

/-- `ClangSession()`: nothing has been parsed. -/
def ClangSession.new : ClangSession TU := ⟨.ofCapacity 128 (by decide)⟩

/-- `_get_or_parse_sync`. -/
def ClangSession.getOrParseSync (w : World TU) (s : ClangSession TU) (file_path : Path)
    (build_path : Option Path) (flags : List String) (options : ℤ) : Answer TU :=
  let parsed := s.cache.getOrParse w.fs w.sha1 w.old_mtime w.new_mtime file_path build_path
    (effectiveFlags flags options) fun path flags => w.index_parse (parserCall options path flags)
  ⟨parsed.result, ⟨parsed.cache⟩,
    parsed.parser_call.map fun call => parserCall options call.1 call.2⟩

/-- **libclang is given the resolved path** of the file that is asked for. -/
theorem ClangSession.path_of_parse_call {w : World TU} {s : ClangSession TU} {file_path : Path}
    {build_path : Option Path} {flags : List String} {options : ℤ} {call : ParseCall}
    (h : (s.getOrParseSync w file_path build_path flags options).parse_call = some call) :
    call.path = w.fs.realpath file_path := by
  obtain ⟨parsed, hparsed, rfl⟩ := Option.map_eq_some_iff.mp h
  rw [TUCache.parser_call_getOrParse _ hparsed]
  rfl

/-! ### What is known of every unit -/

/-- What is known of every unit that the session can answer with, given the path of its file.  Nothing is
asked of an entry that is not up to date in this world: it is not answered with, but parsed again. -/
def ClangSession.Holds (w : World TU) (Q : String → TU → Prop) (s : ClangSession TU) : Prop :=
  ∀ item ∈ s.cache.store.items, ∀ path : Path, path.str = item.1.file_realpath →
    (w.old_mtime path).getD (-1) = item.2.source_mtime_ns → Q item.1.file_realpath item.2.tu

/-- A new session holds nothing, so anything can be said of what it holds. -/
theorem ClangSession.holds_new (w : World TU) (Q : String → TU → Prop) :
    (new : ClangSession TU).Holds w Q :=
  fun _ hitem => absurd hitem List.not_mem_nil

/-- **What holds of the units that libclang returns holds of those that a session holds.**  A request
adds at most one entry, and its unit has just been returned. -/
theorem ClangSession.Holds.getOrParseSync {Q : String → TU → Prop} {w : World TU}
    {s : ClangSession TU} (h : s.Holds w Q)
    (hparse : ∀ call tu, w.index_parse call = .ok tu → Q call.path.str tu) (file_path : Path)
    (build_path : Option Path) (flags : List String) (options : ℤ) :
    (s.getOrParseSync w file_path build_path flags options).session.Holds w Q := by
  obtain ⟨-, -, -, hkeep⟩ | ⟨-, -, -, hkeep⟩ | ⟨entry, hok, -, hkeep⟩ :=
    s.cache.getOrParse_cases w.fs w.sha1 w.old_mtime w.new_mtime
      ⟨file_path, build_path, effectiveFlags flags options⟩
      (fun path flags => w.index_parse (parserCall options path flags)) rfl
  · exact fun item hitem => h item (hkeep item hitem)
  · exact fun item hitem => h item (hkeep item hitem)
  · intro item hitem
    obtain hitem | rfl := hkeep item hitem
    · exact h item hitem
    · exact fun _ _ _ => hparse _ _ hok

/-- **A file and what it leads to are one to the session.** -/
theorem ClangSession.getOrParseSync_realpath (w : World TU) (s : ClangSession TU)
    {file_path : Path} (h : w.fs.realpath (w.fs.realpath file_path) = w.fs.realpath file_path)
    (build_path : Option Path) (flags : List String) (options : ℤ) :
    s.getOrParseSync w (w.fs.realpath file_path) build_path flags options =
      s.getOrParseSync w file_path build_path flags options := by
  unfold getOrParseSync TUCache.getOrParse makeKey
  rw [h]

end Cache
end CppMcp
