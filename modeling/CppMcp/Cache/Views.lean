/-
# One session for tools that look at different things

The tools share one session, and each reads something else of a translation unit.  A view of the
units makes a view of the session; since the cache never looks at a unit, a request to the view of a
session is the view of the request (`getOrParseSync_map`).
-/

import CppMcp.Cache.Transparent

namespace CppMcp
namespace Cache

open Py (Path)
open Files (FileSystem)
open Export (Acc)

variable {TU TU' : Type} (f : TU → TU')

/-- What libclang returns, seen through `f`. -/
def World.map (w : World TU) : World TU' :=
  ⟨w.fs, w.sha1, w.old_mtime, w.new_mtime, fun call => (w.index_parse call).map f⟩

def CacheEntry.map (entry : CacheEntry TU) : CacheEntry TU' :=
  ⟨f entry.tu, entry.source_mtime_ns, entry.flags_used, entry.source_path⟩

def TUCache.map (c : TUCache TU) : TUCache TU' where
  capacity := c.capacity
  capacity_pos := c.capacity_pos
  store := c.store.mapValues (CacheEntry.map f)
  hits := c.hits
  misses := c.misses
  evictions := c.evictions

/-- The session, its units seen through `f`. -/
def ClangSession.map (s : ClangSession TU) : ClangSession TU' := ⟨s.cache.map f⟩

namespace TUCache

variable (c : TUCache TU) (key : CacheKey)

/-- Looking a key up in a view of the cache gives the view of what is found, and leaves the view of
the cache. -/
theorem lookupSection_map (mtime : Option ℤ) :
    (c.map f).lookupSection key mtime =
      ((c.lookupSection key mtime).1.map f, (c.lookupSection key mtime).2.map f) := by
  unfold lookupSection
  rw [show (c.map f).store.get key = (c.store.get key).map (CacheEntry.map f) from
    c.store.get_mapValues (CacheEntry.map f) key]
  cases c.store.get key with
  | none => rfl
  | some entry =>
    dsimp only [Option.map_some, CacheEntry.map]
    split_ifs
    · simp only [TUCache.map, OrderedDict.mapValues_moveToEnd, Option.map_some]
    · simp only [TUCache.map, OrderedDict.mapValues_del, Option.map_none]

/-- Putting the view of an entry into a view of the cache is the view of putting the entry in. -/
theorem insertSection_map (entry : CacheEntry TU) :
    (c.map f).insertSection key (entry.map f) = (c.insertSection key entry).map f := by
  simp only [insertSection, TUCache.map, OrderedDict.mapValues_popUntilRoom,
    OrderedDict.mapValues_setLast, OrderedDict.len_mapValues]

/-- What a call leaves, seen through `f`. -/
def Parsed.map (parsed : Parsed TU) : Parsed TU' :=
  ⟨parsed.result.map fun tu => (f tu.1, tu.2), parsed.cache.map f, parsed.parser_call⟩

/-- So a call to the view of a cache, with a parser of which only the view is kept, is the view of
the call. -/
theorem getOrParse_map (fs : FileSystem) (sha1 : Py.Sha1) (old_mtime new_mtime : Path → Option ℤ)
    (file_path : Path) (build_path : Option Path) (flags : List String)
    (parser : Path → List String → Acc TU) :
    (c.map f).getOrParse fs sha1 old_mtime new_mtime file_path build_path flags
        (fun path flags => (parser path flags).map f) =
      (c.getOrParse fs sha1 old_mtime new_mtime file_path build_path flags parser).map f := by
  unfold getOrParse
  rw [lookupSection_map]
  cases c.lookupSection (makeKey fs sha1 file_path build_path flags)
      (old_mtime (fs.realpath file_path)) with
  | mk found c' =>
    cases found with
    | some tu => rfl
    | none =>
      dsimp only [Option.map_none]
      cases parser (fs.realpath file_path) flags with
      | error exc => rfl
      | ok tu =>
        change Parsed.mk _ ((c'.map f).insertSection _ (CacheEntry.map f ⟨tu, _, _, _⟩)) _ = _
        rw [insertSection_map]
        rfl

end TUCache

/-- **A request to the view of a session is the view of the request.** -/
theorem ClangSession.getOrParseSync_map (w : World TU) (s : ClangSession TU) (file_path : Path)
    (build_path : Option Path) (flags : List String) (options : ℤ) :
    (s.map f).getOrParseSync (w.map f) file_path build_path flags options =
      ⟨(s.getOrParseSync w file_path build_path flags options).result.map fun tu => (f tu.1, tu.2),
        (s.getOrParseSync w file_path build_path flags options).session.map f,
        (s.getOrParseSync w file_path build_path flags options).parse_call⟩ := by
  have hparsed := s.cache.getOrParse_map f w.fs w.sha1 w.old_mtime w.new_mtime file_path build_path
    (effectiveFlags flags options) fun path flags => w.index_parse (parserCall options path flags)
  unfold getOrParseSync
  dsimp only [World.map, ClangSession.map] at hparsed ⊢
  rw [hparsed]
  rfl

end Cache
end CppMcp
