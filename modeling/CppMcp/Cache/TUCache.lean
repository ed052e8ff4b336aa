/-
# The cache of translation units

`src/cpp_mcp/core/tu_cache.py`.  An `OrderedDict` from keys to translation units, the
entry used longest ago first.  `get_or_parse` looks a key up under the lock, calls
the parser without the lock, and inserts under the lock again.  The two locked
sections are `lookupSection` and `insertSection`, each with the modification time
it has read; `getOrParse` is the call of a thread that is not disturbed between them.

`invalidate` and `clear` take the lock once.

A translation unit is opaque here.  `os.stat(…).st_mtime_ns` is a value given from
outside, `none` where it raises `OSError`.
-/

import CppMcp.Lib.OrderedDict
import CppMcp.Files.Realpath
import CppMcp.Export.Cursor
import Mathlib.Data.Int.Notation
import Mathlib.Data.Rat.Defs

namespace CppMcp
namespace Cache

open Py (Path)
open Files (FileSystem)
open Export (Acc Exc)

/-- `_CacheKey`; `build_realpath` is empty when there is no build path. -/
structure CacheKey where
  file_realpath : String
  build_realpath : String
  flags_sha1 : String
  deriving DecidableEq, Repr

/-- `_CacheEntry`. -/
structure CacheEntry (TU : Type) where
  tu : TU
  source_mtime_ns : ℤ
  flags_used : List String
  source_path : Path

/-- `TUCache`.  The constructor refuses a capacity that is not positive. -/
structure TUCache (TU : Type) where
  capacity : ℕ
  capacity_pos : 0 < capacity
  store : OrderedDict CacheKey (CacheEntry TU)
  hits : ℕ
  misses : ℕ
  evictions : ℕ

/-- `_make_key`. -/
def makeKey (fs : FileSystem) (sha1 : Py.Sha1) (file_path : Path) (build_path : Option Path)
    (flags : List String) : CacheKey where
  file_realpath := (fs.realpath file_path).str
  build_realpath :=
    match build_path with
    | some build_path => (fs.realpath build_path).str
    | none => ""
  flags_sha1 := sha1.hexdigest (Py.reprTuple flags)

/-- The arguments of a call of `get_or_parse`, apart from the parser. -/
structure Request where
  file_path : Path
  build_path : Option Path
  flags : List String
  deriving DecidableEq, Repr

namespace Request

variable (fs : FileSystem) (sha1 : Py.Sha1) (r : Request)

/-- `key`. -/
def key : CacheKey := makeKey fs sha1 r.file_path r.build_path r.flags

/-- `source_path`. -/
def source_path : Path := fs.realpath r.file_path

/-- The file that the request is about, as the cache and `os.stat` know it. -/
def file : String := (r.source_path fs).str

end Request

namespace TUCache

variable {TU : Type} (c : TUCache TU)

/-- The first locked section of `get_or_parse`: the translation unit on a hit.  An entry
whose file has another modification time is evicted. -/
def lookupSection (key : CacheKey) (mtime : Option ℤ) : Option TU × TUCache TU :=
  match c.store.get key with
  | some entry =>
    if mtime.getD (-1) = entry.source_mtime_ns then
      (some entry.tu, { c with store := c.store.moveToEnd key, hits := c.hits + 1 })
    else
      (none, { c with
        store := c.store.del key, evictions := c.evictions + 1, misses := c.misses + 1 })
  | none => (none, { c with misses := c.misses + 1 })

/-- The second locked section: room is made, then the entry is put at the end. -/
def insertSection (key : CacheKey) (entry : CacheEntry TU) : TUCache TU :=
  { c with
    store := (c.store.popUntilRoom c.capacity).setLast key entry
    evictions := c.evictions + (c.store.len - (c.store.popUntilRoom c.capacity).len) }

/-- What a call of `get_or_parse` leaves: its result with the flag `cache_hit`, the
cache, and the arguments of the call of the parser, if there was one. -/
structure Parsed (TU : Type) where
  result : Acc (TU × Bool)
  cache : TUCache TU
  parser_call : Option (Path × List String)

/-- `get_or_parse`; `old_mtime` and `new_mtime` are what `os.stat` gives before and after
the parser is called. -/
def getOrParse (fs : FileSystem) (sha1 : Py.Sha1) (old_mtime new_mtime : Path → Option ℤ)
    (file_path : Path) (build_path : Option Path) (flags : List String)
    (parser : Path → List String → Acc TU) : Parsed TU :=
  match c.lookupSection (makeKey fs sha1 file_path build_path flags)
      (old_mtime (fs.realpath file_path)) with
  | (some tu, c) => ⟨.ok (tu, true), c, none⟩
  | (none, c) =>
    match parser (fs.realpath file_path) flags with
    | .error exc => ⟨.error exc, c, some (fs.realpath file_path, flags)⟩
    | .ok new_tu =>
      ⟨.ok (new_tu, false),
        c.insertSection (makeKey fs sha1 file_path build_path flags)
          ⟨new_tu, (new_mtime (fs.realpath file_path)).getD 0, flags, fs.realpath file_path⟩,
        some (fs.realpath file_path, flags)⟩

/-- A key that is not stored is missed, and nothing in the store changes. -/
theorem lookupSection_of_get_eq_none {key : CacheKey} (h : c.store.get key = none)
    (mtime : Option ℤ) :
    c.lookupSection key mtime = (none, { c with misses := c.misses + 1 }) := by
  rw [lookupSection, h]

/-- The parser is called with the resolved path and the flags of the request. -/
theorem parser_call_getOrParse {fs : FileSystem} {sha1 : Py.Sha1}
    {old_mtime new_mtime : Path → Option ℤ} {file_path : Path} {build_path : Option Path}
    {flags : List String} {parser : Path → List String → Acc TU} {call : Path × List String}
    (h : (c.getOrParse fs sha1 old_mtime new_mtime file_path build_path flags parser).parser_call =
      some call) : call = (fs.realpath file_path, flags) := by
  unfold getOrParse at h
  split at h
  · exact absurd h (by simp)
  · split at h <;> exact (Option.some.inj h).symm

/-- The keys that `invalidate` removes. -/
def invalidated (file_real : String) (build_real : Option String) (key : CacheKey) : Bool :=
  key.file_realpath == file_real && build_real.all (key.build_realpath == ·)

/-- `invalidate`: how many entries are removed, and the cache without them. -/
def invalidate (fs : FileSystem) (file_path : Path) (build_path : Option Path) :
    ℕ × TUCache TU :=
  let to_remove := c.store.keys.filter
    (invalidated (fs.realpath file_path).str (build_path.map fun p => (fs.realpath p).str))
  (to_remove.length, { c with
    store := to_remove.foldl OrderedDict.del c.store
    evictions := c.evictions + to_remove.length })

/-- `clear`, which counts no evictions. -/
def clear : TUCache TU := { c with store := .empty }

/-- What `stats` returns.  The code rounds the hit rate to a `float`; here it is exact. -/
structure Stats where
  cache_size : ℕ
  cache_capacity : ℕ
  hits : ℕ
  misses : ℕ
  evictions : ℕ
  cache_hit_rate : ℚ

/-- `stats`. -/
def stats : Stats where
  cache_size := c.store.len
  cache_capacity := c.capacity
  hits := c.hits
  misses := c.misses
  evictions := c.evictions
  cache_hit_rate := if 0 < c.hits + c.misses then c.hits / (c.hits + c.misses : ℕ) else 0

/-- The three things that the first section does: it finds an entry that is up to date, it throws a
stale one out, or it finds none; only the first is a hit. -/
theorem lookupSection_cases (key : CacheKey) (mtime : Option ℤ) :
    (∃ entry, c.store.get key = some entry ∧ mtime.getD (-1) = entry.source_mtime_ns ∧
      c.lookupSection key mtime = (some entry.tu,
        { c with store := c.store.moveToEnd key, hits := c.hits + 1 })) ∨
    (∃ entry, c.store.get key = some entry ∧ mtime.getD (-1) ≠ entry.source_mtime_ns ∧
      c.lookupSection key mtime = (none, { c with
        store := c.store.del key, evictions := c.evictions + 1, misses := c.misses + 1 })) ∨
    (c.store.get key = none ∧
      c.lookupSection key mtime = (none, { c with misses := c.misses + 1 })) := by
  unfold lookupSection
  cases hget : c.store.get key with
  | none => exact Or.inr (Or.inr ⟨rfl, rfl⟩)
  | some entry =>
    by_cases hm : mtime.getD (-1) = entry.source_mtime_ns
    · exact Or.inl ⟨entry, rfl, hm, if_pos hm⟩
    · exact Or.inr (Or.inl ⟨entry, rfl, hm, if_neg hm⟩)

/-- The first section stores nothing new: it moves an entry to the end, or takes it out. -/
theorem mem_of_lookupSection {c c' : TUCache TU} {key : CacheKey} {mtime : Option ℤ}
    {tu : Option TU} (h : c.lookupSection key mtime = (tu, c'))
    {item : CacheKey × CacheEntry TU} (hitem : item ∈ c'.store.items) : item ∈ c.store.items := by
  obtain ⟨entry, -, -, hsec⟩ | ⟨entry, -, -, hsec⟩ | ⟨-, hsec⟩ :=
    c.lookupSection_cases key mtime <;>
    rw [hsec] at h <;> obtain ⟨-, rfl⟩ := Prod.mk.inj h
  · exact OrderedDict.mem_items_moveToEnd.mp hitem
  · exact (OrderedDict.mem_items_del.mp hitem).1
  · exact hitem

/-- A hit returns what is stored under the key that was asked for. -/
theorem mem_of_hit {c c' : TUCache TU} {key : CacheKey} {mtime : Option ℤ} {tu : TU}
    (h : c.lookupSection key mtime = (some tu, c')) :
    ∃ entry, (key, entry) ∈ c.store.items ∧ entry.tu = tu := by
  obtain ⟨entry, hget, -, hsec⟩ | ⟨entry, -, -, hsec⟩ | ⟨-, hsec⟩ :=
    c.lookupSection_cases key mtime <;> rw [hsec] at h
  · exact ⟨entry, OrderedDict.mem_of_get hget, Option.some.inj (Prod.mk.inj h).1⟩
  · exact absurd (Prod.mk.inj h).1 (by simp)
  · exact absurd (Prod.mk.inj h).1 (by simp)

/-- The second section stores its entry, and whatever else is stored then was stored before. -/
theorem mem_of_insertSection {c : TUCache TU} {key : CacheKey} {entry : CacheEntry TU}
    {item : CacheKey × CacheEntry TU}
    (hitem : item ∈ (c.insertSection key entry).store.items) :
    item ∈ c.store.items ∨ item = (key, entry) := by
  obtain ⟨h, -⟩ | h := OrderedDict.mem_items_setLast.mp hitem
  · rw [OrderedDict.items_popUntilRoom] at h
    exact Or.inl (List.mem_of_mem_drop h)
  · exact Or.inr h

/-- **The three outcomes of a call:** a hit, a parser that raises, and a new entry. -/
theorem getOrParse_cases (fs : FileSystem) (sha1 : Py.Sha1) (old_mtime new_mtime : Path → Option ℤ)
    (r : Request) (parser : Path → List String → Acc TU) {parsed : Parsed TU}
    (h : c.getOrParse fs sha1 old_mtime new_mtime r.file_path r.build_path r.flags parser = parsed) :
    (∃ entry, (r.key fs sha1, entry) ∈ c.store.items ∧ parsed.result = .ok (entry.tu, true) ∧
      ∀ item ∈ parsed.cache.store.items, item ∈ c.store.items) ∨
    (∃ exc, parser (r.source_path fs) r.flags = .error exc ∧ parsed.result = .error exc ∧
      ∀ item ∈ parsed.cache.store.items, item ∈ c.store.items) ∨
    (∃ entry, parser (r.source_path fs) r.flags = .ok entry.tu ∧
      parsed.result = .ok (entry.tu, false) ∧
      ∀ item ∈ parsed.cache.store.items, item ∈ c.store.items ∨ item = (r.key fs sha1, entry)) := by
  subst h
  unfold getOrParse
  cases hlookup : c.lookupSection (makeKey fs sha1 r.file_path r.build_path r.flags)
      (old_mtime (fs.realpath r.file_path)) with
  | mk found c' =>
    have hkeep : ∀ item ∈ c'.store.items, item ∈ c.store.items :=
      fun _ => mem_of_lookupSection hlookup
    cases found with
    | some tu =>
      obtain ⟨entry, hentry, rfl⟩ := mem_of_hit hlookup
      exact Or.inl ⟨entry, hentry, rfl, hkeep⟩
    | none =>
      cases hparse : parser (fs.realpath r.file_path) r.flags with
      | error exc => exact Or.inr (Or.inl ⟨exc, hparse, rfl, hkeep⟩)
      | ok tu =>
        refine Or.inr (Or.inr ⟨⟨tu, (new_mtime (fs.realpath r.file_path)).getD 0, r.flags,
          fs.realpath r.file_path⟩, hparse, rfl, fun item hitem => ?_⟩)
        exact (mem_of_insertSection hitem).imp_left (hkeep item)

/-- The entry under a key, unless its file has another modification time. -/
def upToDate (key : CacheKey) (mtime : Option ℤ) : Option (CacheEntry TU) :=
  (c.store.get key).filter fun entry => mtime.getD (-1) = entry.source_mtime_ns

/-- **What `get_or_parse` returns:** the entry that is up to date, or else what the parser does. -/
theorem result_getOrParse (fs : FileSystem) (sha1 : Py.Sha1) (old_mtime new_mtime : Path → Option ℤ)
    (file_path : Path) (build_path : Option Path) (flags : List String)
    (parser : Path → List String → Acc TU) :
    (c.getOrParse fs sha1 old_mtime new_mtime file_path build_path flags parser).result =
      match c.upToDate (makeKey fs sha1 file_path build_path flags)
          (old_mtime (fs.realpath file_path)) with
      | some entry => .ok (entry.tu, true)
      | none => (parser (fs.realpath file_path) flags).map fun tu => (tu, false) := by
  have hparsed : ∀ x : Acc TU, ∀ c' : TUCache TU, ∀ insert : TU → TUCache TU,
      ∀ call : Option (Path × List String),
      (match x with
        | .error exc => (⟨.error exc, c', call⟩ : Parsed TU)
        | .ok new_tu => ⟨.ok (new_tu, false), insert new_tu, call⟩).result =
      x.map fun tu => (tu, false) := by
    intro x c' insert call
    cases x <;> rfl
  unfold getOrParse upToDate
  obtain ⟨entry, hget, hm, hsec⟩ | ⟨entry, hget, hm, hsec⟩ | ⟨hget, hsec⟩ :=
    c.lookupSection_cases (makeKey fs sha1 file_path build_path flags)
      (old_mtime (fs.realpath file_path)) <;> rw [hsec, hget]
  · rw [Option.filter_some, if_pos (decide_eq_true hm)]
  · rw [Option.filter_some, if_neg (by simpa using hm)]
    exact hparsed _ _ _ _
  · exact hparsed _ _ _ _

/-- What has just been put in is found, if the file is as it was. -/
theorem lookupSection_insertSection (key : CacheKey) (entry : CacheEntry TU) {mtime : Option ℤ}
    (h : mtime.getD (-1) = entry.source_mtime_ns) :
    ((c.insertSection key entry).lookupSection key mtime).1 = some entry.tu := by
  have hget : (c.insertSection key entry).store.get key = some entry :=
    OrderedDict.get_setLast_self key entry
  rw [lookupSection, hget]
  exact congrArg Prod.fst (if_pos h)

/-- `invalidate` keeps the entries of other files, and of other build paths if one is given, in
their order. -/
theorem items_invalidate (fs : FileSystem) (file_path : Path) (build_path : Option Path) :
    (c.invalidate fs file_path build_path).2.store.items = c.store.items.filter fun item =>
      !invalidated (fs.realpath file_path).str (build_path.map fun p => (fs.realpath p).str)
        item.1 := by
  rw [invalidate, OrderedDict.items_foldl_del]
  refine List.filter_congr fun item hitem => ?_
  have hkey : item.1 ∈ c.store.keys := OrderedDict.mem_keys_iff.mpr ⟨item.2, hitem⟩
  rw [List.contains_eq_mem, Bool.not_inj_iff, Bool.eq_iff_iff, decide_eq_true_iff,
    List.mem_filter, and_iff_right hkey]

/-- `invalidate` counts what it removes, so nothing leaves the store without being reported. -/
theorem len_invalidate (fs : FileSystem) (file_path : Path) (build_path : Option Path) :
    (c.invalidate fs file_path build_path).2.store.len +
      (c.invalidate fs file_path build_path).1 = c.store.len := by
  have hlen := List.length_eq_length_filter_add (l := c.store.items) fun item =>
    invalidated (fs.realpath file_path).str (build_path.map fun p => (fs.realpath p).str) item.1
  rw [OrderedDict.len, OrderedDict.len, hlen, items_invalidate, Nat.add_comm, invalidate,
    OrderedDict.keys, List.filter_map, List.length_map]
  rfl

/-- In a new cache nothing is found. -/
def ofCapacity (capacity : ℕ) (capacity_pos : 0 < capacity) : TUCache TU :=
  ⟨capacity, capacity_pos, .empty, 0, 0, 0⟩

end TUCache

/-- A file system with one file. -/
def oneFile : FileSystem := ⟨[(["main.cpp"], .file)], by decide, by decide, by decide⟩

/-- The file, without a build path and without flags. -/
def mainRequest : Request := ⟨["main.cpp"], none, []⟩

end Cache
end CppMcp
