/-
# A session over files that change

Files are written while a session is in use, and links are moved.  Each request meets the world as it is
then.  The cache compares the modification time of the source file and nothing else, so all depends on
whether a file that still has its modification time is still parsed the same (`Dated`).  If so, what is
stored is current wherever it can be found (`Current`), and a session returns what libclang returns at
the time of the request, whatever it has been asked before (`Current.answer`).

The race that `Cache.Freshness` describes, and a header that changes while the file that includes it does
not, are the two ways to fall out of `Dated`.
-/

import CppMcp.Cache.Views
import Mathlib.Data.Set.Function

namespace CppMcp
namespace Cache

open Py (Path)
open Files (FileSystem)
open Export (Acc)

variable {TU TU' : Type}

/-- **Modification times can be trusted** in these worlds: the time that is noted after a parse in one of
them is found by a request in another only if the file is parsed the same there.  The digests of the
texts of `M` do not collide. -/
structure Dated (W : Set (World TU)) (M : Set String) : Prop where
  sha1_eq : ∀ w ∈ W, ∀ w' ∈ W, w.sha1 = w'.sha1
  sha1_injOn : ∀ w ∈ W, Set.InjOn w.sha1.hexdigest M
  parse_eq : ∀ w ∈ W, ∀ w' ∈ W, ∀ call : ParseCall,
    (w'.old_mtime call.path).getD (-1) = (w.new_mtime call.path).getD 0 →
      w'.index_parse call = w.index_parse call

/-- What a request finds in one of the worlds is what libclang returns for it there, if its flags are
among those that can be told apart. -/
def Current (W : Set (World TU)) (M : Set String) (s : ClangSession TU) : Prop :=
  ∀ item ∈ s.cache.store.items, ∀ w ∈ W, ∀ r : SessionRequest, r.Among M →
    item.1 = r.cacheRequest.key w.fs w.sha1 →
    (w.old_mtime (w.fs.realpath r.file_path)).getD (-1) = item.2.source_mtime_ns →
      w.index_parse (r.parseCall w.fs) = .ok item.2.tu

/-- A session that stores nothing is current, wherever and for whatever requests: so a server starts, and
so it is after the cache has been cleared. -/
theorem Current.of_empty {W : Set (World TU)} {M : Set String} {s : ClangSession TU}
    (h : s.cache.store = .empty) : Current W M s := by
  intro item hitem
  rw [h] at hitem
  exact absurd hitem List.not_mem_nil

section Serve

variable {W : Set (World TU)} {M : Set String} {w : World TU} {s : ClangSession TU}
  {r : SessionRequest}

/-- Requests with one key are the same to libclang, each in its world.  The two worlds may have different
links, so the path that is asked for is compared as it is resolved. -/
theorem Dated.parseCall_eq (hdated : Dated W M) {w' : World TU} (hw : w ∈ W) (hw' : w' ∈ W)
    {r' : SessionRequest} (hr : r.Among M) (hr' : r'.Among M)
    (hkey : r.cacheRequest.key w.fs w.sha1 = r'.cacheRequest.key w'.fs w'.sha1) :
    r.parseCall w.fs = r'.parseCall w'.fs := by
  rw [hdated.sha1_eq w hw w' hw'] at hkey
  have hpath := Py.str_inj (FileSystem.plain_realpath w.fs r.slashless)
    (FileSystem.plain_realpath w'.fs r'.slashless) (congrArg CacheKey.file_realpath hkey)
  obtain ⟨hflags, hoptions⟩ := effectiveFlags_inj hr.clean hr'.clean (Py.reprTuple_injective
    (hdated.sha1_injOn w' hw' hr.digested hr'.digested (congrArg CacheKey.flags_sha1 hkey)))
  rw [SessionRequest.parseCall, SessionRequest.parseCall, hpath, hflags, hoptions]

/-- **The outcomes of a request, with their modification times:** a hit on an entry as old as the
file, an exception, or a new entry with the time that the file has then. -/
theorem dated_cases (w : World TU) (s : ClangSession TU) (hr : r.Clean) :
    (∃ entry, (r.cacheRequest.key w.fs w.sha1, entry) ∈ s.cache.store.items ∧
      (w.old_mtime (w.fs.realpath r.file_path)).getD (-1) = entry.source_mtime_ns ∧
      (s.serve w r).result = .ok (entry.tu, true) ∧
      ∀ item ∈ (s.serve w r).session.cache.store.items, item ∈ s.cache.store.items) ∨
    (s.serve w r).result = (w.index_parse (r.parseCall w.fs)).map (fun tu => (tu, false)) ∧
      ∀ item ∈ (s.serve w r).session.cache.store.items, item ∈ s.cache.store.items ∨
        item.1 = r.cacheRequest.key w.fs w.sha1 ∧
        w.index_parse (r.parseCall w.fs) = .ok item.2.tu ∧
        item.2.source_mtime_ns = (w.new_mtime (w.fs.realpath r.file_path)).getD 0 := by
  rw [← parserCall_of_clean hr]
  unfold ClangSession.serve ClangSession.getOrParseSync TUCache.getOrParse
  obtain ⟨entry, hget, hm, hsec⟩ | hmiss := s.cache.lookupSection_cases
    (makeKey w.fs w.sha1 r.file_path r.build_path (effectiveFlags r.flags r.options))
    (w.old_mtime (w.fs.realpath r.file_path))
  · refine Or.inl ⟨entry, OrderedDict.mem_of_get hget, hm, ?_, fun item hitem => ?_⟩
    · rw [hsec]
    · rw [hsec] at hitem
      exact TUCache.mem_of_lookupSection hsec hitem
  · refine Or.inr ?_
    obtain ⟨c, hsec⟩ : ∃ c, s.cache.lookupSection
        (makeKey w.fs w.sha1 r.file_path r.build_path (effectiveFlags r.flags r.options))
        (w.old_mtime (w.fs.realpath r.file_path)) = (none, c) := by
      obtain ⟨_, -, -, hsec⟩ | ⟨-, hsec⟩ := hmiss <;> exact ⟨_, hsec⟩
    rw [hsec]
    dsimp only
    cases hparse : w.index_parse (parserCall r.options (w.fs.realpath r.file_path)
        (effectiveFlags r.flags r.options)) with
    | error exc => exact ⟨rfl, fun item hitem => Or.inl (TUCache.mem_of_lookupSection hsec hitem)⟩
    | ok tu =>
      refine ⟨rfl, fun item hitem => ?_⟩
      rcases TUCache.mem_of_insertSection hitem with hitem | rfl
      · exact Or.inl (TUCache.mem_of_lookupSection hsec hitem)
      · exact Or.inr ⟨rfl, rfl, rfl⟩

/-- **A request is answered with what libclang returns for it now,** whether it is a hit or a miss. -/
theorem Current.answer (h : Current W M s) (hw : w ∈ W) (hr : r.Among M) :
    (s.serve w r).result.map Prod.fst = w.index_parse (r.parseCall w.fs) := by
  obtain ⟨entry, hentry, hm, hresult, -⟩ | ⟨hresult, -⟩ := dated_cases w s hr.clean <;> rw [hresult]
  · exact (h _ hentry w hw r hr rfl hm).symm
  · cases w.index_parse (r.parseCall w.fs) <;> rfl

/-- **What is stored stays current.**  A new entry carries the modification time that is noted after the
parse, so a later request in another world that finds it meets a file that is parsed the same there. -/
theorem Current.serve (h : Current W M s) (hdated : Dated W M) (hw : w ∈ W) (hr : r.Among M) :
    Current W M (s.serve w r).session := by
  intro item hitem w' hw' r' hr' hkey hm
  obtain ⟨-, -, -, -, hkeep⟩ | ⟨-, hkeep⟩ := dated_cases w s hr.clean
  · exact h item (hkeep item hitem) w' hw' r' hr' hkey hm
  · rcases hkeep item hitem with hitem | ⟨hthis, hparse, hnoted⟩
    · exact h item hitem w' hw' r' hr' hkey hm
    · have hcall := hdated.parseCall_eq hw hw' hr hr' (hthis.symm.trans hkey)
      have hpath : w.fs.realpath r.file_path = w'.fs.realpath r'.file_path :=
        congrArg ParseCall.path hcall
      have hsame : (w'.old_mtime (w.fs.realpath r.file_path)).getD (-1) =
          (w.new_mtime (w.fs.realpath r.file_path)).getD 0 := by
        rw [hpath, hm, hnoted, hpath]
      rw [← hcall, ← hparse]
      exact hdated.parse_eq w hw w' hw' _ hsame

end Serve

/-! ### Views -/

section Views

variable {W : Set (World TU)} {M : Set String} {s : ClangSession TU} (f : TU → TU')

/-- Modification times that can be trusted for the units can be trusted for what a tool reads of them. -/
theorem Dated.map (h : Dated W M) : Dated (World.map f '' W) M where
  sha1_eq := by
    rintro _ ⟨w, hw, rfl⟩ _ ⟨w', hw', rfl⟩
    exact h.sha1_eq w hw w' hw'
  sha1_injOn := by
    rintro _ ⟨w, hw, rfl⟩
    exact h.sha1_injOn w hw
  parse_eq := by
    rintro _ ⟨w, hw, rfl⟩ _ ⟨w', hw', rfl⟩ call hm
    exact congrArg (Except.map f) (h.parse_eq w hw w' hw' call hm)

/-- A view of a current session is current: what a tool reads of the units is as up to date as they
are. -/
theorem Current.map (h : Current W M s) : Current (World.map f '' W) M (s.map f) := by
  rintro item hitem _ ⟨w, hw, rfl⟩ r hr hkey hm
  obtain ⟨item, hstored, rfl⟩ := List.mem_map.mp hitem
  change (w.index_parse (r.parseCall w.fs)).map f = _
  rw [h item hstored w hw r hr hkey hm]
  rfl

end Views

end Cache
end CppMcp
