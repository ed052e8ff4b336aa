/-
# The cache with many threads

Any number of threads call `get_or_parse`, `invalidate` and `clear`.  The lock makes the
locked sections atomic; between the two sections of a call other threads may do anything.
A call that misses goes through four steps: its first section, the parser, `os.stat`, and its
second section.  Where it has got to is kept beside the cache (`Running`).

What a step meets outside (what `os.stat` and the parser give) is part of its event, so
a run may meet anything.  `accounted` is the invariant: the counters balance, and what has been
evicted, is stored or is still being parsed was missed before.
-/

import CppMcp.Lib.Trace
import CppMcp.Cache.TUCache
import Mathlib.Algebra.Order.Field.Basic
import Mathlib.Algebra.Order.Field.Rat

namespace CppMcp
namespace Cache

open Py (Path)
open Files (FileSystem)
open Export (Acc Exc)

/-- How far a call that has missed has got. -/
inductive Phase (TU : Type)
  | missed
  | parsed (new_tu : TU)
  | stated (new_tu : TU) (new_mtime : Option ℤ)

/-- A call between its two sections. -/
structure Running (TU : Type) where
  request : Request
  phase : Phase TU

/-- The cache, and the calls that are between their two sections, by thread. -/
structure Threads (Thread TU : Type) where
  cache : TUCache TU
  running : OrderedDict Thread (Running TU)

/-- What a thread does, with what it meets outside: `mtime` and `new_mtime` are what
`os.stat` gives, `result` is what the parser returns or raises. -/
inductive Event (Thread TU : Type)
  | lookup (thread : Thread) (request : Request) (mtime : Option ℤ)
  | parse (thread : Thread) (result : Acc TU)
  | stat (thread : Thread) (new_mtime : Option ℤ)
  | insert (thread : Thread)
  | invalidate (file_path : Path) (build_path : Option Path)
  | clear

/-- The event is a first section. -/
def Event.isLookup {Thread TU : Type} : Event Thread TU → Bool
  | .lookup .. => true
  | _ => false

variable {Thread TU : Type} [DecidableEq Thread] (fs : FileSystem) (sha1 : Py.Sha1)

/-- One step of one thread. -/
inductive Step : Threads Thread TU → Event Thread TU → Threads Thread TU → Prop
  | hit {s : Threads Thread TU} {t : Thread} {r : Request} {mtime : Option ℤ} {tu : TU}
      {cache : TUCache TU} (idle : s.running.get t = none)
      (lookup : s.cache.lookupSection (r.key fs sha1) mtime = (some tu, cache)) :
      Step s (.lookup t r mtime) { s with cache }
  | miss {s : Threads Thread TU} {t : Thread} {r : Request} {mtime : Option ℤ}
      {cache : TUCache TU} (idle : s.running.get t = none)
      (lookup : s.cache.lookupSection (r.key fs sha1) mtime = (none, cache)) :
      Step s (.lookup t r mtime) ⟨cache, s.running.set t ⟨r, .missed⟩⟩
  | parse {s : Threads Thread TU} {t : Thread} {r : Request} {tu : TU}
      (at_ : s.running.get t = some ⟨r, .missed⟩) :
      Step s (.parse t (.ok tu)) { s with running := s.running.set t ⟨r, .parsed tu⟩ }
  | raise {s : Threads Thread TU} {t : Thread} {r : Request} {exc : Exc}
      (at_ : s.running.get t = some ⟨r, .missed⟩) :
      Step s (.parse t (.error exc)) { s with running := s.running.del t }
  | stat {s : Threads Thread TU} {t : Thread} {r : Request} {tu : TU} {mtime : Option ℤ}
      (at_ : s.running.get t = some ⟨r, .parsed tu⟩) :
      Step s (.stat t mtime) { s with running := s.running.set t ⟨r, .stated tu mtime⟩ }
  | insert {s : Threads Thread TU} {t : Thread} {r : Request} {tu : TU} {mtime : Option ℤ}
      (at_ : s.running.get t = some ⟨r, .stated tu mtime⟩) :
      Step s (.insert t) ⟨s.cache.insertSection (r.key fs sha1)
        ⟨tu, mtime.getD 0, r.flags, r.source_path fs⟩, s.running.del t⟩
  | invalidate {s : Threads Thread TU} {file_path : Path} {build_path : Option Path} :
      Step s (.invalidate file_path build_path)
        { s with cache := (s.cache.invalidate fs file_path build_path).2 }
  | clear {s : Threads Thread TU} : Step s .clear { s with cache := s.cache.clear }

/-- The thread that takes the step, where it is a step of a call. -/
def Event.thread {Thread TU : Type} : Event Thread TU → Option Thread
  | .lookup thread .. | .parse thread _ | .stat thread _ | .insert thread => some thread
  | .invalidate .. | .clear => none

/-- No thread has called yet. -/
def Threads.ofCapacity (capacity : ℕ) (capacity_pos : 0 < capacity) : Threads Thread TU :=
  ⟨.ofCapacity capacity capacity_pos, .empty⟩

/-- **The books balance.**  Every evicted or stored entry and every call that is still parsing has
been counted as a miss, each as one of its own. -/
structure Accounted (capacity : ℕ) (events : List (Event Thread TU)) (s : Threads Thread TU) :
    Prop where
  capacity_eq : s.cache.capacity = capacity
  size_le : s.cache.store.len ≤ capacity
  lookups : s.cache.hits + s.cache.misses = events.countP Event.isLookup
  missed : s.cache.evictions + s.cache.store.len + s.running.len ≤ s.cache.misses

section Sections

variable {c c' : TUCache TU} {key : CacheKey} {mtime : Option ℤ}

/-- A hit is counted, and nothing leaves the store. -/
theorem counters_of_hit {tu : TU} (h : c.lookupSection key mtime = (some tu, c')) :
    c'.capacity = c.capacity ∧ c'.store.len = c.store.len ∧ c'.hits = c.hits + 1 ∧
      c'.misses = c.misses ∧ c'.evictions = c.evictions := by
  obtain ⟨entry, -, -, hsec⟩ | ⟨entry, -, -, hsec⟩ | ⟨-, hsec⟩ := c.lookupSection_cases key mtime <;>
    rw [hsec] at h
  · obtain ⟨-, rfl⟩ := Prod.mk.inj h
    exact ⟨rfl, OrderedDict.len_moveToEnd key, rfl, rfl, rfl⟩
  · exact absurd (congrArg Prod.fst h) (by simp)
  · exact absurd (congrArg Prod.fst h) (by simp)

/-- A miss is counted, and what leaves the store is counted as evicted. -/
theorem counters_of_miss (h : c.lookupSection key mtime = (none, c')) :
    c'.capacity = c.capacity ∧ c'.store.len ≤ c.store.len ∧ c'.hits = c.hits ∧
      c'.misses = c.misses + 1 ∧ c'.evictions + c'.store.len = c.evictions + c.store.len := by
  obtain ⟨entry, -, -, hsec⟩ | ⟨entry, hget, -, hsec⟩ | ⟨-, hsec⟩ :=
    c.lookupSection_cases key mtime <;> rw [hsec] at h
  · exact absurd (congrArg Prod.fst h) (by simp)
  · obtain ⟨-, rfl⟩ := Prod.mk.inj h
    have hlen := OrderedDict.len_del_of_get hget
    refine ⟨rfl, OrderedDict.len_del_le key, rfl, rfl, ?_⟩
    change c.evictions + 1 + (c.store.del key).len = _
    omega
  · obtain ⟨-, rfl⟩ := Prod.mk.inj h
    exact ⟨rfl, le_rfl, rfl, rfl, rfl⟩

/-- Room is made before an entry is put in. -/
theorem len_insertSection_le (c : TUCache TU) (key : CacheKey) (entry : CacheEntry TU) :
    (c.insertSection key entry).store.len ≤ c.capacity := by
  have hpos := c.capacity_pos
  have hroom := OrderedDict.len_popUntilRoom c.store c.capacity
  have hset := OrderedDict.len_setLast_le (d := c.store.popUntilRoom c.capacity) key entry
  change ((c.store.popUntilRoom c.capacity).setLast key entry).len ≤ _
  omega

/-- Only the entry that is put in is new. -/
theorem evictions_insertSection_le (c : TUCache TU) (key : CacheKey) (entry : CacheEntry TU) :
    (c.insertSection key entry).evictions + (c.insertSection key entry).store.len ≤
      c.evictions + c.store.len + 1 := by
  have hroom := OrderedDict.len_popUntilRoom c.store c.capacity
  have hset := OrderedDict.len_setLast_le (d := c.store.popUntilRoom c.capacity) key entry
  change c.evictions + (c.store.len - (c.store.popUntilRoom c.capacity).len) +
    ((c.store.popUntilRoom c.capacity).setLast key entry).len ≤ _
  omega

end Sections

variable {fs sha1} {capacity : ℕ} {events : List (Event Thread TU)} {s s' : Threads Thread TU}

/-- Every step keeps the books balanced, whichever thread takes it: the two sections of a call are
steps of their own, and other threads may step between them. -/
theorem Accounted.step {e : Event Thread TU} (h : Accounted capacity events s)
    (hstep : Step fs sha1 s e s') : Accounted capacity (events ++ [e]) s' := by
  obtain ⟨hcap, hsize, hlookups, hmissed⟩ := h
  have hcount : (events ++ [e]).countP Event.isLookup =
      events.countP Event.isLookup + if e.isLookup then 1 else 0 := by
    rw [List.countP_append, List.countP_singleton]
  cases hstep with
  | hit _ lookup =>
    obtain ⟨hcap', hlen, hhits, hmisses, hevict⟩ := counters_of_hit lookup
    refine ⟨hcap'.trans hcap, hlen.trans_le hsize, ?_, ?_⟩
    · rw [hcount, hhits, hmisses, ← hlookups, Event.isLookup, if_pos rfl]
      omega
    · rw [hevict, hlen, hmisses]
      exact hmissed
  | miss idle lookup =>
    obtain ⟨hcap', hlen, hhits, hmisses, hevict⟩ := counters_of_miss lookup
    refine ⟨hcap'.trans hcap, hlen.trans hsize, ?_, ?_⟩
    · rw [hcount, hhits, hmisses, ← hlookups, Event.isLookup, if_pos rfl]
      omega
    · rw [hevict, hmisses, OrderedDict.len_set_of_get_eq_none idle]
      omega
  | parse at_ =>
    refine ⟨hcap, hsize, hcount ▸ hlookups, ?_⟩
    rw [OrderedDict.len_set_of_get at_]
    exact hmissed
  | raise at_ =>
    have hlen := OrderedDict.len_del_of_get at_
    exact ⟨hcap, hsize, hcount ▸ hlookups, by dsimp only; omega⟩
  | stat at_ =>
    refine ⟨hcap, hsize, hcount ▸ hlookups, ?_⟩
    rw [OrderedDict.len_set_of_get at_]
    exact hmissed
  | @insert t r tu mtime at_ =>
    have hlen := OrderedDict.len_del_of_get at_
    have hevict := evictions_insertSection_le s.cache (r.key fs sha1)
      ⟨tu, mtime.getD 0, r.flags, r.source_path fs⟩
    refine ⟨hcap, hcap ▸ len_insertSection_le .., hcount ▸ hlookups, ?_⟩
    have hmisses : (s.cache.insertSection (r.key fs sha1)
      ⟨tu, mtime.getD 0, r.flags, r.source_path fs⟩).misses = s.cache.misses := rfl
    dsimp only
    omega
  | @invalidate file_path build_path =>
    have hlen := s.cache.len_invalidate fs file_path build_path
    refine ⟨hcap, by dsimp only; omega, hcount ▸ hlookups, ?_⟩
    change s.cache.evictions + (s.cache.invalidate fs file_path build_path).1 +
      (s.cache.invalidate fs file_path build_path).2.store.len + s.running.len ≤ s.cache.misses
    omega
  | clear =>
    refine ⟨hcap, Nat.zero_le _, hcount ▸ hlookups, ?_⟩
    change s.cache.evictions + 0 + s.running.len ≤ s.cache.misses
    omega

/-- The counters balance after every run, by induction over it. -/
theorem accounted_of_run {capacity_pos : 0 < capacity}
    (h : Trace.Run (Step fs sha1) (.ofCapacity capacity capacity_pos) events s) :
    Accounted capacity events s :=
  h.invariant ⟨rfl, Nat.zero_le _, rfl, le_rfl⟩ fun _ _ _ _ _ hacc hstep => hacc.step hstep

/-- **The cache under any interleaving.** In every state that any number of threads can bring it to,
it is within its capacity and has no key twice, each lookup has been counted as a hit or a miss, and
no more has been evicted or is stored than has been missed. -/
theorem accounted (fs : FileSystem) (sha1 : Py.Sha1) (capacity : ℕ) (capacity_pos : 0 < capacity)
    (events : List (Event Thread TU)) (s : Threads Thread TU)
    (h : Trace.Run (Step fs sha1) (.ofCapacity capacity capacity_pos) events s) :
    s.cache.store.len ≤ capacity ∧ s.cache.store.keys.Nodup ∧
      s.cache.hits + s.cache.misses = events.countP Event.isLookup ∧
      s.cache.evictions + s.cache.store.len ≤ s.cache.misses := by
  have hacc := accounted_of_run h
  exact ⟨hacc.size_le, s.cache.store.nodup, hacc.lookups, (Nat.le_add_right ..).trans hacc.missed⟩

/-- **What `stats` reports** after any run: no more entries than there is room for, and the share
of the lookups that were hits, which is a number from 0 to 1. -/
theorem stats_of_run {capacity_pos : 0 < capacity}
    (h : Trace.Run (Step fs sha1) (.ofCapacity capacity capacity_pos) events s) :
    s.cache.stats.cache_capacity = capacity ∧ s.cache.stats.cache_size ≤ capacity ∧
      s.cache.stats.cache_hit_rate * events.countP Event.isLookup = s.cache.stats.hits ∧
      0 ≤ s.cache.stats.cache_hit_rate ∧ s.cache.stats.cache_hit_rate ≤ 1 := by
  have hacc := accounted_of_run h
  have hrate : s.cache.stats.cache_hit_rate =
      if 0 < s.cache.hits + s.cache.misses then
        (s.cache.hits : ℚ) / (s.cache.hits + s.cache.misses : ℕ) else 0 := rfl
  refine ⟨hacc.capacity_eq, hacc.size_le, ?_⟩
  rw [← hacc.lookups, hrate]
  split_ifs with hpos
  · have hpos' : (0 : ℚ) < (s.cache.hits + s.cache.misses : ℕ) := Nat.cast_pos.mpr hpos
    refine ⟨div_mul_cancel₀ _ hpos'.ne', div_nonneg (Nat.cast_nonneg _) hpos'.le, ?_⟩
    exact (div_le_one hpos').mpr (Nat.cast_le.mpr (Nat.le_add_right _ _))
  · have hzero : s.cache.hits = 0 := by omega
    refine ⟨?_, le_rfl, zero_le_one⟩
    rw [zero_mul]
    exact (congrArg (fun n : ℕ => (n : ℚ)) hzero).symm

/-- How a call has got to where it is after a step: another thread took the step, or it is a
step of the call itself. -/
theorem running_of_step {e : Event Thread TU} (hstep : Step fs sha1 s e s') {t : Thread}
    {running : Running TU} (h : s'.running.get t = some running) :
    (e.thread ≠ some t ∧ s.running.get t = some running) ∨
    (∃ mtime, e = .lookup t running.request mtime ∧ running.phase = .missed) ∨
    (∃ tu, e = .parse t (.ok tu) ∧ s.running.get t = some ⟨running.request, .missed⟩ ∧
      running.phase = .parsed tu) ∨
    (∃ tu mtime, e = .stat t mtime ∧ s.running.get t = some ⟨running.request, .parsed tu⟩ ∧
      running.phase = .stated tu mtime) := by
  have other {t' : Thread} (ht : t ≠ t') : some t' ≠ some t := fun h => ht (Option.some.inj h).symm
  cases hstep with
  | @hit t' _ _ _ _ idle =>
    refine Or.inl ⟨other fun ht => ?_, h⟩
    exact absurd (h.symm.trans (ht ▸ idle)) (by simp)
  | @miss t' r mtime _ idle =>
    obtain ⟨rfl, rfl⟩ | ⟨ht, hget⟩ := OrderedDict.eq_some_of_get_set h
    · exact Or.inr (Or.inl ⟨mtime, rfl, rfl⟩)
    · exact Or.inl ⟨other ht, hget⟩
  | @parse t' r tu at_ =>
    obtain ⟨rfl, rfl⟩ | ⟨ht, hget⟩ := OrderedDict.eq_some_of_get_set h
    · exact Or.inr (Or.inr (Or.inl ⟨tu, rfl, at_, rfl⟩))
    · exact Or.inl ⟨other ht, hget⟩
  | @raise t' r exc at_ =>
    obtain ⟨ht, hget⟩ := OrderedDict.eq_some_of_get_del h
    exact Or.inl ⟨other ht, hget⟩
  | @stat t' r tu mtime at_ =>
    obtain ⟨rfl, rfl⟩ | ⟨ht, hget⟩ := OrderedDict.eq_some_of_get_set h
    · exact Or.inr (Or.inr (Or.inr ⟨tu, mtime, rfl, at_, rfl⟩))
    · exact Or.inl ⟨other ht, hget⟩
  | @insert t' r tu mtime at_ =>
    obtain ⟨ht, hget⟩ := OrderedDict.eq_some_of_get_del h
    exact Or.inl ⟨other ht, hget⟩
  | invalidate => exact Or.inl ⟨by simp [Event.thread], h⟩
  | clear => exact Or.inl ⟨by simp [Event.thread], h⟩

/-- An entry that is stored after a step was stored before, or a call has just put it in. -/
theorem stored_of_step {e : Event Thread TU} (hstep : Step fs sha1 s e s')
    {item : CacheKey × CacheEntry TU} (h : item ∈ s'.cache.store.items) :
    item ∈ s.cache.store.items ∨ ∃ t r tu mtime, e = .insert t ∧
      s.running.get t = some ⟨r, .stated tu mtime⟩ ∧
      item = (r.key fs sha1, ⟨tu, mtime.getD 0, r.flags, r.source_path fs⟩) := by
  cases hstep with
  | hit _ lookup => exact Or.inl (TUCache.mem_of_lookupSection lookup h)
  | miss _ lookup => exact Or.inl (TUCache.mem_of_lookupSection lookup h)
  | parse | raise | stat => exact Or.inl h
  | insert at_ =>
    obtain h | h := TUCache.mem_of_insertSection h
    · exact Or.inl h
    · exact Or.inr ⟨_, _, _, _, rfl, at_, h⟩
  | @invalidate file_path build_path =>
    have h : item ∈ (s.cache.invalidate fs file_path build_path).2.store.items := h
    rw [TUCache.items_invalidate] at h
    exact Or.inl (List.mem_of_mem_filter h)
  | clear => exact absurd h List.not_mem_nil

/-- **A call that is not disturbed is `getOrParse`:** if no other thread steps in between, its
sections together do to the cache what the function does. -/
theorem run_getOrParse {t : Thread} (idle : s.running.get t = none)
    (old_mtime new_mtime : Path → Option ℤ) (r : Request) (parser : Path → List String → Acc TU) :
    ∃ events, Trace.Run (Step fs sha1) s events ⟨(s.cache.getOrParse fs sha1 old_mtime new_mtime
      r.file_path r.build_path r.flags parser).cache, s.running⟩ := by
  unfold TUCache.getOrParse
  have hdel : s.running.del t = s.running := OrderedDict.del_of_get_eq_none idle
  cases hlookup : s.cache.lookupSection (makeKey fs sha1 r.file_path r.build_path r.flags)
      (old_mtime (fs.realpath r.file_path)) with
  | mk found cache =>
    cases found with
    | some tu => exact ⟨_, .single (.hit idle hlookup)⟩
    | none =>
      have hmissed : (s.running.set t ⟨r, .missed⟩).get t = some ⟨r, .missed⟩ :=
        OrderedDict.get_set_self ..
      cases parser (fs.realpath r.file_path) r.flags with
      | error exc =>
        have hrun : Trace.Run (Step fs sha1) s [.lookup t r _, .parse t (.error exc)] _ :=
          .cons (.miss idle hlookup) (.single (.raise hmissed))
        rw [OrderedDict.del_set, hdel] at hrun
        exact ⟨_, hrun⟩
      | ok tu =>
        have hrun : Trace.Run (Step fs sha1) s [.lookup t r _, .parse t (.ok tu),
            .stat t (new_mtime (fs.realpath r.file_path)), .insert t] _ :=
          .cons (.miss idle hlookup) <| .cons (.parse hmissed) <|
            .cons (.stat (OrderedDict.get_set_self ..)) <|
              .single (.insert (OrderedDict.get_set_self ..))
        rw [OrderedDict.del_set, OrderedDict.del_set, OrderedDict.del_set, hdel] at hrun
        exact ⟨_, hrun⟩

/-! ### Two threads -/

/-- Two threads miss, the parser raises in one of them, and the other stores its entry. -/
def twoMisses : List (Event ℕ String) :=
  [.lookup 0 mainRequest (some 1), .lookup 1 mainRequest (some 1), .parse 0 (.ok "TU"),
    .parse 1 (.error ⟨"TranslationUnitLoadError", ""⟩), .stat 0 (some 2), .insert 0]

/-- `accounted` for two threads that miss the same key one after the other, of which one parser
raises. -/
theorem accounted_twoMisses : ∃ s : Threads ℕ String, s.cache.store.len ≤ 1 ∧
    s.cache.store.keys.Nodup ∧ s.cache.hits + s.cache.misses = twoMisses.countP Event.isLookup ∧
      s.cache.evictions + s.cache.store.len ≤ s.cache.misses :=
  ⟨_, accounted oneFile default 1 Nat.one_pos twoMisses _ <|
    .cons (.miss rfl rfl) <| .cons (.miss rfl rfl) <| .cons (.parse rfl) <|
      .cons (.raise rfl) <| .cons (.stat rfl) <| .cons (.insert rfl) .nil⟩

end Cache
end CppMcp
