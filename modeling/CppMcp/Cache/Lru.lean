/-
# The cache is an LRU cache

A thread that runs alone, with parsers that do not raise.  Read from the entry used last to
the entry used longest ago, the store of `TUCache` is the ideal list of `Lru`
(`recency_foldl_apply`): a request whose file is as it was when its entry was stored moves the
entry to the front, and any other request puts a new entry in front.

The ideal list keeps what was asked for most recently.  So as long as nothing is
invalidated and no file changes, a request hits if and only if its key is among the `capacity`
distinct keys asked for last (`refines_lru`).  A file that is not there counts as changed: a
lookup takes its modification time to be -1, and an entry is stored with 0.
-/

import CppMcp.Lib.Lru
import CppMcp.Cache.TUCache

namespace CppMcp
namespace Cache

open Py (Path)
open Files (FileSystem)

/-- A call of one of the methods.  `old_mtime` and `new_mtime` are what `os.stat` gives before and
after the parser is called. -/
inductive Operation (TU : Type)
  | get_or_parse (request : Request) (old_mtime new_mtime : Path → Option ℤ)
      (parser : Path → List String → TU)
  | invalidate (file_path : Path) (build_path : Option Path)
  | clear

section Machines

variable {TU : Type} (fs : FileSystem) (sha1 : Py.Sha1)

/-- What the operation does to the cache. -/
def Operation.apply (c : TUCache TU) : Operation TU → TUCache TU
  | .get_or_parse r old_mtime new_mtime parser =>
    (c.getOrParse fs sha1 old_mtime new_mtime r.file_path r.build_path r.flags
      fun path flags => .ok (parser path flags)).cache
  | .invalidate file_path build_path => (c.invalidate fs file_path build_path).2
  | .clear => c.clear

/-- The file of the entry is as it was when the entry was stored. -/
def Request.unchanged (r : Request) (old_mtime : Path → Option ℤ) (entry : CacheEntry TU) : Bool :=
  (old_mtime (r.source_path fs)).getD (-1) == entry.source_mtime_ns

/-- The entry that a request stores. -/
def Request.newEntry (r : Request) (new_mtime : Path → Option ℤ)
    (parser : Path → List String → TU) : CacheEntry TU :=
  ⟨parser (r.source_path fs) r.flags, (new_mtime (r.source_path fs)).getD 0, r.flags,
    r.source_path fs⟩

/-- What the operation does to an ideal LRU list. -/
def Operation.reference (capacity : ℕ) (l : List (CacheKey × CacheEntry TU)) :
    Operation TU → List (CacheKey × CacheEntry TU)
  | .get_or_parse r old_mtime new_mtime parser =>
    Lru.request capacity (r.key fs sha1) (r.unchanged fs old_mtime)
      (r.newEntry fs new_mtime parser) l
  | .invalidate file_path none =>
    l.filter fun item => item.1.file_realpath ≠ (fs.realpath file_path).str
  | .invalidate file_path (some build_path) =>
    l.filter fun item => ¬(item.1.file_realpath = (fs.realpath file_path).str ∧
      item.1.build_realpath = (fs.realpath build_path).str)
  | .clear => []

end Machines

/-- The entries, the one used last first. -/
def TUCache.recency {TU : Type} (c : TUCache TU) : List (CacheKey × CacheEntry TU) :=
  c.store.items.reverse

section Refinement

variable {TU : Type} (c : TUCache TU) (key : CacheKey) (entry : CacheEntry TU)

/-- What a locked section finds is what is found in the ideal list. -/
theorem found_recency (good : CacheEntry TU → Bool) :
    Lru.found key good c.recency = (c.store.get key).filter good := by
  rw [Lru.found, TUCache.recency, OrderedDict.lookup_reverse]

/-- Setting an item at the end of the store puts it in front of the ideal list. -/
theorem recency_setLast (d : OrderedDict CacheKey (CacheEntry TU)) :
    (d.setLast key entry).items.reverse = Lru.front key entry d.items.reverse := by
  rw [OrderedDict.setLast, List.reverse_append, OrderedDict.del, Lru.front, ← List.filter_reverse]
  rfl

/-- Moving an item to the end of the store moves it to the front of the ideal list. -/
theorem recency_moveToEnd (d : OrderedDict CacheKey (CacheEntry TU))
    (hget : d.get key = some entry) :
    (d.moveToEnd key).items.reverse = Lru.front key entry d.items.reverse := by
  rw [OrderedDict.moveToEnd, hget]
  exact recency_setLast key entry d

/-- The oldest entries are the last ones of the list. -/
theorem recency_popUntilRoom (d : OrderedDict CacheKey (CacheEntry TU)) {capacity : ℕ}
    (capacity_pos : 0 < capacity) :
    (d.popUntilRoom capacity).items.reverse = d.items.reverse.take (capacity - 1) := by
  rw [OrderedDict.items_popUntilRoom, List.take_reverse, OrderedDict.len]
  congr 2
  omega

/-- The second section, where the key is not stored: room is made, and the entry comes first. -/
theorem recency_insertSection (hget : c.store.get key = none) :
    (c.insertSection key entry).recency = (Lru.front key entry c.recency).take c.capacity := by
  have hpos := c.capacity_pos
  have hkey : c.recency.filter (fun item => item.1 ≠ key) = c.recency :=
    List.filter_eq_self.mpr fun item hitem => decide_eq_true fun hk =>
      OrderedDict.get_eq_none_iff.mp hget
        (OrderedDict.mem_keys_iff.mpr ⟨item.2, hk ▸ List.mem_reverse.mp hitem⟩)
  have hroom : (c.recency.take (c.capacity - 1)).filter (fun item => item.1 ≠ key) =
      c.recency.take (c.capacity - 1) :=
    List.filter_eq_self.mpr fun item hitem =>
      List.filter_eq_self.mp hkey item (List.mem_of_mem_take hitem)
  have hcap : c.capacity = c.capacity - 1 + 1 := by omega
  calc (c.insertSection key entry).recency
      = Lru.front key entry (c.recency.take (c.capacity - 1)) := by
        rw [TUCache.recency, TUCache.recency, ← recency_popUntilRoom c.store hpos]
        exact recency_setLast key entry (c.store.popUntilRoom c.capacity)
    _ = (key, entry) :: c.recency.take (c.capacity - 1) := by rw [Lru.front, hroom]
    _ = ((key, entry) :: c.recency).take (c.capacity - 1 + 1) := List.take_succ_cons.symm
    _ = (Lru.front key entry c.recency).take c.capacity := by rw [← hcap, Lru.front, hkey]

/-- An entry that is removed before it is put in front might as well stay. -/
theorem front_del (d : OrderedDict CacheKey (CacheEntry TU)) :
    Lru.front key entry (d.del key).items.reverse = Lru.front key entry d.items.reverse := by
  rw [Lru.front, Lru.front, OrderedDict.del, ← List.filter_reverse, List.filter_filter]
  simp only [Bool.and_self]

end Refinement

section Steps

variable {TU : Type} (fs : FileSystem) (sha1 : Py.Sha1) (c : TUCache TU) (r : Request)
  (old_mtime new_mtime : Path → Option ℤ) (parser : Path → List String → TU)

/-- What the ideal list returns for the request: what is found, or else what the parser returns. -/
def Request.answer (l : List (CacheKey × CacheEntry TU)) : TU × Bool :=
  match Lru.found (r.key fs sha1) (r.unchanged fs old_mtime) l with
  | some entry => (entry.tu, true)
  | none => (parser (r.source_path fs) r.flags, false)

/-- **A call of `get_or_parse` is a request to the ideal list.** -/
theorem getOrParse_spec {parsed : TUCache.Parsed TU}
    (h : c.getOrParse fs sha1 old_mtime new_mtime r.file_path r.build_path r.flags
      (fun path flags => .ok (parser path flags)) = parsed) :
    parsed.cache.capacity = c.capacity ∧
      parsed.cache.recency = Lru.request c.capacity (r.key fs sha1) (r.unchanged fs old_mtime)
        (r.newEntry fs new_mtime parser) c.recency ∧
      parsed.result = .ok (r.answer fs sha1 old_mtime parser c.recency) := by
  have miss : ∀ c' : TUCache TU, c'.capacity = c.capacity →
      c'.store.get (r.key fs sha1) = none →
      Lru.front (r.key fs sha1) (r.newEntry fs new_mtime parser) c'.recency =
        Lru.front (r.key fs sha1) (r.newEntry fs new_mtime parser) c.recency →
      (c'.insertSection (r.key fs sha1) (r.newEntry fs new_mtime parser)).recency =
        (Lru.front (r.key fs sha1) (r.newEntry fs new_mtime parser) c.recency).take c.capacity := by
    intro c' hcap hget hfront
    rw [recency_insertSection _ _ _ hget, hfront, hcap]
  unfold TUCache.getOrParse at h
  rw [Request.answer, Lru.request, found_recency]
  obtain ⟨entry, hget, hm, hsec⟩ | ⟨entry, hget, hm, hsec⟩ | ⟨hget, hsec⟩ :=
    c.lookupSection_cases (r.key fs sha1) (old_mtime (r.source_path fs)) <;>
    rw [Request.key, Request.source_path] at hsec <;> rw [hsec] at h <;> subst h
  · have hgood : r.unchanged fs old_mtime entry = true := beq_iff_eq.mpr hm
    rw [hget, Option.filter_some, if_pos hgood]
    exact ⟨rfl, recency_moveToEnd _ _ _ hget, rfl⟩
  · have hgood : ¬r.unchanged fs old_mtime entry = true := fun h => hm (beq_iff_eq.mp h)
    rw [hget, Option.filter_some, if_neg hgood]
    exact ⟨rfl, miss _ rfl (OrderedDict.get_del_self _) (front_del _ _ _), rfl⟩
  · rw [hget, Option.filter_none]
    exact ⟨rfl, miss _ rfl hget rfl, rfl⟩

/-- `invalidate` takes the same entries out of the store and out of the ideal list. -/
theorem recency_invalidate (file_path : Path) (build_path : Option Path) (capacity : ℕ) :
    (c.invalidate fs file_path build_path).2.recency =
      Operation.reference fs sha1 capacity c.recency (.invalidate file_path build_path) := by
  rw [TUCache.recency, TUCache.items_invalidate, ← List.filter_reverse, TUCache.recency]
  cases build_path with
  | none =>
    refine List.filter_congr fun item _ => Bool.eq_iff_iff.mpr ?_
    simp [TUCache.invalidated]
  | some build_path =>
    refine List.filter_congr fun item _ => Bool.eq_iff_iff.mpr ?_
    simp [TUCache.invalidated]

/-- **One operation, on the cache and on the ideal list:** the keys in the order of use stay those
of the list, and the capacity stays. -/
theorem recency_apply (op : Operation TU) :
    (op.apply fs sha1 c).capacity = c.capacity ∧
      (op.apply fs sha1 c).recency = op.reference fs sha1 c.capacity c.recency := by
  cases op with
  | get_or_parse r old_mtime new_mtime parser =>
    obtain ⟨hcap, hrecency, -⟩ := getOrParse_spec fs sha1 c r old_mtime new_mtime parser rfl
    exact ⟨hcap, hrecency⟩
  | invalidate file_path build_path =>
    exact ⟨rfl, recency_invalidate fs sha1 c file_path build_path c.capacity⟩
  | clear => exact ⟨rfl, rfl⟩

/-- **Any operations, on the cache and on the ideal list,** one after the other, keep the two in
step. -/
theorem recency_foldl_apply (ops : List (Operation TU)) (c : TUCache TU) :
    (ops.foldl (Operation.apply fs sha1) c).capacity = c.capacity ∧
      (ops.foldl (Operation.apply fs sha1) c).recency =
        ops.foldl (Operation.reference fs sha1 c.capacity) c.recency := by
  induction ops generalizing c with
  | nil => exact ⟨rfl, rfl⟩
  | cons op ops ih =>
    obtain ⟨hcap, hrecency⟩ := recency_apply fs sha1 c op
    rw [List.foldl_cons, List.foldl_cons, ← hrecency, ← hcap]
    exact ih _

end Steps

/-! ### Runs on files that stay as they are -/

/-- A call, with its parser. -/
abbrev Call (TU : Type) : Type := Request × (Path → List String → TU)

section Quiet

variable {TU : Type} (fs : FileSystem) (sha1 : Py.Sha1) (stat : String → Option ℤ)

/-- The call, where `os.stat` gives the same before and after. -/
def quiet (call : Call TU) : Operation TU :=
  .get_or_parse call.1 (fun path => stat path.str) (fun path => stat path.str) call.2

/-- Every entry of the ideal list has the modification time of its file. -/
theorem mtime_of_quiet (capacity : ℕ) (calls : List (Call TU)) :
    ∀ item ∈ (calls.map (quiet stat)).foldl (Operation.reference fs sha1 capacity) [],
      item.2.source_mtime_ns = (stat item.1.file_realpath).getD 0 := by
  induction calls using List.reverseRecOn with
  | nil => exact fun item hitem => absurd hitem List.not_mem_nil
  | append_singleton calls call ih =>
    intro item hitem
    rw [List.map_append, List.foldl_append] at hitem
    obtain hitem | rfl := Lru.mem_of_mem_request hitem
    · exact ih item hitem
    · rfl

/-- So the entry of a file that is there is good. -/
theorem unchanged_of_quiet (capacity : ℕ) (calls : List (Call TU)) {r : Request}
    (hstat : (stat (r.file fs)).isSome) :
    ∀ item ∈ (calls.map (quiet stat)).foldl (Operation.reference fs sha1 capacity) [],
      item.1 = r.key fs sha1 → r.unchanged fs (fun path => stat path.str) item.2 = true := by
  intro item hitem hkey
  obtain ⟨m, hm⟩ := Option.isSome_iff_exists.mp hstat
  have hmtime := mtime_of_quiet fs sha1 stat capacity calls item hitem
  rw [hkey, show (r.key fs sha1).file_realpath = r.file fs from rfl, hm, Option.getD_some] at hmtime
  rw [Request.unchanged, hmtime, show (r.source_path fs).str = r.file fs from rfl, hm]
  exact beq_self_eq_true m

/-- The keys of the ideal list are those asked for last. -/
theorem keys_of_quiet (capacity : ℕ) (calls : List (Call TU)) :
    ((calls.map (quiet stat)).foldl (Operation.reference fs sha1 capacity) []).map Prod.fst =
      (calls.map fun call => call.1.key fs sha1).reverse.eraseDups.take capacity := by
  rw [List.foldl_map]
  exact Lru.keys_foldl_request capacity (fun call : Call TU => call.1.key fs sha1)
    (fun call => call.1.unchanged fs fun path => stat path.str)
    (fun call => call.1.newEntry fs (fun path => stat path.str) call.2) calls

end Quiet

/-- The cache after calls on files that stay as they are. -/
def afterQuiet {TU : Type} (fs : FileSystem) (sha1 : Py.Sha1) (capacity : ℕ)
    (capacity_pos : 0 < capacity) (stat : String → Option ℤ) (calls : List (Call TU)) : TUCache TU :=
  (calls.map (quiet stat)).foldl (Operation.apply fs sha1) (.ofCapacity capacity capacity_pos)

/-- The call returns `cache_hit = True`. -/
def TUCache.HitBy {TU : Type} (c : TUCache TU) (fs : FileSystem) (sha1 : Py.Sha1)
    (stat : String → Option ℤ) (call : Call TU) : Prop :=
  ∃ tu, (c.getOrParse fs sha1 (fun path => stat path.str) (fun path => stat path.str)
    call.1.file_path call.1.build_path call.1.flags
    fun path flags => .ok (call.2 path flags)).result = .ok (tu, true)

/-- **The cache refines the ideal LRU list.** After any sequence of operations its entries, the
latest first, are those of the list; and as long as files do not change, a call is a hit exactly if
its key is among the last distinct ones that were asked for, as many as there is room for. -/
theorem refines_lru {TU : Type} (fs : FileSystem) (sha1 : Py.Sha1) (capacity : ℕ)
    (capacity_pos : 0 < capacity) :
    (∀ ops : List (Operation TU),
      (ops.foldl (Operation.apply fs sha1) (.ofCapacity capacity capacity_pos)).recency =
        ops.foldl (Operation.reference fs sha1 capacity) []) ∧
    ∀ (stat : String → Option ℤ) (calls : List (Call TU)) (call : Call TU),
      (stat (call.1.file fs)).isSome →
        ((afterQuiet fs sha1 capacity capacity_pos stat calls).HitBy fs sha1 stat call ↔
          call.1.key fs sha1 ∈
            (calls.map fun call => call.1.key fs sha1).reverse.eraseDups.take capacity) := by
  have hrun : ∀ ops : List (Operation TU),
      (ops.foldl (Operation.apply fs sha1) (.ofCapacity capacity capacity_pos)).recency =
        ops.foldl (Operation.reference fs sha1 capacity) [] :=
    fun ops => (recency_foldl_apply fs sha1 ops (.ofCapacity capacity capacity_pos)).2
  refine ⟨hrun, fun stat calls call hstat => ?_⟩
  rw [TUCache.HitBy, (getOrParse_spec fs sha1 _ call.1 _ _ call.2 rfl).2.2, afterQuiet, hrun,
    ← keys_of_quiet fs sha1 stat,
    ← Lru.isSome_found_iff (unchanged_of_quiet fs sha1 stat capacity calls hstat), Request.answer]
  cases Lru.found (call.1.key fs sha1) (call.1.unchanged fs fun path => stat path.str)
      ((calls.map (quiet stat)).foldl (Operation.reference fs sha1 capacity) []) with
  | none => simp
  | some entry => simp

/-- In a cache of one entry, a file that is asked for twice is found the second time. -/
theorem refines_lru_twice :
    (afterQuiet oneFile default 1 Nat.one_pos (fun _ => some 5)
      [(mainRequest, fun _ _ => "TU")]).HitBy oneFile default (fun _ => some 5)
        (mainRequest, fun _ _ => "TU") :=
  ((refines_lru oneFile default 1 Nat.one_pos).2 _ _ _ rfl).mpr (by simp [List.eraseDups_cons])

end Cache
end CppMcp
