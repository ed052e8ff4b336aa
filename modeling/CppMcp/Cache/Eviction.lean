/-
# What an insertion evicts

The second section of `get_or_parse` drops the oldest entries as long as the store is full, and then
puts its entry in.  It does so whether or not the key is there already, which it is if another thread
has missed on it and was faster.  So a full store loses an entry for a key that needs no room.

An insertion needs room only for a new key.  A run evicts nothing needlessly exactly if no entry is
put into a full store under a key that is there (`run_spares_iff`), and calls that do not overlap on a
key never do that (`Apart.hasRoom`).
-/

import CppMcp.Cache.Concurrent

namespace CppMcp
namespace Cache

open Files (FileSystem)

variable {TU : Type} {c : TUCache TU} {key : CacheKey} {entry : CacheEntry TU}

/-! ### One insertion -/

/-- Between `c` and `c'` an entry is put in under the key, and nothing is evicted needlessly: an entry
of another key goes only if those of other keys fill the store, and none goes if the key is there. -/
structure NoNeedlessEviction (key : CacheKey) (c c' : TUCache TU) : Prop where
  other : ∀ k ∈ c.store.keys, k ≠ key → k ∉ c'.store.keys → c.capacity ≤ (c.store.del key).len
  again : key ∈ c.store.keys →
    c'.evictions = c.evictions ∧ ∀ k ∈ c.store.keys, k ∈ c'.store.keys

/-- An insertion counts what is too much: as many entries go as there are above one less than the
capacity. -/
theorem evictions_insertSection : (c.insertSection key entry).evictions =
    c.evictions + (c.store.len - (c.capacity - 1)) := by
  have hroom := OrderedDict.len_popUntilRoom c.store c.capacity
  change c.evictions + (c.store.len - (c.store.popUntilRoom c.capacity).len) = _
  omega

/-- Where there is room, the keys stay: an insertion then only adds. -/
theorem mem_keys_insertSection {k : CacheKey} (hroom : c.store.len < c.capacity)
    (h : k ∈ c.store.keys) : k ∈ (c.insertSection key entry).store.keys := by
  have hitems : (c.store.popUntilRoom c.capacity).items = c.store.items := by
    rw [OrderedDict.items_popUntilRoom, show c.store.len + 1 - c.capacity = 0 by omega]
    exact List.drop_zero
  obtain ⟨stored, hstored⟩ := OrderedDict.mem_keys_iff.mp h
  by_cases hk : k = key
  · exact OrderedDict.mem_keys_iff.mpr ⟨entry, OrderedDict.mem_items_setLast.mpr (.inr (by rw [hk]))⟩
  · exact OrderedDict.mem_keys_iff.mpr
      ⟨stored, OrderedDict.mem_items_setLast.mpr (.inl ⟨hitems ▸ hstored, hk⟩)⟩

/-- An insertion evicts nothing needlessly exactly if there is room or the key is new. -/
theorem noNeedlessEviction_insertSection_iff :
    NoNeedlessEviction key c (c.insertSection key entry) ↔
      (key ∈ c.store.keys → c.store.len < c.capacity) := by
  have hpos := c.capacity_pos
  constructor
  · intro h hkey
    have hevict := (h.again hkey).1
    rw [evictions_insertSection] at hevict
    omega
  · intro hroom
    refine ⟨fun k hk hne hgone => ?_, fun hkey => ⟨?_, fun k hk => ?_⟩⟩
    · by_cases hkey : key ∈ c.store.keys
      · exact absurd (mem_keys_insertSection (hroom hkey) hk) hgone
      · have hfull : c.capacity ≤ c.store.len := by
          by_contra hlt
          exact hgone (mem_keys_insertSection (by omega) hk)
        rwa [OrderedDict.del_of_get_eq_none (OrderedDict.get_eq_none_iff.mpr hkey)]
    · have hlt := hroom hkey
      rw [evictions_insertSection]
      omega
    · exact mem_keys_insertSection (hroom hkey) hk

/-! ### Every insertion of a run -/

variable {Thread : Type} [DecidableEq Thread] (fs : FileSystem) (sha1 : Py.Sha1)

/-- If the step is an insertion, it evicts nothing needlessly. -/
def Spares (s : Threads Thread TU) (e : Event Thread TU) (s' : Threads Thread TU) : Prop :=
  ∀ t r tu mtime, e = .insert t → s.running.get t = some ⟨r, .stated tu mtime⟩ →
    NoNeedlessEviction (r.key fs sha1) s.cache s'.cache

/-- If the step is an insertion, its key is new or the store is not full. -/
def HasRoom (s : Threads Thread TU) (e : Event Thread TU) : Prop :=
  ∀ t r tu mtime, e = .insert t → s.running.get t = some ⟨r, .stated tu mtime⟩ →
    r.key fs sha1 ∈ s.cache.store.keys → s.cache.store.len < s.cache.capacity

variable {fs sha1} {s s' : Threads Thread TU} {e : Event Thread TU}

/-- A step of the machine spares the other entries exactly if it has room where it inserts. -/
theorem spares_iff (hstep : Step fs sha1 s e s') : Spares fs sha1 s e s' ↔ HasRoom fs sha1 s e := by
  cases hstep with
  | @insert t r tu mtime at_ =>
    have hiff : NoNeedlessEviction (r.key fs sha1) s.cache (s.cache.insertSection (r.key fs sha1)
        ⟨tu, mtime.getD 0, r.flags, r.source_path fs⟩) ↔ _ := noNeedlessEviction_insertSection_iff
    constructor
    · rintro h t' r' tu' mtime' ⟨⟩ hat
      cases at_.symm.trans hat
      exact hiff.mp (h _ _ _ _ rfl at_)
    · rintro h t' r' tu' mtime' ⟨⟩ hat
      cases at_.symm.trans hat
      exact hiff.mpr (h _ _ _ _ rfl at_)
  | hit | miss | parse | raise | stat | invalidate | clear =>
    exact ⟨fun _ _ _ _ _ he => (nomatch he), fun _ _ _ _ _ he => (nomatch he)⟩

/-- **No needless eviction:** the runs in which no insertion evicts needlessly are those in which no
entry is put into a full store under a key that is there. -/
theorem run_spares_iff (fs : FileSystem) (sha1 : Py.Sha1) (capacity : ℕ) (capacity_pos : 0 < capacity)
    (events : List (Event Thread TU)) (s : Threads Thread TU) :
    Trace.Run (fun s e s' => Step fs sha1 s e s' ∧ Spares fs sha1 s e s')
        (.ofCapacity capacity capacity_pos) events s ↔
      Trace.Run (fun s e s' => Step fs sha1 s e s' ∧ HasRoom fs sha1 s e)
        (.ofCapacity capacity capacity_pos) events s :=
  ⟨fun h => h.mono fun _ _ _ h => ⟨h.1, (spares_iff h.1).mp h.2⟩,
    fun h => h.mono fun _ _ _ h => ⟨h.1, (spares_iff h.1).mpr h.2⟩⟩

/-- `run_spares_iff` for the run in which two threads miss one key and only one of them inserts. -/
theorem run_spares_twoMisses : ∃ s : Threads ℕ String,
    Trace.Run (fun s e s' => Step oneFile default s e s' ∧ Spares oneFile default s e s')
      (.ofCapacity 1 Nat.one_pos) twoMisses s := by
  have other : ∀ (e : Event ℕ String) (s : Threads ℕ String), (∀ t, e ≠ .insert t) →
      HasRoom oneFile default s e := fun e s h t _ _ _ he => absurd he (h t)
  refine ⟨_, (run_spares_iff oneFile default 1 Nat.one_pos twoMisses _).mpr <|
    .cons ⟨.miss rfl rfl, other _ _ (by simp)⟩ <| .cons ⟨.miss rfl rfl, other _ _ (by simp)⟩ <|
      .cons ⟨.parse rfl, other _ _ (by simp)⟩ <| .cons ⟨.raise rfl, other _ _ (by simp)⟩ <|
        .cons ⟨.stat rfl, other _ _ (by simp)⟩ <| .single ⟨.insert rfl, ?_⟩⟩
  -- nothing is stored when the entry is put in
  rintro _ _ _ _ ⟨⟩ _ hkey
  exact absurd hkey List.not_mem_nil

/-! ### Calls that do not overlap -/

/-- If the step is a lookup, no call with its key is running. -/
def StartsAlone (fs : FileSystem) (sha1 : Py.Sha1) (s : Threads Thread TU) (e : Event Thread TU) :
    Prop :=
  ∀ t r mtime, e = .lookup t r mtime → ∀ t' running, s.running.get t' = some running →
    running.request.key fs sha1 ≠ r.key fs sha1

/-- The running calls have different keys, and none of these is stored. -/
structure Apart (fs : FileSystem) (sha1 : Py.Sha1) (s : Threads Thread TU) : Prop where
  fresh : ∀ t running, s.running.get t = some running →
    running.request.key fs sha1 ∉ s.cache.store.keys
  distinct : ∀ t t' running running', s.running.get t = some running →
    s.running.get t' = some running' →
    running.request.key fs sha1 = running'.request.key fs sha1 → t = t'

/-- In a state where calls are apart no insertion finds its key stored, so there is always room. -/
theorem Apart.hasRoom (h : Apart fs sha1 s) (e : Event Thread TU) : HasRoom fs sha1 s e :=
  fun t _ _ _ _ hat hkey => absurd hkey (h.fresh t _ hat)

/-- A call that is running after a step was running before, or has just missed. -/
theorem request_of_step (hstep : Step fs sha1 s e s') {t : Thread} {running : Running TU}
    (h : s'.running.get t = some running) :
    (∃ running', s.running.get t = some running' ∧ running'.request = running.request) ∨
      ∃ mtime, e = .lookup t running.request mtime := by
  obtain ⟨-, hat⟩ | ⟨mtime, he, -⟩ | ⟨tu, -, hat, -⟩ | ⟨tu, mtime, -, hat, -⟩ :=
    running_of_step hstep h
  · exact .inl ⟨running, hat, rfl⟩
  · exact .inr ⟨mtime, he⟩
  · exact .inl ⟨_, hat, rfl⟩
  · exact .inl ⟨_, hat, rfl⟩

/-- What a lookup has missed is not stored: it was not there, or it has just been taken out as
stale. -/
theorem not_mem_keys_of_miss {c' : TUCache TU} {mtime : Option ℤ}
    (h : c.lookupSection key mtime = (none, c')) : key ∉ c'.store.keys := by
  obtain ⟨entry, -, -, hsec⟩ | ⟨entry, -, -, hsec⟩ | ⟨hget, hsec⟩ := c.lookupSection_cases key mtime <;>
    rw [hsec] at h <;> obtain ⟨htu, rfl⟩ := Prod.mk.inj h
  · exact nomatch htu
  · exact OrderedDict.get_eq_none_iff.mp (OrderedDict.get_del_self key)
  · exact OrderedDict.get_eq_none_iff.mp hget

/-- What a call stores is not the key of a call that goes on. -/
theorem Apart.fresh_step (h : Apart fs sha1 s) (halone : StartsAlone fs sha1 s e)
    (hstep : Step fs sha1 s e s') {t : Thread} {running : Running TU}
    (hrunning : s'.running.get t = some running) :
    running.request.key fs sha1 ∉ s'.cache.store.keys := by
  intro hkey
  obtain ⟨before, hbefore, hreq⟩ | ⟨mtime, rfl⟩ := request_of_step hstep hrunning
  · obtain ⟨entry, hitem⟩ := OrderedDict.mem_keys_iff.mp hkey
    obtain hstored | ⟨t', r, tu, mtime, rfl, hat, hitem'⟩ := stored_of_step hstep hitem
    · exact h.fresh t before hbefore (hreq ▸ OrderedDict.mem_keys_iff.mpr ⟨entry, hstored⟩)
    · -- the call that has put it in has the same key, so it is the same call, which is over
      have hsame : running.request.key fs sha1 = r.key fs sha1 := congrArg Prod.fst hitem'
      have ht : t = t' := h.distinct t t' before _ hbefore hat (by rw [hreq, hsame])
      obtain ⟨hother, -⟩ | ⟨_, he, -⟩ | ⟨_, he, -⟩ | ⟨_, _, he, -⟩ := running_of_step hstep hrunning
      · exact hother (by rw [ht]; rfl)
      all_goals exact nomatch he
  · cases hstep with
    | hit idle _ => exact nomatch hrunning.symm.trans idle
    | miss _ lookup => exact not_mem_keys_of_miss lookup hkey

/-- **Calls that do not overlap on a key stay apart:** no two threads are on their way to insert
under one key. -/
theorem Apart.step (h : Apart fs sha1 s) (halone : StartsAlone fs sha1 s e)
    (hstep : Step fs sha1 s e s') : Apart fs sha1 s' := by
  refine ⟨fun t running => h.fresh_step halone hstep, fun t t' running running' hat hat' hkey => ?_⟩
  obtain ⟨before, hbefore, hreq⟩ | ⟨mtime, he⟩ := request_of_step hstep hat <;>
    obtain ⟨before', hbefore', hreq'⟩ | ⟨mtime', he'⟩ := request_of_step hstep hat'
  · exact h.distinct t t' before before' hbefore hbefore' (by rw [hreq, hreq', hkey])
  · exact absurd (hreq ▸ hkey) (halone t' _ mtime' he' t before hbefore)
  · exact absurd (hreq' ▸ hkey.symm) (halone t _ mtime he t' before' hbefore')
  · exact (Event.lookup.inj (he.symm.trans he')).1

/-- **Calls that do not overlap on a key evict nothing needlessly.** -/
theorem run_hasRoom_of_startsAlone {capacity : ℕ} (capacity_pos : 0 < capacity)
    {events : List (Event Thread TU)}
    (h : Trace.Run (fun s e s' => Step fs sha1 s e s' ∧ StartsAlone fs sha1 s e)
      (.ofCapacity capacity capacity_pos) events s) :
    Apart fs sha1 s ∧ Trace.Run (fun s e s' => Step fs sha1 s e s' ∧ HasRoom fs sha1 s e)
      (.ofCapacity capacity capacity_pos) events s := by
  induction h with
  | nil => exact ⟨⟨fun _ _ hat => (nomatch hat), fun _ _ _ _ hat => (nomatch hat)⟩, .nil⟩
  | concat _ hstep ih =>
    obtain ⟨hapart, hrun⟩ := ih
    exact ⟨hapart.step hstep.2 hstep.1, hrun.concat ⟨hstep.1, hapart.hasRoom _⟩⟩

/-! ### Two threads miss on a full store -/

/-- A file system with two files. -/
def twoFiles : FileSystem :=
  ⟨[(["main.cpp"], .file), (["other.cpp"], .file)], by decide, by decide, by decide⟩

/-- The other file, without a build path and without flags. -/
def otherRequest : Request := ⟨["other.cpp"], none, []⟩

/-- Two threads miss on a file while a third one stores another; then the first of them stores its
entry, and the cache of two entries is full. -/
def fullAgain : List (Event ℕ String) :=
  [.lookup 0 mainRequest (some 1), .lookup 1 mainRequest (some 1), .lookup 2 otherRequest (some 1),
    .parse 0 (.ok "main"), .parse 1 (.ok "main"), .parse 2 (.ok "other"), .stat 0 (some 1),
    .stat 1 (some 1), .stat 2 (some 1), .insert 2, .insert 0]

/-- **The other file goes for an entry that is there.** Two threads have missed on one file; the
second of them inserts into a full cache what the first has inserted, and evicts the other file. -/
theorem fullAgain_evicts : ∃ s s' : Threads ℕ String,
    Trace.Run (Step twoFiles default) (.ofCapacity 2 Nat.two_pos) fullAgain s ∧
      Step twoFiles default s (.insert 1) s' ∧ ¬Spares twoFiles default s (.insert 1) s' := by
  refine ⟨_, _, .cons (.miss rfl rfl) <| .cons (.miss rfl rfl) <| .cons (.miss rfl rfl) <|
    .cons (.parse rfl) <| .cons (.parse rfl) <| .cons (.parse rfl) <| .cons (.stat rfl) <|
    .cons (.stat rfl) <| .cons (.stat rfl) <| .cons (.insert rfl) <| .single (.insert rfl),
    .insert rfl, fun h => ?_⟩
  have hspared := h 1 mainRequest "main" (some 1) rfl rfl
  have hkept := (hspared.again (by decide)).2 (otherRequest.key twoFiles default) (by decide)
  exact absurd hkept (by decide)

end Cache
end CppMcp
