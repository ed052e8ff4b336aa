/-
# Files that are written while the cache is in use

The threads of `Cache.Concurrent`, with files that change.  A file has been written a
number of times, its version; every write gives it new content and a modification time
that it has not had before (`mtime`).  A parse reads the version the file has at that
step, and `os.stat` gives the modification time it has at that step.

An entry is stored with the modification time read *after* the parse.  If the file is
written between the two, an old translation unit is stored under the new time and is served
until the file is written again (`hit_stale`); the comment in `get_or_parse` accepts that.
It is the only way (`hit_current_or_raced`).
-/

import CppMcp.Cache.Concurrent
import Mathlib.Logic.Function.Basic

namespace CppMcp
namespace Cache

open Py (Path)
open Files (FileSystem)

/-- What is parsed is known here by the file, the flags and the version that was read. -/
structure ParsedFrom where
  file : String
  flags : List String
  version : ℕ
  deriving DecidableEq, Repr

/-- The threads, and the version of every file. -/
structure Editing (Thread : Type) where
  threads : Threads Thread ParsedFrom
  version : String → ℕ

/-- A step of a thread, or a write to a file. -/
inductive Edit (Thread : Type)
  | call (event : Event Thread ParsedFrom)
  | write (file : String)

/-- The thread that takes the step. -/
def Edit.thread {Thread : Type} : Edit Thread → Option Thread
  | .call event => event.thread
  | .write _ => none

/-- The event is a write to the file. -/
def Edit.isWrite {Thread : Type} (file : String) : Edit Thread → Bool
  | .write file' => file' == file
  | .call _ => false

/-- How often the file is written in a run. -/
def writes {Thread : Type} (file : String) (events : List (Edit Thread)) : ℕ :=
  events.countP (Edit.isWrite file)

section Machine

variable {Thread : Type} [DecidableEq Thread] (fs : FileSystem) (sha1 : Py.Sha1)
  (mtime : String → ℕ → ℤ)

/-- What the event brings from outside is what the file is at this step.  A parser may raise
whatever the file is. -/
def Editing.Sees (s : Editing Thread) : Event Thread ParsedFrom → Prop
  | .lookup _ r m => m = some (mtime (r.file fs) (s.version (r.file fs)))
  | .parse t (.ok tu) => ∀ running, s.threads.running.get t = some running →
      tu = ⟨running.request.file fs, running.request.flags, s.version (running.request.file fs)⟩
  | .stat t m => ∀ running, s.threads.running.get t = some running →
      m = some (mtime (running.request.file fs) (s.version (running.request.file fs)))
  | _ => True

/-- One step. -/
inductive EditStep : Editing Thread → Edit Thread → Editing Thread → Prop
  | call {s : Editing Thread} {event : Event Thread ParsedFrom}
      {threads : Threads Thread ParsedFrom} (step : Step fs sha1 s.threads event threads)
      (sees : s.Sees fs mtime event) : EditStep s (.call event) { s with threads }
  | write {s : Editing Thread} {file : String} : EditStep s (.write file)
      { s with version := Function.update s.version file (s.version file + 1) }

/-- No thread has called yet, and no file has been written. -/
def Editing.ofCapacity (capacity : ℕ) (capacity_pos : 0 < capacity) : Editing Thread :=
  ⟨.ofCapacity capacity capacity_pos, fun _ => 0⟩

/-- The runs from an empty cache. -/
abbrev EditRun (capacity : ℕ) (capacity_pos : 0 < capacity) (events : List (Edit Thread))
    (s : Editing Thread) : Prop :=
  Trace.Run (EditStep fs sha1 mtime) (.ofCapacity capacity capacity_pos) events s

/-- The request finds this translation unit now. -/
def Editing.Hits (s : Editing Thread) (r : Request) (tu : ParsedFrom) : Prop :=
  (s.threads.cache.lookupSection (r.key fs sha1)
    (some (mtime (r.file fs) (s.version (r.file fs))))).1 = some tu

end Machine

section Origins

variable {Thread : Type} {mtime : String → ℕ → ℤ} {events : List (Edit Thread)} {e : Edit Thread}
  {t : Thread} {file : String} {tu : ParsedFrom} {m : ℤ}

/-- How often a file has been written adds up over two parts of a run. -/
theorem writes_append (file : String) (events events' : List (Edit Thread)) :
    writes file (events ++ events') = writes file events + writes file events' :=
  List.countP_append

/-- A call of the thread has parsed the file, and since then it has taken no step. -/
def HasParsed (events : List (Edit Thread)) (t : Thread) (file : String) (tu : ParsedFrom) : Prop :=
  ∃ a b, events = a ++ .call (.parse t (.ok tu)) :: b ∧ (∀ e ∈ b, e.thread ≠ some t) ∧
    tu.file = file ∧ tu.version = writes file a

/-- A call has parsed the file, and its `os.stat` gave the modification time. -/
def HasStated (mtime : String → ℕ → ℤ) (events : List (Edit Thread)) (file : String)
    (tu : ParsedFrom) (m : ℤ) : Prop :=
  ∃ a t b c, events = a ++ .call (.parse t (.ok tu)) :: (b ++ .call (.stat t (some m)) :: c) ∧
    (∀ e ∈ b, e.thread ≠ some t) ∧ tu.file = file ∧ tu.version = writes file a ∧
    m = mtime file (writes file (a ++ b))

/-- **The race.**  The file has been written between the two steps of a call that parsed it
so: after the parse, and before `os.stat`, which gave `m`. -/
def Raced (events : List (Edit Thread)) (tu : ParsedFrom) (m : ℤ) : Prop :=
  ∃ a t b c, events = a ++ .call (.parse t (.ok tu)) :: (b ++ .call (.stat t (some m)) :: c) ∧
    (∀ e ∈ b, e.thread ≠ some t) ∧ .write tu.file ∈ b

/-- What a call has parsed stays so while other threads step. -/
theorem HasParsed.concat (h : HasParsed events t file tu) (he : e.thread ≠ some t) :
    HasParsed (events ++ [e]) t file tu := by
  obtain ⟨a, b, rfl, hb, hfile, hversion⟩ := h
  refine ⟨a, b ++ [e], by rw [List.append_assoc, List.cons_append], fun e' he' => ?_, hfile, hversion⟩
  rcases List.mem_append.mp he' with he' | he'
  · exact hb e' he'
  · exact List.mem_singleton.mp he' ▸ he

/-- What a call has stated stays so in every later state. -/
theorem HasStated.concat (h : HasStated mtime events file tu m) (e : Edit Thread) :
    HasStated mtime (events ++ [e]) file tu m := by
  obtain ⟨a, t, b, c, rfl, hb⟩ := h
  exact ⟨a, t, b, c ++ [e], by simp only [List.append_assoc, List.cons_append], hb⟩

/-- A call that has parsed and now asks for the modification time gets the one that the file has at
this step. -/
theorem HasParsed.stat (h : HasParsed events t file tu)
    (hm : m = mtime file (writes file events)) :
    HasStated mtime (events ++ [.call (.stat t (some m))]) file tu m := by
  obtain ⟨a, b, rfl, hb, hfile, hversion⟩ := h
  refine ⟨a, t, b, [], by rw [List.append_assoc, List.cons_append], hb, hfile, hversion, hm.trans ?_⟩
  rw [writes_append, writes_append]
  rfl

/-- **What is stored under the present modification time is current, or it was raced.** -/
theorem HasStated.current_or_raced (h : HasStated mtime events file tu m)
    (hmtime : Function.Injective (mtime file)) (hm : mtime file (writes file events) = m) :
    tu.file = file ∧ (tu.version = writes file events ∨ Raced events tu m) := by
  obtain ⟨a, t, b, c, hevents, hb, rfl, hversion, rfl⟩ := h
  refine ⟨rfl, ?_⟩
  by_cases hrace : .write tu.file ∈ b
  · exact Or.inr ⟨a, t, b, c, hevents, hb, hrace⟩
  · have hquiet : writes tu.file b = 0 := List.countP_eq_zero.mpr fun e he => by
      cases e with
      | call => exact Bool.false_ne_true
      | write file' =>
        intro hw
        exact hrace (beq_iff_eq.mp hw ▸ he)
    rw [hversion, hmtime hm, writes_append, hquiet, Nat.add_zero]
    exact Or.inl rfl

/-- What is known of a call that has missed. -/
def Running.Sound (fs : FileSystem) (mtime : String → ℕ → ℤ) (events : List (Edit Thread))
    (t : Thread) (running : Running ParsedFrom) : Prop :=
  match running.phase with
  | .missed => True
  | .parsed tu => HasParsed events t (running.request.file fs) tu
  | .stated tu m => ∃ m', m = some m' ∧ HasStated mtime events (running.request.file fs) tu m'

/-- What is known of a running call stays known while other threads step. -/
theorem Running.Sound.concat {fs : FileSystem} {running : Running ParsedFrom}
    (h : running.Sound fs mtime events t) (he : e.thread ≠ some t) :
    running.Sound fs mtime (events ++ [e]) t := by
  obtain ⟨r, phase⟩ := running
  cases phase with
  | missed => trivial
  | parsed tu => exact HasParsed.concat h he
  | stated tu m =>
    obtain ⟨m', hm, h⟩ := h
    exact ⟨m', hm, h.concat e⟩

end Origins

section Invariant

variable {Thread : Type} [DecidableEq Thread] {fs : FileSystem} {sha1 : Py.Sha1}
  {mtime : String → ℕ → ℤ} {events : List (Edit Thread)} {s s' : Editing Thread}

/-- **Where everything in the cache comes from.** -/
structure Traced (fs : FileSystem) (mtime : String → ℕ → ℤ) (events : List (Edit Thread))
    (s : Editing Thread) : Prop where
  version : ∀ file, s.version file = writes file events
  running : ∀ t running, s.threads.running.get t = some running →
    running.Sound fs mtime events t
  stored : ∀ item ∈ s.threads.cache.store.items,
    HasStated mtime events item.1.file_realpath item.2.tu item.2.source_mtime_ns

/-- Every step keeps track of where the entries come from: a lookup and a write bring none, and an
insertion brings the one that its call has parsed and stated. -/
theorem Traced.step (h : Traced fs mtime events s) {e : Edit Thread}
    (hstep : EditStep fs sha1 mtime s e s') : Traced fs mtime (events ++ [e]) s' := by
  cases hstep with
  | @call event threads step sees =>
    refine ⟨fun file => ?_, fun t running hget => ?_, fun item hitem => ?_⟩
    · rw [writes_append, h.version]
      rfl
    · obtain ⟨ht, hget⟩ | ⟨m, -, hphase⟩ | ⟨tu, rfl, hget, hphase⟩ | ⟨tu, m, rfl, hget, hphase⟩ :=
        running_of_step step hget
      · exact (h.running t running hget).concat ht
      · rw [Running.Sound, hphase]
        trivial
      · have htu := sees _ hget
        rw [Running.Sound, hphase]
        refine ⟨events, [], rfl, fun _ h => absurd h List.not_mem_nil, ?_, ?_⟩
        · rw [htu]
        · rw [htu, ← h.version]
      · have hsound := h.running t _ hget
        rw [Running.Sound, hphase]
        obtain rfl := sees _ hget
        exact ⟨_, rfl, HasParsed.stat hsound (by rw [h.version])⟩
    · obtain hitem | ⟨t, r, tu, m, rfl, hget, rfl⟩ := stored_of_step step hitem
      · exact (h.stored item hitem).concat _
      · obtain ⟨m', rfl, hstated⟩ := h.running t _ hget
        exact hstated.concat _
  | @write file =>
    refine ⟨fun file' => ?_, fun t running hget => ?_, fun item hitem => ?_⟩
    · rw [writes_append, ← h.version]
      by_cases hfile : file = file'
      · subst hfile
        simp [writes, Edit.isWrite]
      · simp [writes, Edit.isWrite, hfile, Function.update_of_ne (Ne.symm hfile)]
    · exact (h.running t running hget).concat (by simp [Edit.thread])
    · exact (h.stored item hitem).concat _

/-- So after every run each entry can be traced to the parse and the `os.stat` that it comes from,
by induction over the run. -/
theorem traced {capacity : ℕ} {capacity_pos : 0 < capacity}
    (h : EditRun fs sha1 mtime capacity capacity_pos events s) : Traced fs mtime events s :=
  h.invariant
    ⟨fun _ => rfl, fun _ _ hget => absurd hget (by simp [Editing.ofCapacity,
      Threads.ofCapacity, OrderedDict.get, OrderedDict.empty]),
      fun _ hitem => absurd hitem List.not_mem_nil⟩
    fun _ _ _ _ _ htraced hstep => htraced.step hstep

end Invariant

/-- **A hit is current, or the call that parsed it was raced.** Over every interleaving of lookups,
parses, `os.stat` calls, insertions and writes to the files: a unit that is found was parsed from
the contents that the file has now, or the file was written while it was being parsed, which the
comment in `get_or_parse` accepts. -/
theorem hit_current_or_raced {Thread : Type} [DecidableEq Thread] (fs : FileSystem)
    (sha1 : Py.Sha1) (mtime : String → ℕ → ℤ) (hmtime : ∀ file, Function.Injective (mtime file))
    (capacity : ℕ) (capacity_pos : 0 < capacity) (events : List (Edit Thread))
    (s : Editing Thread) (hrun : EditRun fs sha1 mtime capacity capacity_pos events s)
    (r : Request) (tu : ParsedFrom) (hhit : s.Hits fs sha1 mtime r tu) :
    tu.file = r.file fs ∧ (tu.version = s.version (r.file fs) ∨
      Raced events tu (mtime (r.file fs) (s.version (r.file fs)))) := by
  have htraced := traced hrun
  unfold Editing.Hits at hhit
  obtain ⟨entry, hget, hm, hsec⟩ | ⟨entry, -, -, hsec⟩ | ⟨-, hsec⟩ :=
    s.threads.cache.lookupSection_cases (r.key fs sha1)
      (some (mtime (r.file fs) (s.version (r.file fs)))) <;> rw [hsec] at hhit
  · obtain rfl : entry.tu = tu := Option.some.inj hhit
    have hstated := htraced.stored _ (OrderedDict.mem_of_get hget)
    rw [Option.getD_some] at hm
    rw [hm]
    rw [htraced.version] at hm ⊢
    exact hstated.current_or_raced (hmtime _) hm
  · exact absurd hhit (by simp)
  · exact absurd hhit (by simp)

/-! ### One call, and a write -/

section OneCall

variable (fs : FileSystem) (sha1 : Py.Sha1)

/-- What a call of `main.cpp` parses before any write. -/
def firstParse : ParsedFrom := ⟨mainRequest.file fs, [], 0⟩

/-- A call of one thread, with what happens between its parse and its `os.stat`. -/
def oneCall (between : List (Edit ℕ)) (new_mtime : ℤ) : List (Edit ℕ) :=
  .call (.lookup 0 mainRequest (some 0)) :: .call (.parse 0 (.ok (firstParse fs))) ::
    (between ++ [.call (.stat 0 (some new_mtime)), .call (.insert 0)])

/-- The first write to a file that had the modification time 0 gives it the modification time 1,
and so on. -/
def countWrites : String → ℕ → ℤ := fun _ version => version

/-- Each write gives a file another modification time, if that is the number of its writes. -/
theorem countWrites_injective (file : String) : Function.Injective (countWrites file) :=
  fun _ _ h => Int.ofNat.inj h

/-- Without a write between the parse and `os.stat` of a call, the next lookup is a hit on what has
been parsed. -/
theorem hit_of_quiet : ∃ s, EditRun fs sha1 countWrites 1 Nat.one_pos (oneCall fs [] 0) s ∧
    s.Hits fs sha1 countWrites mainRequest (firstParse fs) := by
  refine ⟨_, .cons (.call (.miss rfl rfl) rfl) <| .cons (.call (.parse rfl) ?_) <|
    .cons (.call (.stat rfl) ?_) <| .cons (.call (.insert rfl) trivial) .nil,
    TUCache.lookupSection_insertSection _ _ _ rfl⟩
  · rintro _ ⟨⟩
    rfl
  · rintro _ ⟨⟩
    rfl

end OneCall

/-- `hit_current_or_raced` for the run of one call without a write, after which the lookup is a hit.
-/
theorem hit_current_or_raced_of_quiet : ∃ s : Editing ℕ,
    (firstParse oneFile).file = mainRequest.file oneFile ∧
      ((firstParse oneFile).version = s.version (mainRequest.file oneFile) ∨
        Raced (oneCall oneFile [] 0) (firstParse oneFile)
          (countWrites (mainRequest.file oneFile) (s.version (mainRequest.file oneFile)))) := by
  obtain ⟨s, hrun, hhit⟩ := hit_of_quiet oneFile default
  exact ⟨s, hit_current_or_raced oneFile default countWrites countWrites_injective 1 Nat.one_pos
    (oneCall oneFile [] 0) s hrun mainRequest (firstParse oneFile) hhit⟩

/-- **The file is written between the parse and `os.stat`:** the entry gets the time of the new
contents with the unit of the old, and the old translation unit is a hit. -/
theorem hit_stale : ∃ (events : List (Edit ℕ)) (s : Editing ℕ) (tu : ParsedFrom),
    (∀ file, Function.Injective (countWrites file)) ∧
      EditRun oneFile default countWrites 1 Nat.one_pos events s ∧
      s.Hits oneFile default countWrites mainRequest tu ∧
      tu.version < s.version (mainRequest.file oneFile) := by
  refine ⟨oneCall oneFile [.write (mainRequest.file oneFile)] 1, _, firstParse oneFile,
    countWrites_injective, .cons (.call (.miss rfl rfl) rfl) <| .cons (.call (.parse rfl) ?_) <|
    .cons .write <| .cons (.call (.stat rfl) ?_) <| .cons (.call (.insert rfl) trivial) .nil,
    TUCache.lookupSection_insertSection _ _ _ ?_, ?_⟩
  · rintro _ ⟨⟩
    rfl
  · rintro _ ⟨⟩
    simp [countWrites, Editing.ofCapacity]
  · simp [countWrites, Editing.ofCapacity]
  · simp [firstParse, Editing.ofCapacity]

end Cache
end CppMcp
