/-
# Programs, call by call

Which calls a driver makes depends on the store alone, so a program is known by the requests it
sends when no call fails and by what it answers then.  `Sends` says that it is the
program `replay` that sends just these, one after the other; it goes through a program by
`Sends.bind`.  A call that fails ends the program, and what was sent before it stays
(`replay_error`).
-/

import CppMcp.Graph.Client

namespace CppMcp
namespace Graph

open Export (Exc)

variable {σ α β ω : Type} (run : ω → σ → σ)

/-- The store after the requests. -/
def runAll (rs : List ω) (s : σ) : σ := rs.foldl (fun s r => run r s) s

/-- The requests are sent one after the other, and then the answer is given. -/
def replay (answer : α) : List ω → Action (Client σ) α
  | [] => pure answer
  | r :: rs => do
    call fun s => ((), run r s)
    replay answer rs

/-- **From the store `s` the program sends `requests s` and answers `answer s`.** -/
def Sends (x : Action (Client σ) α) (requests : σ → List ω) (answer : σ → α) : Prop :=
  ∀ c, x c = replay run (answer c.store) (requests c.store) c

/-- Of the next `n` calls, call `i` is the first that fails. -/
structure Client.FailsAt (c : Client σ) (n i : ℕ) : Prop where
  lt : i < n
  fault : c.fault (c.calls + i) ≠ none
  before : ∀ j < i, c.fault (c.calls + j) = none

variable {run}

/-- With no requests the store stays as it is. -/
@[simp] theorem runAll_nil (s : σ) : runAll run [] s = s := rfl

/-- Requests in two groups act as the one group after the other. -/
theorem runAll_append (rs rs' : List ω) (s : σ) :
    runAll run (rs ++ rs') s = runAll run rs' (runAll run rs s) :=
  List.foldl_append ..

/-- None of the next `n` calls fails, or there is a first that does. -/
theorem Client.failsAt_or (c : Client σ) (n : ℕ) :
    (∀ i < n, c.fault (c.calls + i) = none) ∨ ∃ i, c.FailsAt n i := by
  induction n with
  | zero => exact Or.inl fun i hi => absurd hi (Nat.not_lt_zero i)
  | succ n ih =>
    rcases ih with h | ⟨i, hi⟩
    · by_cases hn : c.fault (c.calls + n) = none
      · exact Or.inl fun i hi => (Nat.lt_succ_iff_lt_or_eq.mp hi).elim (h i) fun hi => hi ▸ hn
      · exact Or.inr ⟨n, Nat.lt_succ_self n, hn, h⟩
    · exact Or.inr ⟨i, Nat.lt_succ_of_lt hi.lt, hi.fault, hi.before⟩

/-! ### How a run of calls ends -/

/-- A call that does not fail answers, changes the store and is counted. -/
theorem call_ok {f : σ → α × σ} {c : Client σ} (h : c.fault c.calls = none) :
    call f c = .ok (f c.store).1 { c with store := (f c.store).2, calls := c.calls + 1 } := by
  unfold call
  rw [h]

/-- A call that fails raises its exception; it is counted, and the store stays as it is. -/
theorem call_error {f : σ → α × σ} {c : Client σ} {exc : Exc} (h : c.fault c.calls = some exc) :
    call f c = .error exc { c with calls := c.calls + 1 } := by
  unfold call
  rw [h]

/-- Where the first part of a program returns, the second goes on from the state that it has left.
-/
theorem bind_of_ok {x : Action σ α} {k : α → Action σ β} {s s' : σ} {a : α} (h : x s = .ok a s') :
    (x >>= k) s = k a s' := by
  change EStateM.bind x k s = _
  unfold EStateM.bind
  rw [h]

/-- Where the first part of a program raises, so does the whole, with the state that is left. -/
theorem bind_of_error {x : Action σ α} {k : α → Action σ β} {s s' : σ} {exc : Exc}
    (h : x s = .error exc s') : (x >>= k) s = .error exc s' := by
  change EStateM.bind x k s = _
  unfold EStateM.bind
  rw [h]

/-- A pass returns both counts if the nodes and then the edges are written without an exception. -/
theorem GraphDriver.pass_of_eq_ok {driver : GraphDriver σ} {nodes : List Export.NodeRecord}
    {edges : List Export.EdgeRecord} {s s₁ s₂ : σ} {n m : ℕ}
    (hnodes : driver.upsert_nodes nodes s = .ok n s₁)
    (hedges : driver.upsert_edges edges s₁ = .ok m s₂) :
    driver.pass nodes edges s = .ok (n, m) s₂ :=
  (bind_of_ok hnodes).trans (bind_of_ok hedges)

/-- All requests are sent if no call fails while they are. -/
theorem replay_ok (answer : α) {rs : List ω} {c : Client σ}
    (h : ∀ i < rs.length, c.fault (c.calls + i) = none) :
    replay run answer rs c =
      .ok answer { c with store := runAll run rs c.store, calls := c.calls + rs.length } := by
  induction rs generalizing c with
  | nil => rfl
  | cons r rs ih =>
    rw [replay, bind_of_ok (call_ok (h 0 (Nat.zero_lt_succ _))), ih fun i hi => ?_]
    · rw [List.length_cons, Nat.add_comm rs.length, ← Nat.add_assoc]
      rfl
    · rw [Nat.add_assoc, Nat.add_comm 1]
      exact h (i + 1) (Nat.succ_lt_succ hi)

/-- The requests before the first call that fails are sent. -/
theorem replay_error (answer : α) {rs : List ω} {c : Client σ} {i : ℕ} {exc : Exc}
    (h : c.FailsAt rs.length i) (hexc : c.fault (c.calls + i) = some exc) :
    replay run answer rs c = .error exc
      { c with store := runAll run (rs.take i) c.store, calls := c.calls + i + 1 } := by
  induction rs generalizing c i with
  | nil => exact absurd h.lt (Nat.not_lt_zero i)
  | cons r rs ih =>
    cases i with
    | zero =>
      rw [replay, bind_of_error (call_error hexc)]
      rfl
    | succ i =>
      have hshift : ∀ j, c.calls + (j + 1) = c.calls + 1 + j := fun j => by
        rw [Nat.add_assoc, Nat.add_comm 1]
      have hrest : Client.FailsAt { c with store := run r c.store, calls := c.calls + 1 }
          rs.length i :=
        ⟨Nat.lt_of_succ_lt_succ h.lt, hshift i ▸ h.fault,
          fun j hj => hshift j ▸ h.before (j + 1) (Nat.succ_lt_succ hj)⟩
      rw [replay, bind_of_ok (call_ok (h.before 0 (Nat.zero_lt_succ i))),
        ih hrest (hshift i ▸ hexc), hshift i, List.take_succ_cons]
      rfl

/-- Where a run of requests returns, it returns its answer and the store has taken all of them. -/
theorem store_of_replay_eq_ok {answer a : α} {rs : List ω} {c c' : Client σ}
    (h : replay run answer rs c = .ok a c') : a = answer ∧ c'.store = runAll run rs c.store := by
  rcases c.failsAt_or rs.length with hok | ⟨i, hi⟩
  · rw [replay_ok answer hok] at h
    cases h
    exact ⟨rfl, rfl⟩
  · obtain ⟨exc, hexc⟩ := Option.ne_none_iff_exists'.mp hi.fault
    rw [replay_error answer hi hexc] at h
    exact absurd h (by simp)

/-! ### Programs that return -/

/-- Started at `c` the program returns and then `P` holds, unless a call fails. -/
def Returns (x : Action (Client σ) α) (P : α → Client σ → Prop) (c : Client σ) : Prop :=
  match x c with
  | .ok a c' => P a c'
  | .error _ c' => ∃ k, c'.fault k ≠ none

/-- A program that has returned in a state as described returns so. -/
theorem returns_of_eq_ok {x : Action (Client σ) α} {P : α → Client σ → Prop} {c c' : Client σ} {a : α}
    (h : x c = .ok a c') (hP : P a c') : Returns x P c := by
  unfold Returns
  rw [h]
  exact hP

/-- What holds after a program may be replaced by what follows from it. -/
theorem Returns.mono {x : Action (Client σ) α} {P Q : α → Client σ → Prop} {c : Client σ}
    (h : Returns x P c) (hPQ : ∀ a c', P a c' → Q a c') : Returns x Q c := by
  unfold Returns at h ⊢
  cases hx : x c with
  | ok a c' =>
    rw [hx] at h
    exact hPQ a c' h
  | error exc c' =>
    rw [hx] at h
    exact h

/-- What two parts of a program guarantee, one after the other, the whole guarantees. -/
theorem Returns.bind {x : Action (Client σ) α} {k : α → Action (Client σ) β}
    {P : α → Client σ → Prop} {Q : β → Client σ → Prop} {c : Client σ} (h : Returns x P c)
    (hk : ∀ a c', P a c' → Returns (k a) Q c') : Returns (x >>= k) Q c := by
  unfold Returns at h ⊢
  cases hx : x c with
  | ok a c' =>
    rw [hx] at h
    rw [bind_of_ok hx]
    exact hk a c' h
  | error exc c' =>
    rw [hx] at h
    rw [bind_of_error hx]
    exact h

/-- A run of requests returns its answer, and the store has taken the requests, unless a call fails.
-/
theorem returns_replay (answer : α) (rs : List ω) (c : Client σ) :
    Returns (replay run answer rs)
      (fun a c' => a = answer ∧ c'.store = runAll run rs c.store ∧ c'.connected = c.connected) c := by
  unfold Returns
  rcases c.failsAt_or rs.length with hok | ⟨i, hi⟩
  · rw [replay_ok answer hok]
    exact ⟨rfl, rfl, rfl⟩
  · obtain ⟨exc, hexc⟩ := Option.ne_none_iff_exists'.mp hi.fault
    rw [replay_error answer hi hexc]
    exact ⟨_, hi.fault⟩

/-! ### Rules -/

/-- Two runs of requests, one after the other, are one run. -/
theorem replay_append (a : α) (b : β) (rs rs' : List ω) :
    (replay run a rs >>= fun _ => replay run b rs') = replay run b (rs ++ rs') := by
  induction rs with
  | nil => rfl
  | cons r rs ih => rw [replay, bind_assoc, ih, List.cons_append, replay]

/-- A program that only returns sends nothing. -/
theorem Sends.pure (a : α) : Sends run (pure a) (fun _ => []) fun _ => a := fun _ => rfl

/-- One call sends the request whose effect on the store it has, and answers what it answers. -/
theorem Sends.call {f : σ → α × σ} {r : ω} (h : ∀ s, run r s = (f s).2) :
    Sends run (call f) (fun _ => [r]) fun s => (f s).1 := by
  intro c
  cases hfault : c.fault c.calls with
  | none =>
    rw [call_ok hfault, replay, bind_of_ok (call_ok hfault), h]
    rfl
  | some exc => rw [call_error hfault, replay, bind_of_error (call_error hfault)]

/-- A program followed by another sends the requests of both; those of the second depend on the
answer and the store left by the first. -/
theorem Sends.bind {x : Action (Client σ) α} {k : α → Action (Client σ) β} {rs : σ → List ω}
    {q : α → σ → List ω} {f : σ → α} {g : α → σ → β} (hx : Sends run x rs f)
    (hk : ∀ a, Sends run (k a) (q a) (g a)) :
    Sends run (x >>= k) (fun s => rs s ++ q (f s) (runAll run (rs s) s))
      fun s => g (f s) (runAll run (rs s) s) := by
  intro c
  rw [← replay_append (f c.store)]
  cases hxc : x c with
  | ok a c' =>
    have hreplay := (hx c).symm.trans hxc
    obtain ⟨rfl, hstore⟩ := store_of_replay_eq_ok hreplay
    rw [bind_of_ok hxc, bind_of_ok hreplay, hk, hstore]
  | error exc c' => rw [bind_of_error hxc, bind_of_error ((hx c).symm.trans hxc)]

/-- What a program sends and answers may be written in another way. -/
theorem Sends.congr {x : Action (Client σ) α} {rs rs' : σ → List ω} {f f' : σ → α}
    (h : Sends run x rs f) (hrs : ∀ s, rs s = rs' s) (hf : ∀ s, f s = f' s) :
    Sends run x rs' f' := fun c => by rw [← hrs, ← hf, h]

/-- What is sent while a batch is written. -/
def requestsAll (run : ω → σ → σ) (requests : α → σ → List ω) : List α → σ → List ω
  | [], _ => []
  | rec :: batch, s =>
    requests rec s ++ requestsAll run requests batch (runAll run (requests rec s) s)

/-- A request of a batch is one of some record of it, at the store that was there when its turn
came. -/
theorem mem_requestsAll {requests : α → σ → List ω} {r : ω} {batch : List α} {s : σ}
    (h : r ∈ requestsAll run requests batch s) : ∃ rec ∈ batch, ∃ s', r ∈ requests rec s' := by
  induction batch generalizing s with
  | nil => exact absurd h List.not_mem_nil
  | cons rec batch ih =>
    rcases List.mem_append.mp h with h | h
    · exact ⟨rec, List.mem_cons_self, s, h⟩
    · obtain ⟨rec', hrec', h⟩ := ih h
      exact ⟨rec', List.mem_cons_of_mem _ hrec', h⟩

/-- **A loop over records sends** what the records ask for in their turn, and answers the sum of
what they add, if `f` says what each one does. -/
theorem Sends.tallyRecords {write : α → Action (Client σ) ℕ} {requests : α → σ → List ω}
    {f : α → σ → ℕ × σ} (h : ∀ rec, Sends run (write rec) (requests rec) fun s => (f rec s).1)
    (hf : ∀ rec s, runAll run (requests rec s) s = (f rec s).2) (batch : List α) :
    Sends run (tallyRecords write batch) (requestsAll run requests batch)
      fun s => (PropertyGraph.tally f batch s).1 := by
  induction batch with
  | nil => exact Sends.pure 0
  | cons rec batch ih =>
    refine ((h rec).bind fun n => ih.bind fun m => Sends.pure (n + m)).congr (fun s => ?_)
      fun s => ?_
    · rw [List.append_nil, requestsAll]
    · rw [hf, PropertyGraph.tally]

/-- All requests of a batch act on the store as its records, one after the other. -/
theorem runAll_requestsAll {requests : α → σ → List ω} {f : α → σ → ℕ × σ}
    (hf : ∀ rec s, runAll run (requests rec s) s = (f rec s).2) (batch : List α) (s : σ) :
    runAll run (requestsAll run requests batch s) s = (PropertyGraph.tally f batch s).2 := by
  induction batch generalizing s with
  | nil => rfl
  | cons rec batch ih => rw [requestsAll, runAll_append, ih, hf, PropertyGraph.tally]

/-- A program that is known by its requests acts on the store as these do. -/
theorem Sends.store_of_acts {x : Action (Client σ) α} {rs : σ → List ω} {f : σ → α} {g : σ → α × σ}
    (h : Sends run x rs f) (hg : Acts x g) (s : σ) : g s = (f s, runAll run (rs s) s) := by
  have hok := h ⟨s, true, 0, fun _ => none⟩
  rw [replay_ok (f s) fun i _ => rfl] at hok
  exact (hg _ _ _ hok).1.symm

/-- A driver without a client does nothing and returns 0, as its first line says. -/
theorem unlessIdle_of_not_connected {batch : List α} {write : Action (Client σ) ℕ} {c : Client σ}
    (hc : c.connected = false) : unlessIdle batch write c = .ok 0 c :=
  if_pos (Or.inr hc)

/-- A driver that is connected sends what the records ask for. -/
theorem Sends.unlessIdle {batch : List α} {write : Action (Client σ) ℕ} {rs : σ → List ω}
    {f : σ → ℕ} (h : Sends run write rs f) (hnil : batch = [] → ∀ s, rs s = [] ∧ f s = 0)
    {c : Client σ} (hc : c.connected = true) :
    unlessIdle batch write c = replay run (f c.store) (rs c.store) c := by
  unfold Graph.unlessIdle
  split_ifs with hidle
  · rcases hidle with hbatch | hc'
    · rw [(hnil hbatch c.store).1, (hnil hbatch c.store).2]
      rfl
    · exact absurd hc (by rw [hc']; simp)
  · exact h c

end Graph
end CppMcp
