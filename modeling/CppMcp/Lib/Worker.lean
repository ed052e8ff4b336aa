/-
# A pool with one worker

Callers submit calls from any thread.  One worker takes them in the order of submission and runs one
after the other, over a state that all calls share.  A submitted call has a number; its future is
done when the worker has run the call.  A caller that waits may give up, which does not take the
call back.  A pool that is shut down accepts nothing more, but runs what it has accepted; then the
shared state may be cleared.

Whatever the interleaving, the futures are done in order, each once, with the answers that the calls
get one after the other (`in_order_of_run`), so no caller can tell the pool from a sequential program
(`answer_of_deliver`).
-/

import CppMcp.Lib.Trace
import Mathlib.Data.List.Forall2

namespace Worker

variable {σ κ α : Type*}

section Sequential

variable (serve : σ → κ → α × σ)

/-- The state after some calls, one after the other. -/
def after (s : σ) (calls : List κ) : σ := calls.foldl (fun s k => (serve s k).2) s

/-- The answers to some calls, one after the other. -/
def answers (s : σ) : List κ → List α
  | [] => []
  | k :: calls => (serve s k).1 :: answers (serve s k).2 calls

/-- What is left after a sequence of calls is what the last one leaves after the others. -/
theorem after_concat (s : σ) (calls : List κ) (k : κ) :
    after serve s (calls ++ [k]) = (serve (after serve s calls) k).2 := List.foldl_append

/-- Every call has one answer. -/
@[simp] theorem length_answers (s : σ) (calls : List κ) :
    (answers serve s calls).length = calls.length := by
  induction calls generalizing s with
  | nil => rfl
  | cons k calls ih => rw [answers, List.length_cons, List.length_cons, ih]

/-- The answers to a sequence of calls are those to the earlier ones, and the answer to the last in
the state they leave. -/
theorem answers_concat (s : σ) (calls : List κ) (k : κ) :
    answers serve s (calls ++ [k]) = answers serve s calls ++ [(serve (after serve s calls) k).1] := by
  induction calls generalizing s with
  | nil => rfl
  | cons k' calls ih => exact congrArg _ (ih _)

/-- The answer to a call is its answer in the state that those before it leave. -/
theorem getElem?_answers (s : σ) (calls : List κ) (i : ℕ) :
    (answers serve s calls)[i]? =
      calls[i]?.map fun k => (serve (after serve s (calls.take i)) k).1 := by
  induction calls generalizing s i with
  | nil => rfl
  | cons k calls ih =>
    cases i with
    | zero => rfl
    | succ i => exact ih _ i

/-- **Simulation.**  Calls that are answered alike in related states, and leave related states, are
answered alike one after the other. -/
theorem answers_of_simulation {τ β : Type*} {serve' : τ → κ → β × τ} {R : σ → τ → Prop}
    {Q : α → β → Prop} {calls : List κ}
    (step : ∀ k ∈ calls, ∀ s t, R s t →
      Q (serve s k).1 (serve' t k).1 ∧ R (serve s k).2 (serve' t k).2)
    {s : σ} {t : τ} (h : R s t) :
    List.Forall₂ Q (answers serve s calls) (answers serve' t calls) := by
  induction calls generalizing s t with
  | nil => exact .nil
  | cons k calls ih =>
    obtain ⟨hanswer, hstate⟩ := step k (List.mem_cons_self ..) s t h
    exact .cons hanswer (ih (fun k hk => step k (List.mem_cons_of_mem _ hk)) hstate)

/-- Each answer is then that of the other program, in the state that the calls before it leave there. -/
theorem answer_of_simulation {τ β : Type*} {serve' : τ → κ → β × τ} {R : σ → τ → Prop}
    {Q : α → β → Prop} {calls : List κ}
    (step : ∀ k ∈ calls, ∀ s t, R s t →
      Q (serve s k).1 (serve' t k).1 ∧ R (serve s k).2 (serve' t k).2)
    {s : σ} {t : τ} (h : R s t) {i : ℕ} {a : α} (ha : (answers serve s calls)[i]? = some a) :
    ∃ k, calls[i]? = some k ∧ Q a (serve' (after serve' t (calls.take i)) k).1 := by
  have hall := answers_of_simulation serve step h
  obtain ⟨hi, rfl⟩ := List.getElem?_eq_some_iff.mp ha
  have hi' : i < (answers serve' t calls).length := hall.length_eq ▸ hi
  have hanswer := List.getElem?_eq_getElem hi'
  rw [getElem?_answers] at hanswer
  obtain ⟨k, hk, hserve⟩ := Option.map_eq_some_iff.mp hanswer
  refine ⟨k, hk, ?_⟩
  rw [hserve]
  exact hall.get hi hi'

end Sequential

/-! ### The pool -/

/-- The pool: the calls that wait, the one that runs, each with its number, and the futures. -/
structure Pool (σ κ α : Type*) where
  shared : σ
  queue : List (ℕ × κ)
  running : Option (ℕ × κ)
  futures : List (Option α)
  down : Bool

/-- Nothing has been submitted. -/
def Pool.new (s : σ) : Pool σ κ α := ⟨s, [], none, [], false⟩

/-- What happens: a call is submitted or refused, the worker starts or finishes a call, a caller is
given the answer or gives up, the pool is shut down and what is shared is cleared. -/
inductive Event (κ α : Type*)
  | submit (k : κ)
  | refuse (k : κ)
  | start
  | finish
  | deliver (i : ℕ) (a : α)
  | giveUp (i : ℕ)
  | shutdown
  | clear

variable (serve : σ → κ → α × σ) (clear : σ → σ)

/-- One step of the pool. -/
inductive Step : Pool σ κ α → Event κ α → Pool σ κ α → Prop
  | submit {p : Pool σ κ α} {k : κ} (up : p.down = false) :
      Step p (.submit k) { p with
        queue := p.queue ++ [(p.futures.length, k)], futures := p.futures ++ [none] }
  | refuse {p : Pool σ κ α} {k : κ} (down : p.down = true) : Step p (.refuse k) p
  | start {p : Pool σ κ α} {call : ℕ × κ} {rest : List (ℕ × κ)} (idle : p.running = none)
      (next : p.queue = call :: rest) : Step p .start { p with queue := rest, running := some call }
  | finish {p : Pool σ κ α} {i : ℕ} {k : κ} (at_ : p.running = some (i, k)) :
      Step p .finish { p with
        shared := (serve p.shared k).2
        running := none
        futures := p.futures.set i (some (serve p.shared k).1) }
  | deliver {p : Pool σ κ α} {i : ℕ} {a : α} (done : p.futures[i]? = some (some a)) :
      Step p (.deliver i a) p
  | giveUp {p : Pool σ κ α} {i : ℕ} (pending : p.futures[i]? = some none) : Step p (.giveUp i) p
  | shutdown {p : Pool σ κ α} : Step p .shutdown { p with down := true }
  | clear {p : Pool σ κ α} (down : p.down = true) (empty : p.queue = []) (idle : p.running = none) :
      Step p .clear { p with shared := clear p.shared }

/-- The call that an event submits. -/
def Event.submitted : Event κ α → Option κ
  | .submit k => some k
  | _ => none

/-- The calls that have been submitted, in their order. -/
def submitted (es : List (Event κ α)) : List κ := es.filterMap Event.submitted

/-- The pool has begun to end. -/
def Event.isClear : Event κ α → Bool
  | .clear => true
  | _ => false

/-- The worker has finished a call. -/
def Event.isFinish : Event κ α → Bool
  | .finish => true
  | _ => false

/-- Calls with their numbers, from `n` on. -/
def numbered : ℕ → List κ → List (ℕ × κ)
  | _, [] => []
  | n, k :: calls => (n, k) :: numbered (n + 1) calls

/-- Calls are numbered in the order in which they come. -/
theorem numbered_concat (n : ℕ) (calls : List κ) (k : κ) :
    numbered n (calls ++ [k]) = numbered n calls ++ [(n + calls.length, k)] := by
  induction calls generalizing n with
  | nil => rfl
  | cons k' calls ih =>
    rw [List.cons_append, numbered, ih, numbered, List.cons_append, List.length_cons, Nat.add_assoc,
      Nat.add_comm 1]

/-- **The pool is a queue:** the calls `ran` have been run and have their answers, and the calls
`waiting` behind them wait in their order.  What is shared is what `ran` leaves, until it is cleared;
then none is left. -/
structure InOrder (s : σ) (es : List (Event κ α)) (p : Pool σ κ α) (ran waiting : List κ) : Prop where
  calls : submitted es = ran ++ waiting
  finished : es.countP Event.isFinish = ran.length
  futures : p.futures = (answers serve s ran).map some ++ waiting.map fun _ => none
  pending : p.running.toList ++ p.queue = numbered ran.length waiting
  shared : es.any Event.isClear = false → p.shared = after serve s ran
  cleared : es.any Event.isClear = true → p.down = true ∧ waiting = []

section Invariant

variable {serve clear} {s : σ} {es : List (Event κ α)} {e : Event κ α} {p p' : Pool σ κ α}
  {ran waiting : List κ}

/-- A new pool has nothing submitted, nothing answered and nothing waiting. -/
theorem inOrder_new (s : σ) : InOrder serve s ([] : List (Event κ α)) (.new s) [] [] where
  calls := rfl
  finished := rfl
  futures := rfl
  pending := rfl
  shared _ := rfl
  cleared h := absurd h Bool.false_ne_true

/-- What has been submitted after one more event. -/
theorem submitted_concat (es : List (Event κ α)) (e : Event κ α) :
    submitted (es ++ [e]) = submitted es ++ e.submitted.toList := by
  rw [submitted, List.filterMap_append, submitted]
  cases h : e.submitted <;> simp [h]

/-- An event that neither submits, finishes nor clears keeps the order of a pool with the same calls. -/
theorem InOrder.of_quiet (h : InOrder serve s es p ran waiting) (hsubmitted : e.submitted = none)
    (hfinish : e.isFinish = false) (hclear : e.isClear = false)
    (hfutures : p'.futures = p.futures)
    (hpending : p'.running.toList ++ p'.queue = p.running.toList ++ p.queue)
    (hshared : p'.shared = p.shared) (hdown : p.down = true → p'.down = true) :
    InOrder serve s (es ++ [e]) p' ran waiting := by
  have hany : (es ++ [e]).any Event.isClear = es.any Event.isClear := by
    rw [List.any_append, List.any_cons, List.any_nil, hclear, Bool.or_false, Bool.or_false]
  refine ⟨?_, ?_, hfutures.trans h.futures, hpending.trans h.pending, fun hno => ?_, fun hyes => ?_⟩
  · rw [submitted_concat, hsubmitted, Option.toList_none, List.append_nil, h.calls]
  · rw [List.countP_append, List.countP_singleton, hfinish, if_neg Bool.false_ne_true, Nat.add_zero,
      h.finished]
  · exact hshared.trans (h.shared (hany ▸ hno))
  · exact (h.cleared (hany ▸ hyes)).imp_left hdown

/-- There is a future for every call, whether it has been run or waits. -/
theorem InOrder.length_futures (h : InOrder serve s es p ran waiting) :
    p.futures.length = ran.length + waiting.length := by
  rw [h.futures, List.length_append, List.length_map, length_answers, List.length_map]

/-- **Every step keeps the order:** what has been run, then what waits, are the submitted calls in
their order, before and after. -/
theorem InOrder.step (h : InOrder serve s es p ran waiting) (hstep : Step serve clear p e p') :
    ∃ ran' waiting', InOrder serve s (es ++ [e]) p' ran' waiting' := by
  cases hstep with
  | @submit k up =>
    have hno : es.any Event.isClear = false := by
      by_contra hyes
      rw [(h.cleared (eq_true_of_ne_false hyes)).1] at up
      exact Bool.false_ne_true up.symm
    have hany : (es ++ [Event.submit (α := α) k]).any Event.isClear = false := by
      rw [List.any_append, hno]
      rfl
    refine ⟨ran, waiting ++ [k], ?_, ?_, ?_, ?_, fun _ => h.shared hno, fun hyes => ?_⟩
    · rw [submitted_concat, h.calls, List.append_assoc]
      rfl
    · rw [List.countP_append, h.finished]
      rfl
    · rw [h.futures, List.append_assoc, List.map_append]
      rfl
    · rw [← List.append_assoc, h.pending, h.length_futures, numbered_concat]
    · rw [hany] at hyes
      exact absurd hyes Bool.false_ne_true
  | refuse down => exact ⟨ran, waiting, h.of_quiet rfl rfl rfl rfl rfl rfl id⟩
  | @start call rest idle next =>
    refine ⟨ran, waiting, h.of_quiet rfl rfl rfl rfl ?_ rfl id⟩
    rw [idle, next]
    rfl
  | @finish i k at_ =>
    -- the call that runs is the first of those that have not been run
    have hpending := h.pending
    rw [at_] at hpending
    cases waiting with
    | nil => exact absurd hpending (by simp [numbered])
    | cons k' waiting =>
      obtain ⟨hcall, hqueue⟩ := List.cons.inj hpending
      obtain ⟨rfl, rfl⟩ := Prod.mk.inj hcall
      have hno : es.any Event.isClear = false := by
        by_contra hyes
        exact absurd (h.cleared (eq_true_of_ne_false hyes)).2 (List.cons_ne_nil _ _)
      have hany : (es ++ [Event.finish (κ := κ) (α := α)]).any Event.isClear = false := by
        rw [List.any_append, hno]
        rfl
      refine ⟨ran ++ [k], waiting, ?_, ?_, ?_, ?_, fun _ => ?_, fun hyes => ?_⟩
      · rw [submitted_concat, h.calls, List.append_assoc ran [k]]
        exact List.append_nil _
      · rw [List.countP_append, h.finished, List.length_append]
        rfl
      · dsimp only
        rw [h.futures, h.shared hno, answers_concat, List.map_append, List.append_assoc,
          List.set_append_right]
        · simp
        · simp
      · rw [List.length_append]
        exact hqueue
      · rw [after_concat, ← h.shared hno]
      · rw [hany] at hyes
        exact absurd hyes Bool.false_ne_true
  | deliver done => exact ⟨ran, waiting, h.of_quiet rfl rfl rfl rfl rfl rfl id⟩
  | giveUp pending => exact ⟨ran, waiting, h.of_quiet rfl rfl rfl rfl rfl rfl id⟩
  | shutdown => exact ⟨ran, waiting, h.of_quiet rfl rfl rfl rfl rfl rfl fun _ => rfl⟩
  | clear down empty idle =>
    have hnone : waiting = [] := by
      have hpending := h.pending
      rw [empty, idle] at hpending
      cases waiting with
      | nil => rfl
      | cons k waiting => exact absurd hpending (by simp [numbered])
    refine ⟨ran, waiting, ?_, ?_, h.futures, h.pending, fun hno => ?_, fun _ => ⟨down, hnone⟩⟩
    · rw [submitted_concat, h.calls]
      exact List.append_nil _
    · rw [List.countP_append, h.finished]
      rfl
    · rw [List.any_append] at hno
      exact absurd hno (by simp [Event.isClear])

/-- **The pool is a queue in every run:** however the steps of the callers and of the worker are
interleaved, the calls are run in the order in which they were submitted. -/
theorem in_order_of_run (h : Trace.Run (Step serve clear) (.new s) es p) :
    ∃ ran waiting, InOrder serve s es p ran waiting := by
  induction h with
  | nil => exact ⟨[], [], inOrder_new s⟩
  | concat _ hstep ih =>
    obtain ⟨_, _, hinv⟩ := ih
    exact hinv.step hstep

/-- A future that is done has the answer to its call. -/
theorem InOrder.getElem?_answers (h : InOrder serve s es p ran waiting) {i : ℕ} {a : α}
    (hdone : p.futures[i]? = some (some a)) : (answers serve s (submitted es))[i]? = some a := by
  rw [h.futures, List.getElem?_append] at hdone
  split at hdone
  · rename_i hi
    rw [List.length_map, length_answers] at hi
    rw [List.getElem?_map, Option.map_eq_some_iff] at hdone
    obtain ⟨a', ha', hsome⟩ := hdone
    rw [← Option.some.inj hsome, ← ha', Worker.getElem?_answers, Worker.getElem?_answers, h.calls,
      List.getElem?_append_left hi, List.take_append_of_le_length (Nat.le_of_lt hi)]
  · rw [List.getElem?_map, Option.map_eq_some_iff] at hdone
    obtain ⟨k, -, hnone⟩ := hdone
    exact absurd hnone (by simp)

/-- Later calls do not change the answers to earlier ones. -/
theorem getElem?_answers_of_append {es' : List (Event κ α)} {i : ℕ} {a : α}
    (h : (answers serve s (submitted es))[i]? = some a) :
    (answers serve s (submitted (es ++ es')))[i]? = some a := by
  rw [Worker.getElem?_answers] at h ⊢
  obtain ⟨k, hk, ha⟩ := Option.map_eq_some_iff.mp h
  obtain ⟨hi, -⟩ := List.getElem?_eq_some_iff.mp hk
  have happend : submitted (es ++ es') = submitted es ++ submitted es' := List.filterMap_append
  rw [happend, List.getElem?_append_left hi, List.take_append_of_le_length (Nat.le_of_lt hi), hk]
  exact congrArg some ha

/-- **A caller is given the answer of a sequential program** to the calls in the order in which they
have been submitted. -/
theorem answer_of_deliver (h : Trace.Run (Step serve clear) (.new s) es p) {i : ℕ} {a : α}
    (hdeliver : .deliver i a ∈ es) : (answers serve s (submitted es))[i]? = some a := by
  induction h with
  | nil => exact absurd hdeliver List.not_mem_nil
  | @concat es e p p' hrun hstep ih =>
    rcases List.mem_append.mp hdeliver with hdeliver | hlast
    · exact getElem?_answers_of_append (ih hdeliver)
    · rw [List.mem_singleton] at hlast
      subst hlast
      cases hstep with
      | deliver done =>
        obtain ⟨ran, waiting, hinv⟩ := in_order_of_run hrun
        exact getElem?_answers_of_append (hinv.getElem?_answers done)

/-- **Once what is shared has been cleared, every call has been answered.** -/
theorem futures_of_clear (h : Trace.Run (Step serve clear) (.new s) es p) (hclear : .clear ∈ es) :
    p.futures = (answers serve s (submitted es)).map some := by
  obtain ⟨ran, waiting, hinv⟩ := in_order_of_run h
  obtain ⟨-, hnone⟩ := hinv.cleared (List.any_eq_true.mpr ⟨_, hclear, rfl⟩)
  rw [hinv.futures, hinv.calls, hnone, List.append_nil]
  exact List.append_nil _

/-- What the worker does leaves the submitted calls as they are. -/
theorem submitted_of_worker {es' : List (Event κ α)} (h : ∀ e ∈ es', e = .start ∨ e = .finish) :
    submitted (es ++ es') = submitted es := by
  have hnone : submitted es' = [] := List.filterMap_eq_nil_iff.mpr fun e he => by
    rcases h e he with rfl | rfl <;> rfl
  rw [submitted, List.filterMap_append]
  exact (congrArg _ hnone).trans (List.append_nil _)

/-- The worker can take the next step as long as a call is left. -/
theorem InOrder.next (h : InOrder serve s es p ran waiting) (clear : σ → σ) (hleft : waiting ≠ []) :
    ∃ es' p', (∀ e ∈ es', e = .start ∨ e = .finish) ∧ Trace.Run (Step serve clear) p es' p' ∧
      ∃ ran' waiting', InOrder serve s (es ++ es') p' ran' waiting' ∧
        waiting'.length + 1 = waiting.length := by
  have hfinish : ∀ {es : List (Event κ α)} {p : Pool σ κ α} {i : ℕ} {k : κ},
      InOrder serve s es p ran waiting → p.running = some (i, k) →
      ∃ p', Step serve clear p .finish p' ∧ ∃ ran' waiting',
        InOrder serve s (es ++ [.finish]) p' ran' waiting' ∧
          waiting'.length + 1 = waiting.length := by
    intro es p i k h hrunning
    have hstep : Step serve clear p .finish _ := .finish hrunning
    obtain ⟨ran', waiting', hinv⟩ := h.step hstep
    refine ⟨_, hstep, ran', waiting', hinv, ?_⟩
    have hcalls := congrArg List.length hinv.calls
    have hran := hinv.finished
    rw [submitted_of_worker fun e he => Or.inr (List.mem_singleton.mp he), h.calls,
      List.length_append, List.length_append] at hcalls
    rw [List.countP_append, h.finished] at hran
    change ran.length + 1 = _ at hran
    omega
  cases hrunning : p.running with
  | some call =>
    obtain ⟨p', hstep, hnext⟩ := hfinish h hrunning
    exact ⟨[.finish], p', fun e he => Or.inr (List.mem_singleton.mp he), .single hstep, hnext⟩
  | none =>
    have hpending := h.pending
    rw [hrunning] at hpending
    cases hqueue : p.queue with
    | nil =>
      rw [hqueue] at hpending
      cases waiting with
      | nil => exact absurd rfl hleft
      | cons k waiting => exact absurd hpending (by simp [numbered])
    | cons call rest =>
      have hstart : Step serve clear p .start { p with queue := rest, running := some call } :=
        .start hrunning hqueue
      have hinv : InOrder serve s (es ++ [.start])
          { p with queue := rest, running := some call } ran waiting :=
        h.of_quiet rfl rfl rfl rfl (by rw [hrunning, hqueue]; rfl) rfl id
      obtain ⟨p', hstep, hnext⟩ := hfinish hinv rfl
      refine ⟨[.start, .finish], p', fun e he => ?_, (Trace.Run.single hstart).concat hstep, ?_⟩
      · simpa using he
      · rw [List.append_assoc] at hnext
        exact hnext

/-- **The worker gets through:** from every pool that has been reached it can run all calls that wait,
whatever the callers do, and then every future is done. -/
theorem drains_of_run (h : Trace.Run (Step serve clear) (.new s) es p) :
    ∃ es' p', (∀ e ∈ es', e = .start ∨ e = .finish) ∧ Trace.Run (Step serve clear) p es' p' ∧
      p'.futures = (answers serve s (submitted es)).map some := by
  obtain ⟨ran, waiting, hinv⟩ := in_order_of_run h
  clear h
  induction hn : waiting.length generalizing es p ran waiting with
  | zero =>
    refine ⟨[], p, fun e he => absurd he List.not_mem_nil, .nil, ?_⟩
    rw [hinv.futures, hinv.calls, List.length_eq_zero_iff.mp hn, List.append_nil]
    exact List.append_nil _
  | succ n ih =>
    obtain ⟨es₁, p₁, hes₁, hrun₁, ran', waiting', hinv', hlen⟩ :=
      hinv.next clear fun hnil => by rw [hnil] at hn; exact absurd hn (by simp)
    obtain ⟨es₂, p₂, hes₂, hrun₂, hfutures⟩ := ih ran' waiting' hinv' (by omega)
    refine ⟨es₁ ++ es₂, p₂, fun e he => ?_, hrun₁.append hrun₂, ?_⟩
    · exact (List.mem_append.mp he).elim (hes₁ e) (hes₂ e)
    · rw [hfutures, submitted_of_worker hes₁]

/-- When every future is done, nothing waits and nothing runs. -/
theorem InOrder.idle (h : InOrder serve s es p ran waiting) (hdone : ∀ future ∈ p.futures, future ≠ none) :
    p.queue = [] ∧ p.running = none := by
  have hnone : waiting = [] := by
    cases waiting with
    | nil => rfl
    | cons k waiting =>
      refine absurd rfl (hdone none ?_)
      rw [h.futures]
      exact List.mem_append_right _ (List.mem_cons_self ..)
  have hpending := h.pending
  rw [hnone] at hpending
  obtain ⟨hrunning, hqueue⟩ := List.append_eq_nil_iff.mp hpending
  exact ⟨hqueue, Option.toList_eq_nil_iff.mp hrunning⟩

/-- A pool that is down stays down: no step starts it again. -/
theorem down_of_run (h : Trace.Run (Step serve clear) p es p') (hdown : p.down = true) :
    p'.down = true := by
  induction h with
  | nil => exact hdown
  | concat _ hstep ih =>
    cases hstep with
    | shutdown => rfl
    | _ => exact ih

/-- **The pool can always be closed:** once it is shut down, the worker alone can get to where what is
shared is cleared. -/
theorem closes_of_run (h : Trace.Run (Step serve clear) (.new s) es p) :
    ∃ es' p', (∀ e ∈ es', e = .start ∨ e = .finish) ∧
      Trace.Run (Step serve clear) p (.shutdown :: (es' ++ [.clear])) p' := by
  have hshutdown := h.concat .shutdown
  obtain ⟨es', p', hes', hrun, hfutures⟩ := drains_of_run hshutdown
  obtain ⟨ran, waiting, hinv⟩ := in_order_of_run (hshutdown.append hrun)
  obtain ⟨hqueue, hrunning⟩ := hinv.idle fun future hfuture hnone => by
    rw [hfutures, hnone] at hfuture
    obtain ⟨a, -, ha⟩ := List.mem_map.mp hfuture
    exact Option.some_ne_none a ha
  exact ⟨es', _, hes', .cons .shutdown (hrun.concat (.clear (down_of_run hrun rfl) hqueue hrunning))⟩

/-- **Simulation of the pool.**  What is related to what is shared, and stays so from call to call, is in
every run related to what the calls that have been run leave. -/
theorem related_of_run {τ β : Type*} {serve' : τ → κ → β × τ} {R : σ → τ → Prop}
    (h : Trace.Run (Step serve clear) (.new s) es p)
    (step : ∀ k ∈ submitted es, ∀ s t, R s t → R (serve s k).2 (serve' t k).2)
    (hclear : ∀ s t, R s t → R (clear s) t) {t : τ} (start : R s t) :
    R p.shared (after serve' t ((submitted es).take (es.countP Event.isFinish))) := by
  induction h with
  | nil => exact start
  | @concat es e p p' hrun hstep ih =>
    obtain ⟨ran, waiting, hinv⟩ := in_order_of_run hrun
    have hbefore : submitted (es ++ [e]) = submitted es ++ e.submitted.toList := submitted_concat es e
    have hp := ih fun k hk => step k (hbefore ▸ List.mem_append_left _ hk)
    rw [hinv.calls, hinv.finished, List.take_left] at hp
    -- a step that finishes nothing leaves the calls that have been run as they are
    have hkeep : e.isFinish = false →
        (submitted (es ++ [e])).take ((es ++ [e]).countP Event.isFinish) = ran := fun he => by
      rw [List.countP_append, List.countP_singleton, he, if_neg Bool.false_ne_true, Nat.add_zero,
        hinv.finished, hbefore, hinv.calls, List.append_assoc, List.take_left]
    cases hstep with
    | @finish i k at_ =>
      have hpending := hinv.pending
      rw [at_] at hpending
      cases waiting with
      | nil => exact absurd hpending (by simp [numbered])
      | cons k' waiting =>
        obtain ⟨-, rfl⟩ := Prod.mk.inj (List.cons.inj hpending).1
        have hran : (submitted (es ++ [Event.finish])).take
            ((es ++ [Event.finish (κ := κ) (α := α)]).countP Event.isFinish) = ran ++ [k] := by
          rw [List.countP_append, hinv.finished, hbefore, hinv.calls]
          change ((ran ++ k :: waiting) ++ []).take (ran.length + 1) = _
          rw [List.append_nil, List.take_length_add_append]
          rfl
        rw [hran, after_concat]
        refine step k ?_ _ _ hp
        rw [hbefore, hinv.calls]
        exact List.mem_append_left _ (List.mem_append_right _ (List.mem_cons_self ..))
    | clear _ _ _ =>
      rw [hkeep rfl]
      exact hclear _ _ hp
    | _ =>
      rw [hkeep rfl]
      exact hp

/-- **What every call keeps holds of what is shared,** in every run. -/
theorem invariant_of_run {P : σ → Prop} (h : Trace.Run (Step serve clear) (.new s) es p)
    (step : ∀ k ∈ submitted es, ∀ s, P s → P (serve s k).2) (hclear : ∀ s, P s → P (clear s))
    (start : P s) : P p.shared :=
  @related_of_run _ _ _ serve clear s es p _ _ serve (fun s _ => P s) h
    (fun k hk s _ hs => step k hk s hs) (fun s _ => hclear s) s start

end Invariant

end Worker
