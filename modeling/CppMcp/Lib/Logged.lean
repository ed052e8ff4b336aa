/-
# Programs that send and may break off

A program sends texts one after the other, and at some point it returns a value or raises.  What it
returns is that of the program without the texts (`outcome_bind`), and what every part of it sends all of
it sends (`Sends.bind`, `Sends.foldlM`).
-/

import Mathlib.Data.List.Basic
import Mathlib.Tactic.Common

/-- What a program has sent, and what it returns or raises. -/
structure Logged (τ ε α : Type) where
  texts : List τ
  outcome : Except ε α

namespace Logged

variable {τ ε α β σ : Type}

/-- A program that sends nothing. -/
def lift (x : Except ε α) : Logged τ ε α := ⟨[], x⟩

/-- One text is sent, and answered. -/
def send (text : τ) (x : Except ε α) : Logged τ ε α := ⟨[text], x⟩

/-- The second program goes on after the first unless that has raised. -/
def bind (x : Logged τ ε α) (f : α → Logged τ ε β) : Logged τ ε β :=
  match x.outcome with
  | .error e => ⟨x.texts, .error e⟩
  | .ok a => ⟨x.texts ++ (f a).texts, (f a).outcome⟩

instance : Monad (Logged τ ε) where
  pure a := lift (.ok a)
  bind := bind

/-- A program that only answers returns its answer. -/
@[simp] theorem outcome_pure (a : α) : (pure a : Logged τ ε α).outcome = .ok a := rfl

/-- Sending a text has the outcome that is given with it. -/
@[simp] theorem outcome_send (text : τ) (x : Except ε α) : (send text x).outcome = x := rfl

/-- The outcome of two programs one after the other is that of the second, where the first returns.
-/
@[simp] theorem outcome_bind (x : Logged τ ε α) (f : α → Logged τ ε β) :
    (x >>= f).outcome = x.outcome.bind fun a => (f a).outcome := by
  change (bind x f).outcome = _
  unfold bind
  cases x.outcome <;> rfl

/-- **All texts of the program are of this kind.** -/
def Sends (P : τ → Prop) (x : Logged τ ε α) : Prop := ∀ text ∈ x.texts, P text

namespace Sends

variable {P : τ → Prop}

/-- A program that sends nothing sends only what is allowed. -/
theorem pure (a : α) : Sends P (Pure.pure a : Logged τ ε α) := fun _ h => absurd h List.not_mem_nil

/-- A program that sends one text is fine if that text is. -/
theorem send {text : τ} (h : P text) (x : Except ε α) : Sends P (Logged.send text x) :=
  fun _ htext => List.mem_singleton.mp htext ▸ h

/-- Two programs one after the other: the second has to be looked at only on what the first can
return. -/
theorem bind {x : Logged τ ε α} {f : α → Logged τ ε β} (h : Sends P x)
    (hf : ∀ a, x.outcome = .ok a → Sends P (f a)) : Sends P (x >>= f) := by
  change Sends P (Logged.bind x f)
  unfold Logged.bind
  cases hx : x.outcome with
  | error e => exact h
  | ok a => exact fun text htext => (List.mem_append.mp htext).elim (h text) (hf a hx text)

/-- A loop sends only what its turns send, from whatever state each is taken. -/
theorem foldlM {step : σ → α → Logged τ ε σ} {items : List α}
    (h : ∀ a ∈ items, ∀ s, Sends P (step s a)) (s : σ) : Sends P (items.foldlM step s) := by
  induction items generalizing s with
  | nil => exact .pure s
  | cons a items ih =>
    obtain ⟨ha, hitems⟩ := List.forall_mem_cons.mp h
    rw [List.foldlM_cons]
    exact (ha s).bind fun s' _ => ih hitems s'

end Sends
end Logged
