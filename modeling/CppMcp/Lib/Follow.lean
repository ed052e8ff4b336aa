/-
# A fallible program that follows another

Two programs that may raise are run side by side.  The second follows the first when it
returns what `f` makes of the first's value, and, if `p` holds, raises what the first raises.
So a second program that does less than the first, and therefore raises less, can be compared
with it where the first returns, and where nothing that is left out raises.
-/

import Mathlib.Tactic.Common

/-- `y` follows `x`: it returns what `f` makes of the value of `x`, and raises what `x` raises if
`p` holds. -/
def Follows {ε α β : Type*} (p : Prop) (f : α → β) (x : Except ε α) (y : Except ε β) : Prop :=
  match x with
  | .ok a => y = .ok (f a)
  | .error e => p → y = .error e

namespace Follows

variable {ε α β α' β' : Type*} {p q : Prop} {f : α → β} {g : α' → β'} {x : Except ε α}
  {y : Except ε β}

/-- A value follows the value that it is made from, whatever the condition is. -/
theorem ok (f : α → β) (a : α) : Follows p f (.ok a : Except ε α) (.ok (f a)) := rfl

/-- Where the first returns, the second returns what is made of it: this half needs no condition. -/
theorem eq_ok (h : Follows p f x y) {a : α} (hx : x = .ok a) : y = .ok (f a) := by
  subst hx
  exact h

/-- Under the condition, the second raises what the first raises. -/
theorem eq_error (h : Follows p f x y) (hp : p) {e : ε} (hx : x = .error e) : y = .error e := by
  subst hx
  exact h hp

/-- What returns is followed back: if the second returns, so does the first. -/
theorem exists_eq_ok (h : Follows p f x y) (hp : p) {b : β} (hy : y = .ok b) :
    ∃ a, x = .ok a ∧ f a = b := by
  cases x with
  | ok a => exact ⟨a, rfl, Except.ok.inj ((h.eq_ok rfl).symm.trans hy)⟩
  | error e => exact absurd ((h.eq_error hp rfl).symm.trans hy) (by simp)

/-- Following under a weaker condition is more: it gives following under every condition that
implies it. -/
theorem mono (h : Follows p f x y) (hqp : q → p) : Follows q f x y := by
  cases x with
  | ok a => exact h
  | error e => exact fun hq => h (hqp hq)

/-- **Following passes to what is done next.** If the continuations follow each other on the values
that the first returns, so do the whole computations. -/
theorem bind {k : α → Except ε α'} {k' : β → Except ε β'} (h : Follows p f x y)
    (hk : ∀ a, x = .ok a → Follows p g (k a) (k' (f a))) :
    Follows p g (x.bind k) (y.bind k') := by
  cases x with
  | ok a =>
    rw [h.eq_ok rfl]
    exact hk a rfl
  | error e =>
    intro hp
    rw [h.eq_error hp rfl]
    rfl

/-- The first makes something more of its value, which the second does not. -/
theorem map {k : α → α'} {h : α' → β} (hf : Follows p f x y) (hk : ∀ a, h (k a) = f a) :
    Follows p h (x.bind fun a => .ok (k a)) y := by
  cases x with
  | ok a => exact (hf.eq_ok rfl).trans (congrArg Except.ok (hk a).symm)
  | error e => exact hf

/-- Both begin with the same step, so only what they do after it has to be compared. -/
theorem bind_same {k : α → Except ε α'} {k' : α → Except ε β'}
    (hk : ∀ a, x = .ok a → Follows p g (k a) (k' a)) : Follows p g (x.bind k) (x.bind k') := by
  cases x with
  | ok a => exact hk a rfl
  | error e => exact fun _ => rfl

/-- The second leaves out a step of the first that does not raise if `p` holds. -/
theorem bind_left {k : α → Except ε α'} {y : Except ε β'} (hx : p → ∃ a, x = .ok a)
    (hk : ∀ a, x = .ok a → Follows p g (k a) y) : Follows p g (x.bind k) y := by
  cases x with
  | ok a => exact hk a rfl
  | error e =>
    intro hp
    obtain ⟨a, ha⟩ := hx hp
    exact absurd ha (by simp)

end Follows
