/-
# Codes that can be read from the left

A code writes every letter as a word.  It is a prefix code if a text tells where the word
of its first letter ends.  A text that ends in a word no letter begins with can then be
read letter by letter (`flatMap`), so such a text is again a word of a prefix code.
-/

import Mathlib.Tactic.Common

/-- The first word of a text is known, and so is the rest. -/
def PrefixCode {α β : Type*} (code : α → List β) : Prop :=
  ∀ ⦃a a' : α⦄ ⦃u u' : List β⦄, code a ++ u = code a' ++ u' → a = a' ∧ u = u'

namespace PrefixCode

variable {α β : Type*} {code : α → List β}

/-- It is enough that the first letter can be decoded. -/
theorem of_decode (decode : List β → Option α) (h : ∀ a u, decode (code a ++ u) = some a) :
    PrefixCode code := by
  intro a a' u u' heq
  obtain rfl : a = a' := Option.some.inj ((h a u).symm.trans ((congrArg decode heq).trans (h a' u')))
  exact ⟨rfl, List.append_cancel_left heq⟩

/-- **A text that is ended by `stop`** is read letter by letter. -/
theorem flatMap (h : PrefixCode code) {stop : β} (hstop : ∀ a, ∃ x w, code a = x :: w ∧ x ≠ stop) :
    PrefixCode fun l : List α => l.flatMap code ++ [stop] := by
  intro l
  induction l with
  | nil =>
    rintro (_ | ⟨a, l'⟩) u u' heq
    · exact ⟨rfl, (List.cons.inj heq).2⟩
    · obtain ⟨x, w, hcode, hx⟩ := hstop a
      simp only [List.flatMap_cons, hcode] at heq
      exact absurd (List.cons.inj heq).1.symm hx
  | cons a l ih =>
    rintro (_ | ⟨a', l'⟩) u u' heq
    · obtain ⟨x, w, hcode, hx⟩ := hstop a
      simp only [List.flatMap_cons, hcode] at heq
      exact absurd (List.cons.inj heq).1 hx
    · simp only [List.flatMap_cons, List.append_assoc] at heq
      obtain ⟨rfl, hrest⟩ := h heq
      obtain ⟨rfl, hu⟩ := ih (by simpa only [List.append_assoc] using hrest)
      exact ⟨rfl, hu⟩

/-- A word written before every word of a prefix code. -/
theorem append_left (h : PrefixCode code) (w : List β) : PrefixCode fun a => w ++ code a := by
  intro a a' u u' heq
  simp only [List.append_assoc] at heq
  exact h (List.append_cancel_left heq)

end PrefixCode
