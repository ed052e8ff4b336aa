/-
# UUIDs and their text

A `uuid.UUID` is a number of 128 bits, and `str` writes it as 32 hexadecimal digits in groups
of 8, 4, 4, 4 and 12.  The text tells the UUID (`str_injective`), which is why the query
executor can use it as a key.
-/

import CppMcp.Py.Repr
import Mathlib.Algebra.Group.Nat.Defs

namespace CppMcp
namespace Py

/-- The last `k` hexadecimal digits of a number. -/
def hexDigits : ℕ → ℕ → List Char
  | 0, _ => []
  | k + 1, n => hexDigits k (n / 16) ++ [hexDigit (n % 16)]

/-- A fixed number of hexadecimal digits tells a number that fits into them. -/
theorem hexDigits_injective : ∀ {k m n : ℕ}, m < 16 ^ k → n < 16 ^ k →
    hexDigits k m = hexDigits k n → m = n := by
  intro k
  induction k with
  | zero =>
    intro m n hm hn _
    rw [Nat.pow_zero, Nat.lt_one_iff] at hm hn
    rw [hm, hn]
  | succ k ih =>
    intro m n hm hn h
    obtain ⟨hhigh, hlow⟩ := List.append_inj' h rfl
    have hdigit := congrArg hexValue (List.cons.inj hlow).1
    rw [hexValue_hexDigit _ (Nat.mod_lt m (by decide)),
      hexValue_hexDigit _ (Nat.mod_lt n (by decide))] at hdigit
    have hrest := ih (Nat.div_lt_of_lt_mul (by rwa [Nat.pow_succ, Nat.mul_comm] at hm))
      (Nat.div_lt_of_lt_mul (by rwa [Nat.pow_succ, Nat.mul_comm] at hn)) hhigh
    rw [← Nat.div_add_mod m 16, ← Nat.div_add_mod n 16, hdigit, hrest]

/-- A hexadecimal digit is not a dash. -/
theorem hexDigit_ne_dash : ∀ n < 16, hexDigit n ≠ '-' := by decide

/-- What holds of every digit holds of those of a number. -/
theorem forall_mem_hexDigits {P : Char → Prop} (h : ∀ n < 16, P (hexDigit n)) {k n : ℕ} {c : Char}
    (hc : c ∈ hexDigits k n) : P c := by
  induction k generalizing n with
  | zero => exact absurd hc List.not_mem_nil
  | succ k ih =>
    rcases List.mem_append.mp hc with hc | hc
    · exact ih hc
    · rw [List.mem_singleton.mp hc]
      exact h _ (Nat.mod_lt _ (by decide))

/-- So no dash is among the digits of a number. -/
theorem ne_dash_of_mem_hexDigits {k n : ℕ} {c : Char} (h : c ∈ hexDigits k n) : c ≠ '-' :=
  forall_mem_hexDigits (P := fun c => c ≠ '-') hexDigit_ne_dash h

/-- A number is written with as many digits as it is asked to be. -/
theorem length_hexDigits (k n : ℕ) : (hexDigits k n).length = k := by
  induction k generalizing n with
  | zero => rfl
  | succ k ih => rw [hexDigits, List.length_append, ih, List.length_singleton]

/-- `uuid.UUID`. -/
structure Uuid where
  int : BitVec 128
  deriving DecidableEq

/-- The groups of digits with dashes between them. -/
def groups : List ℕ → List Char → List Char
  | [], digits => digits
  | k :: ks, digits => digits.take k ++ '-' :: groups ks (digits.drop k)

/-- Without the dashes the digits are left, however they have been grouped. -/
theorem filter_groups {ks : List ℕ} {digits : List Char} (h : ∀ c ∈ digits, c ≠ '-') :
    (groups ks digits).filter (· ≠ '-') = digits := by
  have hkeep : ∀ {cs : List Char}, (∀ c ∈ cs, c ≠ '-') → cs.filter (· ≠ '-') = cs := fun h =>
    List.filter_eq_self.mpr fun c hc => decide_eq_true (h c hc)
  induction ks generalizing digits with
  | nil => exact hkeep h
  | cons k ks ih =>
    rw [groups, List.filter_append, hkeep fun c hc => h c (List.mem_of_mem_take hc),
      List.filter_cons_of_neg (by simp), ih fun c hc => h c (List.mem_of_mem_drop hc),
      List.take_append_drop]

/-- `str` of a UUID. -/
def Uuid.str (u : Uuid) : String := String.ofList (groups [8, 4, 4, 4] (hexDigits 32 u.int.toNat))

/-- **The text of a UUID tells the UUID:** without its dashes it is the number, in thirty-two
digits. -/
theorem Uuid.str_injective : Function.Injective Uuid.str := by
  intro u u' h
  have hgroups := String.ofList_injective h
  have hdigits := congrArg (List.filter (· ≠ '-')) hgroups
  rw [filter_groups fun c => ne_dash_of_mem_hexDigits,
    filter_groups fun c => ne_dash_of_mem_hexDigits] at hdigits
  have hlt : ∀ u : Uuid, u.int.toNat < 16 ^ 32 := fun u => u.int.isLt
  have hint := hexDigits_injective (hlt u) (hlt u') hdigits
  cases u
  cases u'
  exact congrArg Uuid.mk (BitVec.eq_of_toNat_eq hint)

/-- A UUID is not written as the empty text. -/
theorem Uuid.str_ne_empty (u : Uuid) : u.str ≠ "" := by
  intro h
  have hdash : '-' ∈ groups [8, 4, 4, 4] (hexDigits 32 u.int.toNat) := by
    rw [groups]
    exact List.mem_append_right _ List.mem_cons_self
  have hempty : groups [8, 4, 4, 4] (hexDigits 32 u.int.toNat) = [] := String.ofList_injective h
  rw [hempty] at hdash
  exact List.not_mem_nil hdash

end Py
end CppMcp
