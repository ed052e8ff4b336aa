/-
# The string operations of Python the server uses

A Python `str` is a Lean `String`, and the operations are those of its list of
characters.  `split` is `str.split` with a one-character separator, `strip` is
`str.strip` without arguments, `repr` is what `{x!r}` puts into a message.
-/

import Mathlib.Data.List.Infix
import Mathlib.Tactic.Common

namespace CppMcp
namespace Py

/-- `s.startswith(p)`. -/
def startswith (s p : String) : Bool := p.toList.isPrefixOf s.toList

/-- `p in s`, for strings. -/
def contains (s p : String) : Bool := decide (p.toList <:+: s.toList)

/-- `s.split(c)`, `c` a single character. -/
def split (s : String) (c : Char) : List String := (s.toList.splitOn c).map String.ofList

/-- `str.isspace` of one character. -/
def isSpace (c : Char) : Bool :=
  let n := c.toNat
  (9 ≤ n && n ≤ 13) || (28 ≤ n && n ≤ 32) || n == 0x85 || n == 0xA0 || n == 0x1680 ||
    (0x2000 ≤ n && n ≤ 0x200A) || n == 0x2028 || n == 0x2029 || n == 0x202F || n == 0x205F ||
    n == 0x3000

/-- `s.strip()`. -/
def strip (s : String) : String :=
  String.ofList (((s.toList.dropWhile isSpace).reverse.dropWhile isSpace).reverse)

/-- One lower-case hexadecimal digit. -/
def hexDigit (n : ℕ) : Char := "0123456789abcdef".toList.getD n '0'

/-- One character inside the quotes `q` of a `repr`. -/
def reprChar (q c : Char) : List Char :=
  if c = q ∨ c = '\\' then ['\\', c]
  else if c = '\n' then ['\\', 'n']
  else if c = '\r' then ['\\', 'r']
  else if c = '\t' then ['\\', 't']
  else if c.toNat < 32 ∨ c.toNat = 127 then
    ['\\', 'x', hexDigit (c.toNat / 16), hexDigit (c.toNat % 16)]
  else [c]

/-- `repr(s)` of a string of printable and ASCII characters: single quotes,
unless the string has one and no double quote. -/
def repr (s : String) : String :=
  let q := if '\'' ∈ s.toList ∧ '"' ∉ s.toList then '"' else '\''
  String.ofList (q :: s.toList.flatMap (reprChar q) ++ [q])

/-- `repr` of a tuple of strings; one item is followed by a comma. -/
def reprTuple (items : List String) : String :=
  match items with
  | [item] => "(" ++ repr item ++ ",)"
  | items => "(" ++ String.intercalate ", " (items.map repr) ++ ")"

/-- `hashlib.sha1(s.encode()).hexdigest()`, as far as it is relied on: every
string has a digest, written in hexadecimal digits. -/
structure Sha1 where
  hexdigest : String → String
  isHex : ∀ s, ∀ c ∈ (hexdigest s).toList, c ∈ "0123456789abcdef".toList

/-- The digests of `int` and of the empty string, the latter for every other
string too. -/
instance : Inhabited Sha1 where
  default.hexdigest s :=
    if s = "int" then "46f8ab7c0cff9df7cd124852e26022a6bf89e315"
    else "da39a3ee5e6b4b0d3255bfef95601890afd80709"
  default.isHex := by
    intro s c
    have hex : ∀ {l : List Char}, l.all ("0123456789abcdef".toList.elem ·) = true → c ∈ l →
        c ∈ "0123456789abcdef".toList :=
      fun hall hc => List.elem_iff.mp (List.all_eq_true.mp hall c hc)
    split_ifs <;> exact hex (by decide)

/-- `startswith` asks whether the characters of the one begin those of the other. -/
theorem startswith_iff {s p : String} : startswith s p = true ↔ p.toList <+: s.toList :=
  List.isPrefixOf_iff_prefix

/-- Appending does not take a prefix away: what a text starts with, it starts with whatever is put
behind it. -/
theorem startswith_append {s p : String} (h : startswith s p = true) (t : String) :
    startswith (s ++ t) p = true := by
  rw [startswith_iff] at h ⊢
  rw [String.toList_append]
  exact h.trans (List.prefix_append _ _)

/-- **A prefix without `c` stands before the first `c`:** it is a prefix of
`s ++ c ++ …` only if it is one of `s`. -/
theorem startswith_of_append {s p t : String} {c : Char} (hp : c ∉ p.toList)
    (ht : t.toList.head? = some c) (h : startswith (s ++ t) p = true) :
    startswith s p = true := by
  rw [startswith_iff, String.toList_append] at h
  rw [startswith_iff]
  obtain ⟨r, hr⟩ := List.head?_eq_some_iff.mp ht
  rw [hr] at h
  rcases List.prefix_or_prefix_of_prefix h (List.prefix_append _ _) with h' | ⟨u, hu⟩
  · exact h'
  · rw [← hu, List.prefix_append_right_inj] at h
    cases u with
    | nil => exact ⟨[], by simpa using hu.symm⟩
    | cons x u =>
      obtain rfl : x = c := (List.cons_prefix_cons.mp h).1
      exact absurd (by rw [← hu]; simp) hp

/-! ### Greedy runs -/

section Longest

variable {α : Type*} {p : α → Bool}

/-- `a` is as much of `a ++ b`, from its beginning on, as satisfies `p`: what the greedy `p*` of a
regular expression takes of it. -/
structure Longest (p : α → Bool) (a b : List α) : Prop where
  all : ∀ x ∈ a, p x = true
  ends : ∀ x ∈ b.head?, p x = false

/-- Taking as long as `p` holds gives the whole run, which ends where `p` fails. -/
theorem Longest.takeWhile_eq {a b : List α} (h : Longest p a b) : (a ++ b).takeWhile p = a := by
  rw [List.takeWhile_append_of_pos h.all]
  cases b with
  | nil => rw [List.takeWhile_nil, List.append_nil]
  | cons x b =>
    have hx : p x = false := h.ends x rfl
    rw [List.takeWhile_cons, hx, if_neg Bool.false_ne_true, List.append_nil]

/-- Dropping as long as `p` holds leaves what stands behind the run. -/
theorem Longest.dropWhile_eq {a b : List α} (h : Longest p a b) : (a ++ b).dropWhile p = b := by
  rw [List.dropWhile_append_of_pos h.all]
  cases b with
  | nil => rfl
  | cons x b =>
    have hx : p x = false := h.ends x rfl
    rw [List.dropWhile_cons, hx, if_neg Bool.false_ne_true]

/-- Every list can be cut like that, and so in one way only. -/
theorem longest_takeWhile (p : α → Bool) (l : List α) :
    Longest p (l.takeWhile p) (l.dropWhile p) where
  all := List.all_eq_true.mp List.all_takeWhile
  ends x hx := by
    have h := List.head?_dropWhile_not p l
    rwa [Option.mem_def.mp hx] at h

end Longest

end Py
end CppMcp
