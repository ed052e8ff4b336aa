/-
# What `repr` writes can be read back

Different strings have different `repr`s, also where more text follows, and so have
different tuples of strings (`reprTuple_injective`).  The cache and the exporter use a digest
of such a text as a key.
-/

import CppMcp.Lib.PrefixCode
import CppMcp.Py.Str

namespace CppMcp
namespace Py

/-- The value of a hexadecimal digit. -/
def hexValue (c : Char) : ℕ := "0123456789abcdef".toList.idxOf c

/-- The first character inside the quotes of a `repr`. -/
def unreprChar : List Char → Option Char
  | '\\' :: 'n' :: _ => some '\n'
  | '\\' :: 'r' :: _ => some '\r'
  | '\\' :: 't' :: _ => some '\t'
  | '\\' :: 'x' :: a :: b :: _ => some (Char.ofNat (16 * hexValue a + hexValue b))
  | '\\' :: c :: _ => some c
  | c :: _ => some c
  | [] => none

/-- A hexadecimal digit can be read back. -/
theorem hexValue_hexDigit : ∀ n < 16, hexValue (hexDigit n) = n := by decide

/-- An escaped character can be read back, whatever follows it: the escapes begin with a backslash,
and their length is known from the character behind that. -/
theorem unreprChar_reprChar {q : Char} (hq : q = '"' ∨ q = '\'') (c : Char) (u : List Char) :
    unreprChar (reprChar q c ++ u) = some c := by
  unfold reprChar
  split_ifs with h₁ h₂ h₃ h₄ h₅
  · rcases h₁ with rfl | rfl
    · rcases hq with rfl | rfl <;> rfl
    · rfl
  · exact h₂ ▸ rfl
  · exact h₃ ▸ rfl
  · exact h₄ ▸ rfl
  · have hhigh : c.toNat / 16 < 16 := by omega
    have hlow : c.toNat % 16 < 16 := Nat.mod_lt _ (by decide)
    change some (Char.ofNat (16 * hexValue (hexDigit (c.toNat / 16)) +
      hexValue (hexDigit (c.toNat % 16)))) = some c
    rw [hexValue_hexDigit _ hhigh, hexValue_hexDigit _ hlow, Nat.div_add_mod, Char.ofNat_toNat]
  · have hc : c ≠ '\\' := fun h => h₁ (Or.inr h)
    rw [List.singleton_append, unreprChar]
    all_goals simp [hc]

/-- So the escapes of single characters are a prefix code, inside either kind of quotes. -/
theorem prefixCode_reprChar {q : Char} (hq : q = '"' ∨ q = '\'') : PrefixCode (reprChar q) :=
  .of_decode unreprChar (unreprChar_reprChar hq)

/-- Inside its quotes a string has no quote that is not escaped. -/
theorem reprChar_ne_quote {q : Char} (hq : q = '"' ∨ q = '\'') (c : Char) :
    ∃ x w, reprChar q c = x :: w ∧ x ≠ q := by
  have hslash : '\\' ≠ q := by rcases hq with rfl | rfl <;> decide
  unfold reprChar
  split_ifs with h₁
  · exact ⟨_, _, rfl, hslash⟩
  · exact ⟨_, _, rfl, hslash⟩
  · exact ⟨_, _, rfl, hslash⟩
  · exact ⟨_, _, rfl, hslash⟩
  · exact ⟨_, _, rfl, hslash⟩
  · exact ⟨_, _, rfl, fun h => h₁ (Or.inl h)⟩

/-- The quote that `repr` chooses. -/
def reprQuote (s : String) : Char := if '\'' ∈ s.toList ∧ '"' ∉ s.toList then '"' else '\''

/-- A string is put into one of the two kinds of quotes. -/
theorem reprQuote_eq (s : String) : reprQuote s = '"' ∨ reprQuote s = '\'' := by
  unfold reprQuote
  split_ifs
  · exact Or.inl rfl
  · exact Or.inr rfl

/-- The characters of a `repr`: the quote, the escaped characters, and the quote again. -/
theorem toList_repr (s : String) : (repr s).toList =
    reprQuote s :: (s.toList.flatMap (reprChar (reprQuote s)) ++ [reprQuote s]) := by
  rw [repr, String.toList_ofList, List.cons_append]
  rfl

/-- **A `repr` tells its string, and where it ends,** so the strings of a tuple can be read off its
`repr`. -/
theorem prefixCode_repr : PrefixCode fun s : String => (repr s).toList := by
  intro s s' u u' heq
  simp only [toList_repr, List.cons_append] at heq
  obtain ⟨hq, hrest⟩ := List.cons.inj heq
  rw [← hq] at hrest
  obtain ⟨hs, hu⟩ := (prefixCode_reprChar (reprQuote_eq s)).flatMap
    (reprChar_ne_quote (reprQuote_eq s)) hrest
  exact ⟨String.toList_inj.mp hs, hu⟩

/-- What follows the first item of a tuple. -/
def reprRest : List String → List Char
  | [] => [',', ')']
  | items => items.flatMap (fun s => [',', ' '] ++ (repr s).toList) ++ [')']

/-- What stands behind the first item of a tuple tells the other items. -/
theorem reprRest_injective : ∀ {items items' : List String}, reprRest items = reprRest items' →
    items = items'
  | [], [], _ => rfl
  | [], _ :: _, h => absurd (List.cons.inj (List.cons.inj h).2).1 (by decide)
  | _ :: _, [], h => absurd (List.cons.inj (List.cons.inj h).2).1 (by decide)
  | item :: items, item' :: items', h => by
    have hstop : ∀ s : String, ∃ x w, [',', ' '] ++ (repr s).toList = x :: w ∧ x ≠ ')' := fun s =>
      ⟨',', ' ' :: (repr s).toList, rfl, by decide⟩
    have happend : reprRest (item :: items) ++ [] = reprRest (item' :: items') ++ [] := by rw [h]
    exact ((prefixCode_repr.append_left [',', ' ']).flatMap hstop happend).1

/-- The items after the first one, as `intercalate` puts them. -/
theorem intercalate_repr (item : String) (items : List String) :
    [',', ' '].intercalate ((repr item).toList :: items.map fun s => (repr s).toList) =
      (repr item).toList ++ items.flatMap fun s => [',', ' '] ++ (repr s).toList := by
  induction items generalizing item with
  | nil => rw [List.map_nil, List.intercalate_singleton, List.flatMap_nil, List.append_nil]
  | cons next items ih =>
    rw [List.map_cons, List.intercalate_cons_cons, ih, List.flatMap_cons, List.append_assoc,
      List.append_assoc]

/-- The characters of the `repr` of a tuple: the parenthesis, the first item, and what stands behind
it. -/
theorem toList_reprTuple_cons (item : String) (items : List String) :
    (reprTuple (item :: items)).toList = '(' :: ((repr item).toList ++ reprRest items) := by
  cases items with
  | nil => simp [reprTuple, reprRest]
  | cons next items =>
    have hmap : (next :: items).map (String.toList ∘ repr) =
        (next :: items).map fun s => (repr s).toList := rfl
    have hrepr : reprTuple (item :: next :: items) =
        "(" ++ String.intercalate ", " ((item :: next :: items).map repr) ++ ")" := rfl
    rw [hrepr, String.toList_append, String.toList_append, String.toList_intercalate,
      List.map_map, List.map_cons, hmap, Function.comp_apply,
      show ", ".toList = [',', ' '] from rfl, intercalate_repr, List.append_assoc,
      List.append_assoc, show "(".toList = ['('] from rfl, show ")".toList = [')'] from rfl,
      reprRest, List.singleton_append]
    exact List.cons_ne_nil _ _

/-- **Different tuples of strings have different `repr`s,** since each item tells itself and where
it ends; `str(tuple)` is what the keys of the cache are made of. -/
theorem reprTuple_injective : Function.Injective reprTuple := by
  have hempty : ∀ item items, reprTuple [] ≠ reprTuple (item :: items) := by
    intro item items h
    have hlist := congrArg String.toList h
    rw [toList_reprTuple_cons, toList_repr] at hlist
    have hq : ')' = reprQuote item := (List.cons.inj (List.cons.inj hlist).2).1
    rcases reprQuote_eq item with h | h <;> rw [h] at hq <;> exact absurd hq (by decide)
  intro items items' h
  cases items with
  | nil =>
    cases items' with
    | nil => rfl
    | cons item' items' => exact absurd h (hempty item' items')
  | cons item items =>
    cases items' with
    | nil => exact absurd h.symm (hempty item items)
    | cons item' items' =>
      have hlist := congrArg String.toList h
      rw [toList_reprTuple_cons, toList_reprTuple_cons] at hlist
      obtain ⟨hitem, hrest⟩ := prefixCode_repr (List.cons.inj hlist).2
      rw [hitem, reprRest_injective hrest]

/-- Different numbers are written differently, as the decimal notation can be read back. -/
theorem repr_nat_injective : Function.Injective Nat.repr := by
  intro m n h
  have hdigits := congrArg (fun s : String => Nat.ofDigitChars 10 s.toList 0) h
  simpa only [Nat.toList_repr, Nat.ofDigitChars_ten_toDigits] using hdigits

/-- Numbers are written in digits, so they have none of the characters that separate them from what
follows. -/
theorem isDigit_of_mem_repr {n : ℕ} {c : Char} (h : c ∈ n.repr.toList) : c.isDigit = true := by
  rw [Nat.toList_repr] at h
  exact Nat.isDigit_of_mem_toDigits (by decide) (by decide) h

/-- Different integers are written differently: the sign tells negative ones from the others. -/
theorem toString_int_injective : Function.Injective (toString : ℤ → String) := by
  have hminus : ∀ m n : ℕ, m.repr ≠ "-" ++ n.repr := fun m n h => by
    have hmem : '-' ∈ m.repr.toList := by
      rw [h, String.toList_append]
      exact List.mem_append_left _ (List.mem_singleton_self '-')
    exact absurd (isDigit_of_mem_repr hmem) (by decide)
  intro a b h
  rw [Int.toString_eq_repr, Int.toString_eq_repr, Int.repr_eq_if, Int.repr_eq_if] at h
  split_ifs at h with ha hb hb
  · have := repr_nat_injective h
    omega
  · exact absurd h (hminus _ _)
  · exact absurd h.symm (hminus _ _)
  · have := repr_nat_injective (String.append_right_inj _ |>.mp h)
    omega

end Py
end CppMcp
