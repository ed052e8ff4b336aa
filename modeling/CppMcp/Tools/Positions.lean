/-
# Positions of the compiler and of `cursor_at`

`core/cursor.py` checks a line and a column against the text of the file: `read_text` decodes it and
turns every line end into a line feed, `str.splitlines` breaks it at ten characters, and the length
of a line is its number of characters.  The compiler, whose positions the tools hand out, breaks
lines at `\n`, `\r\n` and `\r` alone and counts columns in bytes.

`breakLines` is the reader of both, with the characters that break as a parameter.  The lengths of
its lines add up to what the other characters weigh (`sum_breakLines`), so the two agree on a text
only if they agree on each of its characters.
-/

import CppMcp.Tools.CursorAt
import Mathlib.Algebra.Order.BigOperators.Group.List
import Mathlib.Algebra.Order.Ring.Nat

namespace CppMcp

/-- The least sum is reached only item by item. -/
theorem List.map_eq_of_sum_eq {α : Type} {f g : α → ℕ} (hle : ∀ a, f a ≤ g a) {l : List α}
    (h : (l.map f).sum = (l.map g).sum) : ∀ a ∈ l, f a = g a := by
  induction l with
  | nil => exact fun a ha => absurd ha List.not_mem_nil
  | cons b l ih =>
    have hrest : (l.map f).sum ≤ (l.map g).sum := List.sum_le_sum fun a _ => hle a
    have hb := hle b
    rw [List.map_cons, List.map_cons, List.sum_cons, List.sum_cons] at h
    rintro a (_ | ⟨_, ha⟩)
    · omega
    · exact ih (by omega) a ha

namespace Py

/-- What a text file opened with universal newlines gives for the text that is in it. -/
def universalNewlines : List Char → List Char
  | [] => []
  | '\r' :: '\n' :: rest => '\n' :: universalNewlines rest
  | c :: rest => (if c = '\r' then '\n' else c) :: universalNewlines rest

/-- `Path.read_text(encoding="utf-8", errors="replace")`, of a file with this text. -/
def readText (text : String) : String := String.ofList (universalNewlines text.toList)

/-- The lines of a text, each without what ends it; `line` is what has been read of a line, the last
character first.  A carriage return and a line feed are one break. -/
def breakLines (brk : Char → Bool) : List Char → List Char → List (List Char)
  | line, [] => if line = [] then [] else [line.reverse]
  | line, '\r' :: '\n' :: rest => line.reverse :: breakLines brk [] rest
  | line, c :: rest =>
    if brk c then line.reverse :: breakLines brk [] rest else breakLines brk (c :: line) rest

section BreakLines

variable {brk : Char → Bool}

/-- `splitlines` breaks the text at its own line breaks. -/
theorem splitlinesLoop_eq_breakLines (line cs : List Char) :
    splitlinesLoop line cs = breakLines isLineBreak line cs := by
  fun_induction splitlinesLoop line cs with
  | case1 => rw [breakLines, if_pos rfl]
  | case2 line hline => rw [breakLines, if_neg hline]
  | case3 line rest ih => rw [breakLines, ih]
  | case4 line c rest hne hbrk ih => rw [breakLines.eq_3 _ _ _ _ hne, if_pos hbrk, ih]
  | case5 line c rest hne hbrk ih => rw [breakLines.eq_3 _ _ _ _ hne, if_neg hbrk, ih]

/-- A character that is no carriage return ends a line or is in it. -/
theorem breakLines_cons {c : Char} (hc : c ≠ '\r') (line cs : List Char) :
    breakLines brk line (c :: cs) =
      if brk c then line.reverse :: breakLines brk [] cs else breakLines brk (c :: line) cs :=
  breakLines.eq_3 brk line c cs fun _ h => absurd h hc

/-- Lines are the same before and after their ends have been made line feeds. -/
theorem breakLines_universalNewlines (hlf : brk '\n' = true) (hcr : brk '\r' = true)
    (line cs : List Char) : breakLines brk line (universalNewlines cs) = breakLines brk line cs := by
  fun_induction universalNewlines cs generalizing line with
  | case1 => rfl
  | case2 rest ih => rw [breakLines_cons (by decide), if_pos hlf, ih, breakLines]
  | case3 c rest hne ih =>
    by_cases hc : c = '\r'
    · rw [if_pos hc, breakLines_cons (by decide), if_pos hlf, ih, breakLines.eq_3 _ _ _ _ hne, hc,
        if_pos hcr]
    · rw [if_neg hc, breakLines_cons hc, breakLines_cons hc, ih, ih]

/-- What the lines weigh: the characters outside the breaks, and what had been read before. -/
theorem sum_breakLines (hlf : brk '\n' = true) (hcr : brk '\r' = true) (w : Char → ℕ)
    (line cs : List Char) : ((breakLines brk line cs).map fun l => (l.map w).sum).sum =
      (line.map w).sum + (cs.map fun c => if brk c then 0 else w c).sum := by
  have hrev : ∀ l : List Char, (l.reverse.map w).sum = (l.map w).sum := fun l => by
    rw [List.map_reverse, List.sum_reverse]
  fun_induction breakLines brk line cs with
  | case1 => rfl
  | case2 line hline => rw [List.map_singleton, List.sum_singleton, hrev, List.map_nil, List.sum_nil,
      Nat.add_zero]
  | case3 line rest ih =>
    simp only [List.map_cons, List.sum_cons, List.map_nil, List.sum_nil, hrev, ih, hlf, hcr, if_true]
    omega
  | case4 line c rest hne hbrk ih =>
    simp only [List.map_cons, List.sum_cons, List.map_nil, List.sum_nil, hrev, ih, hbrk, if_true,
      Nat.zero_add]
  | case5 line c rest hne hbrk ih =>
    simp only [List.map_cons, List.sum_cons, ih, if_neg hbrk]
    omega

/-- Two readers with the same breaks in a text have the same lines. -/
theorem breakLines_congr {brk' : Char → Bool} {cs : List Char} (h : ∀ c ∈ cs, brk c = brk' c)
    (line : List Char) : breakLines brk line cs = breakLines brk' line cs := by
  fun_induction breakLines brk line cs with
  | case1 => rw [breakLines, if_pos rfl]
  | case2 line hline => rw [breakLines, if_neg hline]
  | case3 line rest ih =>
    rw [breakLines, ih fun c hc => h c (List.mem_cons_of_mem _ (List.mem_cons_of_mem _ hc))]
  | case4 line c rest hne hbrk ih =>
    rw [breakLines.eq_3 _ _ _ _ hne, ← h c List.mem_cons_self, if_pos hbrk,
      ih fun c hc => h c (List.mem_cons_of_mem _ hc)]
  | case5 line c rest hne hbrk ih =>
    rw [breakLines.eq_3 _ _ _ _ hne, ← h c List.mem_cons_self, if_neg hbrk,
      ih fun c hc => h c (List.mem_cons_of_mem _ hc)]

/-- Lines weigh the same if the characters outside the breaks do. -/
theorem map_breakLines_congr {w w' : Char → ℕ} {line cs : List Char}
    (hline : (line.map w).sum = (line.map w').sum)
    (h : ∀ c ∈ cs, brk c = false → w c = w' c) :
    ((breakLines brk line cs).map fun l => (l.map w).sum) =
      (breakLines brk line cs).map fun l => (l.map w').sum := by
  have hrev : ∀ l : List Char, (l.map w).sum = (l.map w').sum →
      (l.reverse.map w).sum = (l.reverse.map w').sum := fun l hl => by
    rw [List.map_reverse, List.sum_reverse, hl, List.map_reverse, List.sum_reverse]
  fun_induction breakLines brk line cs with
  | case1 => rfl
  | case2 line _ => rw [List.map_singleton, List.map_singleton, hrev line hline]
  | case3 line rest ih =>
    rw [List.map_cons, List.map_cons, hrev line hline,
      ih rfl fun c hc => h c (List.mem_cons_of_mem _ (List.mem_cons_of_mem _ hc))]
  | case4 line c rest _ _ ih =>
    rw [List.map_cons, List.map_cons, hrev line hline,
      ih rfl fun c hc => h c (List.mem_cons_of_mem _ hc)]
  | case5 line c rest _ hbrk ih =>
    refine ih ?_ fun c hc => h c (List.mem_cons_of_mem _ hc)
    rw [List.map_cons, List.map_cons, List.sum_cons, List.sum_cons, hline,
      h c List.mem_cons_self (Bool.eq_false_iff.mpr hbrk)]

end BreakLines

end Py

namespace Tools

open Py (Path breakLines isLineBreak)

/-- A list of lines, of which an empty file has one. -/
def orOne : List String → List String
  | [] => [""]
  | l :: ls => l :: ls

/-- The line and the column stand in a text whose lines have these lengths, or one past the end of
one of them. -/
def WithinLines (lengths : List ℕ) (line col : ℤ) : Prop :=
  1 ≤ line ∧ line ≤ lengths.length ∧ 1 ≤ col ∧ col ≤ (lengths[(line - 1).toNat]?).getD 0 + 1

/-- In one of the lines a position is at one of its characters or right behind the last. -/
theorem withinLines_succ_iff {lengths : List ℕ} {i : ℕ} (hi : i < lengths.length) (col : ℤ) :
    WithinLines lengths (i + 1) col ↔ 1 ≤ col ∧ col ≤ lengths[i] + 1 := by
  have hidx : ((i : ℤ) + 1 - 1).toNat = i := by omega
  rw [WithinLines, hidx, List.getElem?_eq_getElem hi, Option.getD_some]
  omega

/-- The positions determine the number of lines: the first column of each line is one of them. -/
theorem length_le_of_withinLines {l l' : List ℕ}
    (h : ∀ line col, WithinLines l line col → WithinLines l' line col) : l.length ≤ l'.length := by
  cases hl : l.length with
  | zero => exact Nat.zero_le _
  | succ n =>
    have hlast : WithinLines l (n + 1) 1 := (withinLines_succ_iff (by omega) 1).mpr (by omega)
    have := (h _ _ hlast).2.1
    omega

/-- **The positions determine the lengths of the lines,** since the last one in a line is right
behind its last character. -/
theorem eq_of_withinLines {l l' : List ℕ}
    (h : ∀ line col, WithinLines l line col ↔ WithinLines l' line col) : l = l' := by
  have hlen : l.length = l'.length :=
    le_antisymm (length_le_of_withinLines fun line col => (h line col).mp)
      (length_le_of_withinLines fun line col => (h line col).mpr)
  refine List.ext_getElem hlen fun i hi hi' => ?_
  have hcol : ∀ col : ℤ, 1 ≤ col ∧ col ≤ l[i] + 1 ↔ 1 ≤ col ∧ col ≤ l'[i] + 1 := fun col => by
    rw [← withinLines_succ_iff hi, ← withinLines_succ_iff hi', h]
  have hle := (hcol (l[i] + 1)).mp (by omega)
  have hge := (hcol (l'[i] + 1)).mpr (by omega)
  omega

/-! ### What `cursor_at` accepts -/

/-- A text has as many lines as it is split into, but at least one. -/
theorem length_orOne (ls : List String) :
    (orOne ls).length = if ls.length = 0 then 1 else ls.length := by
  cases ls with
  | nil => rfl
  | cons l ls => rw [orOne, if_neg (by rw [List.length_cons]; omega)]

/-- The length of a line, counted from 0, is that of the line of the text, and a line that is not
there counts as empty. -/
theorem getD_map_orOne (ls : List String) (i : ℕ) :
    (((orOne ls).map String.length)[i]?).getD 0 = ((ls[i]?).getD "").length := by
  cases ls with
  | nil => cases i <;> rfl
  | cons l ls =>
    rw [orOne, List.getElem?_map]
    cases (l :: ls)[i]? <;> rfl

section Position

variable {read_text : String → Except String String} {file_path : Path} {text : String}

/-- `_count_lines` gives the number of lines, where an empty file has one. -/
theorem countLines_eq (hread : read_text file_path.str = .ok text) :
    countLines read_text file_path = .ok (orOne (Py.splitlines text)).length := by
  rw [countLines, lines, hread, length_orOne]
  rfl

/-- `_line_length` gives the number of characters of the line, and 0 for a line that is not there.
-/
theorem lineLength_eq (hread : read_text file_path.str = .ok text) {line : ℤ} (hone : 1 ≤ line) :
    lineLength read_text file_path line =
      .ok ((((orOne (Py.splitlines text)).map String.length)[(line - 1).toNat]?).getD 0) := by
  rw [getD_map_orOne, lineLength, lines, hread]
  change (if line < 1 ∨ ((Py.splitlines text).length : ℤ) < line then _ else _) = _
  split_ifs with hbeyond
  · rw [List.getElem?_eq_none (by omega)]
    rfl
  · rfl

/-- The checks pass for the lines that `splitlines` gives and their numbers of characters. -/
theorem checkPosition_eq_ok_iff (hread : read_text file_path.str = .ok text) (line col : ℤ) :
    checkPosition read_text file_path line col = .ok () ↔
      WithinLines ((orOne (Py.splitlines text)).map String.length) line col := by
  rw [checkPosition, WithinLines, List.length_map]
  split_ifs with hone
  · refine ⟨fun h => ?_, fun h => absurd hone (by omega)⟩
    cases h
  · rw [countLines_eq hread, lineLength_eq hread (by omega)]
    generalize (orOne (Py.splitlines text)).length = total_lines
    generalize (((orOne (Py.splitlines text)).map String.length)[(line - 1).toNat]?).getD 0 = line_len
    simp only [bind, Except.bind, pure, Except.pure, throw, throwThe, MonadExceptOf.throw]
    split_ifs with hline hcol
    · exact ⟨fun h => (nomatch h), fun h => absurd hline (by omega)⟩
    · exact ⟨fun h => (nomatch h), fun h => absurd hcol (by omega)⟩
    · exact ⟨fun _ => by omega, fun _ => rfl⟩

end Position

/-! ### What the compiler has -/

/-- The characters that end a line for the compiler. -/
def isTerminator (c : Char) : Bool := c = '\n' || c = '\r'

/-- The lines of a text as the compiler breaks it.  What follows the last terminator is a line
unless it is empty. -/
def compilerLines (text : String) : List String :=
  orOne ((breakLines isTerminator [] text.toList).map String.ofList)

/-- **A position of the compiler:** a line of the text, and a byte of it or the one past its end. -/
def CompilerPosition (text : String) (line col : ℤ) : Prop :=
  WithinLines ((compilerLines text).map String.utf8ByteSize) line col

/-- The character is a byte, and ends a line for `splitlines` only if it does for the compiler. -/
def PlainChar (c : Char) : Prop :=
  isTerminator c = true ∨ (c.toNat < 0x80 ∧ c.toNat ∉ [0x0b, 0x0c, 0x1c, 0x1d, 0x1e])

/-- A text has as many bytes as its characters. -/
theorem utf8ByteSize_ofList (cs : List Char) :
    (String.ofList cs).utf8ByteSize = (cs.map Char.utf8Size).sum := by
  induction cs with
  | nil => rfl
  | cons c cs ih =>
    rw [String.ofList_cons, String.utf8ByteSize_append, ih, List.map_cons, List.sum_cons,
      String.utf8ByteSize_singleton]

/-- A text is as long as it has characters. -/
theorem length_ofList (cs : List Char) : (String.ofList cs).length = (cs.map fun _ => 1).sum := by
  rw [String.length_ofList, List.map_const', List.sum_replicate_nat, Nat.mul_one]

/-- The one line of an empty text adds nothing to a sum over the lines. -/
theorem sum_map_orOne {f : String → ℕ} (hf : f "" = 0) (ls : List String) :
    ((orOne ls).map f).sum = (ls.map f).sum := by
  cases ls with
  | nil => rw [orOne, List.map_singleton, List.sum_singleton, hf, List.map_nil, List.sum_nil]
  | cons l ls => rfl

/-- Lines that are measured alike are so also where an empty text counts as one line. -/
theorem map_orOne_congr {f g : String → ℕ} (hempty : f "" = g "") {ls ls' : List String}
    (h : ls.map f = ls'.map g) : (orOne ls).map f = (orOne ls').map g := by
  cases ls with
  | nil =>
    rw [List.map_eq_nil_iff.mp h.symm]
    exact congrArg (fun n => [n]) hempty
  | cons l ls =>
    cases ls' with
    | nil => exact absurd h (List.cons_ne_nil _ _)
    | cons l' ls' => exact h

/-- The lengths that the checks compare with, of the lines of the text that is in the file. -/
theorem map_length_splitlines (text : String) :
    (Py.splitlines (Py.readText text)).map String.length =
      (breakLines isLineBreak [] text.toList).map fun l => (l.map fun _ => 1).sum := by
  rw [Py.splitlines, Py.readText, String.toList_ofList, Py.splitlinesLoop_eq_breakLines,
    Py.breakLines_universalNewlines rfl rfl, List.map_map]
  exact List.map_congr_left fun l _ => length_ofList l

/-- The lengths of the lines of the compiler, in bytes, are the sums of those of their characters.
-/
theorem map_utf8ByteSize_breakLines (text : String) :
    ((breakLines isTerminator [] text.toList).map String.ofList).map String.utf8ByteSize =
      (breakLines isTerminator [] text.toList).map fun l => (l.map Char.utf8Size).sum := by
  rw [List.map_map]
  exact List.map_congr_left fun l _ => utf8ByteSize_ofList l

/-- Where the compiler ends a line, `splitlines` does. -/
theorem isLineBreak_of_isTerminator {c : Char} (h : isTerminator c = true) :
    isLineBreak c = true := by
  rcases (Bool.or_eq_true _ _).mp h with h | h <;>
  · rw [of_decide_eq_true h]
    rfl

/-- A character that ends no line for the compiler is plain if it is a byte and ends none for
`splitlines`. -/
theorem plainChar_iff {c : Char} (h : isTerminator c = false) :
    PlainChar c ↔ c.utf8Size = 1 ∧ isLineBreak c = false := by
  have hsmall : c.val ≤ 127 ↔ c.toNat < 0x80 := by
    rw [UInt32.le_iff_toNat_le]
    exact Nat.lt_succ_iff.symm
  have hcr : c.toNat ≠ 0x0a ∧ c.toNat ≠ 0x0d := by
    constructor <;> intro hc
    · rw [show c = '\n' from Char.toNat_inj.mp hc] at h
      cases h
    · rw [show c = '\r' from Char.toNat_inj.mp hc] at h
      cases h
  rw [PlainChar, h, Char.utf8Size_eq_one_iff, hsmall, isLineBreak, decide_eq_false_iff_not]
  simp only [Bool.false_eq_true, false_or, List.mem_cons, List.not_mem_nil, or_false]
  omega

/-- The least that a character can weigh for the compiler is what it weighs for `splitlines`. -/
theorem weight_le (c : Char) : (if isLineBreak c then 0 else 1) ≤
    if isTerminator c then 0 else c.utf8Size := by
  have hpos := c.utf8Size_pos
  cases hterm : isTerminator c with
  | true => rw [isLineBreak_of_isTerminator hterm, if_pos rfl, if_pos rfl]
  | false =>
    rw [if_neg Bool.false_ne_true]
    split_ifs <;> omega

/-- **Positions that `cursor_at` accepts.**  For a file with this text its checks pass at the
positions of the compiler, and at no others, exactly if each character is plain. -/
theorem checkPosition_iff_compilerPosition (file_path : Path) (text : String) :
    (∀ line col, checkPosition (fun _ => .ok (Py.readText text)) file_path line col = .ok () ↔
        CompilerPosition text line col) ↔
      ∀ c ∈ text.toList, PlainChar c := by
  have hchecks : ∀ line col,
      checkPosition (fun _ => .ok (Py.readText text)) file_path line col = .ok () ↔
        WithinLines ((orOne (Py.splitlines (Py.readText text))).map String.length) line col :=
    checkPosition_eq_ok_iff rfl
  simp only [hchecks, CompilerPosition]
  constructor
  · intro h
    have hsum := congrArg List.sum (eq_of_withinLines h)
    rw [compilerLines, sum_map_orOne rfl, sum_map_orOne rfl, map_length_splitlines,
      map_utf8ByteSize_breakLines, Py.sum_breakLines rfl rfl, Py.sum_breakLines rfl rfl,
      List.map_nil, List.map_nil, List.sum_nil, Nat.zero_add, Nat.zero_add] at hsum
    intro c hc
    have hweight := List.map_eq_of_sum_eq weight_le hsum c hc
    cases hterm : isTerminator c with
    | true => exact Or.inl hterm
    | false =>
      have hpos := c.utf8Size_pos
      rw [hterm, if_neg Bool.false_ne_true] at hweight
      refine (plainChar_iff hterm).mpr ?_
      split_ifs at hweight with hbrk
      · omega
      · exact ⟨hweight.symm, Bool.eq_false_iff.mpr hbrk⟩
  · intro hplain line col
    have hbrk : ∀ c ∈ text.toList, isLineBreak c = isTerminator c := fun c hc => by
      cases hterm : isTerminator c with
      | true => exact isLineBreak_of_isTerminator hterm
      | false => exact ((plainChar_iff hterm).mp (hplain c hc)).2
    have hlengths : (Py.splitlines (Py.readText text)).map String.length =
        ((breakLines isTerminator [] text.toList).map String.ofList).map String.utf8ByteSize := by
      rw [map_length_splitlines, map_utf8ByteSize_breakLines, Py.breakLines_congr hbrk]
      exact Py.map_breakLines_congr rfl fun c hc hterm =>
        ((plainChar_iff hterm).mp (hplain c hc)).1.symm
    have hempty : String.length "" = String.utf8ByteSize "" := rfl
    exact Iff.of_eq (congrArg (WithinLines · line col) (map_orOne_congr hempty hlengths))

/-- In a line with three letters of two bytes each, the `x` that the compiler has at column 15 is
rejected; behind a form feed a line is accepted that the compiler does not have. -/
theorem not_checkPosition_iff_compilerPosition :
    ¬(∀ line col, checkPosition (fun _ => .ok (Py.readText "/*ééé*/int x;")) ["a.cpp"] line col =
        .ok () ↔ CompilerPosition "/*ééé*/int x;" line col) ∧
      CompilerPosition "/*ééé*/int x;" 1 15 ∧
      checkPosition (fun _ => .ok (Py.readText "/*ééé*/int x;")) ["a.cpp"] 1 15 =
        .error (invalidPosition "col 15 is beyond end of line 1 (length 13)") ∧
      ¬CompilerPosition "int a;\x0cint b;" 2 1 ∧
      checkPosition (fun _ => .ok (Py.readText "int a;\x0cint b;")) ["a.cpp"] 2 1 = .ok () := by
  have haccents : CompilerPosition "/*ééé*/int x;" 1 15 := by
    refine ⟨?_, ?_, ?_, ?_⟩ <;> decide +kernel
  have hrejected : checkPosition (fun _ => .ok (Py.readText "/*ééé*/int x;")) ["a.cpp"] 1 15 =
      .error (invalidPosition "col 15 is beyond end of line 1 (length 13)") := by decide +kernel
  refine ⟨fun h => ?_, haccents, hrejected, fun h => absurd h.2.1 (by decide +kernel),
    by decide +kernel⟩
  have hok := (h 1 15).mpr haccents
  rw [hrejected] at hok
  cases hok

end Tools
end CppMcp
