/-
# Conditional directives in block comments

The scan of `tools/get_preprocessor_state.py` matches the lines of the file one by one and does not
know of comments.  Here a text is cut into code and block comments, in any way, and the scan of the
text is compared with that of the text in which the content of the comments is blank.

They list the same, wherever the cursors stand, exactly if no line that begins in a comment does
anything to a group, and no directive that begins a branch has its condition from a comment
(`scan_blanked_iff`).
-/

import CppMcp.Tools.Conditionals
import Mathlib.Data.List.Chain

namespace CppMcp
namespace Tools

open Export (Acc Cursor CursorInfo Location)
open Sections (Mark Span spans depthAfter acting)

/-- A piece of a text: code, or a block comment with what is in it. -/
inductive Piece where
  | code (text : List Char)
  | comment (content : List Char)
  deriving DecidableEq, Repr

/-- A character of a text, and whether it is content of a block comment. -/
abbrev TextChar := Char × Bool

/-- The characters of a piece. -/
def Piece.chars : Piece → List TextChar
  | code text => text.map (·, false)
  | comment content =>
    [('/', false), ('*', false)] ++ content.map (·, true) ++ [('*', false), ('/', false)]

/-- The characters of a text. -/
def textChars (pieces : List Piece) : List TextChar := pieces.flatMap Piece.chars

/-- The text as it stands. -/
def plain (cs : List TextChar) : String := String.ofList (cs.map Prod.fst)

/-- A character where the content of comments is blank, line breaks apart. -/
def blankChar : TextChar → Char
  | (c, true) => if c = '\n' ∨ c = '\r' then c else ' '
  | (c, false) => c

/-- The text in which the content of comments is blank. -/
def blanked (cs : List TextChar) : String := String.ofList (cs.map blankChar)

/-! ### The lines of both texts -/

/-- `readlinesLoop`, for characters that know where they stand. -/
def linesLoop : List TextChar → List TextChar → List (List TextChar)
  | line, [] => if line = [] then [] else [line.reverse]
  | line, ('\r', b) :: ('\n', _) :: rest => (('\n', b) :: line).reverse :: linesLoop [] rest
  | line, (c, b) :: rest =>
    if c = '\n' ∨ c = '\r' then (('\n', b) :: line).reverse :: linesLoop [] rest
    else linesLoop ((c, b) :: line) rest

/-- The lines of a text. -/
def linesOf (pieces : List Piece) : List (List TextChar) := linesLoop [] (textChars pieces)

/-- A reading of the characters that keeps the line breaks, and makes no new ones. -/
structure KeepsBreaks (f : TextChar → Char) : Prop where
  newline : ∀ x : TextChar, f x = '\n' ↔ x.1 = '\n'
  return_ : ∀ x : TextChar, f x = '\r' ↔ x.1 = '\r'

/-- Reading the characters as they stand keeps the line breaks. -/
theorem keepsBreaks_fst : KeepsBreaks Prod.fst := ⟨fun _ => Iff.rfl, fun _ => Iff.rfl⟩

/-- Blanking the content of comments keeps the line breaks, and a blank is none. -/
theorem keepsBreaks_blankChar : KeepsBreaks blankChar := by
  constructor <;> rintro ⟨c, _ | _⟩ <;> simp only [blankChar]
  all_goals
    split_ifs with hbreak
    · rfl
    · obtain ⟨hn, hr⟩ := not_or.mp hbreak
      simp [hn, hr]

/-- A character ends the line or is in it, unless it is a carriage return with a line feed behind
it. -/
theorem readlinesLoop_cons {line rest : List Char} {c : Char}
    (h : ∀ rest', c = '\r' → rest ≠ '\n' :: rest') : Py.readlinesLoop line (c :: rest) =
      if c = '\n' ∨ c = '\r' then ('\n' :: line).reverse :: Py.readlinesLoop [] rest
      else Py.readlinesLoop (c :: line) rest := by
  rw [Py.readlinesLoop]
  exact h

/-- The lines of a reading are the readings of the lines, if the reading keeps the breaks. -/
theorem readlinesLoop_map {f : TextChar → Char} (hf : KeepsBreaks f) (line cs : List TextChar) :
    Py.readlinesLoop (line.map f) (cs.map f) = (linesLoop line cs).map (List.map f) := by
  have hnewline : ∀ b, f ('\n', b) = '\n' := fun b => (hf.newline _).mpr rfl
  have hsingle : ∀ {c b} {rest : List TextChar},
      (∀ b' rest', rest = ('\n', b') :: rest' → c = '\r' → False) →
      ∀ rest', f (c, b) = '\r' → rest.map f ≠ '\n' :: rest' := by
    intro c b rest hsingle rest' hc hrest
    obtain ⟨⟨c', b'⟩, rest'', rfl, hc', -⟩ := List.map_eq_cons_iff.mp hrest
    cases (hf.newline _).mp hc'
    exact hsingle b' rest'' rfl ((hf.return_ _).mp hc)
  fun_induction linesLoop line cs with
  | case1 => rfl
  | case2 line hne =>
    rw [List.map_nil, Py.readlinesLoop, if_neg (by simpa using hne), List.map_singleton,
      List.map_reverse]
  | case3 line b b' rest ih =>
    rw [List.map_cons, List.map_cons, hnewline, (hf.return_ ('\r', b)).mpr rfl, Py.readlinesLoop,
      List.map_cons, List.map_reverse, List.map_cons, hnewline, ← ih, List.map_nil]
  | case4 line c b rest hreturn hbreak ih =>
    have hbreak' : f (c, b) = '\n' ∨ f (c, b) = '\r' := by rwa [hf.newline, hf.return_]
    rw [List.map_cons, readlinesLoop_cons (hsingle hreturn), if_pos hbreak', List.map_cons,
      List.map_reverse, List.map_cons, hnewline, ← ih, List.map_nil]
  | case5 line c b rest hreturn hbreak ih =>
    have hbreak' : ¬(f (c, b) = '\n' ∨ f (c, b) = '\r') := by rwa [hf.newline, hf.return_]
    rw [List.map_cons, readlinesLoop_cons (hsingle hreturn), if_neg hbreak', ← ih, List.map_cons]

/-- The lines of the text as it stands are the lines of its characters, as they stand. -/
theorem readlines_plain (pieces : List Piece) :
    Py.readlines (plain (textChars pieces)) = (linesOf pieces).map plain := by
  rw [Py.readlines, plain, String.toList_ofList, linesOf]
  have hlines := readlinesLoop_map keepsBreaks_fst [] (textChars pieces)
  rw [List.map_nil] at hlines
  rw [hlines, List.map_map]
  rfl

/-- The lines of the text with blank comments are those lines with blank comments. -/
theorem readlines_blanked (pieces : List Piece) :
    Py.readlines (blanked (textChars pieces)) = (linesOf pieces).map blanked := by
  rw [Py.readlines, blanked, String.toList_ofList, linesOf]
  have hlines := readlinesLoop_map keepsBreaks_blankChar [] (textChars pieces)
  rw [List.map_nil] at hlines
  rw [hlines, List.map_map]
  rfl

/-! ### Where content stands on a line -/

/-- What follows a character of a text: content stands between two asterisks. -/
def Delimited (x y : TextChar) : Prop :=
  x.2 = y.2 ∨ (x.2 = false ∧ x.1 = '*') ∨ (x.2 = true ∧ y.1 = '*')

/-- Within one stretch of code or of content all characters are alike. -/
theorem isChain_map_flag (b : Bool) (text : List Char) : (text.map (·, b)).IsChain Delimited :=
  ((List.pairwise_map.mpr (List.pairwise_of_forall fun _ _ => Or.inl rfl)) :
    (text.map (·, b)).Pairwise Delimited).isChain

/-- Within a piece content stands between two asterisks, those of its delimiters. -/
theorem Piece.isChain_chars (p : Piece) : p.chars.IsChain Delimited := by
  cases p with
  | code text => exact isChain_map_flag false text
  | comment content =>
    have hclose : (content.map (·, true) ++ [('*', false), ('/', false)]).IsChain Delimited := by
      refine (isChain_map_flag true content).append (by simp [Delimited]) ?_
      rintro x hx y ⟨⟩
      obtain ⟨c, -, rfl⟩ := List.mem_map.mp (List.mem_of_mem_getLast? hx)
      exact Or.inr (Or.inr ⟨rfl, rfl⟩)
    rw [Piece.chars, List.append_assoc]
    refine List.IsChain.append (by simp [Delimited]) hclose ?_
    rintro x ⟨⟩ y -
    cases hy : y.2 with
    | false => exact Or.inl hy.symm
    | true => exact Or.inr (Or.inl ⟨rfl, rfl⟩)

/-- No piece begins or ends with content: a comment has its delimiters around it. -/
theorem Piece.ends (p : Piece) :
    (∀ x ∈ p.chars.head?, x.2 = false) ∧ ∀ x ∈ p.chars.getLast?, x.2 = false := by
  cases p with
  | code text =>
    have hcode : ∀ x ∈ Piece.chars (.code text), x.2 = false := fun x hx => by
      obtain ⟨c, -, rfl⟩ := List.mem_map.mp hx
      rfl
    exact ⟨fun x hx => hcode x (List.mem_of_mem_head? hx),
      fun x hx => hcode x (List.mem_of_mem_getLast? hx)⟩
  | comment content =>
    constructor
    · rintro x ⟨⟩
      rfl
    · intro x hx
      rw [Piece.chars, List.getLast?_append] at hx
      cases hx
      rfl

/-- So in a whole text, whatever pieces it is made of. -/
theorem isChain_textChars (pieces : List Piece) : (textChars pieces).IsChain Delimited := by
  have hhead : ∀ pieces, ∀ x ∈ (textChars pieces).head?, x.2 = false := by
    intro pieces
    induction pieces with
    | nil => exact fun x hx => nomatch hx
    | cons p pieces ih =>
      intro x hx
      rw [textChars, List.flatMap_cons, List.head?_append] at hx
      obtain hx | ⟨-, hx⟩ := Option.or_eq_some_iff.mp hx
      · exact p.ends.1 x hx
      · exact ih x hx
  induction pieces with
  | nil => exact .nil
  | cons p pieces ih =>
    exact p.isChain_chars.append ih fun x hx y hy =>
      Or.inl ((p.ends.2 x hx).trans (hhead pieces y hy).symm)

/-- And so in each of its lines. -/
theorem isChain_of_mem_linesLoop {line cs : List TextChar} (h : (line.reverse ++ cs).IsChain Delimited) :
    ∀ l ∈ linesLoop line cs, l.IsChain Delimited := by
  -- the line break that ends a line stands where the one of the text does
  have hend : ∀ {line rest : List TextChar} {c : Char} {b : Bool},
      (line.reverse ++ (c, b) :: rest).IsChain Delimited → c = '\n' ∨ c = '\r' →
      ((('\n', b) :: line).reverse).IsChain Delimited := by
    intro line rest c b h hbreak
    rw [List.reverse_cons]
    refine h.left_of_append.append (List.isChain_singleton _) ?_
    rintro x hx y ⟨⟩
    obtain hflag | hleft | ⟨-, hright⟩ := (List.isChain_append.mp h).2.2 x hx (c, b) rfl
    · exact Or.inl hflag
    · exact Or.inr (Or.inl hleft)
    · obtain rfl | rfl := hbreak <;> cases hright
  fun_induction linesLoop line cs with
  | case1 => exact fun l hl => absurd hl List.not_mem_nil
  | case2 line hne =>
    intro l hl
    cases List.mem_singleton.mp hl
    rwa [List.append_nil] at h
  | case3 line b b' rest ih =>
    have hrest : rest.IsChain Delimited := h.right_of_append.tail.tail
    exact List.forall_mem_cons.mpr ⟨hend h (Or.inr rfl), ih hrest⟩
  | case4 line c b rest hreturn hbreak ih =>
    have hrest : rest.IsChain Delimited := h.right_of_append.tail
    exact List.forall_mem_cons.mpr ⟨hend h hbreak, ih hrest⟩
  | case5 line c b rest hreturn hbreak ih =>
    refine ih ?_
    rwa [List.reverse_cons, List.append_assoc, List.singleton_append]

/-- A line begins in a block comment. -/
def BeginsInside (line : List TextChar) : Prop := ∃ c, line.head? = some (c, true)

/-- A line that begins outside is free of content up to its first asterisk. -/
theorem outside_cases {line : List TextChar} (h : line.IsChain Delimited) (hout : ¬BeginsInside line) :
    (∀ x ∈ line, x.2 = false) ∨
      ∃ u v, line = u ++ ('*', false) :: v ∧ ∀ x ∈ u, x.2 = false := by
  induction line with
  | nil => exact Or.inl fun x hx => absurd hx List.not_mem_nil
  | cons x line ih =>
    obtain ⟨c, b⟩ := x
    cases b with
    | true => exact absurd ⟨c, rfl⟩ hout
    | false =>
      by_cases hin : BeginsInside line
      · obtain ⟨c', hc'⟩ := hin
        obtain hflag | ⟨-, hc⟩ | ⟨hflag, -⟩ := (List.isChain_cons.mp h).1 (c', true) hc'
        · cases hflag
        · cases hc
          exact Or.inr ⟨[], line, rfl, fun x hx => absurd hx List.not_mem_nil⟩
        · cases hflag
      · obtain hfree | ⟨u, v, rfl, hfree⟩ := ih h.tail hin
        · exact Or.inl (List.forall_mem_cons.mpr ⟨rfl, hfree⟩)
        · exact Or.inr ⟨(c, false) :: u, v, rfl, List.forall_mem_cons.mpr ⟨rfl, hfree⟩⟩

/-- Blanking leaves code as it is. -/
theorem map_blankChar_of_free {u : List TextChar} (h : ∀ x ∈ u, x.2 = false) :
    u.map blankChar = u.map Prod.fst := by
  refine List.map_congr_left fun x hx => ?_
  obtain ⟨c, b⟩ := x
  cases h _ hx
  rfl

/-! ### What the lines are matched as -/

section Scan

variable {alnum : Char → Bool}

/-- A line whose first character behind white space is no `#` is no directive. -/
theorem matchDirective_eq_none {line : String}
    (h : (line.toList.dropWhile Py.isSpace).head? ≠ some '#') : matchDirective alnum line = none := by
  rw [matchDirective]
  split
  next rest heq => exact absurd (congrArg List.head? heq) h
  next => rfl

/-- The directive of a line is found before its first asterisk. -/
theorem directive_congr (u v v' : List Char) :
    (matchDirective alnum (String.ofList (u ++ '*' :: v))).map Prod.fst =
      (matchDirective alnum (String.ofList (u ++ '*' :: v'))).map Prod.fst := by
  have hdrop : ∀ w v : List Char, (w ++ '*' :: v).dropWhile Py.isSpace =
      w.dropWhile Py.isSpace ++ '*' :: v := fun w v => by
    rw [List.dropWhile_append]
    split_ifs with hempty
    · rw [List.isEmpty_iff.mp hempty]
      rfl
    · rfl
  have htake : ∀ w v : List Char, (w ++ '*' :: v).takeWhile (isWord alnum) =
      w.takeWhile (isWord alnum) := fun w v => by
    induction w with
    | nil => rfl
    | cons c w ih => rw [List.cons_append, List.takeWhile_cons, List.takeWhile_cons, ih]
  rw [matchDirective, matchDirective, String.toList_ofList, String.toList_ofList, hdrop, hdrop]
  cases u.dropWhile Py.isSpace with
  | nil => rfl
  | cons c w =>
    by_cases hc : c = '#'
    · subst hc
      simp only [List.cons_append, hdrop, htake, Option.map_map]
      rfl
    · split
      next heq => exact absurd (List.cons.inj heq).1 hc
      next =>
        split
        next heq => exact absurd (List.cons.inj heq).1 hc
        next => rfl

/-- What stands in a comment hides the beginning of a directive. -/
theorem matchDirective_blanked {line : List TextChar} (h : line.IsChain Delimited)
    (hin : BeginsInside line) : matchDirective alnum (blanked line) = none := by
  refine matchDirective_eq_none ?_
  rw [blanked, String.toList_ofList]
  induction line with
  | nil =>
    obtain ⟨c, hc⟩ := hin
    cases hc
  | cons x line ih =>
    obtain ⟨c, hc⟩ := hin
    cases hc
    have hblank : Py.isSpace (blankChar (c, true)) = true := by
      rw [blankChar]
      split_ifs with hbreak
      · obtain rfl | rfl := hbreak <;> rfl
      · rfl
    rw [List.map_cons, List.dropWhile_cons_of_pos hblank]
    cases line with
    | nil => exact nofun
    | cons y line =>
      obtain ⟨c', b⟩ := y
      cases b with
      | true => exact ih h.tail ⟨c', rfl⟩
      | false =>
        obtain hflag | ⟨hflag, -⟩ | ⟨-, hc'⟩ := (List.isChain_cons_cons.mp h).1
        · cases hflag
        · cases hflag
        · cases hc'
          exact fun hhead => absurd (Option.some.inj hhead) (by decide)

/-- Outside comments the directive is the same, whatever its condition is. -/
theorem directive_blanked {line : List TextChar} (h : line.IsChain Delimited)
    (hout : ¬BeginsInside line) : (matchDirective alnum (blanked line)).map Prod.fst =
      (matchDirective alnum (plain line)).map Prod.fst := by
  obtain hfree | ⟨u, v, rfl, hfree⟩ := outside_cases h hout
  · rw [blanked, map_blankChar_of_free hfree, plain]
  · rw [blanked, plain, List.map_append, List.map_append, map_blankChar_of_free hfree]
    exact directive_congr _ _ _

/-- Two lines with one directive act the same if it begins no branch, or under the same condition. -/
theorem act_markOf_eq_iff {line line' : String}
    (h : (matchDirective alnum line').map Prod.fst = (matchDirective alnum line).map Prod.fst) (d : ℕ) :
    (markOf alnum line).act d = (markOf alnum line').act d ↔
      ∀ x, ((markOf alnum line).act d).start = some x →
        matchDirective alnum line' = matchDirective alnum line := by
  unfold markOf
  cases hline : matchDirective alnum line with
  | none =>
    rw [hline] at h
    rw [Option.map_eq_none_iff.mp h]
    exact iff_of_true rfl fun _ _ => rfl
  | some found =>
    obtain ⟨directive, condition⟩ := found
    rw [hline] at h
    obtain ⟨⟨directive', condition'⟩, hline', rfl⟩ := Option.map_eq_some_iff.mp h
    rw [hline']
    cases d <;> cases directive' <;> simp [Mark.act, Mark.start, eq_comm]

/-! ### What the scan sees of the lines -/

variable {active_lines : List ℕ}

/-- What a mark does to the scan depends on how it acts at the depth that the stack has. -/
theorem scanMark_act (lineno : ℕ) (w : ScanState) (m : Mark BranchHead) :
    scanMark active_lines lineno w (m.act w.stack.length) = scanMark active_lines lineno w m := by
  obtain ⟨conditionals, stack⟩ := w
  cases stack <;> cases m <;> rfl

/-- The stack is as deep as there are groups open. -/
theorem stack_length_scanMark (lineno : ℕ) (w : ScanState) (m : Mark BranchHead) :
    (scanMark active_lines lineno w m).stack.length = m.next w.stack.length := by
  obtain ⟨conditionals, stack⟩ := w
  cases stack <;> cases m <;> rfl

/-- **The loop sees no more than the marks that act:** lines whose marks do the same to the groups
are scanned alike. -/
theorem scanFrom_congr {lines lines' : List String} {w : ScanState}
    (h : acting w.stack.length (marksOf alnum lines) = acting w.stack.length (marksOf alnum lines'))
    (lineno : ℕ) :
    scanFrom alnum active_lines lineno lines w = scanFrom alnum active_lines lineno lines' w := by
  induction lines generalizing lines' w lineno with
  | nil =>
    cases lines' with
    | nil => rfl
    | cons line' lines' => cases h
  | cons line lines ih =>
    cases lines' with
    | nil => cases h
    | cons line' lines' =>
      obtain ⟨hact, hrest⟩ := List.cons.inj h
      have hturn : scanLine alnum active_lines lineno line w =
          scanLine alnum active_lines lineno line' w := by
        rw [scanLine_eq_scanMark, scanLine_eq_scanMark, ← scanMark_act, hact, scanMark_act]
      rw [← Sections.next_act _ (markOf alnum line'), ← hact, Sections.next_act] at hrest
      rw [scanFrom, scanFrom, ← hturn]
      refine ih ?_ (lineno + 1)
      rwa [scanLine_eq_scanMark, stack_length_scanMark]

/-- The directive opens a group. -/
def Directive.opensGroup : Directive → Bool
  | .ifdef | .ifndef | .if_ => true
  | _ => false

/-- What an entry shows of its section, if a cursor stands on the last line of the file. -/
def Conditional.shown (total : ℕ) (e : Conditional) : Bool × BranchHead × ℕ × ℕ × Bool :=
  (e.directive.opensGroup, (e.directive, e.condition), e.start_line, e.end_line.getD 0,
    decide (e.end_line.getD 0 < total) || decide (e.evaluated_result = some true))

/-- A mark opens a group exactly if its directive is one that does. -/
theorem opens_of_start_markOf {line : String} {o : Bool} {b : BranchHead}
    (h : (markOf alnum line).start = some (o, b)) : o = b.1.opensGroup := by
  unfold markOf at h
  cases hmatch : matchDirective alnum line with
  | none =>
    rw [hmatch] at h
    cases h
  | some found =>
    obtain ⟨directive, condition⟩ := found
    rw [hmatch] at h
    cases directive <;> cases h <;> rfl

/-- A section opens a group exactly if its directive is one that does. -/
theorem opens_eq_of_mem {lines : List String} {s : Span BranchHead}
    (h : s ∈ spans 0 0 (marksOf alnum lines)) : s.opens = s.label.1.opensGroup := by
  obtain ⟨before, m, after, ⟨o, b⟩, hlines, hstart, rfl⟩ := Sections.mem_spans_iff.mp h
  have hmem : m ∈ marksOf alnum lines := hlines ▸ List.mem_append_right before List.mem_cons_self
  obtain ⟨line, -, rfl⟩ := List.mem_map.mp hmem
  have hmark : (markOf alnum line).start = some (o, b) := by
    obtain ⟨hmark, rfl⟩ | ⟨hmark, -, rfl⟩ := Sections.start_act_iff.mp hstart <;> rw [hmark] <;> rfl
  exact opens_of_start_markOf hmark

/-- An entry shows its section, if a cursor stands on the last line: it tells an end by a directive
from one by the end of the file. -/
theorem shown_entryOf {lines : List String} {s : Span BranchHead}
    (h : s ∈ spans 0 0 (marksOf alnum lines)) :
    (entryOf [lines.length] s).shown lines.length = s.shown := by
  have hlength : 0 + (marksOf alnum lines).length = lines.length := by
    rw [marksOf, List.length_map, Nat.zero_add]
  have hended : (decide (s.last < lines.length) || decide ((entryOf [lines.length] s).evaluated_result
      = some true)) = s.ending.ended := by
    have hlast := Sections.last_of_not_ended h
    have hfirst := Sections.first_lt_of_ended h
    have hbounds := (Sections.bounds_of_mem_spans h).2.2
    rw [hlength] at hlast hfirst hbounds
    cases hended : s.ending.ended with
    | false => simp [entryOf, hended, hlast hended]
    | true =>
      obtain hlt | heq := Nat.lt_or_eq_of_le hbounds
      · simp [hlt]
      · have hactive : anyActive [lines.length] (s.first + 1) (s.last + 1) = true :=
          (anyActive_iff _).mpr ⟨lines.length, List.mem_singleton_self _, heq ▸ hfirst hended heq,
            heq ▸ Nat.lt_succ_self _⟩
        simp [entryOf, hended, hactive]
  rw [Conditional.shown, Span.shown, opens_eq_of_mem h, ← hended]
  rfl

/-- Scans that list the same show the same sections. -/
theorem shown_eq_of_scanLines {lines lines' : List String} (hlength : lines.length = lines'.length)
    (h : scanLines alnum [lines.length] lines = scanLines alnum [lines.length] lines') :
    (spans 0 0 (marksOf alnum lines)).map Span.shown =
      (spans 0 0 (marksOf alnum lines')).map Span.shown := by
  have hsorted : ∀ lines'', ((spans 0 0 (marksOf alnum lines'')).map
      (entryOf [lines.length])).Pairwise fun e e' => e.start_line < e'.start_line :=
    fun lines'' => List.pairwise_map.mpr (Sections.sorted_spans 0 0 _)
  have hperm := (perm_scanLines alnum [lines.length] lines).symm.trans
    (h ▸ perm_scanLines alnum [lines.length] lines')
  have hentries := hperm.eq_of_pairwise
    (fun _ _ _ _ hlt hlt' => absurd hlt' (Nat.lt_asymm hlt)) (hsorted lines) (hsorted lines')
  have hshown : ∀ lines'', lines''.length = lines.length →
      (spans 0 0 (marksOf alnum lines'')).map Span.shown = ((spans 0 0 (marksOf alnum lines'')).map
        (entryOf [lines.length])).map (Conditional.shown lines.length) := fun lines'' hlen => by
    rw [List.map_map]
    refine List.map_congr_left fun s hs => ?_
    rw [Function.comp_apply, ← hlen, shown_entryOf hs]
  rw [hshown lines rfl, hshown lines' hlength.symm, hentries]

variable (alnum)

/-- How many groups are open behind some lines. -/
def openAfter (lines : List (List TextChar)) : ℕ := depthAfter 0 (marksOf alnum (lines.map plain))

/-- **Comments that the scan does not mind:** no line that begins in a comment does anything to a group,
and no directive that begins a branch takes its condition from a comment. -/
structure CommentsQuiet (pieces : List Piece) : Prop where
  inside : ∀ before line after, linesOf pieces = before ++ line :: after → BeginsInside line →
    (markOf alnum (plain line)).act (openAfter alnum before) = .other
  outside : ∀ before line after, linesOf pieces = before ++ line :: after → ¬BeginsInside line →
    ∀ x, ((markOf alnum (plain line)).act (openAfter alnum before)).start = some x →
      matchDirective alnum (blanked line) = matchDirective alnum (plain line)

variable {alnum}

/-- The comments are quiet if the lines of both texts act the same. -/
theorem commentsQuiet_iff {pieces : List Piece} : CommentsQuiet alnum pieces ↔
    acting 0 (marksOf alnum ((linesOf pieces).map plain)) =
      acting 0 (marksOf alnum ((linesOf pieces).map blanked)) := by
  have hchain : ∀ before line after, linesOf pieces = before ++ line :: after →
      line.IsChain Delimited := fun before line after heq =>
    isChain_of_mem_linesLoop (isChain_textChars pieces) line
      (heq ▸ List.mem_append_right before List.mem_cons_self)
  rw [marksOf, marksOf, List.map_map, List.map_map, Sections.acting_map_eq_iff]
  have hopen : ∀ before : List (List TextChar),
      depthAfter 0 (before.map (markOf alnum ∘ plain)) = openAfter alnum before := fun before => by
    rw [openAfter, marksOf, List.map_map]
  have hnone : ∀ before line after, linesOf pieces = before ++ line :: after → BeginsInside line →
      markOf alnum (blanked line) = .other := fun before line after heq hin => by
    rw [markOf, matchDirective_blanked (hchain before line after heq) hin]
  have hdirective : ∀ before line after, linesOf pieces = before ++ line :: after →
      ¬BeginsInside line → (matchDirective alnum (blanked line)).map Prod.fst =
        (matchDirective alnum (plain line)).map Prod.fst := fun before line after heq hout =>
    directive_blanked (hchain before line after heq) hout
  simp only [hopen, Function.comp_apply]
  constructor
  · intro hquiet before line after heq
    by_cases hin : BeginsInside line
    · rw [hquiet.inside before line after heq hin, hnone before line after heq hin,
        Sections.act_other]
    · have hsame := hdirective before line after heq hin
      exact (act_markOf_eq_iff hsame _).mpr (hquiet.outside before line after heq hin)
  · intro hact
    refine ⟨fun before line after heq hin => ?_, fun before line after heq hout => ?_⟩
    · rw [hact before line after heq, hnone before line after heq hin, Sections.act_other]
    · have hsame := hdirective before line after heq hout
      exact (act_markOf_eq_iff hsame _).mp (hact before line after heq)

/-- **The conditionals do not depend on the comments exactly if** the comments are quiet. The scan
of a text lists the same branches as that of the text with blank comments, whatever the cursors are,
if and only if no line that begins in a comment acts on a group and no branch takes its condition
from a comment. -/
theorem scan_blanked_iff (alnum : Char → Bool) (pieces : List Piece) :
    (∀ cursor spelling,
      scanConditionalsViaTokens alnum ⟨cursor, spelling, .ok (blanked (textChars pieces))⟩ =
        scanConditionalsViaTokens alnum ⟨cursor, spelling, .ok (plain (textChars pieces))⟩) ↔
      CommentsQuiet alnum pieces := by
  rw [commentsQuiet_iff]
  constructor
  · intro hsame
    -- one cursor, on the last line of the file
    let total := (linesOf pieces).length
    let cursor : Cursor :=
      .node { kind := .ok .varDecl, location := .ok ⟨some "/proj/a.cpp", total, 1⟩ } []
    have hactive : activeLines "/proj/a.cpp" cursor = .ok [total] := rfl
    have hscan := hsame cursor "/proj/a.cpp"
    simp only [scanConditionalsViaTokens, hactive, readlines_plain, readlines_blanked] at hscan
    have hlist : scanLines alnum [total] ((linesOf pieces).map blanked) =
        scanLines alnum [total] ((linesOf pieces).map plain) := Except.ok.inj hscan
    have hlength : ((linesOf pieces).map plain).length = total := List.length_map _
    have hlength' : ((linesOf pieces).map blanked).length = total := List.length_map _
    refine Sections.acting_eq_of_spans (n := 0) ?_ (fun r hr => absurd hr (Nat.not_lt_zero r)) ?_
    · simp only [marksOf, List.length_map]
    · refine shown_eq_of_scanLines (hlength.trans hlength'.symm) ?_
      rw [hlength, hlist]
  · intro hact cursor spelling
    have hlines : ∀ active_lines, scanLines alnum active_lines ((linesOf pieces).map blanked) =
        scanLines alnum active_lines ((linesOf pieces).map plain) := fun active_lines => by
      rw [scanLines, scanLines, scanFrom_congr (w := {}) hact.symm, List.length_map, List.length_map]
    simp only [scanConditionalsViaTokens, readlines_plain, readlines_blanked, hlines]

end Scan

/-- A comment with a line that looks like a directive, and a declaration. -/
def commentedDirective : List Piece :=
  [.comment "\n#if 0\n".toList, .code "\nint on;\n".toList]

/-- **A line in a comment is listed as a branch,** from there to the end of the file, since the scan
does not know of comments. -/
theorem commentedDirective_listed :
    plain (textChars commentedDirective) = "/*\n#if 0\n*/\nint on;\n" ∧
      blanked (textChars commentedDirective) = "/*\n     \n*/\nint on;\n" ∧
      scanConditionalsViaTokens (fun _ => false) (unitOf "/*\n#if 0\n*/\nint on;\n" [4]) =
        .ok [⟨.if_, "0", some false, 2, some 4⟩] ∧
      scanConditionalsViaTokens (fun _ => false) (unitOf "/*\n     \n*/\nint on;\n" [4]) = .ok [] := by
  decide

end Tools
end CppMcp
