/-
# The branches of conditional directives

The scan of `tools/get_preprocessor_state.py` reads the lines of a file as marks that open, split and
close groups.  Its stack is what is open of the sections of these marks, so what it lists is an entry
for each section (`perm_scanLines`), with what `CppMcp.Lib.Sections` knows of sections: one entry for
each line that begins a branch, of which two are disjoint or nested, and those of a closed group tile it
(`wellStructured_scanLines`), whatever the lines are.

A branch counts as taken if a cursor stands on one of its lines.  No cursor stands on a line that the
preprocessor drops, so no other branch does; but a branch can be taken and hold no cursor
(`evaluated_iff`).  The groups are those that the pattern finds, in comments too.
-/

import CppMcp.Lib.Sections
import CppMcp.Tools.GetPreprocessorState
import Mathlib.Data.List.Nodup
import Mathlib.Data.Set.Pairwise.Lattice
import Mathlib.Order.CompletePartialOrder
import Mathlib.Order.Interval.Set.Defs

namespace CppMcp
namespace Tools

open Export (Acc Cursor CursorInfo Location)
open Sections (Mark Span spans depthAfter group pending Tiles)

/-- What a branch begins with: the directive and its condition. -/
abbrev BranchHead := Directive × String

section Scan

variable (alnum : Char → Bool)

/-! ### Which lines are directives -/

/-- The parts of a line of the form that the pattern asks for: white space, `#`, white space again,
a word with nothing more of a word behind it, and the rest of the line. -/
structure DirectiveLine (line : String) (indent gap word rest : List Char) : Prop where
  parts : line.toList = indent ++ '#' :: (gap ++ (word ++ rest))
  indent : ∀ c ∈ indent, Py.isSpace c = true
  gap : Py.Longest Py.isSpace gap (word ++ rest)
  word : Py.Longest (isWord alnum) word rest

variable {alnum} in
/-- **The lines that are directives** are those of that form whose word is one of the six, in upper or
lower case; the condition is what stands behind the word, up to the end of the line. -/
theorem matchDirective_eq_some_iff {line : String} {directive : Directive} {condition : String} :
    matchDirective alnum line = some (directive, condition) ↔
      ∃ indent gap word rest, DirectiveLine alnum line indent gap word rest ∧
        directives.lookup (Py.lower (String.ofList word)) = some directive ∧
        condition = Py.strip (String.ofList (rest.takeWhile (· ≠ '\n'))) := by
  constructor
  · intro h
    unfold matchDirective at h
    split at h
    · rename_i behind hbehind
      obtain ⟨word, hword, heq⟩ := Option.map_eq_some_iff.mp h
      obtain ⟨rfl, rfl⟩ := Prod.mk.inj heq
      refine ⟨line.toList.takeWhile Py.isSpace, behind.takeWhile Py.isSpace,
        (behind.dropWhile Py.isSpace).takeWhile (isWord alnum),
        (behind.dropWhile Py.isSpace).dropWhile (isWord alnum), ⟨?_, ?_, ?_, ?_⟩, hword, rfl⟩
      · rw [List.takeWhile_append_dropWhile, List.takeWhile_append_dropWhile, ← hbehind,
          List.takeWhile_append_dropWhile]
      · exact (Py.longest_takeWhile _ _).all
      · rw [List.takeWhile_append_dropWhile]
        exact Py.longest_takeWhile _ _
      · exact Py.longest_takeWhile _ _
    · exact absurd h (by simp)
  · rintro ⟨indent, gap, word, rest, ⟨hparts, hindent, hgap, hword⟩, hlookup, rfl⟩
    have hhash : Py.Longest Py.isSpace indent ('#' :: (gap ++ (word ++ rest))) :=
      ⟨hindent, fun c hc => by cases hc; decide⟩
    rw [matchDirective, hparts, hhash.dropWhile_eq]
    change Option.map _ _ = _
    rw [hgap.dropWhile_eq, hword.takeWhile_eq, hword.dropWhile_eq, hlookup]
    rfl

/-! ### Lines as marks -/

/-- What a line does to the groups of conditionals. -/
def markOf (line : String) : Mark BranchHead :=
  match matchDirective alnum line with
  | none => .other
  | some (.elif, condition) => .splits (.elif, condition)
  | some (.else_, condition) => .splits (.else_, condition)
  | some (.endif, _) => .closes
  | some (directive, condition) => .opens (directive, condition)

/-- What the lines do. -/
def marksOf (lines : List String) : List (Mark BranchHead) := lines.map (markOf alnum)

variable (active_lines : List ℕ)

/-- A turn of the loop, once the line has been matched. -/
def scanMark (lineno : ℕ) (w : ScanState) : Mark BranchHead → ScanState
  | .opens b => { w with stack := newEntry b.1 b.2 lineno :: w.stack }
  | .splits b => splitBranch active_lines b.1 b.2 lineno w
  | .closes => closeBranch active_lines lineno w
  | .other => w

/-- A turn of the loop over the lines goes by the mark of the line, which it has matched. -/
theorem scanLine_eq_scanMark (lineno : ℕ) (line : String) (w : ScanState) :
    scanLine alnum active_lines lineno line w =
      scanMark active_lines lineno w (markOf alnum line) := by
  unfold scanLine markOf
  cases matchDirective alnum line with
  | none => rfl
  | some found =>
    obtain ⟨directive, condition⟩ := found
    cases directive <;> rfl

/-- The entry of a section. -/
def entryOf (s : Span BranchHead) : Conditional :=
  ⟨s.label.1, s.label.2, some (s.ending.ended && anyActive active_lines (s.first + 1) (s.last + 1)),
    s.first, some s.last⟩

/-- What stands on the stack for a section that is open. -/
def openEntry (x : (Bool × BranchHead) × ℕ) : Conditional := newEntry x.1.2.1 x.1.2.2 x.2

/-- One turn of the loop lists the section that ends there, and leaves on the stack what is open. -/
theorem scanMark_openEntry (n : ℕ) (conditionals : List Conditional)
    (opened : List ((Bool × BranchHead) × ℕ)) (m : Mark BranchHead) :
    scanMark active_lines (n + 1) ⟨conditionals, opened.map openEntry⟩ m =
      ⟨conditionals ++ (m.done n opened).toList.map (entryOf active_lines),
        (m.push n opened).map openEntry⟩ := by
  have hnone : conditionals ++ [] = conditionals := List.append_nil _
  cases m with
  | opens b => cases opened <;> exact congrArg (ScanState.mk · _) hnone.symm
  | other => cases opened <;> exact congrArg (ScanState.mk · _) hnone.symm
  | splits b =>
    cases opened with
    | nil => exact congrArg (ScanState.mk · _) hnone.symm
    | cons x opened => rfl
  | closes =>
    cases opened with
    | nil => exact congrArg (ScanState.mk · _) hnone.symm
    | cons x opened => rfl

/-- What the scan lists from some line on: what is open there, and the sections behind. -/
theorem perm_scanFrom (n : ℕ) (lines : List String) (conditionals : List Conditional)
    (opened : List ((Bool × BranchHead) × ℕ)) :
    let w := scanFrom alnum active_lines (n + 1) lines ⟨conditionals, opened.map openEntry⟩
    (w.conditionals ++ w.stack.reverse.map (finishEntry (n + lines.length))).Perm
      (conditionals ++ (pending 0 n opened (marksOf alnum lines) ++
        spans opened.length n (marksOf alnum lines)).map (entryOf active_lines)) := by
  induction lines generalizing n conditionals opened with
  | nil =>
    refine List.Perm.append_left conditionals ?_
    change ((opened.map openEntry).reverse.map (finishEntry n)).Perm _
    rw [marksOf, List.map_nil, Sections.pending_nil, spans, List.append_nil, List.map_map,
      ← List.map_reverse, List.map_map]
    exact (List.reverse_perm opened).map _
  | cons line lines ih =>
    intro w
    have hturn : w = scanFrom alnum active_lines (n + 1 + 1) lines
        ⟨conditionals ++ ((markOf alnum line).done n opened).toList.map (entryOf active_lines),
          ((markOf alnum line).push n opened).map openEntry⟩ := by
      rw [← scanMark_openEntry, ← scanLine_eq_scanMark]
      rfl
    have hrest := ih (n + 1) (conditionals ++ ((markOf alnum line).done n opened).toList.map
      (entryOf active_lines)) ((markOf alnum line).push n opened)
    rw [hturn, List.length_cons, Nat.add_comm lines.length, ← Nat.add_assoc]
    refine hrest.trans ?_
    rw [List.append_assoc, ← List.map_append]
    exact ((Sections.perm_pending_cons n opened (markOf alnum line) (marksOf alnum lines)).symm.map
      _).append_left _

/-- **The scan lists the sections of the lines,** one entry for each, in whatever order they end. -/
theorem perm_scanLines (lines : List String) :
    (scanLines alnum active_lines lines).Perm
      ((spans 0 0 (marksOf alnum lines)).map (entryOf active_lines)) := by
  have hperm := perm_scanFrom alnum active_lines 0 lines [] []
  simp only [Nat.zero_add] at hperm
  exact hperm

/-- An entry is listed exactly if it is that of a section. -/
theorem mem_scanLines {lines : List String} {e : Conditional} :
    e ∈ scanLines alnum active_lines lines ↔
      ∃ s ∈ spans 0 0 (marksOf alnum lines), entryOf active_lines s = e := by
  rw [(perm_scanLines alnum active_lines lines).mem_iff, List.mem_map]

/-! ### What the intervals look like -/

/-- The lines of a branch. -/
def Conditional.lines (e : Conditional) : Set ℕ :=
  {line | e.start_line ≤ line ∧ ∃ stop, e.end_line = some stop ∧ line ≤ stop}

/-- A branch begins at a line: a group is opened there, or one that is open is split.  The lines of a
file are numbered from 1. -/
def BranchBegins (lines : List String) (lineno : ℕ) (b : BranchHead) : Prop :=
  ∃ before line after, lines = before ++ line :: after ∧ lineno = before.length + 1 ∧
    (markOf alnum line = .opens b ∨
      markOf alnum line = .splits b ∧ 0 < depthAfter 0 (marksOf alnum before))

/-- A group that is closed: where it is opened, where it is split, and where it is closed. -/
def GroupAt (lines : List String) (first : ℕ) (splits : List ℕ) (last : ℕ) : Prop :=
  ∃ before line after b, lines = before ++ line :: after ∧ first = before.length + 1 ∧
    markOf alnum line = .opens b ∧ group 0 first (marksOf alnum after) = some (splits, last)

/-- The entries of a group. -/
def entriesAt (es : List Conditional) (starts : List ℕ) : Set Conditional :=
  {e | e ∈ es ∧ e.start_line ∈ starts}

/-- **Well-structured intervals:** one entry for each line that begins a branch, with an end in the
file and a result; the entries of a closed group tile it; and all are disjoint or nested. -/
structure WellStructured (lines : List String) (es : List Conditional) : Prop where
  once : (es.map Conditional.start_line).Nodup
  begins : ∀ lineno b, (∃ e ∈ es, e.start_line = lineno ∧ (e.directive, e.condition) = b) ↔
    BranchBegins alnum lines lineno b
  bounds : ∀ e ∈ es, ∃ stop, e.end_line = some stop ∧ e.start_line ≤ stop ∧ stop ≤ lines.length
  evaluated : ∀ e ∈ es, e.evaluated_result.isSome
  disjoint : ∀ first splits last, GroupAt alnum lines first splits last →
    (entriesAt es (first :: splits)).PairwiseDisjoint Conditional.lines
  covers : ∀ first splits last, GroupAt alnum lines first splits last →
    ⋃ e ∈ entriesAt es (first :: splits), e.lines = Set.Icc first last
  nested : ∀ e ∈ es, ∀ e' ∈ es, Disjoint e.lines e'.lines ∨ e'.lines ⊆ e.lines ∨ e.lines ⊆ e'.lines

variable {alnum active_lines}

/-- The lines of an entry are those from the first to the last of its section. -/
theorem lines_entryOf (s : Span BranchHead) :
    (entryOf active_lines s).lines = Set.Icc s.first s.last := by
  ext line
  simp [Conditional.lines, entryOf]

/-- Branches begin where sections do, and a section has what its branch begins with. -/
theorem branchBegins_iff {lines : List String} {lineno : ℕ} {b : BranchHead} :
    BranchBegins alnum lines lineno b ↔
      ∃ s ∈ spans 0 0 (marksOf alnum lines), s.first = lineno ∧ s.label = b := by
  constructor
  · rintro ⟨before, line, after, rfl, rfl, hmark⟩
    have hstart : ∃ o, ((markOf alnum line).act (depthAfter 0 (marksOf alnum before))).start =
        some (o, b) := by
      obtain hopens | ⟨hsplits, hopen⟩ := hmark
      · exact ⟨true, Sections.start_act_iff.mpr (Or.inl ⟨hopens, rfl⟩)⟩
      · exact ⟨false, Sections.start_act_iff.mpr (Or.inr ⟨hsplits, hopen, rfl⟩)⟩
    obtain ⟨o, hstart⟩ := hstart
    refine ⟨_, Sections.mem_spans_iff.mpr ⟨marksOf alnum before, markOf alnum line,
      marksOf alnum after, (o, b), ?_, hstart, rfl⟩, ?_, rfl⟩
    · rw [marksOf, List.map_append, List.map_cons]
      rfl
    · rw [Sections.spanAt, marksOf, List.length_map, Nat.zero_add]
  · rintro ⟨s, hs, rfl, rfl⟩
    obtain ⟨before, m, after, ⟨o, b⟩, hlines, hstart, rfl⟩ := Sections.mem_spans_iff.mp hs
    obtain ⟨before, rest, rfl, rfl, hrest⟩ := List.map_eq_append_iff.mp hlines
    obtain ⟨line, after, rfl, rfl, rfl⟩ := List.map_eq_cons_iff.mp hrest
    refine ⟨before, line, after, rfl, ?_, ?_⟩
    · rw [Sections.spanAt, List.length_map, Nat.zero_add]
    · obtain ⟨hopens, -⟩ | ⟨hsplits, hopen, -⟩ := Sections.start_act_iff.mp hstart
      · exact Or.inl hopens
      · exact Or.inr ⟨hsplits, hopen⟩

/-- The branches of a closed group are the sections that tile it. -/
theorem tiles_of_groupAt {lines : List String} {first last : ℕ} {splits : List ℕ}
    (h : GroupAt alnum lines first splits last) :
    Tiles (spans 0 0 (marksOf alnum lines)) (first :: splits) last := by
  obtain ⟨before, line, after, b, rfl, rfl, hopens, hgroup⟩ := h
  have hlines : marksOf alnum (before ++ line :: after) =
      marksOf alnum before ++ .opens b :: marksOf alnum after := by
    rw [marksOf, List.map_append, List.map_cons, hopens]
    rfl
  have htiles := Sections.tiles_of_group (d := depthAfter 0 (marksOf alnum before)) (b := b) hgroup
  have hlength : (marksOf alnum before).length = before.length := List.length_map _
  refine htiles.mono ?_
  have hsubset := Sections.spans_subset_append 0 0 (marksOf alnum before)
    (.opens b :: marksOf alnum after)
  rwa [← hlines, Nat.zero_add, hlength] at hsubset

/-- The entries of a group are those of the sections that begin where it is opened or split. -/
theorem mem_entriesAt {lines : List String} {starts : List ℕ} {e : Conditional} :
    e ∈ entriesAt (scanLines alnum active_lines lines) starts ↔
      ∃ s ∈ spans 0 0 (marksOf alnum lines), s.first ∈ starts ∧ entryOf active_lines s = e := by
  constructor
  · rintro ⟨he, hstart⟩
    obtain ⟨s, hs, rfl⟩ := (mem_scanLines ..).mp he
    exact ⟨s, hs, hstart, rfl⟩
  · rintro ⟨s, hs, hstart, rfl⟩
    exact ⟨(mem_scanLines ..).mpr ⟨s, hs, rfl⟩, hstart⟩

/-- Of two sections the one of which ends before the other begins, the entries share no line. -/
theorem disjoint_lines {s s' : Span BranchHead} (h : s.last < s'.first) :
    Disjoint (entryOf active_lines s).lines (entryOf active_lines s').lines := by
  rw [lines_entryOf, lines_entryOf]
  exact Set.disjoint_left.mpr fun line hline hline' =>
    Nat.lt_irrefl _ (h.trans_le (hline'.1.trans hline.2))

/-- The branches of a closed group share no line with one another. -/
theorem pairwiseDisjoint_of_groupAt {lines : List String} {first last : ℕ} {splits : List ℕ}
    (h : GroupAt alnum lines first splits last) :
    (entriesAt (scanLines alnum active_lines lines) (first :: splits)).PairwiseDisjoint
      Conditional.lines := by
  have htiles := tiles_of_groupAt h
  intro e he e' he' hne
  obtain ⟨s, hs, hk, rfl⟩ := mem_entriesAt.mp he
  obtain ⟨s', hs', hk', rfl⟩ := mem_entriesAt.mp he'
  obtain hlt | heq | hlt := Nat.lt_trichotomy s.first s'.first
  · exact disjoint_lines (htiles.last_lt_first hs hk hk' hlt)
  · exact absurd (congrArg _ (Sections.eq_of_first_eq s hs s' hs' heq)) hne
  · exact (disjoint_lines (htiles.last_lt_first hs' hk' hk hlt)).symm

/-- They cover the lines from the one that opens the group to the one that closes it. -/
theorem iUnion_lines_of_groupAt {lines : List String} {first last : ℕ} {splits : List ℕ}
    (h : GroupAt alnum lines first splits last) :
    ⋃ e ∈ entriesAt (scanLines alnum active_lines lines) (first :: splits), e.lines =
      Set.Icc first last := by
  ext line
  rw [Set.mem_Icc, ← (tiles_of_groupAt h).covers_iff]
  simp only [Set.mem_iUnion, exists_prop, mem_entriesAt]
  constructor
  · rintro ⟨_, ⟨s, hs, hk, rfl⟩, hline⟩
    rw [lines_entryOf] at hline
    exact ⟨s, hs, hk, hline⟩
  · rintro ⟨s, hs, hk, hline⟩
    refine ⟨_, ⟨s, hs, hk, rfl⟩, ?_⟩
    rwa [lines_entryOf]

/-- Any two branches are disjoint or one is inside the other, since sections are. -/
theorem disjoint_or_subset {lines : List String} {s s' : Span BranchHead}
    (hs : s ∈ spans 0 0 (marksOf alnum lines)) (hs' : s' ∈ spans 0 0 (marksOf alnum lines)) :
    Disjoint (entryOf active_lines s).lines (entryOf active_lines s').lines ∨
      (entryOf active_lines s').lines ⊆ (entryOf active_lines s).lines ∨
        (entryOf active_lines s).lines ⊆ (entryOf active_lines s').lines := by
  obtain (hlt | hlt) | hsub | hsub := Sections.disjoint_or_nested s hs s' hs'
  · exact Or.inl (disjoint_lines hlt)
  · exact Or.inl (disjoint_lines hlt).symm
  · refine Or.inr (Or.inl ?_)
    rw [lines_entryOf, lines_entryOf]
    exact Set.Icc_subset_Icc hsub.1 hsub.2
  · refine Or.inr (Or.inr ?_)
    rw [lines_entryOf, lines_entryOf]
    exact Set.Icc_subset_Icc hsub.1 hsub.2

variable (alnum active_lines)

/-- **The intervals are well-structured,** whatever the lines are and wherever the cursors stand:
one entry for each line that begins a branch, within the file and with a result; those of a closed
group tile it; and any two are disjoint or nested. -/
theorem wellStructured_scanLines (lines : List String) :
    WellStructured alnum lines (scanLines alnum active_lines lines) where
  once := by
    have hperm := (perm_scanLines alnum active_lines lines).map Conditional.start_line
    rw [hperm.nodup_iff, List.map_map]
    exact List.pairwise_map.mpr ((Sections.sorted_spans 0 0 _).imp Nat.ne_of_lt)
  begins lineno b := by
    rw [branchBegins_iff]
    constructor
    · rintro ⟨e, he, rfl, rfl⟩
      obtain ⟨s, hs, rfl⟩ := (mem_scanLines ..).mp he
      exact ⟨s, hs, rfl, rfl⟩
    · rintro ⟨s, hs, rfl, rfl⟩
      exact ⟨_, (mem_scanLines ..).mpr ⟨s, hs, rfl⟩, rfl, rfl⟩
  bounds e he := by
    obtain ⟨s, hs, rfl⟩ := (mem_scanLines ..).mp he
    have hbounds := Sections.bounds_of_mem_spans hs
    rw [marksOf, List.length_map, Nat.zero_add] at hbounds
    exact ⟨s.last, rfl, hbounds.2⟩
  evaluated e he := by
    obtain ⟨s, -, rfl⟩ := (mem_scanLines ..).mp he
    rfl
  disjoint _ _ _ hgroup := pairwiseDisjoint_of_groupAt hgroup
  covers _ _ _ hgroup := iUnion_lines_of_groupAt hgroup
  nested e he e' he' := by
    obtain ⟨s, hs, rfl⟩ := (mem_scanLines ..).mp he
    obtain ⟨s', hs', rfl⟩ := (mem_scanLines ..).mp he'
    exact disjoint_or_subset hs hs'

/-- A group inside a branch, which is split once. -/
def nestedLines : List String :=
  ["#ifdef A\n", "  # if B > 1\n", "int x;\n", "#else\n", "#endif // B\n", "#endif\n"]

/-- `wellStructured_scanLines` for these lines with a cursor on the third: three branches, of which
the two of the inner group tile its lines. -/
theorem wellStructured_scanLines_nestedLines :
    scanLines (fun _ => false) [3] nestedLines =
      [⟨.if_, "B > 1", some true, 2, some 3⟩, ⟨.else_, "", some false, 4, some 5⟩,
        ⟨.ifdef, "A", some true, 1, some 6⟩] ∧
      ⋃ e ∈ entriesAt (scanLines (fun _ => false) [3] nestedLines) [2, 4], e.lines =
        Set.Icc 2 5 := by
  have hgroup : GroupAt (fun _ => false) nestedLines 2 [4] 5 :=
    ⟨["#ifdef A\n"], _, _, (.if_, "B > 1"), rfl, rfl, rfl, rfl⟩
  exact ⟨by decide,
    (wellStructured_scanLines (fun _ => false) [3] nestedLines).covers 2 [4] 5 hgroup⟩

/-! ### Which branches count as taken -/

/-- The branches of the lines. -/
def branches (lines : List String) : List (Span BranchHead) := spans 0 0 (marksOf alnum lines)

/-- What the preprocessor makes of the branches: it takes at most one of each group, and none inside a
branch that it does not take.  A branch is given by the line that it begins at. -/
structure Verdict (lines : List String) where
  taken : Set ℕ
  one_of_group : ∀ first splits last, GroupAt alnum lines first splits last →
    ∀ k ∈ first :: splits, ∀ k' ∈ first :: splits, k ∈ taken → k' ∈ taken → k = k'
  inside_taken : ∀ s ∈ branches alnum lines, ∀ s' ∈ branches alnum lines,
    s.first < s'.first → s'.first ≤ s.last → s'.first ∈ taken → s.first ∈ taken

/-- A line is kept if every branch that it is in is taken. -/
def Verdict.Keeps {lines : List String} (v : Verdict alnum lines) (line : ℕ) : Prop :=
  ∀ s ∈ branches alnum lines, s.first < line → line ≤ s.last → s.first ∈ v.taken

/-- A cursor stands on a line of a file. -/
def IsAt (file : String) (line : ℕ) (c : CursorInfo) : Prop :=
  ∃ loc, c.location = .ok loc ∧ loc.file = some file ∧ loc.line = line

/-- A cursor of the main file stands on a line. -/
def StandsOn (tu : RecordedUnit) (line : ℕ) : Prop :=
  ∃ c ∈ tu.cursor.subtrees.map Rose.label, IsAt tu.spelling line c

variable {alnum}

/-- One call of the visitor adds the line of its cursor, if that stands in the main file. -/
theorem mem_visitLine {main_file : String} {active_lines : List ℕ} {c : CursorInfo} {line : ℕ} :
    line ∈ visitLine main_file active_lines c ↔ line ∈ active_lines ∨ IsAt main_file line c := by
  unfold visitLine IsAt
  cases hloc : c.location with
  | error e => simp
  | ok loc =>
    by_cases hfile : loc.file = some main_file
    · simp [hfile, or_comm, eq_comm]
    · simp [hfile]

/-- The active lines are those that a cursor of the main file stands on. -/
theorem mem_activeLines {tu : RecordedUnit} {active_lines : List ℕ}
    (h : activeLines tu.spelling tu.cursor = .ok active_lines) (line : ℕ) :
    line ∈ active_lines ↔ StandsOn tu line := by
  have hwalk := Rose.walkM_induct
    (P := fun done lines => ∀ line, line ∈ lines ↔ ∃ c ∈ done, IsAt tu.spelling line c) h (by simp)
    fun done lines c lines' hdone hvisit line => ?_
  · exact hwalk line
  · cases hvisit
    rw [mem_visitLine, hdone]
    simp only [List.mem_append, List.mem_singleton, or_and_right, exists_or, exists_eq_left]

/-- `_any_active` asks for an active line from `start` on and before `stop`. -/
theorem anyActive_iff {start stop : ℕ} :
    anyActive active_lines start stop = true ↔ ∃ line ∈ active_lines, start ≤ line ∧ line < stop := by
  simp [anyActive]

/-- Where no group is left open, a branch counts as taken if a cursor stands behind its first line, up
to its last. -/
theorem evaluated_entryOf {lines : List String} (hclosed : depthAfter 0 (marksOf alnum lines) = 0)
    {s : Span BranchHead} (hs : s ∈ branches alnum lines) :
    (entryOf active_lines s).evaluated_result = some true ↔
      ∃ line ∈ active_lines, s.first < line ∧ line ≤ s.last := by
  have hended : s.ending.ended = true := Sections.ended_of_mem_spans hclosed hs
  rw [entryOf, hended, Bool.true_and, Option.some.injEq, anyActive_iff]
  simp only [Nat.lt_succ_iff, Nat.succ_le_iff]

/-- **The branches that count as taken are those that are, exactly if** a cursor stands on a line of each
branch that is taken. -/
theorem evaluated_iff {tu : RecordedUnit} {text : String} {es : List Conditional}
    (htext : tu.read_file = .ok text) (hclosed : depthAfter 0 (marksOf alnum (Py.readlines text)) = 0)
    (v : Verdict alnum (Py.readlines text)) (hkept : ∀ line, StandsOn tu line → v.Keeps alnum line)
    (hscan : scanConditionalsViaTokens alnum tu = .ok es) :
    (∀ e ∈ es, e.evaluated_result = some true ↔ e.start_line ∈ v.taken) ↔
      ∀ s ∈ branches alnum (Py.readlines text), s.first ∈ v.taken →
        ∃ line, StandsOn tu line ∧ s.first < line ∧ line ≤ s.last := by
  rw [scanConditionalsViaTokens, htext] at hscan
  obtain ⟨active_lines, hactive, hes⟩ := Except.bind_eq_ok.mp hscan
  cases hes
  have heval : ∀ s ∈ branches alnum (Py.readlines text),
      (entryOf active_lines s).evaluated_result = some true ↔
        ∃ line, StandsOn tu line ∧ s.first < line ∧ line ≤ s.last := fun s hs => by
    simp only [evaluated_entryOf active_lines hclosed hs, mem_activeLines hactive]
  constructor
  · intro hright s hs htaken
    have he := (mem_scanLines alnum active_lines).mpr ⟨s, hs, rfl⟩
    exact (heval s hs).mp ((hright _ he).mpr htaken)
  · intro hcursor e he
    obtain ⟨s, hs, rfl⟩ := (mem_scanLines ..).mp he
    rw [heval s hs]
    constructor
    · rintro ⟨line, hline, hfirst, hlast⟩
      exact hkept line hline s hs hfirst hlast
    · exact hcursor s hs

end Scan

/-- A unit with a text, and a cursor on each of some lines. -/
def unitOf (text : String) (lines : List ℕ) : RecordedUnit where
  cursor := .node { kind := .ok (.other 350) } (lines.map fun line =>
    .node { kind := .ok .varDecl, location := .ok ⟨some "/proj/a.cpp", line, 5⟩ } [])
  spelling := "/proj/a.cpp"
  read_file := .ok text

/-- A branch with a declaration. -/
def declarationBranch : String := "#if 1\nint on;\n#endif\n"

/-- A branch with a comment. -/
def commentBranch : String := "#if 1\n// on\n#endif\n"

/-- The one branch of the example reaches from its first line to the line that closes it. -/
theorem branches_declarationBranch : branches (fun _ => false) (Py.readlines declarationBranch) =
    [⟨true, (.if_, "1"), 1, 3, .close⟩] := by decide

/-- The verdict that takes the branch at the first line, where nothing is in a branch before it. -/
def takesFirst (lines : List String)
    (h : ∀ s ∈ branches (fun _ => false) lines, 1 ≤ s.first) : Verdict (fun _ => false) lines where
  taken := {1}
  one_of_group _ _ _ _ _ _ _ _ hk hk' := hk.trans hk'.symm
  inside_taken s hs s' _ hlt _ htaken := by
    have hfirst : s'.first = 1 := htaken
    exact absurd (h s hs) (by omega)

/-- `evaluated_iff` at a branch with a declaration in it, which is taken. -/
theorem evaluated_iff_declarationBranch :
    (∀ e ∈ [(⟨.if_, "1", some true, 1, some 3⟩ : Conditional)],
      e.evaluated_result = some true ↔ e.start_line ∈ ({1} : Set ℕ)) ↔
      ∀ s ∈ branches (fun _ => false) (Py.readlines declarationBranch), s.first ∈ ({1} : Set ℕ) →
        ∃ line, StandsOn (unitOf declarationBranch [2]) line ∧ s.first < line ∧ line ≤ s.last :=
  evaluated_iff rfl (by decide) (takesFirst _ (by decide)) (fun line hline s hs _ _ => by
    rw [branches_declarationBranch] at hs
    cases List.mem_singleton.mp hs
    rfl) (by decide)

/-- **A branch that is taken does not count as taken** where it holds nothing but a comment, for no
cursor stands in it. -/
theorem commentBranch_not_evaluated :
    ∃ v : Verdict (fun _ => false) (Py.readlines commentBranch),
      depthAfter 0 (marksOf (fun _ => false) (Py.readlines commentBranch)) = 0 ∧
        (∀ line, StandsOn (unitOf commentBranch []) line → v.Keeps (fun _ => false) line) ∧
        ∃ es, scanConditionalsViaTokens (fun _ => false) (unitOf commentBranch []) = .ok es ∧
          ¬∀ e ∈ es, (e.evaluated_result = some true ↔ e.start_line ∈ v.taken) := by
  refine ⟨takesFirst _ (by decide), by decide, fun line hline => ?_,
    [⟨.if_, "1", some false, 1, some 3⟩], by decide, fun hright => ?_⟩
  · obtain ⟨c, hc, loc, hloc, hfile, -⟩ := hline
    cases List.mem_singleton.mp hc
    cases hloc
    cases hfile
  · exact absurd ((hright _ List.mem_cons_self).mpr rfl) (by decide)

end Tools
end CppMcp
