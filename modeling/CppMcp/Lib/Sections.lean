/-
# Sections

A sequence of marks, of which some open a group, some split what is open into a section and the next
one, and some close the group: brackets with separators, or conditional directives among lines.  The
marks need not balance; a split or a close outside every group does nothing, and a group may be left
open.

`spans` lists the sections, each with the numbers of its first and last mark.  They are told apart by
their first marks, two of them are disjoint or nested (`pairwise_spans`), those of a closed group tile it
(`tiles_of_group`), and what they look like says which marks did something (`acting_eq_of_spans`).
-/

import Mathlib.Data.List.Basic
import Mathlib.Data.Nat.Basic
import Mathlib.Tactic.Common
import Mathlib.Tactic.Cases

namespace Sections

variable {β : Type*}

/-- What a mark does to the group that it stands in; a section is labelled by the mark it starts at. -/
inductive Mark (β : Type*) where
  | opens (label : β)
  | splits (label : β)
  | closes
  | other

/-- Why a section ends; `unended` is one whose group is left open. -/
inductive Ending where
  | split | close | unended
  deriving DecidableEq, Repr

/-- The section ends before the sequence does. -/
def Ending.ended : Ending → Bool
  | .unended => false
  | _ => true

/-- A section, from its first mark to its last.  The mark that closes a group belongs to the last one. -/
structure Span (β : Type*) where
  opens : Bool
  label : β
  first : ℕ
  last : ℕ
  ending : Ending
  deriving DecidableEq, Repr

/-! ### Where sections end -/

/-- How many groups are open after a mark. -/
def Mark.next (d : ℕ) : Mark β → ℕ
  | .opens _ => d + 1
  | .closes => d - 1
  | _ => d

/-- How many groups are open after the marks. -/
def depthAfter : ℕ → List (Mark β) → ℕ
  | d, [] => d
  | d, m :: ms => depthAfter (m.next d) ms

/-- How many groups are open after two sequences: the second begins with as many as the first leaves
open. -/
theorem depthAfter_append (d : ℕ) (ms ms' : List (Mark β)) :
    depthAfter d (ms ++ ms') = depthAfter (depthAfter d ms) ms' := by
  induction ms generalizing d with
  | nil => rfl
  | cons m ms ih => exact ih (m.next d)

/-- The last mark of the section that is open below `d` others after `n` marks, and why it ends. -/
def endFrom : ℕ → ℕ → List (Mark β) → ℕ × Ending
  | _, n, [] => (n, .unended)
  | d, n, .opens _ :: ms => endFrom (d + 1) (n + 1) ms
  | 0, n, .splits _ :: _ => (n, .split)
  | d + 1, n, .splits _ :: ms => endFrom (d + 1) (n + 1) ms
  | 0, n, .closes :: _ => (n + 1, .close)
  | d + 1, n, .closes :: ms => endFrom d (n + 1) ms
  | d, n, .other :: ms => endFrom d (n + 1) ms

/-- The section that starts at mark `n + 1`, the marks behind which are `ms`. -/
def spanAt (opens : Bool) (label : β) (n : ℕ) (ms : List (Mark β)) : Span β :=
  ⟨opens, label, n + 1, (endFrom 0 (n + 1) ms).1, (endFrom 0 (n + 1) ms).2⟩

/-- The sections that start behind the first `n` marks, where `d` groups are open there. -/
def spans : ℕ → ℕ → List (Mark β) → List (Span β)
  | _, _, [] => []
  | d, n, .opens b :: ms => spanAt true b n ms :: spans (d + 1) (n + 1) ms
  | 0, n, .splits _ :: ms => spans 0 (n + 1) ms
  | d + 1, n, .splits b :: ms => spanAt false b n ms :: spans (d + 1) (n + 1) ms
  | d, n, .closes :: ms => spans (d - 1) (n + 1) ms
  | d, n, .other :: ms => spans d (n + 1) ms

/-- A section ends at one of the marks behind which it is looked for, or where the marks end. -/
theorem endFrom_bounds (d n : ℕ) (ms : List (Mark β)) :
    n ≤ (endFrom d n ms).1 ∧ (endFrom d n ms).1 ≤ n + ms.length := by
  fun_induction endFrom d n ms <;> simp only [List.length_nil, List.length_cons] <;> omega

/-- What lies further out ends later: a group with one more around it is closed first. -/
theorem endFrom_le_succ (d n : ℕ) (ms : List (Mark β)) :
    (endFrom d n ms).1 ≤ (endFrom (d + 1) n ms).1 := by
  induction ms generalizing d n with
  | nil => exact le_rfl
  | cons m ms ih =>
    cases m with
    | opens b => exact ih (d + 1) (n + 1)
    | other => exact ih d (n + 1)
    | splits b =>
      cases d with
      | zero => exact Nat.le_trans (Nat.le_succ n) (endFrom_bounds 1 (n + 1) ms).1
      | succ d => exact ih (d + 1) (n + 1)
    | closes =>
      cases d with
      | zero => exact (endFrom_bounds 0 (n + 1) ms).1
      | succ d => exact ih d (n + 1)

/-- So the section that is innermost ends first. -/
theorem endFrom_zero_le (d n : ℕ) (ms : List (Mark β)) :
    (endFrom 0 n ms).1 ≤ (endFrom d n ms).1 := by
  induction d with
  | zero => exact le_rfl
  | succ d ih => exact Nat.le_trans ih (endFrom_le_succ d n ms)

/-- A section that does not end belongs to a group that is left open. -/
theorem depthAfter_pos_of_unended {r d n : ℕ} {ms : List (Mark β)} (hr : r < d)
    (h : (endFrom r n ms).2 = .unended) : 0 < depthAfter d ms := by
  induction ms generalizing r d n with
  | nil => exact Nat.zero_lt_of_lt hr
  | cons m ms ih =>
    cases m with
    | opens b => exact ih (Nat.succ_lt_succ hr) h
    | other => exact ih hr h
    | splits b =>
      cases r with
      | zero => exact nomatch h
      | succ r => exact ih hr h
    | closes =>
      cases r with
      | zero => exact nomatch h
      | succ r => exact ih (Nat.lt_sub_of_add_lt hr) h

/-! ### Reading the marks one by one -/

/-- The sections that are open after `n` marks, the innermost first, with what each starts with and its
first mark; below them `r` others are open. -/
def pending : ℕ → ℕ → List ((Bool × β) × ℕ) → List (Mark β) → List (Span β)
  | _, _, [], _ => []
  | r, n, (x, first) :: opened, ms =>
    ⟨x.1, x.2, first, (endFrom r n ms).1, (endFrom r n ms).2⟩ :: pending (r + 1) n opened ms

/-- What is open after mark `n + 1`. -/
def Mark.push (n : ℕ) : Mark β → List ((Bool × β) × ℕ) → List ((Bool × β) × ℕ)
  | .opens b, opened => ((true, b), n + 1) :: opened
  | .splits b, _ :: opened => ((false, b), n + 1) :: opened
  | .closes, _ :: opened => opened
  | _, opened => opened

/-- The section that ends at mark `n + 1`, or before it. -/
def Mark.done (n : ℕ) : Mark β → List ((Bool × β) × ℕ) → Option (Span β)
  | .splits _, (x, first) :: _ => some ⟨x.1, x.2, first, n, .split⟩
  | .closes, (x, first) :: _ => some ⟨x.1, x.2, first, n + 1, .close⟩
  | _, _ => none

/-- Where there are no more marks, everything that is open is left open. -/
theorem pending_nil (r n : ℕ) (opened : List ((Bool × β) × ℕ)) :
    pending r n opened [] = opened.map fun x => ⟨x.1.1, x.1.2, x.2, n, .unended⟩ := by
  induction opened generalizing r with
  | nil => rfl
  | cons x opened ih =>
    rw [pending, ih, List.map_cons]
    cases r <;> rfl

/-- What is open depends on the marks to come only through where each of the sections ends. -/
theorem pending_congr {r r' n n' : ℕ} {ms ms' : List (Mark β)} (opened : List ((Bool × β) × ℕ))
    (h : ∀ k, endFrom (r + k) n ms = endFrom (r' + k) n' ms') :
    pending r n opened ms = pending r' n' opened ms' := by
  induction opened generalizing r r' with
  | nil => rfl
  | cons x opened ih =>
    have htail : ∀ k, endFrom (r + 1 + k) n ms = endFrom (r' + 1 + k) n' ms' := fun k => by
      rw [Nat.add_assoc, Nat.add_assoc, Nat.add_comm 1 k]
      exact h (k + 1)
    have hhead : endFrom r n ms = endFrom r' n' ms' := h 0
    rw [pending, pending, hhead, ih htail]

/-- **One mark:** what is open or still to come is what ends at the mark, and what is open or still to
come behind it. -/
theorem perm_pending_cons (n : ℕ) (opened : List ((Bool × β) × ℕ)) (m : Mark β) (ms : List (Mark β)) :
    (pending 0 n opened (m :: ms) ++ spans opened.length n (m :: ms)).Perm
      ((m.done n opened).toList ++
        (pending 0 (n + 1) (m.push n opened) ms ++ spans (m.push n opened).length (n + 1) ms)) := by
  cases m with
  | opens b =>
    have hlater : pending 0 n opened (.opens b :: ms) = pending 1 (n + 1) opened ms :=
      pending_congr opened fun k => by rw [endFrom, Nat.add_right_comm]
    rw [hlater]
    exact List.perm_middle
  | other =>
    have hlater : pending 0 n opened (.other :: ms) = pending 0 (n + 1) opened ms :=
      pending_congr opened fun k => by rw [endFrom]
    rw [hlater]
    exact .refl _
  | splits b =>
    cases opened with
    | nil => exact .refl _
    | cons x opened =>
      have hlater : pending 1 n opened (.splits b :: ms) = pending 1 (n + 1) opened ms :=
        pending_congr opened fun k => by rw [Nat.add_comm, endFrom]
      refine List.Perm.cons _ ?_
      rw [hlater]
      exact List.perm_middle
  | closes =>
    cases opened with
    | nil => exact .refl _
    | cons x opened =>
      have hlater : pending 1 n opened (.closes :: ms) = pending 0 (n + 1) opened ms :=
        pending_congr opened fun k => by rw [Nat.add_comm 1, Nat.zero_add, endFrom]
      refine List.Perm.cons _ ?_
      rw [hlater]
      exact .refl _

/-! ### Marks that do something -/

/-- The mark as it acts where `d` groups are open. -/
def Mark.act : ℕ → Mark β → Mark β
  | 0, .splits _ => .other
  | 0, .closes => .other
  | _, m => m

/-- The marks as they act, where `d` groups are open before the first. -/
def acting : ℕ → List (Mark β) → List (Mark β)
  | _, [] => []
  | d, m :: ms => m.act d :: acting (m.next d) ms

/-- A mark that does nothing acts as such at every depth. -/
theorem act_other (d : ℕ) : (Mark.other : Mark β).act d = .other := by cases d <;> rfl

/-- A mark that has been replaced by what it does there needs no second replacement. -/
theorem act_act (d : ℕ) (m : Mark β) : (m.act d).act d = m.act d := by
  cases d <;> cases m <;> rfl

/-- Replacing a mark by what it does there changes nothing in how many groups are open behind it. -/
theorem next_act (d : ℕ) (m : Mark β) : (m.act d).next d = m.next d := by
  cases d <;> cases m <;> rfl

/-- What the mark starts a section with, if it starts one. -/
def Mark.start : Mark β → Option (Bool × β)
  | .opens label => some (true, label)
  | .splits label => some (false, label)
  | _ => none

/-- A section starts at a mark that opens a group, and at one that splits a group if one is open. -/
theorem start_act_iff {d : ℕ} {m : Mark β} {o : Bool} {b : β} : (m.act d).start = some (o, b) ↔
    (m = .opens b ∧ o = true) ∨ (m = .splits b ∧ 0 < d ∧ o = false) := by
  cases d <;> cases m <;> simp [Mark.act, Mark.start, and_comm, eq_comm]

/-- The section that starts at the first mark, if one does, comes before those behind it. -/
theorem spans_cons (d n : ℕ) (m : Mark β) (ms : List (Mark β)) :
    spans d n (m :: ms) = ((m.act d).start.map fun x => spanAt x.1 x.2 n ms).toList ++
      spans (m.next d) (n + 1) ms := by
  cases d <;> cases m <;> rfl

/-- **Where sections start:** at the marks that open a group, and at those that split one that is open. -/
theorem mem_spans_iff {d n : ℕ} {ms : List (Mark β)} {s : Span β} : s ∈ spans d n ms ↔
    ∃ before m after x, ms = before ++ m :: after ∧ (m.act (depthAfter d before)).start = some x ∧
      s = spanAt x.1 x.2 (n + before.length) after := by
  induction ms generalizing d n with
  | nil =>
    refine iff_of_false List.not_mem_nil ?_
    rintro ⟨before, m, after, -, heq, -⟩
    exact absurd heq (by simp)
  | cons m ms ih =>
    rw [spans_cons, List.mem_append, Option.mem_toList, Option.map_eq_some_iff, ih]
    constructor
    · rintro (⟨x, hstart, rfl⟩ | ⟨before, m', after, x, rfl, hstart, rfl⟩)
      · exact ⟨[], m, ms, x, rfl, hstart, rfl⟩
      · refine ⟨m :: before, m', after, x, rfl, hstart, ?_⟩
        rw [List.length_cons, Nat.add_right_comm, Nat.add_assoc]
    · rintro ⟨before, m', after, x, heq, hstart, rfl⟩
      cases before with
      | nil =>
        cases heq
        exact Or.inl ⟨x, hstart, rfl⟩
      | cons _ before =>
        cases heq
        refine Or.inr ⟨before, m', after, x, rfl, hstart, ?_⟩
        rw [List.length_cons, Nat.add_right_comm, Nat.add_assoc]

/-! ### How sections lie to each other -/

/-- Every section stands behind the marks that come before it. -/
theorem bounds_of_mem_spans {d n : ℕ} {ms : List (Mark β)} {s : Span β} (h : s ∈ spans d n ms) :
    n < s.first ∧ s.first ≤ s.last ∧ s.last ≤ n + ms.length := by
  obtain ⟨before, m, after, x, rfl, -, rfl⟩ := mem_spans_iff.mp h
  have hend := endFrom_bounds 0 (n + before.length + 1) after
  rw [List.length_append, List.length_cons]
  dsimp only [spanAt]
  omega

/-- **What a section is to those that start behind it:** any two sections are so, in their order. -/
theorem pairwise_spans_of {R : Span β → Span β → Prop}
    (h : ∀ (d n : ℕ) (ms : List (Mark β)) (o : Bool) (b : β), ∀ s ∈ spans (d + 1) (n + 1) ms,
      R (spanAt o b n ms) s) (d n : ℕ) (ms : List (Mark β)) : (spans d n ms).Pairwise R := by
  induction ms generalizing d n with
  | nil => exact .nil
  | cons m ms ih =>
    cases m with
    | opens b => exact .cons (h d n ms true b) (ih (d + 1) (n + 1))
    | other => exact ih d (n + 1)
    | closes => exact ih (d - 1) (n + 1)
    | splits b =>
      cases d with
      | zero => exact ih 0 (n + 1)
      | succ d => exact .cons (h d n ms false b) (ih (d + 1) (n + 1))

/-- The sections come in the order of their first marks. -/
theorem sorted_spans (d n : ℕ) (ms : List (Mark β)) :
    (spans d n ms).Pairwise fun s s' => s.first < s'.first :=
  pairwise_spans_of (fun _ _ _ _ _ _ hs => (bounds_of_mem_spans hs).1) d n ms

/-- A section that starts while another one is open lies behind that one or in it. -/
theorem disjoint_or_nested_of_mem {r d n : ℕ} {ms : List (Mark β)} (hr : r < d) {s : Span β}
    (h : s ∈ spans d n ms) : (endFrom r n ms).1 < s.first ∨ s.last ≤ (endFrom r n ms).1 := by
  induction ms generalizing r d n with
  | nil => exact absurd h List.not_mem_nil
  | cons m ms ih =>
    cases m with
    | opens b =>
      obtain rfl | hs := List.mem_cons.mp h
      · exact Or.inr (endFrom_zero_le (r + 1) (n + 1) ms)
      · exact ih (Nat.succ_lt_succ hr) hs
    | other => exact ih hr h
    | splits b =>
      cases r with
      | zero => exact Or.inl (bounds_of_mem_spans h).1
      | succ r =>
        obtain ⟨d, rfl⟩ := Nat.exists_eq_add_one.mpr (Nat.zero_lt_of_lt hr)
        obtain rfl | hs := List.mem_cons.mp h
        · exact Or.inr (endFrom_zero_le (r + 1) (n + 1) ms)
        · exact ih hr hs
    | closes =>
      have hs : s ∈ spans (d - 1) (n + 1) ms := h
      cases r with
      | zero => exact Or.inl (bounds_of_mem_spans hs).1
      | succ r => exact ih (Nat.lt_sub_of_add_lt hr) hs

/-- **Two sections are disjoint or nested:** of two in their order, the second begins after the
first has ended, or ends no later than it. -/
theorem pairwise_spans (d n : ℕ) (ms : List (Mark β)) :
    (spans d n ms).Pairwise fun s s' => s.last < s'.first ∨ s'.last ≤ s.last :=
  pairwise_spans_of (fun d _ _ _ _ _ hs => disjoint_or_nested_of_mem (Nat.succ_pos d) hs) d n ms

/-- Sections are told apart by their first marks, since at most one starts at each mark. -/
theorem eq_of_first_eq {d n : ℕ} {ms : List (Mark β)} :
    ∀ s ∈ spans d n ms, ∀ s' ∈ spans d n ms, s.first = s'.first → s = s' :=
  List.Pairwise.forall_of_forall_of_flip (fun _ _ _ => rfl)
    ((sorted_spans d n ms).imp fun hlt heq => absurd heq (Nat.ne_of_lt hlt))
    ((sorted_spans d n ms).imp fun hlt heq => absurd heq (Nat.ne_of_gt hlt))

/-- **Two sections are disjoint or one of them is in the other.** -/
theorem disjoint_or_nested {d n : ℕ} {ms : List (Mark β)} :
    ∀ s ∈ spans d n ms, ∀ s' ∈ spans d n ms, (s.last < s'.first ∨ s'.last < s.first) ∨
      (s.first ≤ s'.first ∧ s'.last ≤ s.last) ∨ (s'.first ≤ s.first ∧ s.last ≤ s'.last) := by
  have hpairs := (sorted_spans d n ms).and (pairwise_spans d n ms)
  refine List.Pairwise.forall_of_forall_of_flip (fun s _ => Or.inr (Or.inl ⟨le_rfl, le_rfl⟩))
    (hpairs.imp fun h => ?_) (hpairs.imp fun h => ?_)
  · exact h.2.imp Or.inl fun hlast => Or.inl ⟨Nat.le_of_lt h.1, hlast⟩
  · exact h.2.imp Or.inr fun hlast => Or.inr ⟨Nat.le_of_lt h.1, hlast⟩

/-! ### The sections of a group -/

/-- The marks at which the group that is open below `d` others is split from mark `n + 1` on, and the
one that closes it; `none` if none does. -/
def group : ℕ → ℕ → List (Mark β) → Option (List ℕ × ℕ)
  | _, _, [] => none
  | d, n, .opens _ :: ms => group (d + 1) (n + 1) ms
  | 0, n, .splits _ :: ms => (group 0 (n + 1) ms).map fun g => ((n + 1) :: g.1, g.2)
  | d + 1, n, .splits _ :: ms => group (d + 1) (n + 1) ms
  | 0, n, .closes :: _ => some ([], n + 1)
  | d + 1, n, .closes :: ms => group d (n + 1) ms
  | d, n, .other :: ms => group d (n + 1) ms

/-- Some of the sections begin at these marks, and each lasts up to the next one, the last one up to
`last`. -/
def Tiles (ss : List (Span β)) : List ℕ → ℕ → Prop
  | [], _ => True
  | [k], last => ∃ s ∈ ss, s.first = k ∧ s.last = last
  | k :: k' :: ks, last => (∃ s ∈ ss, s.first = k ∧ s.last + 1 = k') ∧ Tiles ss (k' :: ks) last

/-- Sections that tile a stretch do so among any larger set of sections. -/
theorem Tiles.mono {ss ss' : List (Span β)} (h : ss ⊆ ss') : ∀ {ks : List ℕ} {last : ℕ},
    Tiles ss ks last → Tiles ss' ks last
  | [], _, _ => trivial
  | [_], _, ⟨s, hs, hk⟩ => ⟨s, h hs, hk⟩
  | _ :: _ :: _, _, ⟨⟨s, hs, hk⟩, hrest⟩ => ⟨⟨s, h hs, hk⟩, hrest.mono h⟩

/-- The section that is open ends where the group goes on, and the later ones tile the rest. -/
theorem endFrom_of_group {r d n : ℕ} {ms : List (Mark β)} {ks : List ℕ} {last : ℕ} (hr : r < d)
    (h : group r n ms = some (ks, last)) :
    (endFrom r n ms).1 + 1 = ks.headD (last + 1) ∧ Tiles (spans d n ms) ks last := by
  induction ms generalizing r d n ks with
  | nil => exact nomatch h
  | cons m ms ih =>
    cases m with
    | opens b =>
      have hrest := ih (Nat.succ_lt_succ hr) h
      exact ⟨hrest.1, hrest.2.mono (List.subset_cons_self _ _)⟩
    | other => exact ih hr h
    | splits b =>
      obtain ⟨d, rfl⟩ := Nat.exists_eq_add_one.mpr (Nat.zero_lt_of_lt hr)
      cases r with
      | zero =>
        obtain ⟨⟨ks', last'⟩, hgroup, heq⟩ := Option.map_eq_some_iff.mp h
        cases heq
        have hrest := ih hr hgroup
        have hmono := hrest.2.mono (List.subset_cons_self (spanAt false b n ms) _)
        refine ⟨rfl, ?_⟩
        cases ks' with
        | nil => exact ⟨_, List.mem_cons_self, rfl, Nat.succ.inj hrest.1⟩
        | cons k ks' => exact ⟨⟨_, List.mem_cons_self, rfl, hrest.1⟩, hmono⟩
      | succ r =>
        have hrest := ih hr h
        exact ⟨hrest.1, hrest.2.mono (List.subset_cons_self _ _)⟩
    | closes =>
      cases r with
      | zero =>
        cases h
        exact ⟨rfl, trivial⟩
      | succ r => exact ih (Nat.lt_sub_of_add_lt hr) h

/-- **The sections of a closed group tile it,** from the mark that opens it to the one that closes it. -/
theorem tiles_of_group {d n : ℕ} {b : β} {ms : List (Mark β)} {ks : List ℕ} {last : ℕ}
    (h : group 0 (n + 1) ms = some (ks, last)) :
    Tiles (spans d n (.opens b :: ms)) ((n + 1) :: ks) last := by
  obtain ⟨hend, hrest⟩ := endFrom_of_group (Nat.succ_pos d) h
  have hmono := hrest.mono (List.subset_cons_self (spanAt true b n ms) _)
  cases ks with
  | nil => exact ⟨_, List.mem_cons_self, rfl, Nat.succ.inj hend⟩
  | cons k ks => exact ⟨⟨_, List.mem_cons_self, rfl, hend⟩, hmono⟩

section Tiling

variable {d n : ℕ} {ms : List (Mark β)} {k : ℕ} {ks : List ℕ} {last : ℕ}

/-- The sections of a stretch begin in it, where it begins or later. -/
theorem Tiles.bounds (h : Tiles (spans d n ms) (k :: ks) last) :
    k ≤ last ∧ ∀ k' ∈ ks, k < k' ∧ k' ≤ last := by
  induction ks generalizing k with
  | nil =>
    obtain ⟨s, hs, rfl, rfl⟩ := h
    exact ⟨(bounds_of_mem_spans hs).2.1, fun _ hk' => absurd hk' List.not_mem_nil⟩
  | cons k₁ ks ih =>
    obtain ⟨⟨s, hs, rfl, rfl⟩, hrest⟩ := h
    have hlt := (bounds_of_mem_spans hs).2.1
    obtain ⟨hle, hks⟩ := ih hrest
    refine ⟨by omega, fun k' hk' => ?_⟩
    obtain rfl | hk' := List.mem_cons.mp hk'
    · exact ⟨by omega, hle⟩
    · have hlater := hks k' hk'
      omega

/-- The sections of a stretch cover it: every place from its first mark to its last is in one of
them, and no other place is. -/
theorem Tiles.covers_iff (h : Tiles (spans d n ms) (k :: ks) last) (a : ℕ) :
    (∃ s ∈ spans d n ms, s.first ∈ k :: ks ∧ s.first ≤ a ∧ a ≤ s.last) ↔ k ≤ a ∧ a ≤ last := by
  induction ks generalizing k with
  | nil =>
    obtain ⟨s, hs, rfl, rfl⟩ := h
    constructor
    · rintro ⟨s', hs', hfirst, hcovers⟩
      rwa [eq_of_first_eq s' hs' s hs (List.mem_singleton.mp hfirst)] at hcovers
    · exact fun hcovers => ⟨s, hs, List.mem_singleton_self _, hcovers⟩
  | cons k₁ ks ih =>
    obtain ⟨⟨s, hs, rfl, rfl⟩, hrest⟩ := h
    have hlt := (bounds_of_mem_spans hs).2.1
    have hlast := hrest.bounds.1
    constructor
    · rintro ⟨s', hs', hfirst, hcovers⟩
      obtain hfirst | hfirst := List.mem_cons.mp hfirst
      · rw [eq_of_first_eq s' hs' s hs hfirst] at hcovers
        omega
      · have hlater := (ih hrest).mp ⟨s', hs', hfirst, hcovers⟩
        omega
    · intro ha
      by_cases has : a ≤ s.last
      · exact ⟨s, hs, List.mem_cons_self, ha.1, has⟩
      · obtain ⟨s', hs', hfirst, hcovers⟩ := (ih hrest).mpr ⟨by omega, ha.2⟩
        exact ⟨s', hs', List.mem_cons_of_mem _ hfirst, hcovers⟩

/-- Each section of a stretch ends before the later ones begin. -/
theorem Tiles.last_lt_first (h : Tiles (spans d n ms) (k :: ks) last) {s s' : Span β}
    (hs : s ∈ spans d n ms) (hfirst : s.first ∈ k :: ks) (hfirst' : s'.first ∈ k :: ks)
    (hlt : s.first < s'.first) : s.last < s'.first := by
  induction ks generalizing k with
  | nil => simp only [List.mem_singleton] at hfirst hfirst'; omega
  | cons k₁ ks ih =>
    obtain ⟨⟨s₀, hs₀, rfl, rfl⟩, hrest⟩ := h
    have hlater : ∀ k' ∈ (s₀.last + 1) :: ks, s₀.last < k' := fun k' hk' => by
      obtain rfl | hk' := List.mem_cons.mp hk'
      · exact Nat.lt_succ_self _
      · exact Nat.lt_of_succ_lt (hrest.bounds.2 k' hk').1
    have hbounds := (bounds_of_mem_spans hs₀).2.1
    obtain heq | hmem := List.mem_cons.mp hfirst
    · obtain heq' | hmem' := List.mem_cons.mp hfirst'
      · omega
      · rw [eq_of_first_eq s hs s₀ hs₀ heq]
        exact hlater _ hmem'
    · obtain heq' | hmem' := List.mem_cons.mp hfirst'
      · have hbehind := hlater _ hmem
        omega
      · exact ih hrest hmem hmem'

end Tiling

/-! ### The sections of the whole -/

/-- Where no group is left open, every section ends. -/
theorem ended_of_mem_spans {d n : ℕ} {ms : List (Mark β)} (hclosed : depthAfter d ms = 0) {s : Span β}
    (h : s ∈ spans d n ms) : s.ending.ended = true := by
  obtain ⟨before, m, after, ⟨o, b⟩, rfl, hstart, rfl⟩ := mem_spans_iff.mp h
  have hopen : 0 < m.next (depthAfter d before) := by
    obtain ⟨rfl, -⟩ | ⟨rfl, hpos, -⟩ := start_act_iff.mp hstart
    · exact Nat.succ_pos _
    · exact hpos
  rw [depthAfter_append] at hclosed
  have hne : (endFrom 0 (n + before.length + 1) after).2 ≠ .unended := fun hunended =>
    Nat.ne_of_gt (depthAfter_pos_of_unended hopen hunended) hclosed
  rw [spanAt]
  cases hending : (endFrom 0 (n + before.length + 1) after).2 with
  | split => rfl
  | close => rfl
  | unended => exact absurd hending hne

/-- A section that does not end lasts to the last mark. -/
theorem last_of_not_ended {d n : ℕ} {ms : List (Mark β)} {s : Span β} (h : s ∈ spans d n ms)
    (hended : s.ending.ended = false) : s.last = n + ms.length := by
  obtain ⟨before, m, after, ⟨o, b⟩, rfl, -, rfl⟩ := mem_spans_iff.mp h
  have hend : ∀ (d n : ℕ) (ms : List (Mark β)), (endFrom d n ms).2.ended = false →
      (endFrom d n ms).1 = n + ms.length := by
    intro d n ms hended
    fun_induction endFrom d n ms with
    | case1 => rfl
    | case3 | case5 => cases hended
    | case2 _ _ _ _ ih | case4 _ _ _ _ ih | case6 _ _ _ ih | case7 _ _ _ ih =>
      rw [ih hended, List.length_cons]
      omega
  rw [List.length_append, List.length_cons]
  exact (hend 0 _ after hended).trans (by omega)

/-- A section that ends at the last mark does not start there. -/
theorem first_lt_of_ended {d n : ℕ} {ms : List (Mark β)} {s : Span β} (h : s ∈ spans d n ms)
    (hended : s.ending.ended = true) (hlast : s.last = n + ms.length) : s.first < s.last := by
  obtain ⟨before, m, after, ⟨o, b⟩, rfl, -, rfl⟩ := mem_spans_iff.mp h
  cases after with
  | nil => cases hended
  | cons m' after =>
    rw [hlast, List.length_append, List.length_cons, List.length_cons]
    change n + before.length + 1 < n + (before.length + (after.length + 1 + 1))
    omega

/-- The sections behind some marks are sections of the whole. -/
theorem spans_subset_append (d n : ℕ) (before ms : List (Mark β)) :
    spans (depthAfter d before) (n + before.length) ms ⊆ spans d n (before ++ ms) := by
  intro s hs
  obtain ⟨before', m, after, x, rfl, hstart, rfl⟩ := mem_spans_iff.mp hs
  refine mem_spans_iff.mpr ⟨before ++ before', m, after, x, ?_, ?_, ?_⟩
  · rw [List.append_assoc]
  · rwa [depthAfter_append]
  · rw [List.length_append, Nat.add_assoc]

/-! ### What the sections tell of the marks -/

/-- Two readings of a sequence act the same if each item does. -/
theorem acting_map_eq_iff {α : Type*} (f g : α → Mark β) (d : ℕ) (xs : List α) :
    acting d (xs.map f) = acting d (xs.map g) ↔ ∀ before x after, xs = before ++ x :: after →
      (f x).act (depthAfter d (before.map f)) = (g x).act (depthAfter d (before.map f)) := by
  induction xs generalizing d with
  | nil => exact iff_of_true rfl fun before x after h => absurd h (by simp)
  | cons x xs ih =>
    rw [List.map_cons, List.map_cons, acting, acting, List.cons.injEq]
    constructor
    · rintro ⟨hact, hrest⟩ before x' after h
      cases before with
      | nil =>
        cases h
        exact hact
      | cons _ before =>
        cases h
        rw [← next_act d (g x), ← hact, next_act] at hrest
        exact (ih _).mp hrest before x' after rfl
    · intro h
      have hact : (f x).act d = (g x).act d := h [] x xs rfl
      refine ⟨hact, ?_⟩
      rw [← next_act d (g x), ← hact, next_act]
      exact (ih _).mpr fun before x' after heq => h (x :: before) x' after (congrArg (x :: ·) heq)

/-- What is to be seen of a section. -/
def Span.shown (s : Span β) : Bool × β × ℕ × ℕ × Bool :=
  (s.opens, s.label, s.first, s.last, s.ending.ended)

/-- What is to be seen of the end of a section. -/
def shownEnd (d n : ℕ) (ms : List (Mark β)) : ℕ × Bool :=
  ((endFrom d n ms).1, (endFrom d n ms).2.ended)

/-- The sections stay as they are when the first mark is replaced by what it does there. -/
theorem spans_act (d n : ℕ) (m : Mark β) (ms : List (Mark β)) :
    spans d n (m.act d :: ms) = spans d n (m :: ms) := by
  cases d <;> cases m <;> rfl

/-- So does the end of a section that is open there. -/
theorem endFrom_act {r d : ℕ} (hr : r < d) (n : ℕ) (m : Mark β) (ms : List (Mark β)) :
    endFrom r n (m.act d :: ms) = endFrom r n (m :: ms) := by
  cases d with
  | zero => exact absurd hr (Nat.not_lt_zero r)
  | succ d => rfl

/-- The section that begins at the first mark, if there is one, is the one that the mark starts. -/
theorem exists_first_iff {d n : ℕ} {m : Mark β} {ms : List (Mark β)} {o : Bool} {b : β} :
    (∃ s ∈ spans d n (m :: ms), s.first = n + 1 ∧ s.opens = o ∧ s.label = b) ↔
      (m.act d).start = some (o, b) := by
  have hlater : ¬∃ s ∈ spans (m.next d) (n + 1) ms, s.first = n + 1 ∧ s.opens = o ∧ s.label = b := by
    rintro ⟨s, hs, hfirst, -⟩
    exact absurd (bounds_of_mem_spans hs).1 (by omega)
  rw [spans_cons]
  cases (m.act d).start with
  | none => exact iff_of_false hlater (Option.some_ne_none _).symm
  | some x =>
    rw [Option.map_some, Option.toList_some, List.singleton_append, List.exists_mem_cons_iff,
      or_iff_left hlater, Option.some.injEq, Prod.ext_iff]
    exact and_iff_right rfl

/-- A section that ends at once is split at once. -/
theorem exists_splits_of_shownEnd {n : ℕ} {ms : List (Mark β)} (h : shownEnd 0 n ms = (n, true)) :
    ∃ b rest, ms = .splits b :: rest := by
  have hlast : (endFrom 0 n ms).1 = n := congrArg Prod.fst h
  cases ms with
  | nil => exact nomatch congrArg Prod.snd h
  | cons m ms =>
    cases m with
    | splits b => exact ⟨b, ms, rfl⟩
    | opens b =>
      have hopen : (endFrom 1 (n + 1) ms).1 = n := hlast
      exact absurd (endFrom_bounds 1 (n + 1) ms).1 (by omega)
    | other =>
      have hopen : (endFrom 0 (n + 1) ms).1 = n := hlast
      exact absurd (endFrom_bounds 0 (n + 1) ms).1 (by omega)
    | closes => exact absurd hlast (Nat.succ_ne_self n)

section Shown

variable {d n : ℕ} {m m' : Mark β} {ms ms' : List (Mark β)}

/-- A section that begins in the one list begins in the other. -/
theorem exists_first_of_shown (h : (spans d n ms).map Span.shown = (spans d n ms').map Span.shown)
    {k : ℕ} {o : Bool} {b : β} (hs : ∃ s ∈ spans d n ms, s.first = k ∧ s.opens = o ∧ s.label = b) :
    ∃ s ∈ spans d n ms', s.first = k ∧ s.opens = o ∧ s.label = b := by
  obtain ⟨s, hs, rfl, rfl, rfl⟩ := hs
  have hmem := List.mem_map_of_mem (f := Span.shown) hs
  rw [h] at hmem
  obtain ⟨s', hs', heq⟩ := List.mem_map.mp hmem
  simp only [Span.shown, Prod.mk.injEq] at heq
  exact ⟨s', hs', heq.2.2.1, heq.1, heq.2.1⟩

/-- A group that is closed in the one list is not passed over in the other. -/
theorem not_closes_and_other
    (hends : ∀ r < d + 1, shownEnd r n (.closes :: ms) = shownEnd r n (.other :: ms'))
    (hspans : (spans (d + 1) n (.closes :: ms)).map Span.shown =
      (spans (d + 1) n (.other :: ms')).map Span.shown) : False := by
  -- what is open in the other list is split at the next mark, so this is split there too
  have hsplit : shownEnd 0 (n + 1) ms' = (n + 1, true) := (hends 0 (Nat.succ_pos d)).symm
  obtain ⟨b, rest', rfl⟩ := exists_splits_of_shownEnd hsplit
  have hfirst : ∃ s ∈ spans d (n + 1) ms, s.first = n + 2 ∧ s.opens = false ∧ s.label = b :=
    exists_first_of_shown hspans.symm ⟨spanAt false b (n + 1) rest', List.mem_cons_self, rfl, rfl, rfl⟩
  cases ms with
  | nil =>
    obtain ⟨s, hs, -⟩ := hfirst
    exact absurd hs List.not_mem_nil
  | cons m ms =>
    have hstart : (m.act d).start = some (false, b) := exists_first_iff.mp hfirst
    cases d with
    | zero => cases m <;> exact nomatch hstart
    | succ d =>
      obtain rfl : m = .splits b := by cases m <;> cases hstart; rfl
      -- but there the group around it goes on, and here it does not
      have hlast : n + 1 = (endFrom 1 (n + 2) rest').1 :=
        congrArg Prod.fst (hends 1 (Nat.succ_lt_succ (Nat.succ_pos d)))
      exact absurd (endFrom_bounds 1 (n + 2) rest').1 (by omega)

/-- Marks that act and show the same sections are the same. -/
theorem eq_of_shown (hm : m.act d = m) (hm' : m'.act d = m')
    (hends : ∀ r < d, shownEnd r n (m :: ms) = shownEnd r n (m' :: ms'))
    (hspans : (spans d n (m :: ms)).map Span.shown = (spans d n (m' :: ms')).map Span.shown) :
    m = m' := by
  have hstart : ∀ x, m.start = some x ↔ m'.start = some x := fun x => by
    rw [← hm, ← hm', ← exists_first_iff, ← exists_first_iff]
    exact ⟨exists_first_of_shown hspans, exists_first_of_shown hspans.symm⟩
  have heq : m.start = m'.start := Option.ext hstart
  cases m with
  | opens b => cases m' <;> cases heq; rfl
  | splits b => cases m' <;> cases heq; rfl
  | closes =>
    cases m' with
    | opens b => exact nomatch heq
    | splits b => exact nomatch heq
    | closes => rfl
    | other =>
      cases d with
      | zero => exact nomatch hm
      | succ d => exact (not_closes_and_other hends hspans).elim
  | other =>
    cases m' with
    | opens b => exact nomatch heq
    | splits b => exact nomatch heq
    | closes =>
      cases d with
      | zero => exact nomatch hm'
      | succ d =>
        exact (not_closes_and_other (fun r hr => (hends r hr).symm) hspans.symm).elim
    | other => rfl

end Shown

/-- What is seen behind the first mark is seen of the marks behind it. -/
theorem shown_tail {d n : ℕ} {m : Mark β} {ms ms' : List (Mark β)} (hm : m.act d = m)
    (hends : ∀ r < d, shownEnd r n (m :: ms) = shownEnd r n (m :: ms'))
    (hspans : (spans d n (m :: ms)).map Span.shown = (spans d n (m :: ms')).map Span.shown) :
    (∀ r < m.next d, shownEnd r (n + 1) ms = shownEnd r (n + 1) ms') ∧
      (spans (m.next d) (n + 1) ms).map Span.shown =
        (spans (m.next d) (n + 1) ms').map Span.shown := by
  -- the end of a section that starts here is seen of that section
  have hnew : ∀ {o : Bool} {b : β}, (spanAt o b n ms).shown = (spanAt o b n ms').shown →
      shownEnd 0 (n + 1) ms = shownEnd 0 (n + 1) ms' := fun h =>
    congrArg (fun x => x.2.2.2) h
  cases m with
  | opens b =>
    obtain ⟨hhead, htail⟩ := List.cons.inj hspans
    refine ⟨fun r hr => ?_, htail⟩
    cases r with
    | zero => exact hnew hhead
    | succ r => exact hends r (Nat.lt_of_succ_lt_succ hr)
  | other => exact ⟨hends, hspans⟩
  | splits b =>
    cases d with
    | zero => exact nomatch hm
    | succ d =>
      obtain ⟨hhead, htail⟩ := List.cons.inj hspans
      refine ⟨fun r hr => ?_, htail⟩
      cases r with
      | zero => exact hnew hhead
      | succ r => exact hends (r + 1) hr
  | closes =>
    cases d with
    | zero => exact nomatch hm
    | succ d => exact ⟨fun r hr => hends (r + 1) (Nat.succ_lt_succ hr), hspans⟩

/-- **What sections look like says which marks did something,** and what. -/
theorem acting_eq_of_spans {d n : ℕ} {ms ms' : List (Mark β)} (hlength : ms.length = ms'.length)
    (hends : ∀ r < d, shownEnd r n ms = shownEnd r n ms')
    (hspans : (spans d n ms).map Span.shown = (spans d n ms').map Span.shown) :
    acting d ms = acting d ms' := by
  induction ms generalizing d n ms' with
  | nil =>
    cases ms' with
    | nil => rfl
    | cons m' ms' => exact nomatch hlength
  | cons m ms ih =>
    cases ms' with
    | nil => exact nomatch hlength
    | cons m' ms' =>
      have hends' : ∀ r < d, shownEnd r n (m.act d :: ms) = shownEnd r n (m'.act d :: ms') := by
        intro r hr
        rw [shownEnd, shownEnd, endFrom_act hr, endFrom_act hr]
        exact hends r hr
      have hspans' : (spans d n (m.act d :: ms)).map Span.shown =
          (spans d n (m'.act d :: ms')).map Span.shown := by
        rw [spans_act, spans_act, hspans]
      have hact : m.act d = m'.act d := eq_of_shown (act_act d m) (act_act d m') hends' hspans'
      have hnext : m.next d = m'.next d := by rw [← next_act d m, ← next_act d m', hact]
      rw [hact] at hends' hspans'
      obtain ⟨htails, hrest⟩ := shown_tail (act_act d m') hends' hspans'
      rw [next_act, ← hnext] at htails hrest
      rw [acting, acting, hact, ← hnext, ih (Nat.succ.inj hlength) htails hrest]

end Sections
