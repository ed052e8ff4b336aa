/-
# The maximal runs of a text

Some words have a shape, and no word of the shape has a separator in it.  A run is an occurrence of
such a word in a text, and a maximal run one that no other contains.  The maximal runs of a text are
those of its blocks (`maximalRun_append_cons`), so a rewriting that works block by block and
replaces in each block the maximal runs replaces those of the text (`Blockwise.exists_splits`).
-/

import CppMcp.Lib.Blocks

namespace Blocks

variable {α : Type*}

/-- A word of the shape stands in the text between `before` and `after`. -/
structure Run (shape : List α → Prop) (text before run after : List α) : Prop where
  eq : text = before ++ (run ++ after)
  shaped : shape run

/-- A run that is contained in no other. -/
structure MaximalRun (shape : List α → Prop) (text before run after : List α) : Prop extends
    Run shape text before run after where
  maximal : ∀ before' run' after', Run shape text before' run' after' → before' <+: before →
    after' <:+ after → run' = run

/-- A piece of a text: what is between runs, or a run. -/
inductive Piece (α : Type*) where
  | text (s : List α)
  | run (s : List α)

/-- What the piece is. -/
def Piece.chars : Piece α → List α
  | text s => s
  | run s => s

/-- The piece with a run replaced. -/
def Piece.replaced (repl : List α → List α) : Piece α → List α
  | text s => s
  | run s => repl s

/-- The pieces make up the text, and those that are runs are its maximal runs, each where it
stands. -/
structure Splits (shape : List α → Prop) (text : List α) (pieces : List (Piece α)) : Prop where
  eq : text = pieces.flatMap Piece.chars
  runs : ∀ before run after, MaximalRun shape text before run after ↔
    ∃ ps qs, pieces = ps ++ .run run :: qs ∧ before = ps.flatMap Piece.chars ∧
      after = qs.flatMap Piece.chars

/-- A word without `d` is found before `d` or behind it. -/
theorem append_cons_eq_append_iff {b s x m y : List α} {d : α} (hd : d ∉ m) (hm : m ≠ []) :
    b ++ d :: s = x ++ (m ++ y) ↔
      (∃ y', y = y' ++ d :: s ∧ b = x ++ (m ++ y')) ∨
        ∃ x', x = b ++ d :: x' ∧ s = x' ++ (m ++ y) := by
  constructor
  · intro h
    rcases List.append_eq_append_iff.mp h with ⟨k, rfl, hk⟩ | ⟨k, rfl, hk⟩
    · cases k with
      | nil =>
        obtain ⟨c, m, rfl⟩ := List.exists_cons_of_ne_nil hm
        exact absurd ((List.cons.inj hk).1 ▸ List.mem_cons_self) hd
      | cons c k =>
        obtain ⟨rfl, hs⟩ := List.cons.inj hk
        exact Or.inr ⟨k, rfl, hs⟩
    · rcases List.append_eq_append_iff.mp hk with ⟨l, rfl, hl⟩ | ⟨l, rfl, hl⟩
      · exact Or.inl ⟨l, hl, rfl⟩
      · cases l with
        | nil =>
          rw [List.nil_append] at hl
          exact Or.inl ⟨[], hl.symm, by simp⟩
        | cons c l =>
          obtain ⟨rfl, -⟩ := List.cons.inj hl
          exact absurd (by simp) hd
  · rintro (⟨y', rfl, rfl⟩ | ⟨x', rfl, rfl⟩)
    · simp only [List.append_assoc]
    · simp only [List.append_assoc, List.cons_append]

variable {shape : List α → Prop} {text before run after : List α}

/-- **Every run is contained in a maximal one:** it can be made longer on both sides as long as the
shape allows, and the text is finite. -/
theorem Run.exists_maximalRun (h : Run shape text before run after) :
    ∃ before' run' after', MaximalRun shape text before' run' after' ∧ before' <+: before ∧
      after' <:+ after := by
  induction hn : before.length + after.length using Nat.strongRecOn
    generalizing before run after with
  | _ n ih =>
    by_cases hmax : ∀ before' run' after', Run shape text before' run' after' →
        before' <+: before → after' <:+ after → run' = run
    · exact ⟨before, run, after, ⟨h, hmax⟩, List.prefix_rfl, List.suffix_rfl⟩
    · push Not at hmax
      obtain ⟨before', run', after', hrun', hbefore, hafter, hne⟩ := hmax
      -- the run that contains it leaves less of the text on the sides
      have hlt : before'.length + after'.length < n := by
        rcases Nat.lt_or_ge (before'.length + after'.length) n with hlt | hge
        · exact hlt
        · have hb := hbefore.length_le
          have ha := hafter.length_le
          obtain rfl := hbefore.eq_of_length (by omega)
          obtain rfl := hafter.eq_of_length (by omega)
          have heq := List.append_cancel_left (hrun'.eq.symm.trans h.eq)
          exact absurd (List.append_cancel_right heq) hne
      obtain ⟨before₂, run₂, after₂, hmax₂, hbefore₂, hafter₂⟩ := ih _ hlt hrun' rfl
      exact ⟨before₂, run₂, after₂, hmax₂, hbefore₂.trans hbefore, hafter₂.trans hafter⟩

/-- A text without a run is one piece, and that is text. -/
theorem splits_of_not_run (h : ∀ before run after, ¬Run shape text before run after) :
    Splits shape text [.text text] where
  eq := (List.append_nil text).symm
  runs before run after := by
    refine ⟨fun hrun => absurd hrun.toRun (h _ _ _), ?_⟩
    rintro ⟨ps, qs, hpieces, -, -⟩
    rcases List.append_eq_singleton_iff.mp hpieces.symm with ⟨-, h⟩ | ⟨-, h⟩ <;> simp at h

/-- A text that ends with its only maximal run. -/
theorem splits_of_maximalRun (h : ∀ before' run' after',
    MaximalRun shape (before ++ run) before' run' after' ↔
      before' = before ∧ run' = run ∧ after' = []) :
    Splits shape (before ++ run) [.text before, .run run] where
  eq := by simp [Piece.chars]
  runs before' run' after' := by
    rw [h]
    constructor
    · rintro ⟨rfl, rfl, rfl⟩
      exact ⟨[.text before'], [], rfl, by simp [Piece.chars], rfl⟩
    · rintro ⟨ps, qs, hpieces, rfl, rfl⟩
      match ps with
      | [] => simp at hpieces
      | [p] =>
        simp only [List.cons_append, List.nil_append, List.cons.injEq, Piece.run.injEq] at hpieces
        obtain ⟨rfl, rfl, rfl⟩ := hpieces
        exact ⟨by simp [Piece.chars], rfl, rfl⟩
      | p :: q :: ps => simp at hpieces

/-! ### Block by block -/

section Separated

variable {sep : α → Bool} (hshape : ∀ run, shape run → run ≠ [] ∧ Free sep run) {d : α}
  (hd : sep d = true) {b s : List α}
include hshape hd

/-- A run does not reach over a separator, so it lies before it or behind it. -/
theorem run_append_cons : Run shape (b ++ d :: s) before run after ↔
    (∃ after', after = after' ++ d :: s ∧ Run shape b before run after') ∨
      ∃ before', before = b ++ d :: before' ∧ Run shape s before' run after := by
  have happend : shape run → (b ++ d :: s = before ++ (run ++ after) ↔
      (∃ after', after = after' ++ d :: s ∧ b = before ++ (run ++ after')) ∨
        ∃ before', before = b ++ d :: before' ∧ s = before' ++ (run ++ after)) := by
    intro h
    obtain ⟨hne, hfree⟩ := hshape run h
    refine append_cons_eq_append_iff (fun hmem => ?_) hne
    exact absurd ((hfree d hmem).symm.trans hd) Bool.false_ne_true
  constructor
  · rintro ⟨heq, h⟩
    exact ((happend h).mp heq).imp (fun ⟨after', ha, hb⟩ => ⟨after', ha, hb, h⟩)
      fun ⟨before', hb, hs⟩ => ⟨before', hb, hs, h⟩
  · rintro (⟨after', ha, hb, h⟩ | ⟨before', hb, hs, h⟩)
    · exact ⟨(happend h).mpr (Or.inl ⟨after', ha, hb⟩), h⟩
    · exact ⟨(happend h).mpr (Or.inr ⟨before', hb, hs⟩), h⟩

/-- **The maximal runs on the two sides of a separator** are those of the whole. -/
theorem maximalRun_append_cons : MaximalRun shape (b ++ d :: s) before run after ↔
    (∃ after', after = after' ++ d :: s ∧ MaximalRun shape b before run after') ∨
      ∃ before', before = b ++ d :: before' ∧ MaximalRun shape s before' run after := by
  have hruns : ∀ {x m y}, Run shape (b ++ d :: s) x m y ↔
      (∃ y', y = y' ++ d :: s ∧ Run shape b x m y') ∨
        ∃ x', x = b ++ d :: x' ∧ Run shape s x' m y :=
    run_append_cons hshape hd
  constructor
  · rintro ⟨hrun, hmax⟩
    rcases hruns.mp hrun with ⟨after', rfl, hb⟩ | ⟨before', rfl, hs⟩
    · refine Or.inl ⟨after', rfl, hb, fun x m y hrun' hx hy => ?_⟩
      exact hmax x m (y ++ d :: s) (hruns.mpr (Or.inl ⟨y, rfl, hrun'⟩)) hx
        (List.suffix_append_self_iff.mpr hy)
    · refine Or.inr ⟨before', rfl, hs, fun x m y hrun' hx hy => ?_⟩
      exact hmax (b ++ d :: x) m y (hruns.mpr (Or.inr ⟨x, rfl, hrun'⟩)) (by simpa using hx) hy
  · rintro (⟨after', rfl, hb, hmax⟩ | ⟨before', rfl, hs, hmax⟩)
    · refine ⟨hruns.mpr (Or.inl ⟨after', rfl, hb⟩), fun x m y hrun' hx hy => ?_⟩
      rcases hruns.mp hrun' with ⟨y', rfl, hinner⟩ | ⟨x', rfl, -⟩
      · exact hmax x m y' hinner hx (List.suffix_append_self_iff.mp hy)
      · -- a run behind the separator does not contain one before it
        have hlength := congrArg List.length hb.eq
        have hle := hx.length_le
        simp only [List.length_append, List.length_cons] at hlength hle
        omega
    · refine ⟨hruns.mpr (Or.inr ⟨before', rfl, hs⟩), fun x m y hrun' hx hy => ?_⟩
      rcases hruns.mp hrun' with ⟨y', rfl, -⟩ | ⟨x', rfl, hinner⟩
      · have hlength := congrArg List.length hs.eq
        have hle := hy.length_le
        simp only [List.length_append, List.length_cons] at hlength hle
        omega
      · exact hmax x' m y hinner (by simpa using hx) hy

/-- Two texts that are split can be put together at a separator, which becomes a piece of its own.
-/
theorem Splits.append_cons {ps qs : List (Piece α)} (hb : Splits shape b ps)
    (hs : Splits shape s qs) : Splits shape (b ++ d :: s) (ps ++ .text [d] :: qs) where
  eq := by
    rw [hb.eq, hs.eq, List.flatMap_append, List.flatMap_cons]
    rfl
  runs before run after := by
    have hne : Piece.text [d] ∉ [Piece.run run] := by simp
    have hpieces : ∀ us vs, ps ++ .text [d] :: qs = us ++ .run run :: vs ↔
        (∃ vs', vs = vs' ++ .text [d] :: qs ∧ ps = us ++ .run run :: vs') ∨
          ∃ us', us = ps ++ .text [d] :: us' ∧ qs = us' ++ .run run :: vs :=
      fun us vs => append_cons_eq_append_iff (y := vs) hne (List.cons_ne_nil _ _)
    rw [maximalRun_append_cons hshape hd]
    constructor
    · rintro (⟨after', rfl, hrun⟩ | ⟨before', rfl, hrun⟩)
      · obtain ⟨us, vs, hps, rfl, rfl⟩ := (hb.runs _ _ _).mp hrun
        refine ⟨us, vs ++ .text [d] :: qs, (hpieces _ _).mpr (Or.inl ⟨vs, rfl, hps⟩), rfl, ?_⟩
        rw [hs.eq, List.flatMap_append]
        rfl
      · obtain ⟨us, vs, hqs, rfl, rfl⟩ := (hs.runs _ _ _).mp hrun
        refine ⟨ps ++ .text [d] :: us, vs, (hpieces _ _).mpr (Or.inr ⟨us, rfl, hqs⟩), ?_, rfl⟩
        rw [hb.eq, List.flatMap_append]
        rfl
    · rintro ⟨us, vs, heq, rfl, rfl⟩
      rcases (hpieces us vs).mp heq with ⟨vs', rfl, hps⟩ | ⟨us', rfl, hqs⟩
      · refine Or.inl ⟨vs'.flatMap Piece.chars, ?_, (hb.runs _ _ _).mpr ⟨us, vs', hps, rfl, rfl⟩⟩
        rw [hs.eq, List.flatMap_append]
        rfl
      · refine Or.inr ⟨us'.flatMap Piece.chars, ?_, (hs.runs _ _ _).mpr ⟨us', vs, hqs, rfl, rfl⟩⟩
        rw [hb.eq, List.flatMap_append]
        rfl

end Separated

namespace Blockwise

variable {sep : α → Bool} {f repl : List α → List α} (hf : Blockwise sep f)
include hf

/-- **A rewriting that replaces the maximal runs of every block** replaces those of every text. -/
theorem exists_splits (hshape : ∀ run, shape run → run ≠ [] ∧ Free sep run)
    (hblock : ∀ b, Free sep b → ∃ pieces, Splits shape b pieces ∧
      f b = pieces.flatMap (Piece.replaced repl)) (s : List α) :
    ∃ pieces, Splits shape s pieces ∧ f s = pieces.flatMap (Piece.replaced repl) := by
  induction s using induct sep with
  | block b hb => exact hblock b hb
  | append b d s hb hd ih =>
    obtain ⟨ps, hps, hfb⟩ := hblock b hb
    obtain ⟨qs, hqs, hfs⟩ := ih
    refine ⟨ps ++ .text [d] :: qs, hps.append_cons hshape hd hqs, ?_⟩
    rw [hf.append_cons hd, hfb, hfs, List.flatMap_append]
    rfl

/-- What holds of the maximal runs of every rewritten block holds of those of every rewritten
text. -/
theorem forall_maximalRun (hshape : ∀ run, shape run → run ≠ [] ∧ Free sep run)
    {P : List α → Prop}
    (hblock : ∀ b, Free sep b → ∀ x m y, MaximalRun shape (f b) x m y → P m) (s : List α) :
    ∀ x m y, MaximalRun shape (f s) x m y → P m := by
  induction s using induct sep with
  | block b hb => exact hblock b hb
  | append b d s hb hd ih =>
    intro x m y hrun
    rw [hf.append_cons hd, maximalRun_append_cons hshape hd] at hrun
    rcases hrun with ⟨y', -, hrun⟩ | ⟨x', -, hrun⟩
    · exact hblock b hb x m y' hrun
    · exact ih x' m y hrun

/-- What is stable on every rewritten block is stable on every rewritten text. -/
theorem idem (hblock : ∀ b, Free sep b → f (f b) = f b) (s : List α) : f (f s) = f s := by
  induction s using induct sep with
  | block b hb => exact hblock b hb
  | append b d s hb hd ih =>
    rw [hf.append_cons hd, hf.append_cons hd, hblock b hb, ih]

end Blockwise

end Blocks
