/-
# The flag of a node cut off by the depth

Where `_walk_json` of `src/cpp_mcp/core/ast_walker.py` reaches the depth limit it flags a node as
`truncated` if its cursor has any children.  One step deeper it would have kept only those children whose
extent meets the requested lines.

So the flags are right exactly if every cursor that is admitted at the limit, and has children, has one
that meets the lines (`depth_flags_iff`).
-/

import CppMcp.Ast.Truncation

namespace CppMcp
namespace Ast

open Export (Exc Acc)

/-! ### The tree that is built -/

section Walk

variable (start_line end_line : Option ℤ)

/-- The tree has the shape that `_walk_json` gives it if it may go `n` steps down from the cursor and
the budget lasts. -/
def Depicts : ℕ → Cursor → AstTree → Prop
  | 0, .node _ ts, .node node us => node.truncated = !ts.isEmpty ∧ us = []
  | n + 1, .node _ ts, .node node us =>
    node.truncated = false ∧ List.Forall₂ (Depicts n) (ts.filter (inRange start_line end_line)) us

variable {start_line end_line} {max_depth : ℤ}

/-- What `_overlaps_range` finds out is what the pruning asks. -/
theorem inRange_of_overlapsRange {c : CursorInfo} {ts : List Cursor} {b : Bool}
    (h : overlapsRange c start_line end_line = .ok b) :
    inRange start_line end_line (.node c ts) = b := by
  cases b <;> simp only [inRange, Rose.label_node, h]

/-- If the budget lasts through the loop, it lasted up to it. -/
theorem lasts_of_walkJsonChildren {depth : ℕ} {us : List Cursor} {w w' : JsonWalk}
    {rs : List AstTree}
    (h : walkJsonChildren max_depth start_line end_line depth us w = .ok (rs, w'))
    (hlasts : w'.budget.truncated = false) : w.budget.truncated = false := by
  cases hs : w.budget.truncated with
  | false => rfl
  | true =>
    rw [walkJsonChildren_of_stopped hs] at h
    cases h
    exact hs.symm.trans hlasts

/-- If the budget lasts through the walk, it lasted up to it. -/
theorem lasts_of_walkJsonFrom {depth : ℕ} {t : Cursor} {w w' : JsonWalk} {r : Option AstTree}
    (h : walkJsonFrom max_depth start_line end_line depth t w = .ok (r, w'))
    (hlasts : w'.budget.truncated = false) : w.budget.truncated = false := by
  cases hs : w.budget.truncated with
  | false => rfl
  | true =>
    rw [walkJsonFrom_of_stopped hs] at h
    cases h
    exact hs.symm.trans hlasts

/-- The loop builds what the walks of its children build. -/
theorem depicts_of_walkJsonChildren {n depth : ℕ} {us : List Cursor}
    (hwalk : ∀ u ∈ us, ∀ {w w' : JsonWalk} {r : Option AstTree},
      walkJsonFrom max_depth start_line end_line depth u w = .ok (r, w') →
        w'.budget.truncated = false →
        List.Forall₂ (Depicts start_line end_line n) ([u].filter (inRange start_line end_line))
          r.toList) :
    ∀ {w w' : JsonWalk} {rs : List AstTree},
      walkJsonChildren max_depth start_line end_line depth us w = .ok (rs, w') →
        w'.budget.truncated = false →
        List.Forall₂ (Depicts start_line end_line n) (us.filter (inRange start_line end_line)) rs := by
  induction us with
  | nil =>
    intro w w' rs h _
    rw [walkJsonChildren] at h
    cases h
    exact .nil
  | cons u us ih =>
    intro w w' rs h hlasts
    rw [walkJsonChildren_cons (lasts_of_walkJsonChildren h hlasts)] at h
    obtain ⟨⟨r, w₁⟩, hfirst, h⟩ := Except.bind_eq_ok.mp h
    obtain ⟨⟨rs', w₂⟩, hrest, h⟩ := Except.bind_eq_ok.mp h
    cases h
    have hu := hwalk u List.mem_cons_self hfirst (lasts_of_walkJsonChildren hrest hlasts)
    have hus := ih (fun v hv => hwalk v (List.mem_cons_of_mem _ hv)) hrest hlasts
    rw [← List.singleton_append, List.filter_append]
    exact List.rel_append hu hus

/-- **What the walk builds** while the budget lasts: the tree cut at the depth that is left, of the
cursors that meet the range, with a flag wherever children have been cut off. -/
theorem depicts_of_walkJsonFrom {t : Cursor} : ∀ {depth : ℕ} {w w' : JsonWalk} {r : Option AstTree},
    walkJsonFrom max_depth start_line end_line depth t w = .ok (r, w') →
      w'.budget.truncated = false →
      List.Forall₂ (Depicts start_line end_line (max_depth - depth).toNat)
        ([t].filter (inRange start_line end_line)) r.toList := by
  induction t using Rose.induct with
  | node c ts ih =>
    intro depth w w' r h hlasts
    rw [walkJsonFrom_eq (lasts_of_walkJsonFrom h hlasts)] at h
    obtain ⟨overlaps, hrange, h⟩ := Except.bind_eq_ok.mp h
    have hin : inRange start_line end_line (.node c ts) = overlaps := inRange_of_overlapsRange hrange
    cases overlaps with
    | false =>
      cases h
      rw [List.filter_singleton, hin]
      exact .nil
    | true =>
      obtain ⟨node, -, h⟩ := Except.bind_eq_ok.mp h
      obtain ⟨-, -, h⟩ := Except.bind_eq_ok.mp h
      rw [List.filter_singleton, hin]
      split_ifs at h with hdepth
      · -- the depth limit
        cases h
        rw [show (max_depth - depth).toNat = 0 by omega]
        exact .cons ⟨rfl, rfl⟩ .nil
      · obtain ⟨⟨rs, w₂⟩, hbelow, h⟩ := Except.bind_eq_ok.mp h
        cases h
        have hdeeper : (max_depth - depth).toNat = (max_depth - (depth + 1 : ℕ)).toNat + 1 := by omega
        have hchildren := depicts_of_walkJsonChildren (fun u hu => ih u hu) hbelow hlasts
        rw [hdeeper]
        exact .cons ⟨rfl, hchildren⟩ .nil

end Walk

/-! ### The flags -/

/-- A node of the tree is flagged exactly if the deeper tree gives it a child that it has not. -/
def FlagsDeeper (root deeper : AstTree) : Prop :=
  ∀ address s, root.subtreeAt address = some s → ∃ s', deeper.subtreeAt address = some s' ∧
    (s.label.truncated = true ↔ s.children.length < s'.children.length)

/-- Two lists correspond at every index if their heads and their tails do. -/
theorem forall_getElem?_cons_iff {α β : Type} {R : α → β → Prop} {a : α} {b : β} {as : List α}
    {bs : List β} : (∀ (i : ℕ) x, (a :: as)[i]? = some x → ∃ y, (b :: bs)[i]? = some y ∧ R x y) ↔
      R a b ∧ ∀ (i : ℕ) x, as[i]? = some x → ∃ y, bs[i]? = some y ∧ R x y := by
  constructor
  · intro h
    obtain ⟨y, hy, hR⟩ := h 0 a rfl
    cases hy
    exact ⟨hR, fun i x hx => h (i + 1) x hx⟩
  · rintro ⟨hR, h⟩ i x hx
    cases i with
    | zero =>
      cases hx
      exact ⟨b, rfl, hR⟩
    | succ i => exact h i x hx

/-- The flags of two trees compare as they should if they do at the roots and in the children that
both have. -/
theorem flagsDeeper_node_iff {node node' : TreeNode} {us us' : List AstTree} :
    FlagsDeeper (.node node us) (.node node' us') ↔
      (node.truncated = true ↔ us.length < us'.length) ∧
        ∀ (i : ℕ) u, us[i]? = some u → ∃ u', us'[i]? = some u' ∧ FlagsDeeper u u' := by
  unfold FlagsDeeper
  rw [Rose.forall_subtreeAt_iff]
  refine and_congr ⟨?_, fun h => ⟨_, rfl, h⟩⟩ (forall₂_congr fun i u => forall_congr' fun hu => ?_)
  · rintro ⟨s', hs', h⟩
    cases hs'
    exact h
  · constructor
    · intro h
      obtain ⟨s', hs', -⟩ := h [] u rfl
      obtain ⟨u', hu', -⟩ := Option.bind_eq_some_iff.mp hs'
      refine ⟨u', hu', fun address s hs => ?_⟩
      obtain ⟨s', hs', hflag⟩ := h address s hs
      obtain ⟨u'', hu'', hs'⟩ := Option.bind_eq_some_iff.mp hs'
      cases hu'.symm.trans hu''
      exact ⟨s', hs', hflag⟩
    · rintro ⟨u', hu', h⟩ address s hs
      obtain ⟨s', hs', hflag⟩ := h address s hs
      exact ⟨s', Option.bind_eq_some_iff.mpr ⟨u', hu', hs'⟩, hflag⟩

section Flags

variable (start_line end_line : Option ℤ)

/-- The cursors at depth `n` below an admitted one that are admitted too. -/
def admittedAt : ℕ → Cursor → List Cursor
  | 0, t => [t]
  | n + 1, t => (t.children.filter (inRange start_line end_line)).flatMap (admittedAt n)

/-- If the cursor has children, one of them meets the lines. -/
def MeetsBelow (s : Cursor) : Prop :=
  s.children ≠ [] → ∃ child ∈ s.children, inRange start_line end_line child = true

variable {start_line end_line}

/-- **The flags of a tree cut at depth `d` are right exactly if every cursor there meets the lines
below.** -/
theorem flagsDeeper_iff {d : ℕ} : ∀ {t : Cursor} {root deeper : AstTree},
    Depicts start_line end_line d t root → Depicts start_line end_line (d + 1) t deeper →
      (FlagsDeeper root deeper ↔
        ∀ s ∈ admittedAt start_line end_line d t, MeetsBelow start_line end_line s) := by
  induction d with
  | zero =>
    rintro ⟨c, ts⟩ ⟨node, us⟩ ⟨node', us'⟩ ⟨hflag, rfl⟩ ⟨-, hbelow⟩
    have hlength := hbelow.length_eq
    have hpos : 0 < us'.length ↔ ∃ child ∈ ts, inRange start_line end_line child = true := by
      rw [← hlength, List.length_pos_iff, ne_eq, List.filter_eq_nil_iff]
      push Not
      rfl
    rw [flagsDeeper_node_iff, hflag, List.length_nil, hpos, admittedAt, List.forall_mem_singleton]
    simp only [MeetsBelow, Rose.children_node]
    cases ts with
    | nil => simp
    | cons child ts => simp
  | succ d ih =>
    rintro ⟨c, ts⟩ ⟨node, us⟩ ⟨node', us'⟩ ⟨hflag, hbelow⟩ ⟨-, hbelow'⟩
    have hpairs : ∀ {cs : List Cursor} {us us' : List AstTree},
        List.Forall₂ (Depicts start_line end_line d) cs us →
        List.Forall₂ (Depicts start_line end_line (d + 1)) cs us' →
        ((∀ (i : ℕ) u, us[i]? = some u → ∃ u', us'[i]? = some u' ∧ FlagsDeeper u u') ↔
          ∀ c ∈ cs, ∀ s ∈ admittedAt start_line end_line d c, MeetsBelow start_line end_line s) := by
      intro cs us us' h
      induction h generalizing us' with
      | nil =>
        rintro ⟨⟩
        exact ⟨fun _ _ h => absurd h List.not_mem_nil, fun _ _ _ h => nomatch h⟩
      | @cons c u cs us hu hus ihus =>
        rintro (_ | ⟨hu', hus'⟩)
        rw [List.forall_mem_cons, ← ih hu hu', ← ihus hus']
        exact forall_getElem?_cons_iff
    have hlength := hbelow.length_eq.symm.trans hbelow'.length_eq
    rw [flagsDeeper_node_iff, hpairs hbelow hbelow', hflag, hlength, admittedAt, Rose.children_node,
      List.forall_mem_flatMap]
    simp

end Flags

/-- The root of the answer, if the cursor meets the lines and the budget lasts. -/
theorem depicts_root {tu : TranslationUnit} {max_depth : ℤ} {start_line end_line : Option ℤ}
    {max_nodes max_bytes : ℕ} {j : JsonAst}
    (h : walkJson tu max_depth start_line end_line max_nodes max_bytes = .ok j)
    (hlasts : j.truncated = false) :
    List.Forall₂ (Depicts start_line end_line max_depth.toNat)
      ([tu.cursor].filter (inRange start_line end_line)) j.root.toList := by
  obtain ⟨⟨r, w⟩, hwalk, h⟩ := Except.bind_eq_ok.mp h
  cases h
  have hdepicts := depicts_of_walkJsonFrom hwalk hlasts
  rwa [Int.ofNat_zero, Int.sub_zero] at hdepicts

/-- A list of one item corresponds to an optional value only if the value is there. -/
theorem exists_of_forall₂_toList {α β : Type} {R : α → β → Prop} {a : α} {o : Option β}
    (h : List.Forall₂ R [a] o.toList) : ∃ b, o = some b ∧ R a b := by
  cases o with
  | none => exact nomatch h
  | some b => exact ⟨b, rfl, (List.forall₂_cons.mp h).1⟩

/-- **The flags are exact if and only if** every cursor admitted at the depth limit that has children has
one that meets the lines, where the budget fires in neither run. -/
theorem depth_flags_iff (tu : TranslationUnit) (d : ℕ) (start_line end_line : Option ℤ)
    {max_nodes max_bytes max_nodes' max_bytes' : ℕ} {j j' : JsonAst}
    (hj : walkJson tu d start_line end_line max_nodes max_bytes = .ok j)
    (hj' : walkJson tu (d + 1) start_line end_line max_nodes' max_bytes' = .ok j')
    (hlasts : j.truncated = false) (hlasts' : j'.truncated = false) :
    (∀ root ∈ j.root, ∃ deeper ∈ j'.root, FlagsDeeper root deeper) ↔
      ∀ s ∈ ([tu.cursor].filter (inRange start_line end_line)).flatMap
          (admittedAt start_line end_line d), MeetsBelow start_line end_line s := by
  have hdepicts := depicts_root hj hlasts
  have hdepicts' := depicts_root hj' hlasts'
  rw [show (d : ℤ).toNat = d by omega] at hdepicts
  rw [show ((d : ℤ) + 1).toNat = d + 1 by omega] at hdepicts'
  rw [List.filter_singleton] at hdepicts hdepicts' ⊢
  cases hin : inRange start_line end_line tu.cursor with
  | false =>
    -- nothing is emitted, and nothing is admitted
    rw [hin, cond_false, List.forall₂_nil_left_iff, Option.toList_eq_nil_iff] at hdepicts
    rw [hdepicts]
    exact ⟨fun _ _ h => absurd h List.not_mem_nil, fun _ _ h => nomatch h⟩
  | true =>
    rw [hin, cond_true] at hdepicts hdepicts'
    obtain ⟨root, hroot, hshape⟩ := exists_of_forall₂_toList hdepicts
    obtain ⟨deeper, hdeeper, hshape'⟩ := exists_of_forall₂_toList hdepicts'
    rw [cond_true, List.flatMap_singleton, ← flagsDeeper_iff hshape hshape', hroot, hdeeper]
    simp only [Option.mem_some_iff, forall_eq', exists_eq_left']

/-- `depth_flags_iff` for a function with a parameter, both in the requested lines. -/
theorem depth_flags_iff_twoFunctions : ∃ max_nodes max_bytes max_nodes' max_bytes' j j',
    walkJson twoFunctions 1 (some 1) (some 4) max_nodes max_bytes = .ok j ∧
      walkJson twoFunctions 2 (some 1) (some 4) max_nodes' max_bytes' = .ok j' ∧
      ∀ root ∈ j.root, ∃ deeper ∈ j'.root, FlagsDeeper root deeper := by
  obtain ⟨_, _, j, hj, hlasts⟩ :=
    exists_walkJson_not_truncated 1 (some 1) (some 4) readable_twoFunctions
  obtain ⟨_, _, j', hj', hlasts'⟩ :=
    exists_walkJson_not_truncated 2 (some 1) (some 4) readable_twoFunctions
  refine ⟨_, _, _, _, j, j', hj, hj', (depth_flags_iff twoFunctions 1 _ _ hj hj' hlasts hlasts').mpr ?_⟩
  -- the function is admitted, and its parameter meets the lines
  simp only [MeetsBelow]
  decide

/-- **A function is flagged for a parameter that lies outside the requested line.** `walk_json` at
depth 1 sets `truncated` on it because it has a child; at depth 2 the range leaves that child out,
and nothing is added. -/
theorem flagged_outside_line : ∃ max_nodes max_bytes max_nodes' max_bytes' j j',
    walkJson twoFunctions 1 (some 3) (some 3) max_nodes max_bytes = .ok j ∧ j.truncated = false ∧
      walkJson twoFunctions 2 (some 3) (some 3) max_nodes' max_bytes' = .ok j' ∧
      j'.truncated = false ∧ ¬∀ root ∈ j.root, ∃ deeper ∈ j'.root, FlagsDeeper root deeper := by
  obtain ⟨_, _, j, hj, hlasts⟩ :=
    exists_walkJson_not_truncated 1 (some 3) (some 3) readable_twoFunctions
  obtain ⟨_, _, j', hj', hlasts'⟩ :=
    exists_walkJson_not_truncated 2 (some 3) (some 3) readable_twoFunctions
  refine ⟨_, _, _, _, j, j', hj, hlasts, hj', hlasts', fun h => ?_⟩
  obtain ⟨root, hroot, hshape⟩ := exists_of_forall₂_toList (depicts_root hj hlasts)
  obtain ⟨deeper, hdeeper, hshape'⟩ := exists_of_forall₂_toList (depicts_root hj' hlasts')
  obtain ⟨deeper', hmem, hflags⟩ := h root hroot
  cases hdeeper.symm.trans hmem
  have hmeets := (flagsDeeper_iff hshape hshape').mp hflags
  simp only [MeetsBelow] at hmeets
  exact absurd hmeets (by decide)

end Ast
end CppMcp
