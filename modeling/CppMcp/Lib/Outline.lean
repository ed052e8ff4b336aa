/-
# Outlines of rose trees, and runs that stop early

The outline of a tree lists its nodes in preorder, each with its number and the number of
the node above it.  A walk that may stop at any node does its work on the nodes of the
outline, one after the other, up to where it stops: `runUntil`.
-/

import CppMcp.Lib.Rose
import Mathlib.Data.List.Range
import Mathlib.Data.Nat.Notation

namespace Rose

variable {α : Type*}

/-- A node of a tree: the number of the node above it, its own number, and what is below. -/
structure Entry (α : Type*) where
  parent : Option ℕ
  number : ℕ
  tree : Rose α

mutual

/-- The nodes of `t` in preorder, numbered from `n` on. -/
def outline (parent : Option ℕ) (n : ℕ) : Rose α → List (Entry α)
  | node a ts => ⟨parent, n, node a ts⟩ :: outlineList (some n) (n + 1) ts

/-- The outlines of the trees of a list, numbered on. -/
def outlineList (parent : Option ℕ) (n : ℕ) : List (Rose α) → List (Entry α)
  | [] => []
  | t :: ts =>
    outline parent n t ++ outlineList parent (n + (outline parent n t).length) ts

end

/-- The outline of two lists of trees one after the other: the second is numbered from where the
first ends. -/
theorem outlineList_append (parent : Option ℕ) (n : ℕ) (ts us : List (Rose α)) :
    outlineList parent n (ts ++ us) = outlineList parent n ts ++
      outlineList parent (n + (outlineList parent n ts).length) us := by
  induction ts generalizing n with
  | nil => rfl
  | cons t ts ih =>
    rw [List.cons_append, outlineList, ih, outlineList, List.append_assoc, List.length_append,
      Nat.add_assoc]

/-- The outline of a list of one tree is that of the tree. -/
theorem outlineList_singleton (parent : Option ℕ) (n : ℕ) (t : Rose α) :
    outlineList parent n [t] = outline parent n t := by
  rw [outlineList, outlineList, List.append_nil]

/-- What holds of the outline of every tree and passes from the trees of a list to it. -/
theorem outlineList_induct {P : Option ℕ → ℕ → List (Entry α) → Prop} (ts : List (Rose α))
    (hnil : ∀ parent n, P parent n [])
    (happend : ∀ parent n es es', P parent n es → P parent (n + es.length) es' →
      P parent n (es ++ es'))
    (h : ∀ t ∈ ts, ∀ parent n, P parent n (outline parent n t)) (parent : Option ℕ) (n : ℕ) :
    P parent n (outlineList parent n ts) := by
  induction ts generalizing n with
  | nil => exact hnil parent n
  | cons t ts ih =>
    exact happend _ _ _ _ (h t List.mem_cons_self parent n)
      (ih (fun s hs => h s (List.mem_cons_of_mem _ hs)) _)

/-- **The numbers count up,** without a gap, from the one that the outline is started with. -/
theorem numbers_outline (t : Rose α) (parent : Option ℕ) (n : ℕ) :
    (outline parent n t).map Entry.number = List.range' n (outline parent n t).length := by
  induction t generalizing parent n with
  | node a ts ih =>
    have hbelow := outlineList_induct ts
      (P := fun _ n es => es.map Entry.number = List.range' n es.length) (fun _ _ => rfl)
      (fun _ n es es' h h' => by
        rw [List.map_append, List.length_append, h, h', List.range'_append_1]) ih (some n) (n + 1)
    rw [outline, List.map_cons, hbelow, List.length_cons, List.range'_succ]

/-- Entries are numbered by where they stand, so an entry is among the first ones exactly if its
number is small enough. -/
theorem mem_take_iff_of_numbers {es : List (Entry α)} {n k : ℕ} {e : Entry α}
    (h : es.map Entry.number = List.range' n es.length) :
    e ∈ es.take k ↔ e ∈ es ∧ e.number < n + k := by
  induction es generalizing n k with
  | nil => simp
  | cons e₀ es ih =>
    rw [List.map_cons, List.length_cons, List.range'_succ] at h
    obtain ⟨hnumber, hrest⟩ := List.cons.inj h
    have hlater : ∀ e ∈ es, n < e.number := fun e he => by
      have hmem := List.mem_map_of_mem (f := Entry.number) he
      rw [hrest, List.mem_range'_1] at hmem
      omega
    cases k with
    | zero =>
      rw [List.take_zero, Nat.add_zero]
      refine ⟨fun h => absurd h List.not_mem_nil, ?_⟩
      rintro ⟨hmem, hlt⟩
      rcases List.mem_cons.mp hmem with rfl | hmem
      · omega
      · exact absurd (hlater e hmem) (by omega)
    | succ k =>
      rw [List.take_succ_cons, List.mem_cons, List.mem_cons, ih hrest]
      constructor
      · rintro (rfl | ⟨hmem, hlt⟩)
        · exact ⟨Or.inl rfl, by omega⟩
        · exact ⟨Or.inr hmem, by omega⟩
      · rintro ⟨rfl | hmem, hlt⟩
        · exact Or.inl rfl
        · exact Or.inr ⟨hmem, by omega⟩

/-- Only the root can have the parent that is handed in. -/
theorem parents_outline (t : Rose α) (parent : Option ℕ) (n : ℕ) :
    ∃ below, outline parent n t = ⟨parent, n, t⟩ :: below ∧ ∀ e ∈ below, e.parent.isSome := by
  induction t generalizing parent n with
  | node a ts ih =>
    refine ⟨_, by rw [outline], ?_⟩
    refine outlineList_induct ts (P := fun parent _ es => parent.isSome →
      ∀ e ∈ es, e.parent.isSome) (fun _ _ _ _ h => absurd h List.not_mem_nil)
      (fun _ _ es es' h h' hp e he => (List.mem_append.mp he).elim (h hp e) (h' hp e)) ?_
      (some n) (n + 1) rfl
    intro t ht parent n hparent e he
    obtain ⟨below, heq, hbelow⟩ := ih t ht parent n
    rw [heq] at he
    rcases List.mem_cons.mp he with rfl | he
    · exact hparent
    · exact hbelow e he

/-- **A parent's number is the number of the node above,** and that node comes before. -/
theorem exists_parent_of_mem_outline {t : Rose α} {parent : Option ℕ} {n : ℕ} {e : Entry α}
    (he : e ∈ outline parent n t) :
    e = ⟨parent, n, t⟩ ∨ ∃ above ∈ outline parent n t, e.parent = some above.number ∧
      above.number < e.number ∧ e.tree ∈ above.tree.children := by
  induction t generalizing parent n with
  | node a ts ih =>
    -- below the root an entry is the root of one of the trees, or has its parent in one
    have hbelow : ∀ us, (∀ u ∈ us, u ∈ ts) → ∀ m, n < m → e ∈ outlineList (some n) m us →
        (e.parent = some n ∧ n < e.number ∧ e.tree ∈ ts) ∨
          ∃ above ∈ outlineList (some n) m us, e.parent = some above.number ∧
            above.number < e.number ∧ e.tree ∈ above.tree.children := by
      intro us hus
      induction us with
      | nil => intro m _ h; exact absurd h List.not_mem_nil
      | cons u us ihus =>
        intro m hm h
        rw [outlineList] at h ⊢
        rcases List.mem_append.mp h with h | h
        · rcases ih u (hus u List.mem_cons_self) h with rfl | ⟨above, habove, hrest⟩
          · exact Or.inl ⟨rfl, hm, hus u List.mem_cons_self⟩
          · exact Or.inr ⟨above, List.mem_append_left _ habove, hrest⟩
        · rcases ihus (fun s hs => hus s (List.mem_cons_of_mem _ hs)) _ (by omega) h with
            hroot | ⟨above, habove, hrest⟩
          · exact Or.inl hroot
          · exact Or.inr ⟨above, List.mem_append_right _ habove, hrest⟩
    rw [outline] at he ⊢
    rcases List.mem_cons.mp he with rfl | he
    · exact Or.inl rfl
    · refine Or.inr ?_
      rcases hbelow ts (fun _ h => h) (n + 1) (Nat.lt_succ_self n) he with
        ⟨hparent, hlt, hmem⟩ | ⟨above, habove, hrest⟩
      · exact ⟨_, List.mem_cons_self, hparent, hlt, hmem⟩
      · exact ⟨above, List.mem_cons_of_mem _ habove, hrest⟩

/-- The outline has the nodes of the tree, in preorder. -/
theorem trees_outline (t : Rose α) (parent : Option ℕ) (n : ℕ) :
    (outline parent n t).map Entry.tree = t.subtrees := by
  induction t generalizing parent n with
  | node a ts ih =>
    have hbelow : ∀ us, (∀ u ∈ us, u ∈ ts) → ∀ m,
        (outlineList (some n) m us).map Entry.tree = us.flatMap subtrees := by
      intro us hus
      induction us with
      | nil => intro m; rfl
      | cons u us ihus =>
        intro m
        rw [outlineList, List.map_append, ih u (hus u List.mem_cons_self), List.flatMap_cons,
          ihus fun s hs => hus s (List.mem_cons_of_mem _ hs)]
    rw [outline, List.map_cons, hbelow ts fun _ h => h, subtrees_node]

end Rose

/-- A computation that goes on after another one succeeds if both do. -/
theorem Except.bind_eq_ok {ε α β : Type*} {x : Except ε α} {f : α → Except ε β} {b : β} :
    x.bind f = .ok b ↔ ∃ a, x = .ok a ∧ f a = .ok b := by
  cases x with
  | error e =>
    refine ⟨(nomatch ·), ?_⟩
    rintro ⟨a, h, -⟩
    exact nomatch h
  | ok a =>
    refine ⟨fun h => ⟨a, rfl, h⟩, ?_⟩
    rintro ⟨a', h, hf⟩
    exact Except.ok.inj h ▸ hf

/-- A computation gives a value exactly if it returns that value. -/
theorem Except.toOption_eq_some_iff {ε α : Type*} {x : Except ε α} {a : α} :
    x.toOption = some a ↔ x = .ok a := by
  cases x with
  | error e => exact ⟨(nomatch ·), (nomatch ·)⟩
  | ok a' => exact ⟨fun h => congrArg Except.ok (Option.some.inj h), fun h => congrArg _ h⟩

/-! ### Runs that stop early -/

section Run

variable {ε σ β : Type*} (stop : σ → Bool) (step : β → σ → Except ε σ)

/-- Take step after step, unless the state says that it is time to stop. -/
def runUntil : List β → σ → Except ε σ
  | [], s => .ok s
  | b :: bs, s => if stop s then .ok s else (step b s).bind (runUntil bs)

variable {stop step}

/-- A run that is told to stop leaves the rest undone. -/
theorem runUntil_of_stop {bs : List β} {s : σ} (h : stop s = true) :
    runUntil stop step bs s = .ok s := by
  cases bs with
  | nil => rfl
  | cons b bs => rw [runUntil, if_pos h]

/-- A run that is not told to stop takes the first step, and goes on from what that leaves. -/
theorem runUntil_cons {b : β} {bs : List β} {s : σ} (h : stop s = false) :
    runUntil stop step (b :: bs) s = (step b s).bind (runUntil stop step bs) := by
  rw [runUntil, h, if_neg Bool.false_ne_true]

/-- A run over two lists runs over the first, and then over the second from where that has ended. -/
theorem runUntil_append {bs bs' : List β} {s s' : σ} (h : runUntil stop step bs s = .ok s') :
    runUntil stop step (bs ++ bs') s = runUntil stop step bs' s' := by
  induction bs generalizing s with
  | nil => exact Except.ok.inj h ▸ rfl
  | cons b bs ih =>
    cases hs : stop s with
    | true =>
      rw [runUntil_of_stop hs] at h
      rw [runUntil_of_stop hs, ← Except.ok.inj h, runUntil_of_stop hs]
    | false =>
      rw [runUntil_cons hs] at h
      obtain ⟨s₁, hstep, hrest⟩ := Except.bind_eq_ok.mp h
      rw [List.cons_append, runUntil_cons hs, hstep]
      exact ih hrest

/-- **A run that may stop takes the steps of a prefix.**  What each step carries on holds at its
end, it is not told to stop before its end, and it ends before the list does only if it is told
to stop there. -/
theorem runUntil_induct {P : List β → σ → Prop} {s s' : σ} {bs : List β}
    (hstep : ∀ done b s₁ s₂, P done s₁ → stop s₁ = false → step b s₁ = .ok s₂ → P (done ++ [b]) s₂)
    (h₀ : P [] s) (h : runUntil stop step bs s = .ok s') :
    ∃ n ≤ bs.length, P (bs.take n) s' ∧ (∀ m < n, ∃ sm, P (bs.take m) sm ∧ stop sm = false) ∧
      (n < bs.length → stop s' = true) := by
  have hfrom : ∀ bs done s, P done s → runUntil stop step bs s = .ok s' →
      ∃ n ≤ bs.length, P (done ++ bs.take n) s' ∧
        (∀ m < n, ∃ sm, P (done ++ bs.take m) sm ∧ stop sm = false) ∧
        (n < bs.length → stop s' = true) := by
    intro bs
    induction bs with
    | nil =>
      intro done s hP h
      refine ⟨0, le_rfl, ?_, fun m hm => absurd hm (Nat.not_lt_zero m),
        fun hlt => absurd hlt (lt_irrefl _)⟩
      rw [List.take_nil, List.append_nil]
      exact Except.ok.inj h ▸ hP
    | cons b bs ih =>
      intro done s hP h
      cases hs : stop s with
      | true =>
        rw [runUntil_of_stop hs] at h
        refine ⟨0, Nat.zero_le _, ?_, fun m hm => absurd hm (Nat.not_lt_zero m),
          fun _ => Except.ok.inj h ▸ hs⟩
        rw [List.take_zero, List.append_nil]
        exact Except.ok.inj h ▸ hP
      | false =>
        rw [runUntil_cons hs] at h
        obtain ⟨s₁, hb, hrest⟩ := Except.bind_eq_ok.mp h
        obtain ⟨n, hn, hend, hbefore, hstop⟩ :=
          ih (done ++ [b]) s₁ (hstep done b s s₁ hP hs hb) hrest
        have htake : ∀ k, done ++ (b :: bs).take (k + 1) = done ++ [b] ++ bs.take k := fun k => by
          rw [List.take_succ_cons, List.append_assoc, List.singleton_append]
        refine ⟨n + 1, Nat.succ_le_succ hn, htake n ▸ hend, fun m hm => ?_, fun hlt =>
          hstop (Nat.lt_of_succ_lt_succ hlt)⟩
        cases m with
        | zero => exact ⟨s, by rwa [List.take_zero, List.append_nil], hs⟩
        | succ m =>
          obtain ⟨sm, hsm, hno⟩ := hbefore m (Nat.lt_of_succ_lt_succ hm)
          exact ⟨sm, htake m ▸ hsm, hno⟩
  exact hfrom bs [] s h₀ h

end Run
