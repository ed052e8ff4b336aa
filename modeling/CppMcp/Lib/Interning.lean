/-
# Chains entered into a table

Each thing has a key and at most one successor, and from a thing a chain of successors runs to its
end.  A table takes a chain up to the first thing whose key it already has.  Where the key tells the
thing, the table then has the whole chain, nothing twice, and with each thing its successor
(`mem_enter`, `Interned.enter`); so a table that chains are entered into one after another has
exactly the things of the chains (`Interned.enterAll`).
-/

import Mathlib.Data.List.Induction
import Mathlib.Data.List.Nodup
import Mathlib.Data.Set.Function

namespace Interning

variable {α κ : Type*}

/-- The thing, its successor, and so on to the end. -/
inductive Chain (next : α → Option α) : α → List α → Prop
  | last {a : α} (h : next a = none) : Chain next a [a]
  | step {a b : α} {l : List α} (h : next a = some b) (hl : Chain next b l) : Chain next a (a :: l)

/-- The successor of everything in the table is there. -/
def Closed (next : α → Option α) (table : List α) : Prop :=
  ∀ a ∈ table, ∀ b, next a = some b → b ∈ table

namespace Chain

variable {next : α → Option α} {a : α} {l : List α}

/-- A chain begins with the thing that it is the chain of. -/
theorem head_mem (h : Chain next a l) : a ∈ l := by
  cases h with
  | last => exact List.mem_cons_self
  | step => exact List.mem_cons_self

/-- **A thing has one chain:** the successor of each of its things is determined, and so is where it
ends. -/
theorem unique {l' : List α} (h : Chain next a l) (h' : Chain next a l') : l = l' := by
  induction h generalizing l' with
  | last hnone =>
    cases h' with
    | last => rfl
    | step hsome => exact absurd (hnone.symm.trans hsome) (Option.some_ne_none _).symm
  | step hsome _ ih =>
    cases h' with
    | last hnone => exact absurd (hnone.symm.trans hsome) (Option.some_ne_none _).symm
    | step hsome' hl' =>
      obtain rfl := Option.some.inj (hsome.symm.trans hsome')
      rw [ih hl']

/-- A chain has, with each of its things, the successor of that: it ends only at a thing that has
none. -/
theorem closed (h : Chain next a l) : Closed next l := by
  induction h with
  | last hnone =>
    intro x hx b hb
    obtain rfl := List.mem_singleton.mp hx
    exact absurd (hnone.symm.trans hb) (Option.some_ne_none b).symm
  | step hsome hl ih =>
    intro x hx b hb
    refine List.mem_cons_of_mem _ ?_
    rcases List.mem_cons.mp hx with rfl | hx
    · obtain rfl := Option.some.inj (hsome.symm.trans hb)
      exact hl.head_mem
    · exact ih x hx b hb

/-- From each of its things on, a chain is the chain of that thing. -/
theorem of_append {l₁ l₂ : List α} {b : α} (h : Chain next a (l₁ ++ b :: l₂)) :
    Chain next b (b :: l₂) := by
  induction l₁ generalizing a with
  | nil =>
    cases h with
    | last hnone => exact .last hnone
    | step hsome hl => exact .step hsome hl
  | cons x l₁ ih =>
    rw [List.cons_append] at h
    generalize hl : l₁ ++ b :: l₂ = l at h
    cases h with
    | last => exact absurd hl (by simp)
    | step _ hrest => exact ih (hl ▸ hrest)

/-- **A chain does not come back:** from where it did, it would be its own part. -/
theorem nodup (h : Chain next a l) : l.Nodup := by
  induction h with
  | last => exact List.nodup_singleton _
  | @step x y l hsome hl ih =>
    refine List.nodup_cons.mpr ⟨fun hmem => ?_, ih⟩
    obtain ⟨l₁, l₂, rfl⟩ := List.append_of_mem hmem
    have heq : x :: l₂ = x :: (l₁ ++ x :: l₂) := hl.of_append.unique (.step hsome hl)
    have hlength := congrArg List.length heq
    simp only [List.length_cons, List.length_append] at hlength
    omega

/-- A table with the successors of what it has has the chains of what it has. -/
theorem subset_of_closed {table : List α} (h : Chain next a l) (hclosed : Closed next table)
    (ha : a ∈ table) : ∀ x ∈ l, x ∈ table := by
  induction h with
  | last => exact fun x hx => List.mem_singleton.mp hx ▸ ha
  | step hsome _ ih =>
    intro x hx
    rcases List.mem_cons.mp hx with rfl | hx
    · exact ha
    · exact ih (hclosed _ ha _ hsome) x hx

end Chain

/-! ### The table -/

/-- What a table of things in `s` keeps: no key twice, and with each thing its successor. -/
structure Interned (key : α → κ) (next : α → Option α) (s : Set α) (table : List α) : Prop where
  subset : ∀ a ∈ table, a ∈ s
  nodup : (table.map key).Nodup
  closed : Closed next table

/-- A table with nothing in it satisfies the invariant, whatever the keys and the successors are. -/
theorem Interned.nil {key : α → κ} {next : α → Option α} {s : Set α} : Interned key next s [] where
  subset _ h := absurd h List.not_mem_nil
  nodup := List.nodup_nil
  closed _ h := absurd h List.not_mem_nil

variable [DecidableEq κ]

/-- A key finds its thing in the table, and nothing else. -/
theorem Interned.filter_key {key : α → κ} {next : α → Option α} {s : Set α} {table : List α}
    (h : Interned key next s table) {a : α} (ha : a ∈ table) :
    (table.filter fun b => key b = key a) = [a] := by
  have hnodup : (table.filter fun b => key b = key a).Nodup := h.nodup.of_map.filter _
  refine List.perm_singleton.mp ((List.perm_ext_iff_of_nodup hnodup (List.nodup_singleton a)).mpr ?_)
  intro b
  rw [List.mem_filter, List.mem_singleton, decide_eq_true_eq]
  refine ⟨fun hb => List.inj_on_of_nodup_map h.nodup hb.1 ha hb.2, ?_⟩
  rintro rfl
  exact ⟨ha, rfl⟩

variable (key : α → κ)

/-- The things of a chain before the first whose key is taken. -/
def fresh (taken : List κ) (chain : List α) : List α := chain.takeWhile fun a => key a ∉ taken

/-- The table with a chain entered. -/
def enter (table chain : List α) : List α := table ++ fresh key (table.map key) chain

/-- The table with chains entered one after another. -/
def enterAll (table : List α) (chains : List (List α)) : List α := chains.foldl (enter key) table

variable {key} {next : α → Option α} {s : Set α} {table : List α}

/-- Of an empty chain nothing is fresh. -/
theorem fresh_nil (taken : List κ) : fresh key taken [] = [] := rfl

/-- A chain whose first key is taken has nothing fresh: entering stops at the first key that is
known, and does not look behind it. -/
theorem fresh_cons_of_mem {taken : List κ} {a : α} (h : key a ∈ taken) (chain : List α) :
    fresh key taken (a :: chain) = [] :=
  List.takeWhile_cons_of_neg (by simpa using h)

/-- A chain whose first key is not taken begins with a fresh thing, and goes on with what is fresh
of the rest. -/
theorem fresh_cons_of_not_mem {taken : List κ} {a : α} (h : key a ∉ taken) (chain : List α) :
    fresh key taken (a :: chain) = a :: fresh key taken chain :=
  List.takeWhile_cons_of_pos (by simpa using h)

/-- The order in which keys were taken does not matter. -/
theorem fresh_congr {taken taken' : List κ} (h : ∀ k, k ∈ taken ↔ k ∈ taken') (chain : List α) :
    fresh key taken chain = fresh key taken' chain := by
  unfold fresh
  simp only [h]

/-- A key that the chain does not have may be taken or not. -/
theorem fresh_cons_taken {k : κ} {taken : List κ} {chain : List α} (h : ∀ a ∈ chain, key a ≠ k) :
    fresh key (k :: taken) chain = fresh key taken chain := by
  induction chain with
  | nil => rfl
  | cons a chain ih =>
    obtain ⟨ha, hchain⟩ := List.forall_mem_cons.mp h
    by_cases hmem : key a ∈ taken
    · rw [fresh_cons_of_mem hmem, fresh_cons_of_mem (List.mem_cons_of_mem k hmem)]
    · have hmem' : key a ∉ k :: taken := fun hk => (List.mem_cons.mp hk).elim ha hmem
      rw [fresh_cons_of_not_mem hmem, fresh_cons_of_not_mem hmem', ih hchain]

/-- What is fresh belongs to the chain, and its key was not taken. -/
theorem mem_of_mem_fresh {taken : List κ} {chain : List α} {a : α}
    (h : a ∈ fresh key taken chain) : a ∈ chain ∧ key a ∉ taken := by
  induction chain with
  | nil => exact absurd h List.not_mem_nil
  | cons b chain ih =>
    by_cases hb : key b ∈ taken
    · rw [fresh_cons_of_mem hb] at h
      exact absurd h List.not_mem_nil
    · rw [fresh_cons_of_not_mem hb] at h
      rcases List.mem_cons.mp h with rfl | h
      · exact ⟨List.mem_cons_self, hb⟩
      · exact ⟨List.mem_cons_of_mem b (ih h).1, (ih h).2⟩

/-- What is not entered follows a thing that the table has. -/
theorem mem_enter_of_mem (hkey : Set.InjOn key s) (h : Interned key next s table) {a x : α}
    {chain : List α} (hc : Chain next a chain) (hs : ∀ x ∈ chain, x ∈ s) (hx : x ∈ chain) :
    x ∈ enter key table chain := by
  rw [enter, List.mem_append]
  induction hc with
  | @last a _ =>
    obtain rfl := List.mem_singleton.mp hx
    by_cases hmem : key x ∈ table.map key
    · obtain ⟨y, hy, heq⟩ := List.mem_map.mp hmem
      exact Or.inl (hkey (h.subset y hy) (hs x hx) heq ▸ hy)
    · rw [fresh_cons_of_not_mem hmem]
      exact Or.inr List.mem_cons_self
  | @step a b l hsome hl ih =>
    by_cases hmem : key a ∈ table.map key
    · obtain ⟨y, hy, heq⟩ := List.mem_map.mp hmem
      have ha : a ∈ table := hkey (h.subset y hy) (hs a List.mem_cons_self) heq ▸ hy
      exact Or.inl ((Chain.step hsome hl).subset_of_closed h.closed ha x hx)
    · rw [fresh_cons_of_not_mem hmem]
      rcases List.mem_cons.mp hx with rfl | hx
      · exact Or.inr List.mem_cons_self
      · exact (ih (fun y hy => hs y (List.mem_cons_of_mem a hy)) hx).imp_right
          (List.mem_cons_of_mem a)

/-- **What the table has afterwards:** what it had, and the whole chain. -/
theorem mem_enter (hkey : Set.InjOn key s) (h : Interned key next s table) {a x : α}
    {chain : List α} (hc : Chain next a chain) (hs : ∀ x ∈ chain, x ∈ s) :
    x ∈ enter key table chain ↔ x ∈ table ∨ x ∈ chain := by
  refine ⟨fun hx => ?_, fun hx => ?_⟩
  · exact (List.mem_append.mp hx).imp_right fun hx => (mem_of_mem_fresh hx).1
  · rcases hx with hx | hx
    · exact List.mem_append_left _ hx
    · exact mem_enter_of_mem hkey h hc hs hx

/-- **Entering a chain keeps the table's invariant:** keys stay unique, each entry is the thing of
its key, and what was left out as known has its own successors in the table already. -/
theorem Interned.enter (hkey : Set.InjOn key s) (h : Interned key next s table) {a : α}
    {chain : List α} (hc : Chain next a chain) (hs : ∀ x ∈ chain, x ∈ s) :
    Interned key next s (enter key table chain) where
  subset x hx := ((mem_enter hkey h hc hs).mp hx).elim (h.subset x) (hs x)
  nodup := by
    rw [Interning.enter, List.map_append]
    refine List.nodup_append'.mpr ⟨h.nodup, ?_, ?_⟩
    · refine List.Nodup.map_on (fun x hx y hy heq => ?_)
        (hc.nodup.sublist (List.takeWhile_sublist _))
      exact hkey (hs x (mem_of_mem_fresh hx).1) (hs y (mem_of_mem_fresh hy).1) heq
    · intro k hk hk'
      obtain ⟨x, hx, rfl⟩ := List.mem_map.mp hk'
      exact (mem_of_mem_fresh hx).2 hk
  closed x hx b hb := by
    rw [mem_enter hkey h hc hs] at hx ⊢
    exact hx.imp (fun hx => h.closed x hx b hb) fun hx => hc.closed x hx b hb

/-- **Chains entered one after another:** the invariant is kept, and the table has what it had and
the things of the chains. -/
theorem Interned.enterAll (hkey : Set.InjOn key s) (h : Interned key next s table)
    {chains : List (List α)} (hc : ∀ c ∈ chains, ∃ a, Chain next a c)
    (hs : ∀ c ∈ chains, ∀ x ∈ c, x ∈ s) :
    Interned key next s (enterAll key table chains) ∧
      ∀ x, x ∈ enterAll key table chains ↔ x ∈ table ∨ ∃ c ∈ chains, x ∈ c := by
  induction chains generalizing table with
  | nil => exact ⟨h, fun x => by simp [Interning.enterAll]⟩
  | cons c chains ih =>
    obtain ⟨⟨a, hca⟩, hchains⟩ := List.forall_mem_cons.mp hc
    obtain ⟨hsc, hschains⟩ := List.forall_mem_cons.mp hs
    obtain ⟨hinv, hmem⟩ := ih (h.enter hkey hca hsc) hchains hschains
    refine ⟨hinv, fun x => (hmem x).trans ?_⟩
    rw [mem_enter hkey h hca hsc, List.exists_mem_cons_iff, or_assoc]

end Interning
