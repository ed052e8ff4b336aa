/-
# Visitors of rose trees

A visitor is called at the root of a tree and then walks each child in turn, with one state that all
calls share.  A call may raise, and so may asking a node for its children; either ends the walk.

`walkM_eq_foldlM` says that the walk is a loop over the labels in preorder, and `foldlM_induct` is the
rule for what such a loop keeps.  A loop raises only where a turn does (`exists_foldlM`,
`exists_mapM`).  `ListedOnce` is what one keeps that lists an item for each key.
-/

import CppMcp.Lib.Outline

/-- **What a loop keeps:** what holds before it and passes from each turn to the next holds of all
the items after it. -/
theorem List.foldlM_induct {ε α σ : Type} {step : σ → α → Except ε σ} {P : List α → σ → Prop}
    (hstep : ∀ done s a s', P done s → step s a = .ok s' → P (done ++ [a]) s') {done : List α}
    {s s' : σ} {items : List α} (h : items.foldlM step s = .ok s') (hs : P done s) :
    P (done ++ items) s' := by
  induction items generalizing done s with
  | nil =>
    cases h
    rwa [List.append_nil]
  | cons a items ih =>
    rw [List.foldlM_cons] at h
    obtain ⟨s₁, ha, hrest⟩ := Except.bind_eq_ok.mp h
    have hend := ih hrest (hstep done s a s₁ hs ha)
    rwa [List.append_assoc, List.singleton_append] at hend

/-- What a loop that collects results gives, item by item. -/
theorem List.forall₂_of_mapM {ε α β : Type} {f : α → Except ε β} {as : List α} {bs : List β}
    (h : as.mapM f = .ok bs) : List.Forall₂ (fun a b => f a = .ok b) as bs := by
  induction as generalizing bs with
  | nil =>
    cases h
    exact List.Forall₂.nil
  | cons a as ih =>
    rw [List.mapM_cons] at h
    obtain ⟨b, hb, h⟩ := Except.bind_eq_ok.mp h
    obtain ⟨bs', hbs, h⟩ := Except.bind_eq_ok.mp h
    cases h
    exact List.Forall₂.cons hb (ih hbs)

/-- What stands in one of two lists that are related item by item comes from the other. -/
theorem List.Forall₂.exists_mem {α β : Type} {R : α → β → Prop} {as : List α} {bs : List β}
    (h : List.Forall₂ R as bs) {b : β} (hb : b ∈ bs) : ∃ a ∈ as, R a b := by
  induction h with
  | nil => exact absurd hb List.not_mem_nil
  | cons hab _ ih =>
    rcases List.mem_cons.mp hb with rfl | hb
    · exact ⟨_, List.mem_cons_self, hab⟩
    · obtain ⟨a, ha, h⟩ := ih hb
      exact ⟨a, List.mem_cons_of_mem _ ha, h⟩

/-- Such a loop does not raise if no turn does. -/
theorem List.exists_mapM {ε α β : Type} {f : α → Except ε β} {as : List α}
    (h : ∀ a ∈ as, ∃ b, f a = .ok b) : ∃ bs, as.mapM f = .ok bs := by
  induction as with
  | nil => exact ⟨[], rfl⟩
  | cons a as ih =>
    obtain ⟨b, hb⟩ := h a List.mem_cons_self
    obtain ⟨bs, hbs⟩ := ih fun a ha => h a (List.mem_cons_of_mem _ ha)
    refine ⟨b :: bs, ?_⟩
    rw [List.mapM_cons, hb, hbs]
    rfl

/-- A loop over a state does not raise if no turn does. -/
theorem List.exists_foldlM {ε α σ : Type} {step : σ → α → Except ε σ} {items : List α}
    (h : ∀ s, ∀ a ∈ items, ∃ s', step s a = .ok s') (s : σ) : ∃ s', items.foldlM step s = .ok s' := by
  induction items generalizing s with
  | nil => exact ⟨s, rfl⟩
  | cons a items ih =>
    obtain ⟨s₁, hs₁⟩ := h s a List.mem_cons_self
    obtain ⟨s', hs'⟩ := ih (fun s b hb => h s b (List.mem_cons_of_mem _ hb)) s₁
    refine ⟨s', ?_⟩
    rw [List.foldlM_cons, hs₁]
    exact hs'

/-- Items that are listed once for each key, with the keys that have been seen. -/
structure ListedOnce {α κ : Type} (key : α → κ) (items : List α) (seen : List κ) : Prop where
  seen : ∀ k, k ∈ seen ↔ k ∈ items.map key
  nodup : (items.map key).Nodup

/-- Before the loop nothing is listed, and no key has been seen. -/
theorem ListedOnce.nil {α κ : Type} (key : α → κ) : ListedOnce key [] [] where
  seen _ := Iff.rfl
  nodup := List.nodup_nil

/-- An item with a new key is listed at the end, and its key counts as seen from then on. -/
theorem ListedOnce.push {α κ : Type} {key : α → κ} {items : List α} {seen : List κ}
    (h : ListedOnce key items seen) {a : α} (hnew : key a ∉ seen) :
    ListedOnce key (items ++ [a]) (key a :: seen) where
  seen k := by
    rw [List.map_append, List.map_singleton, List.mem_cons, List.mem_append, List.mem_singleton, h.seen,
      or_comm]
  nodup := by
    rw [List.map_append, List.map_singleton, List.nodup_append]
    refine ⟨h.nodup, List.pairwise_singleton _ _, ?_⟩
    rintro x hx y hy rfl
    exact hnew ((h.seen _).mpr (List.mem_singleton.mp hy ▸ hx))

namespace Rose

variable {ε α σ : Type} (step : σ → α → Except ε σ) (enter : α → Except ε Unit)

mutual

/-- The walk: the call at the root, then the children, which `enter` asks for. -/
def walkM : Rose α → σ → Except ε σ
  | node a ts, s => do
    let s ← step s a
    enter a
    walkListM ts s

/-- The walk of each tree of a list, one after the other. -/
def walkListM : List (Rose α) → σ → Except ε σ
  | [], s => .ok s
  | t :: ts, s => do
    let s ← walkM t s
    walkListM ts s

end

/-- One turn of the walk. -/
def turn (s : σ) (a : α) : Except ε σ := do
  let s ← step s a
  enter a
  return s

variable {step enter}

/-- A turn returns if the step returns and the children can be asked for, and then with what the
step made. -/
theorem turn_eq_ok_iff {s s' : σ} {a : α} :
    turn step enter s a = .ok s' ↔ step s a = .ok s' ∧ enter a = .ok () := by
  constructor
  · intro h
    obtain ⟨s₁, hstep, h⟩ := Except.bind_eq_ok.mp h
    obtain ⟨⟨⟩, henter, h⟩ := Except.bind_eq_ok.mp h
    cases h
    exact ⟨hstep, henter⟩
  · rintro ⟨hstep, henter⟩
    rw [turn, hstep]
    change (enter a).bind _ = _
    rw [henter]
    rfl

/-- **The walk is a loop over the labels,** in preorder, in which every label has its turn where the
walk enters it. -/
theorem walkM_eq_foldlM (t : Rose α) (s : σ) :
    walkM step enter t s = (t.subtrees.map label).foldlM (turn step enter) s := by
  induction t generalizing s with
  | node a ts ih =>
    have hlist : ∀ us : List (Rose α), (∀ u ∈ us, u ∈ ts) → ∀ s : σ, walkListM step enter us s =
        ((us.flatMap subtrees).map label).foldlM (turn step enter) s := by
      intro us hus
      induction us with
      | nil => exact fun _ => rfl
      | cons u us ihus =>
        intro s
        rw [walkListM, ih u (hus u List.mem_cons_self), List.flatMap_cons, List.map_append,
          List.foldlM_append]
        exact congrArg _ (funext fun s => ihus (fun v hv => hus v (List.mem_cons_of_mem _ hv)) s)
    rw [walkM, subtrees_node, List.map_cons, List.foldlM_cons, label_node, turn, bind_assoc]
    refine congrArg _ (funext fun s₁ => ?_)
    rw [bind_assoc]
    exact congrArg _ (funext fun _ => hlist ts (fun _ h => h) s₁)

/-- **What a walk keeps.** What holds before it, of nothing, and passes from each label to the next
holds of all labels of the tree in preorder; the walk stops at the first that raises. -/
theorem walkM_induct {P : List α → σ → Prop} {t : Rose α} {s s' : σ}
    (h : walkM step enter t s = .ok s') (start : P [] s)
    (hstep : ∀ done s a s', P done s → step s a = .ok s' → P (done ++ [a]) s') :
    P (t.subtrees.map label) s' := by
  rw [walkM_eq_foldlM] at h
  refine List.foldlM_induct (P := P) (fun done s a s' hP hturn => ?_) h start
  exact hstep done s a s' hP (turn_eq_ok_iff.mp hturn).1

end Rose
