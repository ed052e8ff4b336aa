/-
# Rose trees and top-down visits

Finite trees whose nodes carry a label and any number of children.  Programs
that walk such a tree from the root downwards mostly have one shape: a context
is handed from a node to its children, some nodes are not descended into, and
at every node reached an action updates a state.  `visit` lists what such a
walk reaches, in preorder, each subtree with the context it is reached in; the
walk itself is then a fold over that list.

`paths` is the visit that descends everywhere and collects the ancestors of
each subtree, nearest first.  `visit_eq_filterMap_paths` reads every other visit
off it: a subtree is reached in a context exactly when handing the context down
its ancestors gets there.  `foldl_visit_induct` is the induction rule for what
the fold preserves, the context of a node being justified by what was done at
its ancestors.
-/

import Mathlib.Data.List.Basic
import Mathlib.Data.Nat.Notation
import Mathlib.Tactic.Cases

/-- A finite tree: a label and the trees below it. -/
inductive Rose (α : Type*) where
  | node (label : α) (children : List (Rose α)) : Rose α

namespace Rose

variable {α κ σ : Type*}

/-- The label of the root. -/
def label : Rose α → α
  | node a _ => a

/-- The trees below the root. -/
def children : Rose α → List (Rose α)
  | node _ ts => ts

/-- A node has the label it was built with. -/
@[simp] theorem label_node (a : α) (ts : List (Rose α)) : (node a ts).label = a := rfl

/-- A node has the children it was built with. -/
@[simp] theorem children_node (a : α) (ts : List (Rose α)) : (node a ts).children = ts := rfl

/-- **Induction on a rose tree:** a property that passes from the trees below a
node to the node holds of every tree. -/
@[elab_as_elim, induction_eliminator]
theorem induct {motive : Rose α → Prop}
    (node : ∀ a ts, (∀ t ∈ ts, motive t) → motive (node a ts)) (t : Rose α) : motive t :=
  Rose.rec (motive_1 := motive) (motive_2 := fun ts => ∀ t ∈ ts, motive t) node
    (fun _ h => absurd h List.not_mem_nil)
    (fun _ _ hd tl _ h => (List.mem_cons.mp h).elim (fun e => e ▸ hd) (tl _)) t

/-! ### Visits -/

mutual

/-- What a walk reaches below `t` when it is entered in context `k`: every
subtree reached, in preorder, with its context.  `down k a` is the context for
the children of a node labelled `a`; at `none` the walk does not descend. -/
def visit (down : κ → α → Option κ) (k : κ) : Rose α → List (κ × Rose α)
  | node a ts => (k, node a ts) :: match down k a with
    | some k' => visitList down k' ts
    | none => []

/-- `visit` of each tree of a list, one after the other. -/
def visitList (down : κ → α → Option κ) (k : κ) : List (Rose α) → List (κ × Rose α)
  | [] => []
  | t :: ts => visit down k t ++ visitList down k ts

end

/-- Visiting the trees of a list is visiting each of them in turn. -/
theorem visitList_eq_flatMap (down : κ → α → Option κ) (k : κ) (ts : List (Rose α)) :
    visitList down k ts = ts.flatMap (visit down k) := by
  induction ts with
  | nil => rfl
  | cons t ts ih => rw [visitList, ih, List.flatMap_cons]

/-- A visit comes to the root first, and then, if the context can be handed down, to the children
one after another. -/
theorem visit_node (down : κ → α → Option κ) (k : κ) (a : α) (ts : List (Rose α)) :
    visit down k (node a ts) =
      (k, node a ts) :: ((down k a).toList.flatMap fun k' => ts.flatMap (visit down k')) := by
  rw [visit]
  cases down k a <;> simp [visitList_eq_flatMap]

/-- The root is reached first, in the context that the visit starts with. -/
theorem mem_visit_self (down : κ → α → Option κ) (k : κ) (t : Rose α) : (k, t) ∈ visit down k t := by
  cases t; rw [visit_node]; exact List.mem_cons_self

/-- Every subtree with its ancestors' labels, nearest first. -/
def paths (t : Rose α) : List (List α × Rose α) :=
  visit (fun anc a => some (a :: anc)) [] t

/-- Every subtree, in preorder. -/
def subtrees (t : Rose α) : List (Rose α) := t.paths.map Prod.snd

/-- The context that reaches a node below `anc` (nearest first), the outermost
of which is entered in context `k`. -/
def descend (down : κ → α → Option κ) (k : κ) : List α → Option κ
  | [] => some k
  | a :: anc => (descend down k anc).bind (down · a)

/-- Ancestors met on the way down are put before those already collected. -/
theorem visit_eq_filterMap_paths_from (down : κ → α → Option κ) (k : κ) (t : Rose α) (anc : List α) :
    ((visit (fun anc a => some (a :: anc)) anc t).filterMap fun p =>
        (descend down k p.1).map (·, p.2)) =
      (descend down k anc).toList.flatMap fun k' => visit down k' t := by
  induction t generalizing anc with
  | node a ts ih =>
    have below : ∀ us : List (Rose α), (∀ t ∈ us, t ∈ ts) →
        ((us.flatMap (visit (fun anc a => some (a :: anc)) (a :: anc))).filterMap fun p =>
          (descend down k p.1).map (·, p.2)) =
        ((descend down k anc).bind (down · a)).toList.flatMap fun k' =>
          us.flatMap (visit down k') := by
      intro us hus
      induction us with
      | nil => simp
      | cons u us ihu =>
        rw [List.flatMap_cons, List.filterMap_append, ih u (hus u List.mem_cons_self),
          ihu fun t h => hus t (List.mem_cons_of_mem _ h), descend]
        cases (descend down k anc).bind (down · a) <;> simp
    rw [visit_node]
    simp only [Option.toList_some, List.flatMap_cons, List.flatMap_nil, List.append_nil,
      List.filterMap_cons, below ts fun _ h => h]
    cases h : descend down k anc with
    | none => simp
    | some k' => simp [visit_node]

/-- **A visit is read off the paths.**  A subtree is reached in the context that
its ancestors hand down, and not at all if one of them is not descended into. -/
theorem visit_eq_filterMap_paths (down : κ → α → Option κ) (k : κ) (t : Rose α) :
    visit down k t = t.paths.filterMap fun p => (descend down k p.1).map (·, p.2) := by
  simpa [descend, paths] using (visit_eq_filterMap_paths_from down k t []).symm

/-- A subtree is reached in some context exactly if the ancestors on the way to it hand that context
down. -/
theorem mem_visit_iff {down : κ → α → Option κ} {k k' : κ} {t s : Rose α} :
    (k', s) ∈ visit down k t ↔ ∃ anc, (anc, s) ∈ t.paths ∧ descend down k anc = some k' := by
  rw [visit_eq_filterMap_paths, List.mem_filterMap]
  constructor
  · rintro ⟨⟨anc, s'⟩, hmem, h⟩
    obtain ⟨k'', hk, heq⟩ := Option.map_eq_some_iff.mp h
    obtain ⟨rfl, rfl⟩ := Prod.mk.inj heq
    exact ⟨anc, hmem, hk⟩
  · rintro ⟨anc, hmem, h⟩
    exact ⟨(anc, s), hmem, by rw [h]; rfl⟩

/-- What a visit reaches is a subtree: it never leaves the tree that it started in. -/
theorem mem_subtrees_of_mem_visit {down : κ → α → Option κ} {k : κ} {t : Rose α}
    {v : κ × Rose α} (h : v ∈ visit down k t) : v.2 ∈ t.subtrees := by
  obtain ⟨anc, hmem, -⟩ := mem_visit_iff.mp h
  exact List.mem_map_of_mem (f := Prod.snd) hmem

/-- What a visit reaches depends only on where it stops. -/
theorem visit_map_snd_congr {κ' : Type*} {down : κ → α → Option κ} {down' : κ' → α → Option κ'}
    (h : ∀ k k' a, (down k a).isSome = (down' k' a).isSome) (t : Rose α) (k : κ) (k' : κ') :
    (visit down k t).map Prod.snd = (visit down' k' t).map Prod.snd := by
  induction t generalizing k k' with
  | node a ts ih =>
    have hstop := h k k' a
    rw [visit_node, visit_node, List.map_cons, List.map_cons]
    cases hk : down k a <;> cases hk' : down' k' a <;> rw [hk, hk'] at hstop
    · rfl
    · exact absurd hstop (by simp)
    · exact absurd hstop (by simp)
    · simp only [Option.toList_some, List.flatMap_cons, List.flatMap_nil, List.append_nil,
        List.map_flatMap]
      rw [List.flatMap_congr fun t ht => ih t ht _ _]

/-- A visit that always descends reaches every subtree, in preorder. -/
theorem visit_map_snd_of_total {down : κ → α → Option κ} (h : ∀ k a, (down k a).isSome) (k : κ)
    (t : Rose α) : (visit down k t).map Prod.snd = t.subtrees :=
  visit_map_snd_congr (fun k _ a => by rw [h k a]; rfl) t k []

/-- The subtrees of a node are the node itself and those of its children, in preorder. -/
@[simp] theorem subtrees_node (a : α) (ts : List (Rose α)) :
    (node a ts).subtrees = node a ts :: ts.flatMap subtrees := by
  have total : ∀ t : Rose α, (visit (fun (_ : Unit) (_ : α) => some ()) () t).map Prod.snd =
      t.subtrees := fun t => visit_map_snd_of_total (fun _ _ => rfl) () t
  rw [← total, visit_node]
  simp only [Option.toList_some, List.flatMap_cons, List.flatMap_nil, List.append_nil,
    List.map_cons, List.map_flatMap, total]

/-- A tree is one of its own subtrees. -/
theorem mem_subtrees_self (t : Rose α) : t ∈ t.subtrees := by
  cases t
  rw [subtrees_node]
  exact List.mem_cons_self

/-- A child of a subtree is a subtree, so what holds of all subtrees can be used below each of them.
-/
theorem mem_subtrees_of_mem_children {t s child : Rose α} (hs : s ∈ t.subtrees)
    (hchild : child ∈ s.children) : child ∈ t.subtrees := by
  induction t with
  | node a ts ih =>
    rw [subtrees_node] at hs ⊢
    obtain rfl | hs := List.mem_cons.mp hs
    · exact List.mem_cons_of_mem _ (List.mem_flatMap.mpr ⟨child, hchild, mem_subtrees_self child⟩)
    · obtain ⟨t, ht, hs⟩ := List.mem_flatMap.mp hs
      exact List.mem_cons_of_mem _ (List.mem_flatMap.mpr ⟨t, ht, ih t ht hs⟩)

/-! ### Relabelling -/

mutual

/-- Relabel every node. -/
def map {β : Type*} (f : α → β) : Rose α → Rose β
  | node a ts => node (f a) (mapList f ts)

/-- Relabel every node of every tree of a list. -/
def mapList {β : Type*} (f : α → β) : List (Rose α) → List (Rose β)
  | [] => []
  | t :: ts => map f t :: mapList f ts

end

/-- Changing the labels of a list of trees is changing those of each. -/
theorem mapList_eq_map {β : Type*} (f : α → β) (ts : List (Rose α)) :
    mapList f ts = ts.map (map f) := by
  induction ts with
  | nil => rfl
  | cons t ts ih => rw [mapList, ih, List.map_cons]

/-- Changing the labels of a tree changes the labels that are met in preorder, and not the order. -/
theorem subtrees_map_label {β : Type*} (f : α → β) (t : Rose α) :
    (t.map f).subtrees.map label = (t.subtrees.map label).map f := by
  induction t with
  | node a ts ih =>
    rw [map, mapList_eq_map]
    simp only [subtrees_node, List.map_cons, label_node, List.map_flatMap, List.flatMap_map]
    rw [List.flatMap_congr fun t ht => ih t ht]

/-! ### Pruning -/

mutual

/-- Relabel every node, leaving out the subtrees below the root that `p` rejects. -/
def prune (p : Rose α → Bool) (f : α → α) : Rose α → Rose α
  | node a ts => node (f a) (pruneList p f ts)

/-- `prune` of the trees of a list that `p` accepts. -/
def pruneList (p : Rose α → Bool) (f : α → α) : List (Rose α) → List (Rose α)
  | [] => []
  | t :: ts => if p t then prune p f t :: pruneList p f ts else pruneList p f ts

end

/-- Pruning a list of trees drops those that are not accepted and prunes the others. -/
theorem pruneList_eq_map_filter (p : Rose α → Bool) (f : α → α) (ts : List (Rose α)) :
    pruneList p f ts = (ts.filter p).map (prune p f) := by
  induction ts with
  | nil => rfl
  | cons t ts ih =>
    rw [pruneList, ih, List.filter_cons]
    cases p t <;> rfl

/-- Pruning depends only on which of the subtrees are accepted. -/
theorem prune_congr {p p' : Rose α → Bool} {t : Rose α} (f : α → α)
    (h : ∀ s ∈ t.subtrees, p s = p' s) : prune p f t = prune p' f t := by
  induction t with
  | node a ts ih =>
    rw [subtrees_node] at h
    have hbelow : ∀ u ∈ ts, ∀ s ∈ u.subtrees, p s = p' s := fun u hu s hs =>
      h s (List.mem_cons_of_mem _ (List.mem_flatMap.mpr ⟨u, hu, hs⟩))
    have hroot : ∀ u ∈ ts, p u = p' u := fun u hu =>
      hbelow u hu u (mem_subtrees_self u)
    rw [prune, prune, pruneList_eq_map_filter, pruneList_eq_map_filter, List.filter_congr hroot]
    refine congrArg _ (List.map_congr_left fun u hu => ?_)
    have hmem := List.mem_of_mem_filter hu
    exact ih u hmem (hbelow u hmem)

/-- The same for the trees of a list, whose roots are asked too. -/
theorem pruneList_congr {p p' : Rose α → Bool} {ts : List (Rose α)} (f : α → α)
    (h : ∀ t ∈ ts, ∀ s ∈ t.subtrees, p s = p' s) : pruneList p f ts = pruneList p' f ts := by
  have hroot : ∀ t ∈ ts, p t = p' t := fun t ht => h t ht t (mem_subtrees_self t)
  rw [pruneList_eq_map_filter, pruneList_eq_map_filter, List.filter_congr hroot]
  exact List.map_congr_left fun t ht => prune_congr f (h t (List.mem_of_mem_filter ht))

/-- What accepts a node accepts the node above it. -/
def UpClosed (q : α → Bool) (t : Rose α) : Prop :=
  ∀ s ∈ t.subtrees, ∀ child ∈ s.children, q child.label = true → q s.label = true

section UpClosed

variable {q : α → Bool} {a : α} {t : Rose α} {ts : List (Rose α)}

/-- What is closed upwards in a tree is so in each of its children. -/
theorem UpClosed.child (h : UpClosed q (node a ts)) (ht : t ∈ ts) : UpClosed q t := by
  intro s hs
  refine h s ?_
  rw [subtrees_node]
  exact List.mem_cons_of_mem _ (List.mem_flatMap.mpr ⟨t, ht, hs⟩)

/-- What accepts the root of a child accepts the node above it. -/
theorem UpClosed.root (h : UpClosed q (node a ts)) (ht : t ∈ ts) (hq : q t.label = true) :
    q a = true := by
  refine h (node a ts) ?_ t ht hq
  rw [subtrees_node]
  exact List.mem_cons_self

/-- If the root is not accepted, nothing is: whatever were accepted below would be so up to the
root. -/
theorem UpClosed.filter_subtrees_of_not (h : UpClosed q t) (hroot : q t.label = false) :
    t.subtrees.filter (fun s => q s.label) = [] := by
  induction t with
  | node a ts ih =>
    have hbelow : ∀ u ∈ ts, u.subtrees.filter (fun s => q s.label) = [] := by
      intro u hu
      refine ih u hu (h.child hu) ?_
      cases hq : q u.label with
      | false => rfl
      | true => exact absurd (hroot.symm.trans (h.root hu hq)) Bool.false_ne_true
    rw [subtrees_node, List.filter_cons, if_neg (by simpa using hroot), List.filter_flatMap,
      List.flatMap_congr hbelow]
    exact List.flatMap_eq_nil_iff.mpr fun _ _ => rfl

/-- **Pruning loses nothing** that is accepted, if what is accepted is so up to the root. -/
theorem UpClosed.labels_prune (h : UpClosed q t) (hroot : q t.label = true) :
    (prune (fun t => q t.label) id t).subtrees.map label =
      (t.subtrees.filter fun s => q s.label).map label := by
  induction t with
  | node a ts ih =>
    have hbelow : ∀ us : List (Rose α), (∀ u ∈ us, u ∈ ts) →
        ((us.filter fun t => q t.label).flatMap fun u =>
          (prune (fun t => q t.label) id u).subtrees.map label) =
        us.flatMap fun u => (u.subtrees.filter fun s => q s.label).map label := by
      intro us hus
      induction us with
      | nil => rfl
      | cons u us ihus =>
        have hu := hus u List.mem_cons_self
        have hrest := ihus fun v hv => hus v (List.mem_cons_of_mem _ hv)
        rw [List.flatMap_cons, ← hrest, List.filter_cons]
        cases hq : q u.label with
        | true => rw [if_pos rfl, List.flatMap_cons, ih u hu (h.child hu) hq]
        | false =>
          rw [if_neg Bool.false_ne_true, (h.child hu).filter_subtrees_of_not hq, List.map_nil,
            List.nil_append]
    rw [prune, pruneList_eq_map_filter, subtrees_node, subtrees_node, List.filter_cons, if_pos hroot,
      List.map_cons, List.map_cons, List.map_flatMap, List.flatMap_map, hbelow ts fun _ h => h,
      List.filter_flatMap, List.map_flatMap]
    rfl

end UpClosed

mutual

/-- The tree down to depth `n`; the root is at depth 0. -/
def cut : ℕ → Rose α → Rose α
  | 0, node a _ => node a []
  | n + 1, node a ts => node a (cutList n ts)

/-- `cut` of each tree of a list. -/
def cutList (n : ℕ) : List (Rose α) → List (Rose α)
  | [] => []
  | t :: ts => cut n t :: cutList n ts

end

/-- Under a root the trees are cut one higher; at depth 0 there are none left. -/
theorem exists_cut_node (n : ℕ) (a : α) (ts : List (Rose α)) : ∃ us, cut n (node a ts) = node a us ∧
    (n = 0 ∧ us = [] ∨ ∃ m, n = m + 1 ∧ us = cutList m ts) := by
  cases n with
  | zero => exact ⟨[], rfl, Or.inl ⟨rfl, rfl⟩⟩
  | succ m => exact ⟨_, rfl, Or.inr ⟨m, rfl, rfl⟩⟩

/-- Cutting a list of trees at a depth is cutting each of them there. -/
theorem cutList_eq_map (n : ℕ) (ts : List (Rose α)) : cutList n ts = ts.map (cut n) := by
  induction ts with
  | nil => rfl
  | cons t ts ih => rw [cutList, ih, List.map_cons]

/-- Cutting a tree brings no new labels: what is left at a place had the same label before. -/
theorem exists_label_of_mem_subtrees_cut {n : ℕ} {t s : Rose α} (h : s ∈ (cut n t).subtrees) :
    ∃ s' ∈ t.subtrees, s'.label = s.label := by
  induction t generalizing n with
  | node a ts ih =>
    obtain ⟨us, hcut, hbelow⟩ := exists_cut_node n a ts
    rw [hcut, subtrees_node] at h
    obtain rfl | h := List.mem_cons.mp h
    · exact ⟨node a ts, mem_subtrees_self _, rfl⟩
    · obtain ⟨u, hu, hs⟩ := List.mem_flatMap.mp h
      obtain ⟨-, rfl⟩ | ⟨m, -, rfl⟩ := hbelow
      · exact absurd hu List.not_mem_nil
      · rw [cutList_eq_map] at hu
        obtain ⟨t, ht, rfl⟩ := List.mem_map.mp hu
        obtain ⟨s', hs', hlabel⟩ := ih t ht hs
        rw [subtrees_node]
        exact ⟨s', List.mem_cons_of_mem _ (List.mem_flatMap.mpr ⟨t, ht, hs'⟩), hlabel⟩

/-! ### Addresses -/

/-- The subtree at an address, which says at each node to which child to go. -/
def subtreeAt : List ℕ → Rose α → Option (Rose α)
  | [], t => some t
  | i :: address, t => t.children[i]?.bind (subtreeAt address)

/-- What holds at every address holds at the root and below each child. -/
theorem forall_subtreeAt_iff {a : α} {ts : List (Rose α)} {P : List ℕ → Rose α → Prop} :
    (∀ address s, subtreeAt address (node a ts) = some s → P address s) ↔
      P [] (node a ts) ∧ ∀ i t, ts[i]? = some t →
        ∀ address s, subtreeAt address t = some s → P (i :: address) s := by
  constructor
  · exact fun h => ⟨h [] _ rfl, fun i t ht address s hs =>
      h (i :: address) s (Option.bind_eq_some_iff.mpr ⟨t, ht, hs⟩)⟩
  · rintro ⟨hroot, hbelow⟩ address s hs
    cases address with
    | nil =>
      cases hs
      exact hroot
    | cons i address =>
      obtain ⟨t, ht, hs⟩ := Option.bind_eq_some_iff.mp hs
      exact hbelow i t ht address s hs

/-! ### Folds over a visit -/

/-- **What a top-down walk preserves.**  `Good k s` says that the state `s`
justifies the context `k`.  If a step keeps the invariant, keeps every context
justified that was, and justifies the context it hands down, then the walk keeps
the invariant and the contexts it began with. -/
theorem foldl_visit_induct {down : κ → α → Option κ} (step : σ → κ × Rose α → σ)
    (Inv : σ → Prop) (Good : κ → σ → Prop) (P : κ × Rose α → Prop)
    (hinv : ∀ s v, P v → Inv s → Good v.1 s → Inv (step s v))
    (hkeep : ∀ s v k, P v → Inv s → Good v.1 s → Good k s → Good k (step s v))
    (hdown : ∀ s v k, P v → Inv s → Good v.1 s → down v.1 v.2.label = some k → Good k (step s v))
    (t : Rose α) (k : κ) (hP : ∀ v ∈ visit down k t, P v) :
    ∀ s, Inv s → Good k s → Inv ((visit down k t).foldl step s) ∧
      ∀ k₀, Good k₀ s → Good k₀ ((visit down k t).foldl step s) := by
  induction t generalizing k with
  | node a ts ih =>
    intro s hi hg
    have hroot : P (k, node a ts) := hP _ (mem_visit_self ..)
    have below : ∀ (k' : κ) (us : List (Rose α)), (∀ t ∈ us, t ∈ ts) →
        (∀ v ∈ us.flatMap (visit down k'), P v) → ∀ s, Inv s → Good k' s →
        Inv ((us.flatMap (visit down k')).foldl step s) ∧
          ∀ k₀, Good k₀ s → Good k₀ ((us.flatMap (visit down k')).foldl step s) := by
      intro k' us hus
      induction us with
      | nil => intro _ s hi _; exact ⟨hi, fun _ h => h⟩
      | cons u us ihu =>
        intro hPu s hi hg
        rw [List.flatMap_cons] at hPu ⊢
        rw [List.foldl_append]
        obtain ⟨hi₁, hg₁⟩ := ih u (hus u List.mem_cons_self) k'
          (fun v hv => hPu v (List.mem_append_left _ hv)) s hi hg
        obtain ⟨hi₂, hg₂⟩ := ihu (fun t h => hus t (List.mem_cons_of_mem _ h))
          (fun v hv => hPu v (List.mem_append_right _ hv)) _ hi₁ (hg₁ k' hg)
        exact ⟨hi₂, fun k₀ h => hg₂ k₀ (hg₁ k₀ h)⟩
    rw [visit_node] at hP ⊢
    rw [List.foldl_cons]
    have hi₁ := hinv s _ hroot hi hg
    have hg₁ := fun k₀ => hkeep s _ k₀ hroot hi hg
    cases hk : down k a with
    | none => simpa using ⟨hi₁, hg₁⟩
    | some k' =>
      rw [hk] at hP
      simp only [Option.toList_some, List.flatMap_cons, List.flatMap_nil, List.append_nil] at hP ⊢
      obtain ⟨hi₂, hg₂⟩ := below k' ts (fun _ h => h)
        (fun v hv => hP v (List.mem_cons_of_mem _ hv)) _ hi₁ (hdown s _ k' hroot hi hg hk)
      exact ⟨hi₂, fun k₀ h => hg₂ k₀ (hg₁ k₀ h)⟩

end Rose
