/-
# Grouping a stream, and sorted lists

Items are grouped by a key, as `d.setdefault(key(item), []).append(item)` does.  The group of a key
are the items that have it, in the order of the stream (`getD_get_groups`), so the number of them
and what they say together do not depend on that order.

A list that is sorted strictly is determined by its members (`List.eq_of_sorted`).
-/

import CppMcp.Lib.OrderedDict
import Mathlib.Algebra.BigOperators.Group.List.Lemmas
import Mathlib.Algebra.GroupWithZero.Nat
import Mathlib.Data.List.Induction
import Mathlib.Data.List.Sort

/-- **A list that is sorted strictly is determined by its members.** -/
theorem List.eq_of_sorted {α : Type*} {R : α → α → Prop} (hasymm : ∀ a b, R a b → ¬R b a)
    {l l' : List α} (hl : l.Pairwise R) (hl' : l'.Pairwise R) (h : ∀ a, a ∈ l ↔ a ∈ l') :
    l = l' := by
  have hne : ∀ {a b : α}, R a b → a ≠ b := fun hab heq => hasymm _ _ hab (heq ▸ hab)
  have hperm : l.Perm l' := (List.perm_ext_iff_of_nodup (hl.imp hne) (hl'.imp hne)).mpr h
  exact hperm.eq_of_pairwise (fun a b _ _ hab hba => absurd hba (hasymm a b hab)) hl hl'

namespace OrderedDict

variable {α κ : Type*} [DecidableEq κ]

/-- `d.setdefault(key, []).append(item)`. -/
def append (d : OrderedDict κ (List α)) (key : κ) (item : α) : OrderedDict κ (List α) :=
  (d.add key []).modify key fun group => group ++ [item]

/-- The items of a stream, by their keys. -/
def groups (key : α → κ) (items : List α) : OrderedDict κ (List α) :=
  items.foldl (fun d item => d.append (key item) item) empty

/-- The groups of items taken in one after another: the last one is put at the end of the group of
its key. -/
theorem groups_concat (key : α → κ) (items : List α) (item : α) :
    groups key (items ++ [item]) = (groups key items).append (key item) item :=
  List.foldl_concat ..

/-- Putting an item into a group adds its key if that is new, and leaves the keys in order. -/
theorem keys_append (d : OrderedDict κ (List α)) (key : κ) (item : α) :
    (d.append key item).keys = if key ∈ d.keys then d.keys else d.keys ++ [key] := by
  rw [append, keys_modify, keys_add]

/-- Putting an item into a group changes that group, and no other. -/
theorem getD_get_append (d : OrderedDict κ (List α)) (key key' : κ) (item : α) :
    ((d.append key item).get key').getD [] =
      if key = key' then (d.get key').getD [] ++ [item] else (d.get key').getD [] := by
  by_cases h : key = key'
  · subst h
    rw [append, get_modify_self, get_add_self, if_pos rfl]
    rfl
  · rw [append, get_modify_of_ne (Ne.symm h), get_add_of_ne (Ne.symm h), if_neg h]

/-- A key has a group if an item has it. -/
theorem mem_keys_groups {key : α → κ} {items : List α} {k : κ} :
    k ∈ (groups key items).keys ↔ ∃ item ∈ items, key item = k := by
  induction items using List.reverseRecOn with
  | nil => simp [groups]
  | append_singleton items item ih =>
    have hconcat : k ∈ (groups key (items ++ [item])).keys ↔
        k ∈ (groups key items).keys ∨ key item = k := by
      rw [groups_concat, keys_append]
      split_ifs with hmem
      · exact ⟨Or.inl, fun h => h.elim id fun heq => heq ▸ hmem⟩
      · rw [List.mem_append, List.mem_singleton, eq_comm (a := k)]
    rw [hconcat, ih]
    simp only [List.mem_append, List.mem_singleton, or_and_right, exists_or, exists_eq_left]

/-- **The group of a key are the items that have it.** -/
theorem getD_get_groups (key : α → κ) (items : List α) (k : κ) :
    ((groups key items).get k).getD [] = items.filter fun item => decide (key item = k) := by
  induction items using List.reverseRecOn with
  | nil => rfl
  | append_singleton items item ih =>
    rw [groups_concat, getD_get_append, ih, List.filter_append, List.filter_singleton]
    by_cases h : key item = k
    · rw [if_pos h, decide_eq_true h]
      rfl
    · rw [if_neg h, decide_eq_false h]
      exact (List.append_nil _).symm

/-- The groups and their keys: a key stands with exactly the items that have it, in their order, and
no group is empty. -/
theorem mem_items_groups {key : α → κ} {items : List α} {k : κ} {group : List α} :
    (k, group) ∈ (groups key items).items ↔
      group = (items.filter fun item => decide (key item = k)) ∧ group ≠ [] := by
  have hget : (k, group) ∈ (groups key items).items ↔ (groups key items).get k = some group :=
    get_eq_some_iff.symm
  have hgroup := getD_get_groups key items k
  rw [hget]
  constructor
  · intro h
    rw [h, Option.getD_some] at hgroup
    obtain ⟨item, hitem, hkey⟩ := mem_keys_groups.mp (isSome_get_iff.mp (by rw [h]; rfl))
    refine ⟨hgroup, List.ne_nil_of_mem (a := item) ?_⟩
    rw [hgroup]
    exact List.mem_filter.mpr ⟨hitem, decide_eq_true hkey⟩
  · rintro ⟨rfl, hne⟩
    obtain ⟨item, hitem⟩ := List.exists_mem_of_ne_nil _ hne
    obtain ⟨hmem, hkey⟩ := List.mem_filter.mp hitem
    have hsome := isSome_get_iff.mpr (mem_keys_groups.mpr ⟨item, hmem, of_decide_eq_true hkey⟩)
    obtain ⟨group, hg⟩ := Option.isSome_iff_exists.mp hsome
    rw [hg, Option.getD_some] at hgroup
    rw [hg, hgroup]

/-- Every item is in one group, so the groups together have as many items as there are. -/
theorem sum_length_groups (key : α → κ) (items : List α) :
    ((groups key items).items.map fun group => group.2.length).sum = items.length := by
  have hcount : (groups key items).items.map (fun group => group.2.length) =
      (groups key items).keys.map fun k => (items.map key).count k := by
    rw [keys, List.map_map]
    refine List.map_congr_left fun group hgroup => ?_
    obtain ⟨hfilter, -⟩ := mem_items_groups.mp hgroup
    rw [Function.comp_apply, List.count, List.countP_map, List.countP_eq_length_filter, hfilter]
    rfl
  have hkeys : (groups key items).keys.Perm (items.map key).dedup := by
    have hnodup : (groups key items).keys.Nodup := (groups key items).nodup
    refine (List.perm_ext_iff_of_nodup hnodup (List.nodup_dedup _)).mpr fun k => ?_
    rw [mem_keys_groups, List.mem_dedup, List.mem_map]
  rw [hcount, (hkeys.map _).sum_eq, List.sum_map_count_dedup_eq_length, List.length_map]

end OrderedDict
