/-
# Writing into a dictionary

An `Upsert` is a write to the item of one key: where there is none it is made, if the write
says with what, and then its value is changed.  What a list of writes does at a key is what the
writes to that key do (`get_upsertAll`), so a list of writes leaves the dictionary as it is
exactly when it does so at every key (`upsertAll_eq_self_iff`), and writing the list twice
is writing it once if that is so at every key (`upsertAll_upsertAll`).

`setAll` sets key after key, and the last value of a key stays.
-/

import CppMcp.Lib.OrderedDict
import Mathlib.Data.List.Perm.Subperm
import Mathlib.Data.Prod.Basic

/-- A write to the item of `key`. -/
structure Upsert (κ ν : Type*) where
  key : κ
  new : Option ν
  change : ν → ν

namespace Upsert

variable {κ ν : Type*}

/-- What becomes of the value at the key. -/
def cell (value : Option ν) (u : Upsert κ ν) : Option ν := (value.or u.new).map u.change

/-- A value that is there is changed by one write after the other. -/
theorem foldl_cell_some (us : List (Upsert κ ν)) (value : ν) :
    us.foldl cell (some value) = some (us.foldl (fun value u => u.change value) value) := by
  induction us generalizing value with
  | nil => rfl
  | cons u us ih => exact ih (u.change value)

/-- No value is made if no write makes one. -/
theorem foldl_cell_none_iff {us : List (Upsert κ ν)} :
    us.foldl cell none = none ↔ ∀ u ∈ us, u.new = none := by
  induction us with
  | nil => exact ⟨fun _ u hu => absurd hu List.not_mem_nil, fun _ => rfl⟩
  | cons u us ih =>
    rw [List.foldl_cons, List.forall_mem_cons]
    cases hnew : u.new with
    | none =>
      have hcell : cell none u = none := by rw [cell, hnew]; rfl
      rw [hcell, ih]
      exact ⟨fun h => ⟨rfl, h⟩, And.right⟩
    | some new =>
      have hcell : cell none u = some (u.change new) := by rw [cell, hnew]; rfl
      rw [hcell, foldl_cell_some]
      exact ⟨fun h => absurd h (by simp), fun h => absurd h.1 (by simp)⟩

/-- A value that comes out has been through all the writes, where either all of them make an
item or none does: the first of them makes it. -/
theorem exists_of_foldl_cell {us : List (Upsert κ ν)}
    (hnew : ∀ u ∈ us, ∀ u' ∈ us, u.new = none → u'.new = none) {old : Option ν} {value : ν}
    (h : us.foldl cell old = some value) :
    ∃ first, us.foldl (fun value u => u.change value) first = value := by
  cases old with
  | some old =>
    rw [foldl_cell_some] at h
    exact ⟨old, Option.some.inj h⟩
  | none =>
    cases us with
    | nil => exact absurd h (by simp)
    | cons u us =>
      cases hu : u.new with
      | none =>
        rw [foldl_cell_none_iff.mpr fun u' hu' => hnew u List.mem_cons_self u' hu' hu] at h
        exact absurd h (by simp)
      | some new =>
        have hcell : cell none u = some (u.change new) := by rw [cell, hu]; rfl
        rw [List.foldl_cons, hcell, foldl_cell_some] at h
        exact ⟨new, Option.some.inj h⟩

/-- **What no write changes is as it was made,** by the first write that makes the item. -/
theorem map_foldl_cell {γ : Type*} {π : ν → γ} {us : List (Upsert κ ν)}
    (hchange : ∀ u ∈ us, ∀ value, π (u.change value) = π value) (old : Option ν) :
    (us.foldl cell old).map π = (old.or (us.findSome? Upsert.new)).map π := by
  induction us generalizing old with
  | nil => rw [List.foldl_nil, List.findSome?_nil, Option.or_none]
  | cons u us ih =>
    obtain ⟨hu, hus⟩ := List.forall_mem_cons.mp hchange
    rw [List.foldl_cons, ih hus, List.findSome?_cons]
    cases old with
    | some value => exact congrArg some (hu value)
    | none =>
      cases hnew : u.new with
      | some value =>
        rw [cell, hnew]
        exact congrArg some (hu value)
      | none =>
        rw [cell, hnew]
        rfl

end Upsert

namespace OrderedDict

variable {κ ν : Type*} [DecidableEq κ] {d d' : OrderedDict κ ν}

/-! ### When two dictionaries are the same -/

/-- A dictionary is its keys, in their order, and their values. -/
theorem ext_get (hkeys : d.keys = d'.keys) (hget : ∀ key, d.get key = d'.get key) : d = d' := by
  have hitems : ∀ d : OrderedDict κ ν,
      d.items.map (Prod.map id some) = d.keys.map fun key => (key, d.get key) := by
    intro d
    rw [keys, List.map_map]
    refine List.map_congr_left fun item hitem => ?_
    rw [Function.comp_apply, get_eq_some_iff.mpr hitem]
    rfl
  have hinj : Function.Injective (Prod.map id some : κ × ν → κ × Option ν) :=
    Function.Injective.prodMap Function.injective_id fun _ _ => Option.some.inj
  refine ext_items (List.map_injective_iff.mpr hinj ?_)
  rw [hitems, hitems, hkeys]
  exact List.map_congr_left fun key _ => by rw [hget]

omit [DecidableEq κ] in
/-- Keys that are only added, and none of them new, are the keys that were there. -/
theorem keys_eq_of_prefix_trans (hkeys : d.keys <+: d'.keys) (hsub : d'.keys ⊆ d.keys) :
    d.keys = d'.keys :=
  hkeys.eq_of_length_le (List.subperm_of_subset d'.nodup hsub).length_le

/-- Where keys are only added, a dictionary with the same values has no more of them. -/
theorem eq_of_prefix_trans (hkeys : d.keys <+: d'.keys) (hget : ∀ key, d'.get key = d.get key) :
    d' = d := by
  have hsub : d'.keys ⊆ d.keys := fun key hkey => by
    by_contra hnew
    exact get_eq_none_iff.mp ((hget key).trans (get_eq_none_iff.mpr hnew)) hkey
  exact (ext_get (keys_eq_of_prefix_trans hkeys hsub) fun key => (hget key).symm).symm

/-! ### Writes -/

/-- The item is made, if the write says with what and there is none, and then changed. -/
def upsert (d : OrderedDict κ ν) (u : Upsert κ ν) : OrderedDict κ ν :=
  (u.new.elim d (d.add u.key)).modify u.key u.change

/-- One write after the other. -/
def upsertAll (us : List (Upsert κ ν)) (d : OrderedDict κ ν) : OrderedDict κ ν :=
  us.foldl upsert d

/-- A change that gives back what it is given changes nothing. -/
theorem modify_id (d : OrderedDict κ ν) (key : κ) : d.modify key id = d := by
  refine ext_items ((List.map_congr_left fun item _ => ?_).trans (List.map_id _))
  split_ifs <;> rfl

/-- Where there is no item there is nothing to change. -/
theorem modify_of_not_mem {key : κ} (h : key ∉ d.keys) (f : ν → ν) : d.modify key f = d := by
  refine ext_items ((List.map_congr_left fun item hitem => ?_).trans (List.map_id _))
  refine if_neg fun hkey => h ?_
  rw [← hkey]
  exact mem_keys_iff.mpr ⟨item.2, hitem⟩

/-- Two changes under one key are one, the second after the first. -/
theorem modify_modify (d : OrderedDict κ ν) (key : κ) (f g : ν → ν) :
    (d.modify key f).modify key g = d.modify key fun value => g (f value) := by
  refine ext_items ((List.map_map ..).trans (List.map_congr_left fun item _ => ?_))
  rw [Function.comp_apply]
  split_ifs <;> rfl

/-- What a write leaves at its own key is what it makes of the value that was there, or of none. -/
theorem get_upsert_self (u : Upsert κ ν) : (d.upsert u).get u.key = u.cell (d.get u.key) := by
  rw [upsert, get_modify_self, Upsert.cell]
  cases u.new with
  | none => rw [Option.elim_none, Option.or_none]
  | some new =>
    rw [Option.elim_some, get_add_self]
    cases d.get u.key <;> rfl

/-- A write leaves what stands at other keys. -/
theorem get_upsert_of_ne {u : Upsert κ ν} {key : κ} (h : key ≠ u.key) :
    (d.upsert u).get key = d.get key := by
  rw [upsert, get_modify_of_ne h]
  cases u.new with
  | none => rfl
  | some new => exact get_add_of_ne h

/-- A write takes no key away, and leaves those that were there in their places. -/
theorem keys_prefix_upsert (d : OrderedDict κ ν) (u : Upsert κ ν) :
    d.keys <+: (d.upsert u).keys := by
  rw [upsert, keys_modify]
  cases u.new with
  | none => exact List.prefix_rfl
  | some new =>
    rw [Option.elim_some, keys_add]
    split_ifs
    · exact List.prefix_rfl
    · exact List.prefix_append _ _

/-- Nor do several writes one after the other. -/
theorem keys_prefix_upsertAll (us : List (Upsert κ ν)) (d : OrderedDict κ ν) :
    d.keys <+: (upsertAll us d).keys := by
  induction us generalizing d with
  | nil => exact List.prefix_rfl
  | cons u us ih => exact (d.keys_prefix_upsert u).trans (ih _)

/-- What no change touches stays in its place: the items that were there keep, in front and in their
order, whatever part of their values all the writes respect. -/
theorem map_items_prefix_upsertAll {γ : Type*} {π : ν → γ} {us : List (Upsert κ ν)}
    (h : ∀ u ∈ us, ∀ value, π (u.change value) = π value) (d : OrderedDict κ ν) :
    (d.items.map fun item => (item.1, π item.2)) <+:
      (upsertAll us d).items.map fun item => (item.1, π item.2) := by
  induction us generalizing d with
  | nil => exact List.prefix_rfl
  | cons u us ih =>
    obtain ⟨hu, hus⟩ := List.forall_mem_cons.mp h
    refine List.IsPrefix.trans ?_ (ih hus (d.upsert u))
    have hmodify : ∀ d : OrderedDict κ ν,
        ((d.modify u.key u.change).items.map fun item => (item.1, π item.2)) =
          d.items.map fun item => (item.1, π item.2) := fun d => by
      rw [modify, List.map_map]
      refine List.map_congr_left fun item _ => ?_
      rw [Function.comp_apply]
      split_ifs
      · exact congrArg (item.1, ·) (hu item.2)
      · rfl
    rw [upsert, hmodify]
    cases u.new with
    | none => exact List.prefix_rfl
    | some new =>
      rw [Option.elim_some, add]
      split_ifs
      · exact List.prefix_rfl
      · exact (List.prefix_append d.items _).map _

/-- **The value at a key** is the outcome of the writes to that key. -/
theorem get_upsertAll (us : List (Upsert κ ν)) (d : OrderedDict κ ν) (key : κ) :
    (upsertAll us d).get key =
      (us.filter fun u => u.key = key).foldl Upsert.cell (d.get key) := by
  induction us generalizing d with
  | nil => rfl
  | cons u us ih =>
    rw [upsertAll, List.foldl_cons, ← upsertAll, ih]
    by_cases h : u.key = key
    · subst h
      rw [List.filter_cons_of_pos (by simp), get_upsert_self]
      rfl
    · rw [List.filter_cons_of_neg (by simpa using h), get_upsert_of_ne (Ne.symm h)]

/-- A key is there if it was or if a write makes its item. -/
theorem mem_keys_upsertAll_iff {us : List (Upsert κ ν)} {key : κ} :
    key ∈ (upsertAll us d).keys ↔ key ∈ d.keys ∨ ∃ u ∈ us, u.new.isSome ∧ u.key = key := by
  rw [← not_iff_not, ← get_eq_none_iff, get_upsertAll, not_or, ← get_eq_none_iff]
  cases d.get key with
  | some value =>
    rw [Upsert.foldl_cell_some]
    exact ⟨fun h => absurd h (by simp), fun h => absurd h.1 (by simp)⟩
  | none =>
    rw [Upsert.foldl_cell_none_iff]
    constructor
    · rintro h
      refine ⟨rfl, ?_⟩
      rintro ⟨u, hu, hnew, hkey⟩
      rw [h u (List.mem_filter.mpr ⟨hu, decide_eq_true hkey⟩)] at hnew
      exact absurd hnew (by simp)
    · rintro ⟨-, h⟩ u hu
      obtain ⟨hu, hkey⟩ := List.mem_filter.mp hu
      exact Option.not_isSome_iff_eq_none.mp fun hnew => h ⟨u, hu, hnew, of_decide_eq_true hkey⟩

/-- **What holds of every item** is kept by writes that each keep it at their key. -/
theorem forall_get_upsertAll {P : κ → ν → Prop} {us : List (Upsert κ ν)}
    (hd : ∀ key value, d.get key = some value → P key value)
    (hnew : ∀ u ∈ us, ∀ value, u.new = some value → P u.key (u.change value))
    (hchange : ∀ u ∈ us, ∀ value, P u.key value → P u.key (u.change value)) {key : κ} {value : ν}
    (h : (upsertAll us d).get key = some value) : P key value := by
  induction us generalizing d with
  | nil => exact hd key value h
  | cons u us ih =>
    obtain ⟨hu, hus⟩ := List.forall_mem_cons.mp hnew
    obtain ⟨hu', hus'⟩ := List.forall_mem_cons.mp hchange
    refine ih (fun key value hget => ?_) hus hus' h
    by_cases hkey : key = u.key
    · subst hkey
      rw [get_upsert_self, Upsert.cell, Option.map_eq_some_iff] at hget
      obtain ⟨old, hold, rfl⟩ := hget
      cases hd' : d.get u.key with
      | none =>
        rw [hd', Option.none_or] at hold
        exact hu old hold
      | some value =>
        rw [hd', Option.some_or] at hold
        cases hold
        exact hu' _ (hd _ _ hd')
    · rw [get_upsert_of_ne hkey] at hget
      exact hd key value hget

/-- Started with none, a key is there because of one of the writes. -/
theorem exists_of_mem_keys_upsertAll {ι : Type*} {u : ι → Upsert κ ν} {is : List ι} {key : κ}
    (h : key ∈ (upsertAll (is.map u) .empty).keys) : ∃ i ∈ is, key = (u i).key := by
  obtain ⟨v, hv, -, rfl⟩ := (mem_keys_upsertAll_iff.mp h).resolve_left List.not_mem_nil
  obtain ⟨i, hi, rfl⟩ := List.mem_map.mp hv
  exact ⟨i, hi, rfl⟩

/-- No key is added exactly if every write that would make an item finds one. -/
theorem keys_upsertAll_eq_iff {us : List (Upsert κ ν)} :
    (upsertAll us d).keys = d.keys ↔ ∀ u ∈ us, u.new.isSome → u.key ∈ d.keys := by
  constructor
  · intro h u hu hnew
    rw [← h]
    exact mem_keys_upsertAll_iff.mpr (Or.inr ⟨u, hu, hnew, rfl⟩)
  · refine fun h => (keys_eq_of_prefix_trans (keys_prefix_upsertAll us d) fun key hkey => ?_).symm
    rcases mem_keys_upsertAll_iff.mp hkey with hkey | ⟨u, hu, hnew, rfl⟩
    · exact hkey
    · exact h u hu hnew

/-- **Writes that change nothing:** no item is made, and at every key that is there the changes
give the value back. -/
theorem upsertAll_eq_self_iff {us : List (Upsert κ ν)} :
    upsertAll us d = d ↔
      (∀ u ∈ us, u.new.isSome → u.key ∈ d.keys) ∧
        ∀ key value, d.get key = some value →
          (us.filter fun u => u.key = key).foldl (fun value u => u.change value) value = value := by
  have hcell : upsertAll us d = d ↔
      ∀ key, (us.filter fun u => u.key = key).foldl Upsert.cell (d.get key) = d.get key := by
    refine ⟨fun h key => by rw [← get_upsertAll, h], fun h => ?_⟩
    exact eq_of_prefix_trans (keys_prefix_upsertAll us d) fun key =>
      (get_upsertAll us d key).trans (h key)
  rw [hcell]
  constructor
  · refine fun h => ⟨fun u hu hnew => ?_, fun key value hget => ?_⟩
    · by_contra hkey
      have hkey' := h u.key
      rw [get_eq_none_iff.mpr hkey, Upsert.foldl_cell_none_iff] at hkey'
      rw [hkey' u (List.mem_filter.mpr ⟨hu, decide_eq_true rfl⟩)] at hnew
      exact absurd hnew (by simp)
    · have hkey := h key
      rw [hget, Upsert.foldl_cell_some] at hkey
      exact Option.some.inj hkey
  · rintro ⟨hnew, hchange⟩ key
    cases hget : d.get key with
    | none =>
      refine Upsert.foldl_cell_none_iff.mpr fun u hu => ?_
      obtain ⟨hu, hk⟩ := List.mem_filter.mp hu
      have hk := of_decide_eq_true hk
      exact Option.not_isSome_iff_eq_none.mp fun h =>
        get_eq_none_iff.mp hget (hk ▸ hnew u hu h)
    | some value => rw [Upsert.foldl_cell_some, hchange key value hget]

/-- **Writing twice is writing once,** if the writes to a key either all make its item or none
does, and changing twice is changing once. -/
theorem upsertAll_upsertAll {us : List (Upsert κ ν)}
    (hnew : ∀ u ∈ us, ∀ u' ∈ us, u.key = u'.key → u.new = none → u'.new = none)
    (hchange : ∀ key value,
      let changes := fun value => (us.filter fun u => u.key = key).foldl
        (fun value u => u.change value) value
      changes (changes value) = changes value) :
    upsertAll us (upsertAll us d) = upsertAll us d := by
  rw [upsertAll_eq_self_iff]
  refine ⟨fun u hu hsome => ?_, fun key value hget => ?_⟩
  · by_contra hkey
    have hnone := get_eq_none_iff.mpr hkey
    rw [get_upsertAll] at hnone
    cases hget : d.get u.key with
    | none =>
      rw [hget, Upsert.foldl_cell_none_iff] at hnone
      rw [hnone u (List.mem_filter.mpr ⟨hu, decide_eq_true rfl⟩)] at hsome
      exact absurd hsome (by simp)
    | some value =>
      rw [hget, Upsert.foldl_cell_some] at hnone
      exact absurd hnone (by simp)
  · rw [get_upsertAll] at hget
    obtain ⟨old, rfl⟩ := Upsert.exists_of_foldl_cell (fun u hu u' hu' => by
      obtain ⟨hu, hkey⟩ := List.mem_filter.mp hu
      obtain ⟨hu', hkey'⟩ := List.mem_filter.mp hu'
      exact hnew u hu u' hu' ((of_decide_eq_true hkey).trans (of_decide_eq_true hkey').symm)) hget
    exact hchange key old

/-- Of writes that each do what a list says, those to one key do what one list says. -/
theorem exists_foldl_change {ι γ : Type*} {u : ι → Upsert κ ν} {act : List γ → ν → ν}
    {ps : ι → List γ} (hchange : ∀ i value, (u i).change value = act (ps i) value)
    (hnil : ∀ value, act [] value = value)
    (happend : ∀ p q value, act (p ++ q) value = act q (act p value)) (key : κ) (is : List ι) :
    ∃ p, ∀ value, ((is.map u).filter fun u => u.key = key).foldl
      (fun value u => u.change value) value = act p value := by
  induction is with
  | nil => exact ⟨[], fun value => (hnil value).symm⟩
  | cons i is ih =>
    obtain ⟨p, hp⟩ := ih
    rw [List.map_cons]
    by_cases hkey : (u i).key = key
    · refine ⟨ps i ++ p, fun value => ?_⟩
      rw [List.filter_cons_of_pos (by simpa using hkey), List.foldl_cons, hp, hchange, happend]
    · refine ⟨p, fun value => ?_⟩
      rw [List.filter_cons_of_neg (by simpa using hkey), hp]

/-- The same of writes that each do what a list says. -/
theorem upsertAll_map_twice {ι γ : Type*} {u : ι → Upsert κ ν} (act : List γ → ν → ν)
    (ps : ι → List γ) (hchange : ∀ i value, (u i).change value = act (ps i) value)
    (hnil : ∀ value, act [] value = value)
    (happend : ∀ p q value, act (p ++ q) value = act q (act p value))
    (htwice : ∀ p value, act p (act p value) = act p value)
    (hnew : ∀ i j, (u i).key = (u j).key → (u i).new = none → (u j).new = none) (is : List ι)
    (d : OrderedDict κ ν) :
    upsertAll (is.map u) (upsertAll (is.map u) d) = upsertAll (is.map u) d := by
  refine upsertAll_upsertAll (fun v hv v' hv' => ?_) fun key value => ?_
  · obtain ⟨i, -, rfl⟩ := List.mem_map.mp hv
    obtain ⟨j, -, rfl⟩ := List.mem_map.mp hv'
    exact hnew i j
  · obtain ⟨p, hp⟩ := exists_foldl_change hchange hnil happend key is
    simp only [hp, htwice]

/-! ### Setting key after key -/

/-- The keys are set in their order. -/
def setAll (d : OrderedDict κ ν) (ps : List (κ × ν)) : OrderedDict κ ν :=
  ps.foldl (fun d p => d.set p.1 p.2) d

/-- Setting a list of items begins with the first. -/
theorem setAll_cons (d : OrderedDict κ ν) (p : κ × ν) (ps : List (κ × ν)) :
    d.setAll (p :: ps) = (d.set p.1 p.2).setAll ps := rfl

/-- Setting two lists of items is setting the second after the first. -/
theorem setAll_append (d : OrderedDict κ ν) (ps ps' : List (κ × ν)) :
    d.setAll (ps ++ ps') = (d.setAll ps).setAll ps' :=
  List.foldl_append ..

/-- The last value stays: what is found under a key is the last of the values set for it, or what
was there if none was set. -/
theorem get_setAll (ps : List (κ × ν)) (d : OrderedDict κ ν) (key : κ) :
    (d.setAll ps).get key = (ps.reverse.lookup key).or (d.get key) := by
  induction ps generalizing d with
  | nil => rw [List.reverse_nil, List.lookup_nil, Option.none_or]; rfl
  | cons p ps ih =>
    rw [setAll, List.foldl_cons, ← setAll, ih, List.reverse_cons, List.lookup_append,
      Option.or_assoc, List.lookup_cons, List.lookup_nil]
    by_cases h : key = p.1
    · subst h
      rw [get_set_self, beq_self_eq_true]
      rfl
    · rw [get_set_of_ne h, beq_false_of_ne h]
      rfl

/-- What is looked up is one of the items. -/
theorem mem_of_lookup_reverse {ps : List (κ × ν)} {key : κ} {value : ν}
    (h : ps.reverse.lookup key = some value) : (key, value) ∈ ps := by
  obtain ⟨l₁, l₂, heq, -⟩ := List.lookup_eq_some_iff.mp h
  rw [← List.mem_reverse, heq]
  exact List.mem_append_right _ List.mem_cons_self

/-- A key that is not among the items is not looked up in them. -/
theorem lookup_reverse_of_not_mem {ps : List (κ × ν)} {key : κ} (h : key ∉ ps.map Prod.fst) :
    ps.reverse.lookup key = none :=
  Option.eq_none_iff_forall_ne_some.mpr fun _ hvalue =>
    h (List.mem_map_of_mem (mem_of_lookup_reverse hvalue))

/-- A key that is not set keeps its value. -/
theorem get_setAll_of_not_mem {ps : List (κ × ν)} {key : κ} (h : key ∉ ps.map Prod.fst)
    (d : OrderedDict κ ν) : (d.setAll ps).get key = d.get key := by
  rw [get_setAll, lookup_reverse_of_not_mem h, Option.none_or]

/-- A key that is set once has the value. -/
theorem get_setAll_of_mem {ps : List (κ × ν)} (hps : (ps.map Prod.fst).Nodup) {key : κ} {value : ν}
    (h : (key, value) ∈ ps) (d : OrderedDict κ ν) : (d.setAll ps).get key = some value := by
  have hlast : ps.reverse.lookup key = some value :=
    (lookup_reverse ⟨ps, hps⟩ key).trans (get_eq_some_iff.mpr h)
  rw [get_setAll, hlast, Option.some_or]

/-- Setting items takes no key away, and leaves those that were there in their places. -/
theorem keys_prefix_setAll (ps : List (κ × ν)) (d : OrderedDict κ ν) :
    d.keys <+: (d.setAll ps).keys := by
  induction ps generalizing d with
  | nil => exact List.prefix_rfl
  | cons p ps ih => exact (d.keys_prefix_upsert ⟨p.1, some p.2, fun _ => p.2⟩).trans (ih _)

/-- Setting changes nothing if the last value of every key is there already. -/
theorem setAll_eq_self_iff {ps : List (κ × ν)} :
    d.setAll ps = d ↔ ∀ key value, ps.reverse.lookup key = some value → d.get key = some value := by
  constructor
  · intro h key value hlast
    rw [← h, get_setAll, hlast, Option.some_or]
  · refine fun h => eq_of_prefix_trans (keys_prefix_setAll ps d) fun key => ?_
    rw [get_setAll]
    cases hlast : ps.reverse.lookup key with
    | none => rw [Option.none_or]
    | some value => rw [h key value hlast, Option.some_or]

/-- Setting the same items twice is setting them once. -/
theorem setAll_setAll (d : OrderedDict κ ν) (ps : List (κ × ν)) :
    (d.setAll ps).setAll ps = d.setAll ps :=
  setAll_eq_self_iff.mpr fun key value hlast => by rw [get_setAll, hlast, Option.some_or]

end OrderedDict
