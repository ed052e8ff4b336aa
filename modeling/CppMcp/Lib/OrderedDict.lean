/-
# Dictionaries that keep their items in order

An `OrderedDict` is a list of keys with their values, oldest first.  Keys are
unique: that is the field `nodup`, which every operation carries along.  An item may
be put at the end (`setLast`), added if its key is new (`add`), or changed where it stands
(`modify`), and the oldest items may be dropped (`popUntilRoom`).
-/

import Mathlib.Data.List.Nodup
import Mathlib.Tactic.Common

/-- The items, oldest first. -/
structure OrderedDict (κ ν : Type*) where
  items : List (κ × ν)
  nodup : (items.map Prod.fst).Nodup

namespace OrderedDict

variable {κ ν : Type*}

/-- No items. -/
def empty : OrderedDict κ ν := ⟨[], List.nodup_nil⟩

/-- How many items there are. -/
def len (d : OrderedDict κ ν) : ℕ := d.items.length

/-- The keys, oldest first. -/
def keys (d : OrderedDict κ ν) : List κ := d.items.map Prod.fst

/-- An empty dictionary has no keys. -/
@[simp] theorem keys_empty : (empty : OrderedDict κ ν).keys = [] := rfl

/-- An item with a new key may be put at the end: the keys stay distinct. -/
theorem nodup_concat {items : List (κ × ν)} {key : κ} (value : ν)
    (hnodup : (items.map Prod.fst).Nodup) (hnew : key ∉ items.map Prod.fst) :
    ((items ++ [(key, value)]).map Prod.fst).Nodup := by
  rw [List.map_append, List.map_cons, List.map_nil]
  exact hnodup.append (List.nodup_singleton key) (List.disjoint_singleton.mpr hnew)

/-- A dictionary is as long as it has keys, since every item has one. -/
theorem len_eq_length_keys (d : OrderedDict κ ν) : d.len = d.keys.length :=
  (List.length_map ..).symm

/-- A key is in the dictionary if it stands there with some value. -/
theorem mem_keys_iff {d : OrderedDict κ ν} {key : κ} :
    key ∈ d.keys ↔ ∃ value, (key, value) ∈ d.items := by
  rw [keys, List.mem_map]
  exact ⟨fun ⟨item, h, hk⟩ => ⟨item.2, hk ▸ h⟩, fun ⟨value, h⟩ => ⟨_, h, rfl⟩⟩

/-- A key has one value: of two items with the same key in the dictionary, the values agree. -/
theorem value_unique {d : OrderedDict κ ν} {key : κ} {value value' : ν} (h : (key, value) ∈ d.items)
    (h' : (key, value') ∈ d.items) : value = value' :=
  congrArg Prod.snd (List.inj_on_of_nodup_map d.nodup h h' rfl)

/-- A dictionary is its list of items; that the keys are distinct is a property of it and no further
data. -/
theorem ext_items {d d' : OrderedDict κ ν} (h : d.items = d'.items) : d = d' := by
  cases d
  cases d'
  congr

/-- The loop that drops the oldest item as long as there are `capacity` or more. -/
def popItems (capacity : ℕ) : List (κ × ν) → List (κ × ν)
  | [] => []
  | item :: items =>
    if capacity ≤ (item :: items).length then popItems capacity items else item :: items

/-- Removing the oldest items until there is room leaves the end of the list. -/
theorem popItems_suffix (capacity : ℕ) (items : List (κ × ν)) :
    popItems capacity items <:+ items := by
  induction items with
  | nil => exact List.suffix_rfl
  | cons item items ih =>
    rw [popItems]
    split_ifs
    · exact ih.trans (List.suffix_cons item items)
    · exact List.suffix_rfl

/-- What is dropped is the oldest, and no more than has to be. -/
theorem popItems_eq_drop (capacity : ℕ) (items : List (κ × ν)) :
    popItems capacity items = items.drop (items.length + 1 - capacity) := by
  induction items with
  | nil => rw [popItems, List.drop_nil]
  | cons item items ih =>
    rw [popItems]
    split_ifs with h
    · have hn : (item :: items).length + 1 - capacity = items.length + 1 - capacity + 1 := by
        rw [List.length_cons] at h ⊢
        omega
      rw [ih, hn, List.drop_succ_cons]
    · rw [show (item :: items).length + 1 - capacity = 0 by omega, List.drop_zero]

/-- The oldest items are dropped until there is room for one more. -/
def popUntilRoom (d : OrderedDict κ ν) (capacity : ℕ) : OrderedDict κ ν where
  items := popItems capacity d.items
  nodup := d.nodup.sublist ((popItems_suffix capacity d.items).sublist.map Prod.fst)

/-- Making room drops from the front as many items as are too many for one more to fit. -/
theorem items_popUntilRoom (d : OrderedDict κ ν) (capacity : ℕ) :
    (d.popUntilRoom capacity).items = d.items.drop (d.len + 1 - capacity) :=
  popItems_eq_drop capacity d.items

/-- After making room one more item fits: what is left is as much as before, or one less than the
capacity. -/
theorem len_popUntilRoom (d : OrderedDict κ ν) (capacity : ℕ) :
    (d.popUntilRoom capacity).len = min d.len (capacity - 1) := by
  rw [len, items_popUntilRoom, List.length_drop]
  change d.len - (d.len + 1 - capacity) = _
  omega

variable [DecidableEq κ] (d : OrderedDict κ ν)

/-- The value of a key. -/
def get (key : κ) : Option ν := d.items.lookup key

/-- The item of a key is removed. -/
def del (key : κ) : OrderedDict κ ν where
  items := d.items.filter fun item => item.1 ≠ key
  nodup := d.nodup.sublist (List.filter_sublist.map Prod.fst)

/-- The key is set, and wherever it has been, it is now last. -/
def setLast (key : κ) (value : ν) : OrderedDict κ ν where
  items := (d.del key).items ++ [(key, value)]
  nodup := by
    refine nodup_concat value (d.del key).nodup fun hmem => ?_
    obtain ⟨item, hitem, rfl⟩ := List.mem_map.mp hmem
    exact absurd rfl (of_decide_eq_true (List.mem_filter.mp hitem).2)

/-- The item of a key is put at the end. -/
def moveToEnd (key : κ) : OrderedDict κ ν :=
  match d.get key with
  | some value => d.setLast key value
  | none => d

/-- An item is added at the end unless there is one with its key. -/
def add (key : κ) (value : ν) : OrderedDict κ ν :=
  if h : key ∈ d.keys then d else ⟨d.items ++ [(key, value)], nodup_concat value d.nodup h⟩

/-- Changing the value of a key leaves all keys in their places. -/
theorem map_fst_modify (items : List (κ × ν)) (key : κ) (f : ν → ν) :
    (items.map fun item => if item.1 = key then (item.1, f item.2) else item).map Prod.fst =
      items.map Prod.fst := by
  rw [List.map_map]
  refine List.map_congr_left fun item _ => ?_
  rw [Function.comp_apply]
  split_ifs <;> rfl

/-- The value of a key is changed where it stands. -/
def modify (key : κ) (f : ν → ν) : OrderedDict κ ν where
  items := d.items.map fun item => if item.1 = key then (item.1, f item.2) else item
  nodup := by
    rw [map_fst_modify]
    exact d.nodup

/-- `d[key] = value`: a key that is there keeps its place. -/
def set (key : κ) (value : ν) : OrderedDict κ ν := (d.add key value).modify key fun _ => value

/-- 1 if `d'` has the key and `d` has not, and otherwise 0. -/
def created (d d' : OrderedDict κ ν) (key : κ) : ℕ :=
  if key ∉ d.keys ∧ key ∈ d'.keys then 1 else 0

/-- Changing a value under a key changes no key. -/
@[simp] theorem keys_modify (key : κ) (f : ν → ν) : (d.modify key f).keys = d.keys :=
  map_fst_modify d.items key f

/-- Adding appends the key if it is new, and otherwise leaves the keys as they are. -/
theorem keys_add (key : κ) (value : ν) :
    (d.add key value).keys = if key ∈ d.keys then d.keys else d.keys ++ [key] := by
  unfold add
  split_ifs
  · rfl
  · rw [keys, List.map_append]
    rfl

/-- What adding has created is counted: one if the key was new, and nothing if it was there. -/
theorem created_add (key : κ) (value : ν) :
    d.created (d.add key value) key = if key ∈ d.keys then 0 else 1 := by
  rw [created, keys_add]
  by_cases h : key ∈ d.keys <;> simp [h]

/-! ### What is in a dictionary -/

variable {d}

/-- Nothing is found for a key exactly if the dictionary does not have it. -/
theorem get_eq_none_iff {key : κ} : d.get key = none ↔ key ∉ d.keys := by
  rw [get, List.lookup_eq_none_iff, mem_keys_iff, not_exists]
  exact ⟨fun h value hmem => by simpa using h _ hmem,
    fun h item hmem => bne_iff_ne.mpr fun he => h item.2 (he ▸ hmem)⟩

/-- Something is found for a key exactly if the dictionary has it. -/
theorem isSome_get_iff {key : κ} : (d.get key).isSome ↔ key ∈ d.keys := by
  rw [← not_iff_not, Option.not_isSome_iff_eq_none, get_eq_none_iff]

/-- What is found for a key stands in the dictionary with that key. -/
theorem mem_of_get {key : κ} {value : ν} (h : d.get key = some value) :
    (key, value) ∈ d.items := by
  obtain ⟨l, k, hitems, -⟩ := List.lookup_eq_some_iff.mp h
  rw [hitems]
  exact List.mem_append_right _ (List.mem_cons_self ..)

/-- What is found for a key is the value it stands there with: keys are distinct, so there is one.
-/
theorem get_eq_some_iff {key : κ} {value : ν} :
    d.get key = some value ↔ (key, value) ∈ d.items := by
  refine ⟨mem_of_get, fun h => ?_⟩
  cases hget : d.get key with
  | none => exact absurd (mem_keys_iff.mpr ⟨value, h⟩) (get_eq_none_iff.mp hget)
  | some value' => rw [value_unique (mem_of_get hget) h]

/-- Where keys are unique, the order does not matter. -/
theorem lookup_reverse (d : OrderedDict κ ν) (key : κ) :
    d.items.reverse.lookup key = d.get key := by
  have hnodup : (d.items.reverse.map Prod.fst).Nodup := by
    rw [List.map_reverse]
    exact List.nodup_reverse.mpr d.nodup
  refine Option.ext fun value => ?_
  rw [get_eq_some_iff, ← List.mem_reverse]
  exact get_eq_some_iff (d := ⟨d.items.reverse, hnodup⟩)

/-- Removing a key leaves the items with other keys, and no others. -/
theorem mem_items_del {key : κ} {item : κ × ν} :
    item ∈ (d.del key).items ↔ item ∈ d.items ∧ item.1 ≠ key := by
  rw [del, List.mem_filter, decide_eq_true_iff]

/-- After setting a key at the end there are the items with other keys, and the new one. -/
theorem mem_items_setLast {key : κ} {value : ν} {item : κ × ν} :
    item ∈ (d.setLast key value).items ↔
      (item ∈ d.items ∧ item.1 ≠ key) ∨ item = (key, value) := by
  rw [setLast, List.mem_append, mem_items_del, List.mem_singleton]

/-- What is put at the end has been there before. -/
theorem mem_items_moveToEnd {key : κ} {item : κ × ν} :
    item ∈ (d.moveToEnd key).items ↔ item ∈ d.items := by
  unfold moveToEnd
  split
  · rename_i value hget
    rw [mem_items_setLast]
    refine ⟨fun h => h.elim And.left fun h => h ▸ mem_of_get hget, fun h => ?_⟩
    by_cases hk : item.1 = key
    · have hmem : (key, item.2) ∈ d.items := hk ▸ h
      exact Or.inr (Prod.ext hk (value_unique hmem (mem_of_get hget)))
    · exact Or.inl ⟨h, hk⟩
  · rfl

/-- What has just been set at the end is found. -/
theorem get_setLast_self (key : κ) (value : ν) : (d.setLast key value).get key = some value :=
  get_eq_some_iff.mpr (mem_items_setLast.mpr (Or.inr rfl))

/-- Removing the items of some keys, one after the other. -/
theorem items_foldl_del (ks : List κ) (d : OrderedDict κ ν) :
    (ks.foldl del d).items = d.items.filter fun item => !ks.contains item.1 := by
  induction ks generalizing d with
  | nil => simp
  | cons k ks ih =>
    rw [List.foldl_cons, ih, del, List.filter_filter]
    refine List.filter_congr fun item _ => ?_
    by_cases h : item.1 = k <;> simp [h]

/-- A key that has been removed is not found. -/
theorem get_del_self (key : κ) : (d.del key).get key = none :=
  get_eq_none_iff.mpr fun h => by
    obtain ⟨value, hmem⟩ := mem_keys_iff.mp h
    exact absurd rfl (mem_items_del.mp hmem).2

/-- A change made under a key is seen when the key is looked up. -/
theorem get_modify_self {key : κ} {f : ν → ν} : (d.modify key f).get key = (d.get key).map f :=
  Option.ext fun value => by
    rw [get_eq_some_iff, Option.map_eq_some_iff, modify, List.mem_map]
    constructor
    · rintro ⟨item, hitem, heq⟩
      split_ifs at heq with hk
      · exact ⟨item.2, get_eq_some_iff.mpr (hk ▸ hitem), congrArg Prod.snd heq⟩
      · exact absurd (congrArg Prod.fst heq) hk
    · rintro ⟨value, hget, rfl⟩
      exact ⟨_, mem_of_get hget, if_pos rfl⟩

/-- A change made under one key is not seen under another. -/
theorem get_modify_of_ne {key key' : κ} {f : ν → ν} (h : key' ≠ key) :
    (d.modify key f).get key' = d.get key' :=
  Option.ext fun value => by
    rw [get_eq_some_iff, get_eq_some_iff, modify, List.mem_map]
    constructor
    · rintro ⟨item, hitem, heq⟩
      split_ifs at heq with hk
      · exact absurd ((congrArg Prod.fst heq).symm.trans hk) h
      · exact heq ▸ hitem
    · exact fun hitem => ⟨_, hitem, if_neg h⟩

/-- An item that is added under one key is not seen under another. -/
theorem get_add_of_ne {key key' : κ} {value : ν} (h : key' ≠ key) :
    (d.add key value).get key' = d.get key' := by
  unfold add
  split_ifs
  · rfl
  · refine Option.ext fun value' => ?_
    rw [get_eq_some_iff, get_eq_some_iff, List.mem_append, List.mem_singleton]
    exact or_iff_left fun heq => h (congrArg Prod.fst heq)

/-- Adding does not overwrite: what is found is what was there, or the new value if nothing was. -/
theorem get_add_self (key : κ) (value : ν) :
    (d.add key value).get key = some ((d.get key).getD value) := by
  unfold add
  split_ifs with h
  · obtain ⟨stored, hmem⟩ := mem_keys_iff.mp h
    rw [get_eq_some_iff.mpr hmem, Option.getD_some]
  · rw [get_eq_none_iff.mpr h, Option.getD_none, get_eq_some_iff]
    exact List.mem_append_right _ (List.mem_singleton_self _)

/-- What has just been set is found. -/
theorem get_set_self (key : κ) (value : ν) : (d.set key value).get key = some value := by
  have hmem : key ∈ (d.add key value).keys := by
    rw [keys_add]
    split_ifs with h
    · exact h
    · exact List.mem_append_right _ (List.mem_singleton_self key)
  cases hget : (d.add key value).get key with
  | none => exact absurd hmem (get_eq_none_iff.mp hget)
  | some value' => rw [set, get_modify_self, hget, Option.map_some]

/-- What is set under one key is not seen under another. -/
theorem get_set_of_ne {key key' : κ} {value : ν} (h : key' ≠ key) :
    (d.set key value).get key' = d.get key' := by
  rw [set, get_modify_of_ne h, get_add_of_ne h]

/-- What is found after setting a key is what has been set, or what was found before under another
key. -/
theorem eq_some_of_get_set {key key' : κ} {value value' : ν}
    (h : (d.set key value).get key' = some value') :
    (key' = key ∧ value' = value) ∨ (key' ≠ key ∧ d.get key' = some value') := by
  by_cases hk : key' = key
  · subst hk
    exact Or.inl ⟨rfl, (Option.some.inj ((get_set_self key' value).symm.trans h)).symm⟩
  · exact Or.inr ⟨hk, get_set_of_ne hk ▸ h⟩

/-- What is found after removing a key was found before, under another key. -/
theorem eq_some_of_get_del {key key' : κ} {value : ν} (h : (d.del key).get key' = some value) :
    key' ≠ key ∧ d.get key' = some value :=
  and_comm.mp ((mem_items_del.mp (mem_of_get h)).imp_left get_eq_some_iff.mpr)

/-- Setting a key leaves no trace once the key is removed. -/
theorem del_set (d : OrderedDict κ ν) (key : κ) (value : ν) :
    (d.set key value).del key = d.del key := by
  refine ext_items ?_
  have hmodify : ∀ d' : OrderedDict κ ν,
      ((d'.modify key fun _ => value).del key).items = (d'.del key).items := by
    intro d'
    change List.filter _ (List.map _ d'.items) = List.filter _ d'.items
    rw [List.filter_map]
    refine (List.map_congr_left fun item hitem => ?_).trans ((List.map_id _).trans
      (List.filter_congr fun item _ => ?_))
    · have hne := List.of_mem_filter hitem
      by_cases hk : item.1 = key
      · simp [hk] at hne
      · exact if_neg hk
    · by_cases hk : item.1 = key <;> simp [hk]
  rw [set, hmodify, del, add]
  split_ifs
  · rfl
  · simp [del]

/-- Removing a key that is not there changes nothing. -/
theorem del_of_get_eq_none {key : κ} (h : d.get key = none) : d.del key = d :=
  ext_items (List.filter_eq_self.mpr fun item hitem => decide_eq_true fun hk =>
    get_eq_none_iff.mp h (mem_keys_iff.mpr ⟨item.2, hk ▸ hitem⟩))

/-! ### How many items there are -/

/-- Removing a key takes it out of the list of keys, and nothing else. -/
theorem keys_del (key : κ) : (d.del key).keys = d.keys.filter (· != key) := by
  rw [keys, keys, del, List.filter_map]
  refine congrArg (List.map Prod.fst) (List.filter_congr fun item _ => ?_)
  by_cases h : item.1 = key <;> simp [h]

/-- Removing a key makes no dictionary longer. -/
theorem len_del_le (key : κ) : (d.del key).len ≤ d.len := List.length_filter_le ..

/-- Removing a key that is there makes the dictionary shorter by one. -/
theorem len_del_of_get {key : κ} {value : ν} (h : d.get key = some value) :
    (d.del key).len + 1 = d.len := by
  have hmem : key ∈ d.keys := mem_keys_iff.mpr ⟨value, mem_of_get h⟩
  have hpos := List.length_pos_of_mem hmem
  have herase : d.keys.erase key = d.keys.filter (· != key) := d.nodup.erase_eq_filter key
  rw [len_eq_length_keys, len_eq_length_keys, keys_del, ← herase, List.length_erase_of_mem hmem]
  exact Nat.sub_add_cancel hpos

/-- Setting at the end is removing and appending, so the length is one more than without the key. -/
theorem len_setLast (key : κ) (value : ν) : (d.setLast key value).len = (d.del key).len + 1 :=
  List.length_append ..

/-- Setting a key at the end makes the dictionary longer by at most one. -/
theorem len_setLast_le (key : κ) (value : ν) : (d.setLast key value).len ≤ d.len + 1 := by
  rw [len_setLast]
  exact Nat.succ_le_succ (List.length_filter_le ..)

/-- Putting an item at the end changes its place and not the length. -/
@[simp] theorem len_moveToEnd (key : κ) : (d.moveToEnd key).len = d.len := by
  unfold moveToEnd
  split
  · rename_i value hget
    rw [len_setLast, len_del_of_get hget]
  · rfl

/-- Overwriting a value leaves the length as it is. -/
theorem len_set_of_get {key : κ} {value value' : ν} (h : d.get key = some value') :
    (d.set key value).len = d.len := by
  rw [len_eq_length_keys, len_eq_length_keys, set, keys_modify, keys_add,
    if_pos (mem_keys_iff.mpr ⟨value', mem_of_get h⟩)]

/-- Setting a new key makes the dictionary longer by one. -/
theorem len_set_of_get_eq_none {key : κ} {value : ν} (h : d.get key = none) :
    (d.set key value).len = d.len + 1 := by
  rw [len_eq_length_keys, len_eq_length_keys, set, keys_modify, keys_add,
    if_neg (get_eq_none_iff.mp h), List.length_append, List.length_singleton]

/-! ### The values, seen otherwise -/

section MapValues

omit [DecidableEq κ]

variable {ν' : Type*} (f : ν → ν')

/-- Every value in another form. -/
def mapValues : OrderedDict κ ν' where
  items := d.items.map fun item => (item.1, f item.2)
  nodup := by
    rw [List.map_map]
    exact d.nodup

/-- A dictionary whose values are mapped is as long as before. -/
@[simp] theorem len_mapValues : (d.mapValues f).len = d.len := List.length_map ..

/-- Making room looks at no value, so it may be done before or after the values are mapped. -/
theorem mapValues_popUntilRoom (capacity : ℕ) :
    (d.mapValues f).popUntilRoom capacity = (d.popUntilRoom capacity).mapValues f := by
  refine ext_items ?_
  rw [items_popUntilRoom, len_mapValues]
  change (d.items.map _).drop _ = (d.popUntilRoom capacity).items.map _
  rw [items_popUntilRoom, List.map_drop]

variable [DecidableEq κ]

/-- What is found when the values are mapped is the image of what was found. -/
theorem get_mapValues (key : κ) : (d.mapValues f).get key = (d.get key).map f := by
  change (d.items.map _).lookup key = (d.items.lookup key).map f
  induction d.items with
  | nil => rfl
  | cons item items ih =>
    rw [List.map_cons, List.lookup_cons, List.lookup_cons, ih]
    split <;> rfl

/-- Removing a key looks at no value. -/
theorem mapValues_del (key : κ) : (d.mapValues f).del key = (d.del key).mapValues f := by
  refine ext_items ?_
  change (d.items.map _).filter _ = (d.items.filter _).map _
  rw [List.filter_map]
  rfl

/-- Setting at the end may be done before or after the values are mapped, if the new value is mapped
too. -/
theorem mapValues_setLast (key : κ) (value : ν) :
    (d.mapValues f).setLast key (f value) = (d.setLast key value).mapValues f := by
  refine ext_items ?_
  change ((d.mapValues f).del key).items ++ _ = ((d.del key).items ++ _).map _
  rw [mapValues_del, List.map_append]
  rfl

/-- Putting an item at the end looks at no value. -/
theorem mapValues_moveToEnd (key : κ) :
    (d.mapValues f).moveToEnd key = (d.moveToEnd key).mapValues f := by
  unfold moveToEnd
  rw [get_mapValues]
  cases d.get key with
  | none => rfl
  | some value => exact d.mapValues_setLast f key value

end MapValues

end OrderedDict
