/-
# The least recently used item goes first

An ideal LRU cache is a list of keys with their values, the most recently used first.  A
request whose value is still good moves it to the front; any other request puts a new
value in front, and what is beyond the capacity falls off the end.

Whatever is good, the keys are those that have been asked for most recently
(`keys_foldl_request`): as many of the distinct keys as there is room for.
-/

import Mathlib.Data.List.Induction
import Mathlib.Data.List.Nodup
import Mathlib.Tactic.Common

namespace Lru

variable {κ ν : Type*} [DecidableEq κ]

/-- The key with its value is put in front. -/
def front (key : κ) (value : ν) (l : List (κ × ν)) : List (κ × ν) :=
  (key, value) :: l.filter fun item => item.1 ≠ key

/-- The value of a key, if it is good. -/
def found (key : κ) (good : ν → Bool) (l : List (κ × ν)) : Option ν := (l.lookup key).filter good

/-- A request: the value that is found, or a new one. -/
def request (capacity : ℕ) (key : κ) (good : ν → Bool) (new : ν) (l : List (κ × ν)) :
    List (κ × ν) :=
  match found key good l with
  | some value => front key value l
  | none => (front key new l).take capacity

/-- A key is put in front, and no more than `capacity` are kept. -/
def touch (capacity : ℕ) (keys : List κ) (key : κ) : List κ :=
  (key :: keys.filter (· ≠ key)).take capacity

/-- The keys after an item has been put in front: its own, and the others in their order. -/
@[simp] theorem map_fst_front (key : κ) (value : ν) (l : List (κ × ν)) :
    (front key value l).map Prod.fst = key :: (l.map Prod.fst).filter (· ≠ key) := by
  rw [front, List.map_cons, List.filter_map]
  rfl

/-- A value that is found stands in the list under its key, and is good. -/
theorem mem_of_found {key : κ} {good : ν → Bool} {l : List (κ × ν)} {value : ν}
    (h : found key good l = some value) : (key, value) ∈ l ∧ good value = true := by
  obtain ⟨hlookup, hgood⟩ := Option.filter_eq_some_iff.mp h
  obtain ⟨l₁, l₂, rfl, -⟩ := List.lookup_eq_some_iff.mp hlookup
  exact ⟨List.mem_append_right _ (List.mem_cons_self ..), hgood⟩

/-- Only the new value is new: whatever else a request leaves in the list was there before. -/
theorem mem_of_mem_request {capacity : ℕ} {key : κ} {good : ν → Bool} {new : ν} {l : List (κ × ν)}
    {item : κ × ν} (h : item ∈ request capacity key good new l) : item ∈ l ∨ item = (key, new) := by
  unfold request at h
  split at h
  · rename_i value hvalue
    rcases List.mem_cons.mp h with rfl | h
    · exact Or.inl (mem_of_found hvalue).1
    · exact Or.inl (List.mem_of_mem_filter h)
  · rcases List.mem_cons.mp (List.mem_of_mem_take h) with rfl | h
    · exact Or.inr rfl
    · exact Or.inl (List.mem_of_mem_filter h)

/-- If all values are good, a key is found wherever there is one. -/
theorem isSome_found_iff {key : κ} {good : ν → Bool} {l : List (κ × ν)}
    (hgood : ∀ item ∈ l, item.1 = key → good item.2 = true) :
    (found key good l).isSome ↔ key ∈ l.map Prod.fst := by
  constructor
  · intro h
    obtain ⟨value, hvalue⟩ := Option.isSome_iff_exists.mp h
    exact List.mem_map.mpr ⟨_, (mem_of_found hvalue).1, rfl⟩
  · intro h
    obtain ⟨item, hitem, rfl⟩ := List.mem_map.mp h
    obtain ⟨value, hvalue⟩ := Option.isSome_iff_exists.mp
      (List.lookup_isSome_iff.mpr ⟨item, hitem, beq_self_eq_true item.1⟩)
    obtain ⟨l₁, l₂, rfl, -⟩ := List.lookup_eq_some_iff.mp hvalue
    rw [found, hvalue, Option.filter_some, if_pos]
    · rfl
    · exact hgood _ (List.mem_append_right _ (List.mem_cons_self ..)) rfl

/-- A request keeps the keys distinct, since the key it puts in front is taken out behind. -/
theorem nodup_request {capacity : ℕ} {key : κ} {good : ν → Bool} {new : ν} {l : List (κ × ν)}
    (h : (l.map Prod.fst).Nodup) : ((request capacity key good new l).map Prod.fst).Nodup := by
  have hfront : ∀ value, ((front key value l).map Prod.fst).Nodup := fun value => by
    rw [map_fst_front]
    exact List.nodup_cons.mpr ⟨fun hmem => absurd rfl (of_decide_eq_true
      (List.mem_filter.mp hmem).2), h.filter _⟩
  unfold request
  split
  · exact hfront _
  · rw [List.map_take]
    exact (hfront _).sublist (List.take_sublist ..)

/-- Good or not, a request puts its key in front. -/
theorem keys_request {capacity : ℕ} {l : List (κ × ν)} (key : κ) (good : ν → Bool) (new : ν)
    (h : (l.map Prod.fst).Nodup) (hlen : (l.map Prod.fst).length ≤ capacity) :
    (request capacity key good new l).map Prod.fst = touch capacity (l.map Prod.fst) key := by
  unfold request
  split
  · rename_i value hvalue
    have hmem : key ∈ l.map Prod.fst := List.mem_map.mpr ⟨_, (mem_of_found hvalue).1, rfl⟩
    have hfilter : ((l.map Prod.fst).filter (· ≠ key)).length + 1 = (l.map Prod.fst).length := by
      have hpos := List.length_pos_of_mem hmem
      have herase := List.length_erase_of_mem hmem
      rw [h.erase_eq_filter] at herase
      have hbne : ∀ k ∈ l.map Prod.fst, decide (k ≠ key) = (k != key) := fun k _ => by
        by_cases hk : k = key <;> simp [hk]
      rw [List.filter_congr hbne, herase]
      omega
    rw [map_fst_front, touch, List.take_of_length_le]
    rw [List.length_cons, hfilter]
    exact hlen
  · rw [List.map_take, map_fst_front, touch]

/-- Touching a key keeps within the capacity, whatever was there before. -/
theorem length_touch_le (capacity : ℕ) (keys : List κ) (key : κ) :
    (touch capacity keys key).length ≤ capacity :=
  List.length_take_le ..

/-! ### The keys asked for most recently -/

/-- Of distinct keys, one that is left out makes room for one more. -/
theorem take_filter_ne {keys : List κ} (h : keys.Nodup) (key : κ) (n : ℕ) :
    ((keys.take (n + 1)).filter (· ≠ key)).take n = (keys.filter (· ≠ key)).take n := by
  induction keys generalizing n with
  | nil => rfl
  | cons k keys ih =>
    obtain ⟨hk, hkeys⟩ := List.nodup_cons.mp h
    by_cases hkey : k = key
    · subst hkey
      have hself : ∀ l : List κ, k ∉ l → l.filter (· ≠ k) = l := fun l hl =>
        List.filter_eq_self.mpr fun a ha => decide_eq_true fun hak => hl (hak ▸ ha)
      have hcons : ∀ l : List κ, (k :: l).filter (· ≠ k) = l.filter (· ≠ k) := fun l =>
        List.filter_cons_of_neg (by simp)
      rw [List.take_succ_cons, hcons, hcons, hself _ hk,
        hself _ fun hmem => hk (List.mem_of_mem_take hmem), List.take_take, Nat.min_self]
    · have hcons : ∀ l : List κ, (k :: l).filter (· ≠ key) = k :: l.filter (· ≠ key) := fun l =>
        List.filter_cons_of_pos (by simp [hkey])
      rw [List.take_succ_cons, hcons, hcons]
      cases n with
      | zero => rfl
      | succ n => rw [List.take_succ_cons, List.take_succ_cons, ih hkeys]

/-- Leaving out some keys may be done before or after repetitions are dropped. -/
theorem eraseDups_filter (p : κ → Bool) :
    ∀ keys : List κ, (keys.filter p).eraseDups = keys.eraseDups.filter p
  | [] => rfl
  | key :: keys => by
    have hrest := eraseDups_filter p (keys.filter fun k => !k == key)
    rw [List.eraseDups_cons, List.filter_cons, List.filter_cons, ← hrest, List.filter_filter]
    split_ifs with hp
    · rw [List.eraseDups_cons, List.filter_filter]
      simp only [Bool.and_comm]
    · refine congrArg List.eraseDups (List.filter_congr fun k _ => ?_)
      by_cases hk : k = key
      · simp [hk, hp]
      · simp [hk]
termination_by keys => keys.length
decreasing_by
  exact Nat.lt_succ_of_le (List.length_filter_le ..)

/-- No key comes twice once repetitions have been dropped. -/
theorem nodup_eraseDups : ∀ keys : List κ, keys.eraseDups.Nodup
  | [] => List.nodup_nil
  | key :: keys => by
    rw [List.eraseDups_cons, List.nodup_cons, eraseDups_filter]
    refine ⟨fun hmem => ?_, (nodup_eraseDups keys).filter _⟩
    simpa using (List.mem_filter.mp hmem).2

/-- **Touching keys keeps those touched last:** after any sequence of keys, the list has the last
distinct ones, the latest first, as far as the capacity goes. -/
theorem foldl_touch (capacity : ℕ) (keys : List κ) :
    keys.foldl (touch capacity) [] = keys.reverse.eraseDups.take capacity := by
  induction keys using List.reverseRecOn with
  | nil => rw [List.foldl_nil, List.reverse_nil, List.eraseDups_nil, List.take_nil]
  | append_singleton keys key ih =>
    have hbne : ∀ k ∈ keys.reverse.eraseDups, (!k == key) = decide (k ≠ key) := fun k _ => by
      by_cases hk : k = key <;> simp [hk]
    rw [List.foldl_concat, ih, List.reverse_concat, List.eraseDups_cons, eraseDups_filter,
      List.filter_congr hbne, touch]
    cases capacity with
    | zero => rfl
    | succ n => rw [List.take_succ_cons, List.take_succ_cons, take_filter_ne (nodup_eraseDups _)]

/-- **The keys after any requests** are the keys asked for last, without repetitions, up to the
capacity; which values were good makes no difference to them. -/
theorem keys_foldl_request {ρ : Type*} (capacity : ℕ) (key : ρ → κ) (good : ρ → ν → Bool)
    (new : ρ → ν) (rs : List ρ) :
    (rs.foldl (fun l r => request capacity (key r) (good r) (new r) l) []).map Prod.fst =
      (rs.map key).reverse.eraseDups.take capacity := by
  rw [← foldl_touch]
  suffices h : ∀ l : List (κ × ν), (l.map Prod.fst).Nodup → (l.map Prod.fst).length ≤ capacity →
      (rs.foldl (fun l r => request capacity (key r) (good r) (new r) l) l).map Prod.fst =
        (rs.map key).foldl (touch capacity) (l.map Prod.fst) from
    h [] List.nodup_nil (Nat.zero_le _)
  induction rs with
  | nil => exact fun _ _ _ => rfl
  | cons r rs ih =>
    intro l hnodup hlen
    have hkeys := keys_request (key r) (good r) (new r) hnodup hlen
    rw [List.foldl_cons, List.map_cons, List.foldl_cons, ← hkeys]
    exact ih _ (nodup_request hnodup) (hkeys ▸ length_touch_le ..)

end Lru
