/-
# Dictionaries and graphs under other names

One dictionary is another one renamed if item by item, in the same order, its key is a new name of
the key and its value a new form of the value.  Two stores that call the same things by
different names are kept in step by writes that agree (`OrderedDict.Renamed.upsert`), as long as
no two keys get one name.
-/

import CppMcp.Lib.PropertyGraph
import CppMcp.Lib.Upsert

namespace OrderedDict

variable {κ κ' ν ν' : Type*}

/-- **`d'` is `d` renamed:** item by item, the key by `f` and the value by `g`. -/
def Renamed (f : κ → κ') (g : κ → ν → ν') (d : OrderedDict κ ν) (d' : OrderedDict κ' ν') : Prop :=
  d'.items = d.items.map fun item => (f item.1, g item.1 item.2)

/-- The dictionary under names that tell its keys apart. -/
def rename (f : κ → κ') (hf : Function.Injective f) (g : κ → ν → ν') (d : OrderedDict κ ν) :
    OrderedDict κ' ν' where
  items := d.items.map fun item => (f item.1, g item.1 item.2)
  nodup := by
    have h := d.nodup.map hf
    rw [List.map_map] at h ⊢
    exact h

/-- A dictionary whose keys have been renamed is a renaming of the one it comes from. -/
theorem renamed_rename (f : κ → κ') (hf : Function.Injective f) (g : κ → ν → ν')
    (d : OrderedDict κ ν) : Renamed f g d (d.rename f hf g) := rfl

/-- Empty dictionaries are renamings of each other. -/
theorem renamed_empty (f : κ → κ') (g : κ → ν → ν') : Renamed f g .empty .empty := rfl

namespace Renamed

variable {f : κ → κ'} {g : κ → ν → ν'} {d : OrderedDict κ ν} {d' : OrderedDict κ' ν'}

/-- The keys of a renaming are the names of the keys, in the same order. -/
theorem keys (h : Renamed f g d d') : d'.keys = d.keys.map f := by
  rw [OrderedDict.keys, h, OrderedDict.keys, List.map_map, List.map_map]
  rfl

/-- No two keys have one name, since the names are keys of a dictionary too. -/
theorem injOn (h : Renamed f g d d') {key key' : κ} (hkey : key ∈ d.keys) (hkey' : key' ∈ d.keys)
    (heq : f key = f key') : key = key' :=
  List.inj_on_of_nodup_map (h.keys ▸ d'.nodup) hkey hkey' heq

/-- A key is there exactly if its name is there in the other dictionary. -/
theorem mem_keys_iff (h : Renamed f g d d') {key : κ} (hf : ∀ k ∈ d.keys, f k = f key → k = key) :
    f key ∈ d'.keys ↔ key ∈ d.keys := by
  rw [h.keys, List.mem_map]
  refine ⟨?_, fun hkey => ⟨key, hkey, rfl⟩⟩
  rintro ⟨k, hk, heq⟩
  exact hf k hk heq ▸ hk

variable [DecidableEq κ] [DecidableEq κ']

/-- What is stored under the new name is what is stored under the key, renamed as the values are. -/
theorem get (h : Renamed f g d d') {key : κ} (hf : ∀ k ∈ d.keys, f k = f key → k = key) :
    d'.get (f key) = (d.get key).map (g key) := by
  refine Option.ext fun value => ?_
  rw [get_eq_some_iff, h, List.mem_map, Option.map_eq_some_iff]
  constructor
  · rintro ⟨item, hitem, heq⟩
    obtain ⟨hkey, hvalue⟩ := Prod.mk.inj heq
    obtain rfl := hf item.1 (OrderedDict.mem_keys_iff.mpr ⟨item.2, hitem⟩) hkey
    exact ⟨item.2, get_eq_some_iff.mpr hitem, hvalue⟩
  · rintro ⟨value, hvalue, rfl⟩
    exact ⟨_, mem_of_get hvalue, rfl⟩

/-- Adding an item on both sides, under a key and under its name, keeps the dictionaries in step. -/
theorem add (h : Renamed f g d d') {key : κ} (hf : ∀ k ∈ d.keys, f k = f key → k = key)
    (value : ν) : Renamed f g (d.add key value) (d'.add (f key) (g key value)) := by
  unfold OrderedDict.add
  by_cases hkey : key ∈ d.keys
  · rw [dif_pos hkey, dif_pos ((h.mem_keys_iff hf).mpr hkey)]
    exact h
  · rw [dif_neg hkey, dif_neg (mt (h.mem_keys_iff hf).mp hkey)]
    change d'.items ++ _ = _
    rw [h, List.map_append]
    rfl

/-- Changing a value on both sides keeps them in step, if the two changes agree on values that
correspond. -/
theorem modify (h : Renamed f g d d') {key : κ} (hf : ∀ k ∈ d.keys, f k = f key → k = key)
    {change : ν → ν} {change' : ν' → ν'}
    (hchange : ∀ value, change' (g key value) = g key (change value)) :
    Renamed f g (d.modify key change) (d'.modify (f key) change') := by
  change d'.items.map _ = (d.items.map _).map _
  rw [h, List.map_map, List.map_map]
  refine List.map_congr_left fun item hitem => ?_
  have hname : f item.1 = f key ↔ item.1 = key :=
    ⟨hf item.1 (OrderedDict.mem_keys_iff.mpr ⟨item.2, hitem⟩), congrArg f⟩
  rw [Function.comp_apply, Function.comp_apply]
  by_cases hkey : item.1 = key
  · rw [if_pos hkey, if_pos (hname.mpr hkey), hkey, hchange]
  · rw [if_neg hkey, if_neg (mt hname.mp hkey)]

/-- **Writes that agree keep the dictionaries in step:** one that makes the corresponding item under
the corresponding name, and changes it correspondingly. -/
theorem upsert (h : Renamed f g d d') {u : Upsert κ ν} {u' : Upsert κ' ν'}
    (hf : ∀ k ∈ d.keys, f k = f u.key → k = u.key) (hkey : u'.key = f u.key)
    (hnew : u'.new = u.new.map (g u.key))
    (hchange : ∀ value, u'.change (g u.key value) = g u.key (u.change value)) :
    Renamed f g (d.upsert u) (d'.upsert u') := by
  unfold OrderedDict.upsert
  rw [hkey, hnew]
  cases u.new with
  | none => exact h.modify hf hchange
  | some value =>
    refine (h.add hf value).modify (fun k hk heq => ?_) hchange
    rw [keys_add] at hk
    split_ifs at hk
    · exact hf k hk heq
    · rcases List.mem_append.mp hk with hk | hk
      · exact hf k hk heq
      · exact List.mem_singleton.mp hk

end Renamed

end OrderedDict

namespace PropertyGraph

variable {V V' T T' A A' B B' : Type*}

/-- An edge between the new names. -/
def renameEdge (f : V → V') (t : T → T') (e : V × T × V) : V' × T' × V' := (f e.1, t e.2.1, f e.2.2)

/-- Names of vertices and of types that are distinct give distinct names of edges. -/
theorem renameEdge_injective {f : V → V'} {t : T → T'} (hf : Function.Injective f)
    (ht : Function.Injective t) : Function.Injective (renameEdge f t) := by
  rintro ⟨a, e, b⟩ ⟨a', e', b'⟩ h
  obtain ⟨ha, hrest⟩ := Prod.mk.inj h
  obtain ⟨he, hb⟩ := Prod.mk.inj hrest
  exact Prod.ext (hf ha) (Prod.ext (ht he) (hf hb))

/-- **`G'` is `G` renamed:** the vertices by `f` and the edges as their ends, with the data by `g`
and `h`. -/
structure Renamed (f : V → V') (t : T → T') (g : V → A → A') (h : B → B')
    (G : PropertyGraph V T A B) (G' : PropertyGraph V' T' A' B') : Prop where
  vertices : G.vertices.Renamed f g G'.vertices
  edges : G.edges.Renamed (renameEdge f t) (fun _ => h) G'.edges

/-- The graph under names that tell its vertices and the types of its edges apart. -/
def rename (f : V → V') (hf : Function.Injective f) (t : T → T') (ht : Function.Injective t)
    (g : V → A → A') (h : B → B') (G : PropertyGraph V T A B) : PropertyGraph V' T' A' B' where
  vertices := G.vertices.rename f hf g
  edges := G.edges.rename (renameEdge f t) (renameEdge_injective hf ht) fun _ => h
  ends e he := by
    rw [(OrderedDict.renamed_rename _ _ _ G.edges).keys] at he
    rw [(OrderedDict.renamed_rename _ _ _ G.vertices).keys]
    obtain ⟨e', he', rfl⟩ := List.mem_map.mp he
    exact ⟨List.mem_map_of_mem (G.ends e' he').1, List.mem_map_of_mem (G.ends e' he').2⟩

/-- A graph whose vertices and types have been renamed is a renaming of the one it comes from. -/
theorem renamed_rename (f : V → V') (hf : Function.Injective f) (t : T → T')
    (ht : Function.Injective t) (g : V → A → A') (h : B → B') (G : PropertyGraph V T A B) :
    Renamed f t g h G (G.rename f hf t ht g h) := ⟨rfl, rfl⟩

end PropertyGraph
