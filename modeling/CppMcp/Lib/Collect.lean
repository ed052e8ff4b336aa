/-
# Collecting a stream into dictionaries of dictionaries

A stream of triples (key, name, value), in any order, is collected into one dictionary for
each key, as `d.setdefault(key, {})[name] = value` does.  Where the stream has one value for a
key and a name, that is the value that is found (`get_collect`).
-/

import CppMcp.Lib.OrderedDict
import Mathlib.Data.List.Induction

namespace OrderedDict

variable {κ ν μ : Type*} [DecidableEq κ] [DecidableEq ν]

/-- `d.setdefault(key, {})[name] = value`. -/
def setIn (d : OrderedDict κ (OrderedDict ν μ)) (key : κ) (name : ν) (value : μ) :
    OrderedDict κ (OrderedDict ν μ) :=
  (d.add key empty).modify key fun inner => inner.set name value

/-- `d.get(key, {})`. -/
def getIn (d : OrderedDict κ (OrderedDict ν μ)) (key : κ) : OrderedDict ν μ :=
  (d.get key).getD empty

/-- All triples of a stream. -/
def collect (triples : List (κ × ν × μ)) : OrderedDict κ (OrderedDict ν μ) :=
  triples.foldl (fun d triple => d.setIn triple.1 triple.2.1 triple.2.2) empty

/-- A name set under a key is set in the inner dictionary of that key, which begins empty. -/
theorem getIn_setIn_self (d : OrderedDict κ (OrderedDict ν μ)) (key : κ) (name : ν) (value : μ) :
    (d.setIn key name value).getIn key = (d.getIn key).set name value := by
  rw [getIn, setIn, get_modify_self, get_add_self]
  rfl

/-- A name set under one key changes no inner dictionary of another. -/
theorem getIn_setIn_of_ne {d : OrderedDict κ (OrderedDict ν μ)} {key key' : κ} {name : ν}
    {value : μ} (h : key' ≠ key) : (d.setIn key name value).getIn key' = d.getIn key' := by
  rw [getIn, setIn, get_modify_of_ne h, get_add_of_ne h]
  rfl

/-- **What is found is what the stream says last:** of all the triples with this key and this name,
the value of the last one. -/
theorem get_collect_concat (triples : List (κ × ν × μ)) (key key' : κ) (name name' : ν)
    (value : μ) : ((collect (triples ++ [(key, name, value)])).getIn key').get name' =
      if key' = key ∧ name' = name then some value else ((collect triples).getIn key').get name' := by
  rw [collect, List.foldl_append]
  change (((collect triples).setIn key name value).getIn key').get name' = _
  by_cases hkey : key' = key
  · subst hkey
    rw [getIn_setIn_self]
    by_cases hname : name' = name
    · subst hname
      rw [get_set_self, if_pos ⟨rfl, rfl⟩]
    · rw [get_set_of_ne hname, if_neg fun h => hname h.2]
  · rw [getIn_setIn_of_ne hkey, if_neg fun h => hkey h.1]

/-- **What a stream says of a key without contradicting itself is collected whole:** the order
of the stream does not matter. -/
theorem get_collect {triples : List (κ × ν × μ)} {key : κ}
    (hfun : ∀ name value value', (key, name, value) ∈ triples → (key, name, value') ∈ triples →
      value = value') (name : ν) (value : μ) :
    ((collect triples).getIn key).get name = some value ↔ (key, name, value) ∈ triples := by
  induction triples using List.reverseRecOn with
  | nil => exact ⟨fun h => (nomatch h), fun h => absurd h List.not_mem_nil⟩
  | append_singleton triples triple ih =>
    obtain ⟨key₁, name₁, value₁⟩ := triple
    have hlast : (key₁, name₁, value₁) ∈ triples ++ [(key₁, name₁, value₁)] :=
      List.mem_append_right _ (List.mem_singleton_self _)
    have hprefix := ih fun n v v' h h' =>
      hfun n v v' (List.mem_append_left _ h) (List.mem_append_left _ h')
    rw [get_collect_concat, List.mem_append, List.mem_singleton]
    by_cases h : key = key₁ ∧ name = name₁
    · obtain ⟨rfl, rfl⟩ := h
      rw [if_pos ⟨rfl, rfl⟩]
      constructor
      · intro h
        exact Or.inr (by rw [Option.some.inj h])
      · rintro (h | h)
        · exact congrArg some (hfun _ _ _ hlast (List.mem_append_left _ h))
        · exact congrArg some (congrArg (fun t => t.2.2) h).symm
    · rw [if_neg h, hprefix]
      refine ⟨Or.inl, fun hmem => hmem.resolve_right fun heq => h ?_⟩
      exact ⟨congrArg Prod.fst heq, congrArg (fun t => t.2.1) heq⟩

/-- What a stream says of a key is what a dictionary has: then that is what is collected. -/
theorem getIn_collect_eq {triples : List (κ × ν × μ)} {key : κ} {d : OrderedDict ν μ}
    (h : ∀ name value, (key, name, value) ∈ triples ↔ d.get name = some value) (name : ν) :
    ((collect triples).getIn key).get name = d.get name := by
  refine Option.ext fun value => ?_
  rw [← h, get_collect]
  intro name value value' hmem hmem'
  exact Option.some.inj (((h name value).mp hmem).symm.trans ((h name value').mp hmem'))

end OrderedDict
