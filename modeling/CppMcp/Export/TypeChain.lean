/-
# Type nodes

`_get_or_create_type` of `src/cpp_mcp/graphdb/exporter.py`, and the batch it adds
to: the list of nodes, the list of edges and the set of USRs already taken, which
the whole extraction shares.

A type's node has a synthetic USR made from the type's spelling; a pointer or
reference gets an edge to its pointee's node, and so on down the chain.
`TypeStep` is the function as a relation, with one constructor for each thing it
can do, and `typeStep_getOrCreateType` says that it does no other.
-/

import CppMcp.Export.Props

namespace CppMcp
namespace Export

/-- The lists `nodes` and `edges` and the set `seen_usrs`. -/
structure Batch where
  nodes : List NodeRecord
  edges : List EdgeRecord
  seen_usrs : List String

namespace Batch

/-- `seen_usrs.add(usr)`. -/
def see (b : Batch) (usr : String) : Batch := { b with seen_usrs := usr :: b.seen_usrs }

/-- `nodes.append(n)`. -/
def addNode (b : Batch) (n : NodeRecord) : Batch := { b with nodes := b.nodes ++ [n] }

/-- `edges.append(EdgeRecord(source, target, t, props))`. -/
def addEdge (b : Batch) (source target : String) (t : EdgeType) (props : Props := []) : Batch :=
  { b with edges := b.edges ++ [⟨source, target, t, props⟩] }

/-- An edge to a target that may be missing. -/
def addEdge? (b : Batch) (source : String) (target : Option String) (t : EdgeType) : Batch :=
  match target with
  | some target => b.addEdge source target t
  | none => b

end Batch

/-- `_type_usr`. -/
def typeUsr (sha1 : Py.Sha1) (spelling : String) : String := "type:" ++ sha1.hexdigest spelling

variable (sha1 : Py.Sha1)

/-- `t.spelling or ""`. -/
def TypeInfo.spelled (t : TypeInfo) : String := Acc.getD t.spelling ""

/-- The USR of a type's node. -/
def TypeInfo.usr (t : TypeInfo) : String := typeUsr sha1 t.spelled

/-- A type's USR is taken and its node appended. -/
def Batch.takeType (b : Batch) (t : TypeInfo) : Batch :=
  (b.see (t.usr sha1)).addNode ⟨.type, t.usr sha1, typeProps t⟩

/-- The edge from a node to the type that `_get_or_create_type` returned. -/
def linkType (usr : String) (edge_type : EdgeType) (r : Batch × Option String) : Batch :=
  r.1.addEdge? usr r.2 edge_type

/-- The edge from a type to what `get_pointee()` gives. -/
def chainEdge (t : TypeInfo) : Option EdgeType :=
  match t.kind with
  | .ok .pointer => some .pointsTo
  | .ok .lvalueReference | .ok .rvalueReference => some .refersTo
  | _ => none

/-- `_get_or_create_type` of a type: the batch afterwards and the USR of the
type's node, `none` when the type has no spelling. -/
def getOrCreateType (b : Batch) : CType → Batch × Option String
  | .last t _ =>
    if t.spelled = "" then (b, none)
    else if t.usr sha1 ∈ b.seen_usrs then (b, some (t.usr sha1))
    else (b.takeType sha1 t, some (t.usr sha1))
  | .pointing t pointee =>
    if t.spelled = "" then (b, none)
    else if t.usr sha1 ∈ b.seen_usrs then (b, some (t.usr sha1))
    else
      match chainEdge t with
      | none => (b.takeType sha1 t, some (t.usr sha1))
      | some edge_type =>
        (linkType (t.usr sha1) edge_type (getOrCreateType (b.takeType sha1 t) pointee),
          some (t.usr sha1))

/-- `_get_or_create_type(cursor.type, …)` under `contextlib.suppress`: the
attribute may raise or be `None`. -/
def getOrCreateTypeOf (b : Batch) (type : Acc (Option CType)) : Batch × Option String :=
  match type with
  | .ok (some t) => getOrCreateType sha1 b t
  | _ => (b, none)

/-- **What `_get_or_create_type` does:** nothing without a spelling, nothing but
return the USR when it is taken, and otherwise take it and append the node, with
an edge to the pointee's node where there is one. -/
inductive TypeStep : CType → Batch → Batch → Option String → Prop
  | unspelled {t : CType} {b : Batch} (h : t.info.spelled = "") : TypeStep t b b none
  | taken {t : CType} {b : Batch} (hs : t.info.spelled ≠ "")
      (h : t.info.usr sha1 ∈ b.seen_usrs) : TypeStep t b b (some (t.info.usr sha1))
  | new {t : CType} {b : Batch} (hs : t.info.spelled ≠ "")
      (h : t.info.usr sha1 ∉ b.seen_usrs) :
      TypeStep t b (b.takeType sha1 t.info) (some (t.info.usr sha1))
  | chain {t : TypeInfo} {pointee : CType} {b b' : Batch} {usr : String} {k : EdgeType}
      (hs : t.spelled ≠ "") (h : t.usr sha1 ∉ b.seen_usrs) (hk : chainEdge t = some k)
      (hp : TypeStep pointee (b.takeType sha1 t) b' (some usr)) :
      TypeStep (.pointing t pointee) b (b'.addEdge (t.usr sha1) usr k) (some (t.usr sha1))

/-- `_get_or_create_type` does what a step of the interning does, by induction on the levels of the
type. -/
theorem typeStep_getOrCreateType (t : CType) (b : Batch) :
    TypeStep sha1 t b (getOrCreateType sha1 b t).1 (getOrCreateType sha1 b t).2 := by
  induction t generalizing b with
  | last t raises =>
    rw [getOrCreateType]
    split_ifs with hs h
    · exact .unspelled hs
    · exact .taken (t := .last t raises) hs h
    · exact .new (t := .last t raises) hs h
  | pointing t pointee ih =>
    rw [getOrCreateType]
    split_ifs with hs h
    · exact .unspelled hs
    · exact .taken (t := .pointing t pointee) hs h
    · cases hk : chainEdge t with
      | none => exact .new (t := .pointing t pointee) hs h
      | some k =>
        have hp := ih (b.takeType sha1 t)
        dsimp only [linkType]
        rcases hr : getOrCreateType sha1 (b.takeType sha1 t) pointee with ⟨b', _ | usr⟩
        · -- a pointee without a spelling leaves the batch as it is
          rw [hr] at hp
          cases hp
          exact .new (t := .pointing t pointee) hs h
        · rw [hr] at hp
          exact .chain hs h hk hp

/-- The same for an attribute that may raise or be `None`. -/
theorem typeStep_getOrCreateTypeOf (type : Acc (Option CType)) (b : Batch) :
    getOrCreateTypeOf sha1 b type = (b, none) ∨
      ∃ t, type = .ok (some t) ∧ TypeStep sha1 t b (getOrCreateTypeOf sha1 b type).1
        (getOrCreateTypeOf sha1 b type).2 := by
  rcases type with e | (_ | t)
  · exact Or.inl rfl
  · exact Or.inl rfl
  · exact Or.inr ⟨t, rfl, typeStep_getOrCreateType sha1 t b⟩

/-- The edge from a pointer or a reference to what it points to is one of two. -/
theorem chainEdge_cases {t : TypeInfo} {k : EdgeType} (h : chainEdge t = some k) :
    k = .pointsTo ∨ k = .refersTo := by
  unfold chainEdge at h
  split at h <;> simp at h <;> simp [← h]

end Export
end CppMcp
