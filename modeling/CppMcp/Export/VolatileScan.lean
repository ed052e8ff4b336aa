/-
# The scan for a `volatile` member function

`_method_has_volatile_qualifier` of `src/cpp_mcp/graphdb/exporter.py` takes the first group of parentheses
among the tokens of a member function for its parameter list, and looks for `volatile` from there to a
terminator.  But a specifier or the name can have parentheses too, as `decltype(x)` or `operator()`, and
`volatile` or a terminator can stand inside the operand of a `noexcept`.

A member function is cut here as the grammar has it.  `Disturbed` lists the five ways in which a token
that is no qualifier decides the scan wrongly, and `volatileScan_iff` says that it is right exactly if
there is none of them.
-/

import CppMcp.Export.Props

namespace CppMcp
namespace Export

/-! ### The tokens of a member function -/

/-- Tokens in which the parentheses match. -/
inductive Balanced : List String → Prop
  | nil : Balanced []
  | word {sp : String} {rest : List String} : sp ≠ "(" → sp ≠ ")" → Balanced rest →
      Balanced (sp :: rest)
  | group {inner rest : List String} : Balanced inner → Balanced rest →
      Balanced ("(" :: inner ++ ")" :: rest)

/-- A token outside parentheses, or a group of parentheses with what is in it. -/
inductive Item where
  | word (sp : String)
  | group (inner : List String)
  deriving DecidableEq, Repr

/-- The tokens of an item. -/
def Item.tokens : Item → List String
  | word sp => [sp]
  | group inner => "(" :: inner ++ [")"]

/-- The item is what it says. -/
def Item.WellFormed : Item → Prop
  | word sp => sp ≠ "(" ∧ sp ≠ ")"
  | group inner => Balanced inner

/-- The tokens that end the scan. -/
def terminators : List String := ["\x7b", ";", "=", "->"]

/-- The tokens that can follow the qualifiers: a terminator, or one that begins a body. -/
def suffixEnds : List String := terminators ++ [":", "try"]

/-- The tokens of a member function: the specifiers and the name, the parameters without their
parentheses, the qualifiers, and the rest. -/
structure MethodDeclaration where
  specifiers : List Item
  name : List Item
  params : List String
  qualifiers : List Item
  rest : List String
  head_wf : ∀ i ∈ specifiers ++ name, i.WellFormed
  params_wf : Balanced params
  qualifiers_wf : ∀ i ∈ qualifiers, i.WellFormed
  qualifiers_end : ∀ sp ∈ suffixEnds, .word sp ∉ qualifiers
  rest_begins : ∀ sp ∈ rest.head?, sp ∈ suffixEnds

/-- The tokens of some items. -/
def itemTokens (items : List Item) : List String := items.flatMap Item.tokens

namespace MethodDeclaration

variable (d : MethodDeclaration)

/-- All tokens. -/
def tokens : List String :=
  itemTokens (d.specifiers ++ d.name) ++
    ("(" :: d.params ++ ")" :: (itemTokens d.qualifiers ++ d.rest))

/-- **The member function is `volatile`:** that is one of the qualifiers. -/
def IsVolatile : Prop := .word "volatile" ∈ d.qualifiers

instance : Decidable d.IsVolatile := inferInstanceAs (Decidable (_ ∈ _))

end MethodDeclaration

/-- What follows the first group of some items, if there is one. -/
def afterFirstGroup : List Item → Option (List Item)
  | [] => none
  | .word _ :: items => afterFirstGroup items
  | .group _ :: items => some items

/-- The first of some tokens that decides the scan: a terminator or `volatile`. -/
def deciding (tokens : List String) : Option String :=
  tokens.find? fun sp => sp ∈ terminators ∨ sp = "volatile"

/-- The first token that decides the scan inside the operands of some qualifiers, unless `volatile`
stands before it as a qualifier. -/
def decidingOperand : List Item → Option String
  | [] => none
  | .word sp :: items => if sp = "volatile" then none else decidingOperand items
  | .group inner :: items => (deciding inner).or (decidingOperand items)

namespace MethodDeclaration

variable (d : MethodDeclaration)

/-- What stands between the first group of parentheses and the qualifiers, if that group is not the
parameter list. -/
def lead : List String :=
  match afterFirstGroup (d.specifiers ++ d.name) with
  | none => []
  | some items => itemTokens items ++ ("(" :: d.params ++ [")"])

/-- **A token that is no qualifier decides the scan,** and wrongly: `volatile` in a function that is not, or
a terminator in one that is. -/
inductive Disturbed : Prop
  /-- `volatile` stands before the qualifiers, behind a group that is not the parameter list. -/
  | volatileAhead (token : deciding d.lead = some "volatile") (plain : ¬d.IsVolatile)
  /-- A terminator stands there. -/
  | endAhead {sp : String} (token : deciding d.lead = some sp) (ends : sp ∈ terminators)
      (qualified : d.IsVolatile)
  /-- `volatile` stands in the operand of a qualifier. -/
  | volatileOperand (passed : deciding d.lead = none)
      (token : decidingOperand d.qualifiers = some "volatile") (plain : ¬d.IsVolatile)
  /-- A terminator stands in an operand before `volatile`. -/
  | endOperand {sp : String} (passed : deciding d.lead = none)
      (token : decidingOperand d.qualifiers = some sp) (ends : sp ∈ terminators)
      (qualified : d.IsVolatile)
  /-- `volatile` stands behind the qualifiers, in what a body begins with. -/
  | volatileBehind (passed : deciding d.lead = none) (quiet : decidingOperand d.qualifiers = none)
      (plain : ¬d.IsVolatile) (token : deciding d.rest = some "volatile")

/-- Nothing disturbs the scan. -/
def Undisturbed : Prop := ¬d.Disturbed

end MethodDeclaration

/-! ### Where the scan begins -/

/-- Inside a group the parentheses of others do not count. -/
theorem afterParameterList_balanced {inner : List String} (h : Balanced inner) {depth : ℤ}
    (hdepth : 0 < depth) (rest : List String) :
    afterParameterList depth (inner ++ rest) = afterParameterList depth rest := by
  induction h generalizing depth rest with
  | nil => rfl
  | word hopen hclose _ ih =>
    rw [List.cons_append, afterParameterList, if_neg hopen, if_neg hclose, ih hdepth]
  | @group inner later _ _ ihinner ihlater =>
    have hback : depth + 1 - 1 = depth := Int.add_sub_cancel depth 1
    rw [List.append_assoc, List.cons_append, List.cons_append, afterParameterList, if_pos rfl,
      ihinner (by omega), afterParameterList, if_neg (by decide), if_pos rfl,
      hback, if_neg (Int.ne_of_gt hdepth), ihlater hdepth]

/-- The first group ends where it is closed: parentheses inside it are balanced, so none of them
ends it earlier. -/
theorem afterParameterList_group {inner : List String} (h : Balanced inner) (rest : List String) :
    afterParameterList 0 ("(" :: inner ++ ")" :: rest) = some rest := by
  rw [List.cons_append, afterParameterList, if_pos rfl, afterParameterList_balanced h (by decide),
    afterParameterList, if_neg (by decide), if_pos rfl]
  rfl

/-- Behind items of the declaration: the scan begins behind the first of them that is a group, or
goes on looking in what follows if none is. -/
theorem afterParameterList_items {items : List Item} (h : ∀ i ∈ items, i.WellFormed)
    (rest : List String) : afterParameterList 0 (itemTokens items ++ rest) =
      match afterFirstGroup items with
      | none => afterParameterList 0 rest
      | some later => some (itemTokens later ++ rest) := by
  induction items with
  | nil => rfl
  | cons i items ih =>
    obtain ⟨hi, hitems⟩ := List.forall_mem_cons.mp h
    rw [itemTokens, List.flatMap_cons, List.append_assoc]
    cases i with
    | word sp =>
      rw [Item.tokens, List.singleton_append, afterParameterList, if_neg hi.1, if_neg hi.2]
      exact ih hitems
    | group inner =>
      rw [Item.tokens, List.append_assoc, List.singleton_append]
      exact afterParameterList_group hi _

/-- **Where the scan begins:** behind the first group of parentheses, and that is the parameter list
unless the name has one of its own. -/
theorem afterParameterList_tokens (d : MethodDeclaration) : afterParameterList 0 d.tokens =
    some (d.lead ++ (itemTokens d.qualifiers ++ d.rest)) := by
  rw [MethodDeclaration.tokens, afterParameterList_items d.head_wf, MethodDeclaration.lead]
  cases afterFirstGroup (d.specifiers ++ d.name) with
  | none => exact afterParameterList_group d.params_wf _
  | some items =>
    simp only [List.append_assoc, List.cons_append, List.nil_append]

/-! ### What the scan comes by -/

/-- The scan answers yes exactly if what decides it is `volatile`; every other deciding token makes
it stop. -/
theorem scanVolatile_iff (tokens : List String) :
    scanVolatile tokens = true ↔ deciding tokens = some "volatile" := by
  induction tokens with
  | nil => exact iff_of_false nofun nofun
  | cons sp tokens ih =>
    rw [scanVolatile, deciding, List.find?_cons]
    by_cases hend : sp ∈ terminators
    · have hne : sp ≠ "volatile" := fun heq => absurd (heq ▸ hend) (by decide)
      have hscan : sp ∈ ["\x7b", ";", "="] ∨ sp = "->" := by
        simpa [terminators, or_assoc] using hend
      obtain hscan | rfl := hscan
      · simp [hscan, hend, hne]
      · simp [terminators]
    · have hscan : sp ∉ ["\x7b", ";", "="] ∧ sp ≠ "->" := by
        simpa [terminators, and_assoc] using hend
      rw [if_neg hscan.1, if_neg hscan.2]
      by_cases hvolatile : sp = "volatile"
      · simp [hvolatile]
      · simp only [hvolatile, hend, if_false, or_self, decide_false]
        exact ih

/-- Tokens that all have spellings are read as those. -/
theorem spellings_map_ok (tokens : List String) : spellings (.ok (tokens.map Except.ok)) = tokens := by
  change (tokens.map Except.ok).filterMap Except.toOption = tokens
  rw [List.filterMap_map]
  exact List.filterMap_some

/-- What decides a sequence decides any longer one; if nothing does, the later tokens decide. -/
theorem deciding_append (tokens more : List String) :
    deciding (tokens ++ more) = (deciding tokens).or (deciding more) :=
  List.find?_append

/-- What decides the scan is a terminator or `volatile`. -/
theorem mem_of_deciding {tokens : List String} {sp : String} (h : deciding tokens = some sp) :
    sp ∈ terminators ∨ sp = "volatile" := by
  simpa using List.find?_some h

/-- The parentheses of a group do not decide, so what decides a group is what stands in it. -/
theorem deciding_group (inner : List String) : deciding (Item.group inner).tokens = deciding inner := by
  have hclose : deciding [")"] = none := rfl
  have hopen : deciding ("(" :: inner ++ [")"]) = deciding (inner ++ [")"]) := rfl
  rw [Item.tokens, hopen, deciding_append, hclose, Option.or_none]

/-- **What decides the scan among the qualifiers** is a token in an operand, or else `volatile` itself. -/
theorem deciding_qualifiers {items : List Item} (hend : ∀ sp ∈ suffixEnds, .word sp ∉ items) :
    deciding (itemTokens items) =
      (decidingOperand items).or (if .word "volatile" ∈ items then some "volatile" else none) := by
  induction items with
  | nil => rfl
  | cons i items ih =>
    have hrest := ih fun sp hsp hmem => hend sp hsp (List.mem_cons_of_mem _ hmem)
    rw [itemTokens, List.flatMap_cons, deciding_append]
    change (deciding i.tokens).or (deciding (itemTokens items)) = _
    rw [hrest]
    cases i with
    | group inner => rw [deciding_group, decidingOperand, Option.or_assoc]; simp
    | word sp =>
      have hword : sp ∉ terminators := fun hsp =>
        hend sp (List.mem_append_left _ hsp) List.mem_cons_self
      rw [decidingOperand]
      by_cases hvolatile : sp = "volatile"
      · rw [hvolatile]
        simp [Item.tokens, deciding]
      · have hnone : deciding (Item.word sp).tokens = none := by
          simp [Item.tokens, deciding, hword, hvolatile]
        have hmem : (Item.word "volatile" ∈ Item.word sp :: items) ↔ Item.word "volatile" ∈ items := by
          simp [Ne.symm hvolatile]
        rw [hnone, Option.none_or, if_neg hvolatile]
        simp only [hmem]

/-- A token that decides the scan decides it wrongly. -/
def MethodDeclaration.Wrong (d : MethodDeclaration) (sp : String) : Prop :=
  sp = "volatile" ∧ ¬d.IsVolatile ∨ sp ∈ terminators ∧ d.IsVolatile

/-- What decides the scan is right or wrong: `volatile` is no terminator. -/
theorem MethodDeclaration.right_iff (d : MethodDeclaration) {sp : String}
    (h : sp ∈ terminators ∨ sp = "volatile") : (sp = "volatile" ↔ d.IsVolatile) ↔ ¬d.Wrong sp := by
  unfold Wrong
  obtain hend | rfl := h
  · have hne : sp ≠ "volatile" := fun heq => absurd (heq ▸ hend) (by decide)
    simp [hne, hend]
  · simp [terminators]

/-- What decides the scan in the operand of a qualifier is again a terminator or `volatile`. -/
theorem mem_of_decidingOperand {items : List Item} {sp : String} (h : decidingOperand items = some sp) :
    sp ∈ terminators ∨ sp = "volatile" := by
  induction items with
  | nil => cases h
  | cons i items ih =>
    cases i with
    | word sp' =>
      rw [decidingOperand] at h
      split_ifs at h
      exact ih h
    | group inner =>
      rw [decidingOperand, Option.or_eq_some_iff] at h
      exact h.elim mem_of_deciding fun hrest => ih hrest.2

/-- Where nothing in any operand decides the scan, no operand does. -/
theorem decidingOperand_eq_none {items : List Item}
    (h : ∀ inner, .group inner ∈ items → deciding inner = none) : decidingOperand items = none := by
  induction items with
  | nil => rfl
  | cons i items ih =>
    have hrest := ih fun inner hinner => h inner (List.mem_cons_of_mem _ hinner)
    cases i with
    | word sp => rw [decidingOperand, hrest, ite_self]
    | group inner => rw [decidingOperand, h inner List.mem_cons_self, hrest, Option.or_none]

namespace MethodDeclaration

variable {d : MethodDeclaration}

/-- Where a token before the qualifiers decides the scan, it disturbs it if it is wrong. -/
theorem disturbed_iff_of_lead {sp : String} (hlead : deciding d.lead = some sp) :
    d.Disturbed ↔ d.Wrong sp := by
  constructor
  · rintro (⟨htoken, hplain⟩ | ⟨htoken, hend, hvolatile⟩ | hpassed | hpassed | hpassed)
    · exact Or.inl ⟨Option.some.inj (hlead.symm.trans htoken), hplain⟩
    · exact Or.inr ⟨Option.some.inj (hlead.symm.trans htoken) ▸ hend, hvolatile⟩
    all_goals cases hlead.symm.trans hpassed
  · rintro (⟨rfl, hplain⟩ | ⟨hend, hvolatile⟩)
    · exact .volatileAhead hlead hplain
    · exact .endAhead hlead hend hvolatile

/-- So it is with a token in the operand of a qualifier. -/
theorem disturbed_iff_of_operand {sp : String} (hlead : deciding d.lead = none)
    (hoperand : decidingOperand d.qualifiers = some sp) : d.Disturbed ↔ d.Wrong sp := by
  constructor
  · rintro (⟨htoken, -⟩ | ⟨htoken, -, -⟩ | ⟨-, htoken, hplain⟩ | ⟨-, htoken, hend, hvolatile⟩ |
      ⟨-, hquiet, -⟩)
    · cases hlead.symm.trans htoken
    · cases hlead.symm.trans htoken
    · exact Or.inl ⟨Option.some.inj (hoperand.symm.trans htoken), hplain⟩
    · exact Or.inr ⟨Option.some.inj (hoperand.symm.trans htoken) ▸ hend, hvolatile⟩
    · cases hoperand.symm.trans hquiet
  · rintro (⟨rfl, hplain⟩ | ⟨hend, hvolatile⟩)
    · exact .volatileOperand hlead hoperand hplain
    · exact .endOperand hlead hoperand hend hvolatile

/-- Where neither decides, only `volatile` behind the qualifiers of a function that is not can disturb. -/
theorem disturbed_iff_of_quiet (hlead : deciding d.lead = none)
    (hoperand : decidingOperand d.qualifiers = none) :
    d.Disturbed ↔ ¬d.IsVolatile ∧ deciding d.rest = some "volatile" := by
  constructor
  · rintro (⟨htoken, -⟩ | ⟨htoken, -, -⟩ | ⟨-, htoken, -⟩ | ⟨-, htoken, -, -⟩ | ⟨-, -, hplain, hrest⟩)
    · cases hlead.symm.trans htoken
    · cases hlead.symm.trans htoken
    · cases hoperand.symm.trans htoken
    · cases hoperand.symm.trans htoken
    · exact ⟨hplain, hrest⟩
  · exact fun ⟨hplain, hrest⟩ => .volatileBehind hlead hoperand hplain hrest

end MethodDeclaration

/-- **The scan is right exactly if** nothing disturbs it.  The first token that decides on its way stands
before the qualifiers, or among them, or behind them. -/
theorem volatileScan_iff {c : CursorInfo} {d : MethodDeclaration}
    (h : c.get_tokens = .ok (d.tokens.map Except.ok)) :
    (methodHasVolatileQualifier c = true ↔ d.IsVolatile) ↔ d.Undisturbed := by
  have hscan : methodHasVolatileQualifier c = true ↔
      deciding (d.lead ++ (itemTokens d.qualifiers ++ d.rest)) = some "volatile" := by
    rw [methodHasVolatileQualifier, h, spellings_map_ok, afterParameterList_tokens]
    exact scanVolatile_iff _
  rw [hscan, deciding_append, deciding_append, deciding_qualifiers d.qualifiers_end,
    MethodDeclaration.Undisturbed]
  cases hlead : deciding d.lead with
  | some sp =>
    rw [Option.some_or, Option.some.injEq, MethodDeclaration.disturbed_iff_of_lead hlead]
    exact d.right_iff (mem_of_deciding hlead)
  | none =>
    rw [Option.none_or]
    cases hoperand : decidingOperand d.qualifiers with
    | some sp =>
      rw [Option.some_or, Option.some_or, Option.some.injEq,
        MethodDeclaration.disturbed_iff_of_operand hlead hoperand]
      exact d.right_iff (mem_of_decidingOperand hoperand)
    | none =>
      rw [Option.none_or, MethodDeclaration.disturbed_iff_of_quiet hlead hoperand]
      change ((if d.IsVolatile then some "volatile" else none).or (deciding d.rest) =
        some "volatile" ↔ _) ↔ _
      by_cases hvolatile : d.IsVolatile
      · rw [if_pos hvolatile, Option.some_or]
        exact iff_of_true (iff_of_true rfl hvolatile) fun hwrong => hwrong.1 hvolatile
      · rw [if_neg hvolatile, Option.none_or, iff_false_right hvolatile]
        exact not_congr (and_iff_right hvolatile).symm

/-- Parentheses of the parameter list first, and none that decide the scan among the qualifiers: an
ordinary member function is not disturbed. -/
theorem MethodDeclaration.undisturbed_of_ordinary {d : MethodDeclaration}
    (hhead : afterFirstGroup (d.specifiers ++ d.name) = none)
    (hqualifiers : ∀ inner, .group inner ∈ d.qualifiers → deciding inner = none)
    (hrest : ∀ sp ∈ d.rest.head?, sp ∈ terminators) : d.Undisturbed := by
  have hlead : deciding d.lead = none := by
    rw [MethodDeclaration.lead, hhead]
    rfl
  have hoperand := decidingOperand_eq_none hqualifiers
  rintro (⟨htoken, -⟩ | ⟨htoken, -, -⟩ | ⟨-, htoken, -⟩ | ⟨-, htoken, -, -⟩ | ⟨-, -, -, htoken⟩)
  · cases hlead.symm.trans htoken
  · cases hlead.symm.trans htoken
  · cases hoperand.symm.trans htoken
  · cases hoperand.symm.trans htoken
  · cases hbegins : d.rest with
    | nil =>
      rw [hbegins] at htoken
      cases htoken
    | cons sp rest =>
      have hend : sp ∈ terminators := hrest sp (by rw [hbegins]; rfl)
      have hfirst : deciding (sp :: rest) = some sp :=
        List.find?_cons_of_pos (decide_eq_true (Or.inl hend))
      rw [hbegins, hfirst] at htoken
      obtain rfl := Option.some.inj htoken
      exact absurd hend (by decide)

/-- The member function has these tokens. -/
def methodOf (d : MethodDeclaration) : CursorInfo where
  kind := .ok .cxxMethod
  get_tokens := .ok (d.tokens.map Except.ok)

/-- These tokens of a parameter have balanced parentheses. -/
theorem balanced_volatilePointer : Balanced ["volatile", "int", "*", "p"] :=
  .word (by decide) (by decide) (.word (by decide) (by decide)
    (.word (by decide) (by decide) (.word (by decide) (by decide) .nil)))

/-- A member function that takes a pointer to a `volatile int`, with this name. -/
def takesVolatile (name : List Item) (h : ∀ i ∈ name, i.WellFormed) : MethodDeclaration where
  specifiers := [.word "void"]
  name
  params := ["volatile", "int", "*", "p"]
  qualifiers := []
  rest := [";"]
  head_wf := List.forall_mem_cons.mpr ⟨⟨by decide, by decide⟩, h⟩
  params_wf := balanced_volatilePointer
  qualifiers_wf _ hi := absurd hi List.not_mem_nil
  qualifiers_end _ _ := List.not_mem_nil
  rest_begins := by decide

/-- `void f(volatile int *p);` -/
def namedMethod : MethodDeclaration :=
  takesVolatile [.word "f"] (by simp [Item.WellFormed])

/-- `void operator()(volatile int *p);` -/
def callOperator : MethodDeclaration :=
  takesVolatile [.word "operator", .group []] (by simp [Item.WellFormed, Balanced.nil])

/-- `volatileScan_iff` at a function with a plain name, where the parameter list is the first group.
-/
theorem volatileScan_iff_namedMethod :
    (methodHasVolatileQualifier (methodOf namedMethod) = true ↔ namedMethod.IsVolatile) ↔
      namedMethod.Undisturbed :=
  volatileScan_iff rfl

/-- **A call operator counts as `volatile`** where one of its parameters is: the first parentheses
are those of its name, so the scan begins before the parameter list. -/
theorem callOperator_flagged :
    callOperator.tokens =
        ["void", "operator", "(", ")", "(", "volatile", "int", "*", "p", ")", ";"] ∧
      methodHasVolatileQualifier (methodOf callOperator) = true ∧ ¬callOperator.IsVolatile :=
  ⟨rfl, rfl, List.not_mem_nil⟩

end Export
end CppMcp
