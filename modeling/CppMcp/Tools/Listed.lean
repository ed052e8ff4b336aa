/-
# Which references are listed, and in what order

`_collect_references` asks each cursor of the translation unit, in preorder, where it refers to the
symbol, and lists a location the first time it comes up.  So its list is that of all the answers,
each once (`collectReferences_eq`), and it raises exactly if a cursor does.  The tool hands out the
head of that list and counts the rest.
-/

import CppMcp.Tools.GetReferences
import Mathlib.Data.List.ReduceOption

section EraseDups

variable {α : Type} [BEq α] [LawfulBEq α] {l : List α} {a : α}

/-- An item that has come up before adds nothing to the list without repetitions. -/
theorem List.eraseDups_concat_of_mem (h : a ∈ l) : (l ++ [a]).eraseDups = l.eraseDups := by
  rw [eraseDups_append, removeAll, filter_singleton, elem_eq_true_of_mem h]
  exact append_nil _

/-- An item that comes up for the first time is added at the end. -/
theorem List.eraseDups_concat_of_not_mem (h : a ∉ l) :
    (l ++ [a]).eraseDups = l.eraseDups ++ [a] := by
  have helem : l.elem a = false := by rwa [← Bool.not_eq_true, elem_iff]
  rw [eraseDups_append, removeAll, filter_singleton, helem]
  rfl

/-- So no item stands there twice, by induction from the end of the list. -/
theorem List.nodup_eraseDups (l : List α) : l.eraseDups.Nodup := by
  induction l using List.reverseRecOn with
  | nil => exact nodup_nil
  | append_singleton l a ih =>
    by_cases h : a ∈ l
    · rwa [eraseDups_concat_of_mem h]
    · rw [eraseDups_concat_of_not_mem h, nodup_append]
      refine ⟨ih, pairwise_singleton _ _, ?_⟩
      rintro x hx y hy rfl
      exact h (mem_eraseDups.mp (mem_singleton.mp hy ▸ hx))

end EraseDups

namespace CppMcp
namespace Tools

open Cache (ClangSession)
open Export (Acc CursorInfo)

variable {read_text : String → Except String String} {target_usr : String}

/-- What the loop holds after these locations have come up: each once, the first time. -/
structure ListsFirsts (read_text : String → Except String String) (found : List (String × ℕ × ℕ))
    (w : Collected) : Prop where
  results : w.results = found.eraseDups.map (referenceOf read_text)
  seen : ∀ key, key ∈ w.seen_locations ↔ key ∈ found

/-- A location that comes up is listed unless it has come up before. -/
theorem ListsFirsts.add {found : List (String × ℕ × ℕ)} {w : Collected}
    (h : ListsFirsts read_text found w) (answer : Option (String × ℕ × ℕ)) :
    ListsFirsts read_text (found ++ answer.toList) (w.add read_text answer) := by
  cases answer with
  | none => rwa [Option.toList_none, List.append_nil]
  | some key =>
    rw [Option.toList_some, Collected.add]
    by_cases hkey : key ∈ w.seen_locations
    · have hfound := (h.seen key).mp hkey
      rw [if_pos hkey]
      refine ⟨by rw [h.results, List.eraseDups_concat_of_mem hfound], fun key' => ?_⟩
      rw [h.seen, List.mem_append, List.mem_singleton]
      exact ⟨Or.inl, fun hor => hor.elim id fun heq => heq ▸ hfound⟩
    · have hfound := mt (h.seen key).mpr hkey
      rw [if_neg hkey]
      refine ⟨?_, fun key' => ?_⟩
      · rw [h.results, List.eraseDups_concat_of_not_mem hfound, List.map_append, List.map_singleton]
      · rw [List.mem_cons, h.seen, List.mem_append, List.mem_singleton, or_comm]

/-- What the loop asks of a cursor: where it refers to the symbol, and then its children, since the walk
goes on with them. -/
def answerOf (target_usr : String) (c : CursorInfo) : Acc (Option (String × ℕ × ℕ)) := do
  let answer ← referenceAt target_usr c
  c.getChildren
  return answer

/-- **One turn of the loop** is decided by the answer of the cursor, and raises exactly if that does. -/
theorem turn_collectStep (w : Collected) (c : CursorInfo) :
    Rose.turn (collectStep read_text target_usr) CursorInfo.getChildren w c =
      (answerOf target_usr c).map (w.add read_text) := by
  rw [Rose.turn, answerOf, collectStep]
  cases referenceAt target_usr c with
  | error exc => rfl
  | ok answer => cases c.getChildren <;> rfl

/-- The loop lists what the cursors answer, after what it has listed before. -/
theorem foldlM_turn (cursors : List CursorInfo) {found : List (String × ℕ × ℕ)}
    {w : Collected} (h : ListsFirsts read_text found w) :
    (cursors.foldlM (Rose.turn (collectStep read_text target_usr) CursorInfo.getChildren) w).map
        Collected.results =
      (cursors.mapM (answerOf target_usr)).map fun answers =>
        (found ++ answers.reduceOption).eraseDups.map (referenceOf read_text) := by
  induction cursors generalizing found w with
  | nil =>
    rw [List.foldlM_nil, List.mapM_nil]
    change Except.ok w.results = Except.ok ((found ++ []).eraseDups.map (referenceOf read_text))
    rw [h.results, List.append_nil]
  | cons c cursors ih =>
    rw [List.foldlM_cons, List.mapM_cons, turn_collectStep]
    cases answerOf target_usr c with
    | error exc => rfl
    | ok answer =>
      change (cursors.foldlM (Rose.turn (collectStep read_text target_usr) CursorInfo.getChildren)
        (w.add read_text answer)).map Collected.results =
        ((cursors.mapM (answerOf target_usr)).bind _).map _
      rw [ih (h.add answer)]
      cases cursors.mapM (answerOf target_usr) with
      | error exc => rfl
      | ok answers =>
        rw [Except.map, List.append_assoc]
        cases answer <;> rfl

/-- **The references are the answers of the cursors,** each once, in the order of the first time. -/
theorem collectReferences_eq (read_text : String → Except String String) (target_usr : String)
    (tu : TranslationUnit) : collectReferences read_text target_usr tu =
      ((tu.cursor.subtrees.map Rose.label).mapM (answerOf target_usr)).map fun answers =>
        answers.reduceOption.eraseDups.map (referenceOf read_text) := by
  have hstart : ListsFirsts read_text [] {} := ⟨rfl, fun _ => Iff.rfl⟩
  have hresults : collectReferences read_text target_usr tu = ((tu.cursor.subtrees.map
      Rose.label).foldlM (Rose.turn (collectStep read_text target_usr) CursorInfo.getChildren)
        {}).map Collected.results := by
    rw [collectReferences, Rose.walkM_eq_foldlM]
    cases (tu.cursor.subtrees.map Rose.label).foldlM
      (Rose.turn (collectStep read_text target_usr) CursorInfo.getChildren) {} <;> rfl
  rw [hresults]
  exact foldlM_turn _ hstart

/-- A reference has the location that it is made of. -/
theorem map_key_referenceOf (keys : List (String × ℕ × ℕ)) :
    (keys.map (referenceOf read_text)).map Reference.key = keys := by
  rw [List.map_map]
  exact List.map_id keys

/-- The locations at which some cursors refer to the symbol, each once, in the order in which the
cursors first give them. -/
structure ListsInOrder (target_usr : String) (cursors : List CursorInfo)
    (keys : List (String × ℕ × ℕ)) : Prop where
  nodup : keys.Nodup
  mem : ∀ key, key ∈ keys ↔ ∃ c ∈ cursors, RefersTo target_usr key c
  order : ∃ answers, List.Forall₂ (fun c answer => ∀ key, answer = some key ↔
    RefersTo target_usr key c) cursors answers ∧ keys = answers.reduceOption.eraseDups

/-- The answers of the cursors, without repetitions, are the locations in their order. -/
theorem listsInOrder_of_answers {cursors : List CursorInfo} {answers : List (Option (String × ℕ × ℕ))}
    (h : List.Forall₂ (fun c answer => ∀ key, answer = some key ↔ RefersTo target_usr key c) cursors
      answers) : ListsInOrder target_usr cursors answers.reduceOption.eraseDups where
  nodup := List.nodup_eraseDups _
  mem key := by
    rw [List.mem_eraseDups, List.reduceOption_mem_iff]
    constructor
    · intro hkey
      obtain ⟨c, hc, hanswer⟩ := h.exists_mem hkey
      exact ⟨c, hc, (hanswer key).mp rfl⟩
    · rintro ⟨c, hc, hrefers⟩
      obtain ⟨answer, hanswer, hiff⟩ := h.flip.exists_mem hc
      exact (hiff key).mpr hrefers ▸ hanswer
  order := ⟨answers, h, rfl⟩

/-- What is collected of a translation unit: the answers of all its cursors. -/
theorem listsInOrder_of_collectReferences {tu : TranslationUnit} {refs : List Reference}
    (h : collectReferences read_text target_usr tu = .ok refs) :
    ListsInOrder target_usr (tu.cursor.subtrees.map Rose.label) (refs.map Reference.key) := by
  rw [collectReferences_eq] at h
  cases hanswers : (tu.cursor.subtrees.map Rose.label).mapM (answerOf target_usr) with
  | error exc =>
    rw [hanswers] at h
    cases h
  | ok answers =>
    rw [hanswers] at h
    cases h
    rw [map_key_referenceOf]
    refine listsInOrder_of_answers ((List.forall₂_of_mapM hanswers).imp fun c answer hc key => ?_)
    obtain ⟨answer', hanswer', hc⟩ := Except.bind_eq_ok.mp hc
    obtain ⟨-, -, hc⟩ := Except.bind_eq_ok.mp hc
    obtain rfl := Except.ok.inj hc
    rw [← referenceAt_eq_some_iff, hanswer', Except.ok.injEq]

/-- **The references of a symbol.**  What is collected of a translation unit are the locations at
which its cursors refer to the symbol, each once, in the order of the first time in preorder, and
something is collected unless a cursor raises.  An answer of the tool lists the head of that, and
says how much it leaves out. -/
theorem references_listed :
    (∀ read_text target_usr tu refs, collectReferences read_text target_usr tu = .ok refs →
      ListsInOrder target_usr (tu.cursor.subtrees.map Rose.label) (refs.map Reference.key)) ∧
    (∀ read_text target_usr (tu : TranslationUnit), (∀ c ∈ tu.cursor.subtrees.map Rose.label,
        (∃ answer, referenceAt target_usr c = .ok answer) ∧ c.getChildren = .ok ()) →
      ∃ refs, collectReferences read_text target_usr tu = .ok refs) ∧
    ∀ o session req r, (doGetReferences o session req).1 = .ok r →
      ∃ opened all_refs, (openUnit o session req).1 = .ok opened ∧
        collectReferences o.read_text r.usr opened.tu = .ok all_refs ∧
        r.references <+: all_refs ∧ r.references.length + r.omitted_count = all_refs.length ∧
        (r.truncated = true ↔ 0 < r.omitted_count) := by
  refine ⟨fun _ _ _ _ h => listsInOrder_of_collectReferences h, fun read_text target_usr tu h => ?_,
    fun o session req r h => ?_⟩
  · have hall : ∀ c ∈ tu.cursor.subtrees.map Rose.label, ∃ answer,
        answerOf target_usr c = .ok answer := fun c hc => by
      obtain ⟨⟨answer, hanswer⟩, hchildren⟩ := h c hc
      exact ⟨answer, by rw [answerOf, hanswer]; dsimp only [bind, Except.bind]; rw [hchildren]; rfl⟩
    obtain ⟨answers, hanswers⟩ := List.exists_mapM hall
    rw [collectReferences_eq, hanswers]
    exact ⟨_, rfl⟩
  · obtain ⟨opened, hopen, h⟩ := Except.bind_eq_ok.mp h
    obtain ⟨c, hc, h⟩ := Except.bind_eq_ok.mp h
    obtain ⟨usr, husr, h⟩ := Except.bind_eq_ok.mp h
    obtain ⟨all_refs, hrefs, h⟩ := Except.bind_eq_ok.mp h
    cases h
    refine ⟨opened, all_refs, hopen, hrefs, List.take_prefix _ _, ?_, ?_⟩
    · change (all_refs.take MAX_REFERENCES).length + (all_refs.length - MAX_REFERENCES) = _
      rw [List.length_take]
      omega
    · change decide (MAX_REFERENCES < all_refs.length) = true ↔ 0 < all_refs.length - MAX_REFERENCES
      rw [decide_eq_true_iff]
      omega

/-- A use of `calculate` at a column of line 2, of this kind. -/
def useAt (kind : Export.CursorKind) (column : ℕ) : CursorInfo where
  kind := .ok kind
  location := .ok ⟨some "/calc/a.cpp", 2, column⟩
  referenced := .ok (some ⟨.ok calculateUsr⟩)

/-- `int main() { return calculate() + calculate(); }`: a call begins where its callee does. -/
def sumUnit : TranslationUnit :=
  { calcUnit with
    cursor := .node { kind := .ok TRANSLATION_UNIT }
      [.node calculateDecl [],
        .node { kind := .ok .functionDecl, get_usr := .ok "c:@F@main#" }
          [.node (useAt .callExpr 21) [.node (useAt .declRefExpr 21) []],
            .node (useAt .callExpr 35) [.node (useAt .declRefExpr 35) []]]] }

/-- `references_listed` for four cursors that refer to the symbol, at two locations. -/
theorem references_listed_calc :
    ListsInOrder calculateUsr (sumUnit.cursor.subtrees.map Rose.label)
      [("/calc/a.cpp", 2, 21), ("/calc/a.cpp", 2, 35)] :=
  references_listed.1
    (fun _ => .ok "int calculate() { return 1; }\nint main() { return calculate() + calculate(); }\n")
    calculateUsr sumUnit
    [⟨"/calc/a.cpp", 2, 21, "int main() { return calculate() + calculate(); }"⟩,
      ⟨"/calc/a.cpp", 2, 35, "int main() { return calculate() + calculate(); }"⟩] (by decide +kernel)

end Tools
end CppMcp
