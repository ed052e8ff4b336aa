/-
# Texts read block by block

Some letters separate, and what stands between them are the blocks of a text.  A rewriting that
works on each block by itself and writes no separator into one gives the same result for two
texts exactly if they have the same separators and their blocks are rewritten to the same.
-/

import Mathlib.Data.List.Forall2
import Mathlib.Tactic.Common

namespace Blocks

variable {α : Type*} {sep : α → Bool}

/-- Nothing in the text separates. -/
def Free (sep : α → Bool) (b : List α) : Prop := ∀ a ∈ b, sep a = false

/-- A block without letters has no separator in it. -/
theorem free_nil : Free sep ([] : List α) := fun _ h => absurd h List.not_mem_nil

/-- A block has no separator if its first letter is none and the rest has none. -/
theorem free_cons {a : α} {b : List α} : Free sep (a :: b) ↔ sep a = false ∧ Free sep b :=
  List.forall_mem_cons

/-- Two blocks one after the other have no separator exactly if neither has one. -/
theorem free_append {b c : List α} : Free sep (b ++ c) ↔ Free sep b ∧ Free sep c :=
  List.forall_mem_append

/-- **A text is a block, or a block, a separator and a text.** -/
theorem induct (sep : α → Bool) {motive : List α → Prop} (block : ∀ b, Free sep b → motive b)
    (append : ∀ b d s, Free sep b → sep d = true → motive s → motive (b ++ d :: s))
    (s : List α) : motive s := by
  have hrun : ∀ b, Free sep b → motive (b ++ s) := by
    induction s with
    | nil =>
      intro b hb
      rw [List.append_nil]
      exact block b hb
    | cons a s ih =>
      intro b hb
      cases ha : sep a with
      | true => exact append b a s hb ha (ih [] free_nil)
      | false =>
        have hb' : Free sep (b ++ [a]) := free_append.mpr ⟨hb, free_cons.mpr ⟨ha, free_nil⟩⟩
        simpa using ih (b ++ [a]) hb'
  exact hrun [] free_nil

/-- Where the first block ends is known from the text. -/
theorem append_cons_inj {b c s t : List α} {d e : α} (hb : Free sep b) (hc : Free sep c)
    (hd : sep d = true) (he : sep e = true) :
    b ++ d :: s = c ++ e :: t ↔ b = c ∧ d = e ∧ s = t := by
  constructor
  · intro h
    induction b generalizing c with
    | nil =>
      cases c with
      | nil => exact ⟨rfl, (List.cons.inj h).1, (List.cons.inj h).2⟩
      | cons x c =>
        obtain ⟨rfl, -⟩ := List.cons.inj h
        exact absurd ((free_cons.mp hc).1.symm.trans hd) Bool.false_ne_true
    | cons x b ih =>
      cases c with
      | nil =>
        obtain ⟨rfl, -⟩ := List.cons.inj h
        exact absurd ((free_cons.mp hb).1.symm.trans he) Bool.false_ne_true
      | cons y c =>
        obtain ⟨rfl, hrest⟩ := List.cons.inj h
        obtain ⟨rfl, hd', hs⟩ := ih (free_cons.mp hb).2 (free_cons.mp hc).2 hrest
        exact ⟨rfl, hd', hs⟩
  · rintro ⟨rfl, rfl, rfl⟩
    rfl

/-- A block is not the beginning of a text with a separator: it would have the separator in it. -/
theorem Free.ne_append_cons {b c s : List α} {d : α} (hb : Free sep b) (hd : sep d = true) :
    b ≠ c ++ d :: s := by
  rintro rfl
  exact absurd ((hb d (by simp)).symm.trans hd) Bool.false_ne_true

/-- Of a block nothing is left when only separators are kept. -/
theorem Free.filter_eq {b : List α} (hb : Free sep b) : b.filter sep = [] :=
  List.filter_eq_nil_iff.mpr fun a ha => by simp [hb a ha]

/-- Of a block and what follows a separator, the separators are that one and those that follow. -/
theorem Free.filter_append_cons {b s : List α} {d : α} (hb : Free sep b) (hd : sep d = true) :
    (b ++ d :: s).filter sep = d :: s.filter sep := by
  rw [List.filter_append, hb.filter_eq, List.nil_append, List.filter_cons_of_pos hd]

/-- A rewriting that works block by block. -/
structure Blockwise (sep : α → Bool) (f : List α → List α) : Prop where
  nil : f [] = []
  append_cons : ∀ {d : α}, sep d = true → ∀ s t, f (s ++ d :: t) = f s ++ d :: f t
  free : ∀ {b : List α}, Free sep b → Free sep (f b)

namespace Blockwise

variable {f : List α → List α}

/-- A rewriting that works block by block may be done on two parts separately, where the first ends
with a separator. -/
theorem append_of_getLast? (hf : Blockwise sep f) {s t : List α}
    (hs : s = [] ∨ ∃ d, s.getLast? = some d ∧ sep d = true) : f (s ++ t) = f s ++ f t := by
  rcases hs with rfl | ⟨d, hd, hsep⟩
  · rw [hf.nil, List.nil_append, List.nil_append]
  · obtain ⟨u, rfl⟩ := List.getLast?_eq_some_iff.mp hd
    rw [List.append_assoc, List.singleton_append, hf.append_cons hsep, hf.append_cons hsep, hf.nil,
      List.append_assoc, List.singleton_append]

/-- The same where the second part begins with a separator. -/
theorem append_of_head? (hf : Blockwise sep f) {s t : List α}
    (ht : t = [] ∨ ∃ d, t.head? = some d ∧ sep d = true) : f (s ++ t) = f s ++ f t := by
  rcases ht with rfl | ⟨d, hd, hsep⟩
  · rw [hf.nil, List.append_nil, List.append_nil]
  · obtain ⟨u, rfl⟩ := List.head?_eq_some_iff.mp hd
    have hhead := hf.append_cons hsep [] u
    rw [List.nil_append, hf.nil, List.nil_append] at hhead
    rw [hf.append_cons hsep, hhead]

/-- **When two texts are rewritten to one:** they have the same separators, and block by block they
are rewritten to the same. -/
theorem eq_iff (hf : Blockwise sep f) {R : List α → List α → Prop}
    (hR : ∀ b c, Free sep b → Free sep c → (f b = f c ↔ R b c)) (s t : List α) :
    f s = f t ↔
      s.filter sep = t.filter sep ∧ List.Forall₂ R (s.splitOnP sep) (t.splitOnP sep) := by
  induction s using induct sep generalizing t with
  | block b hb =>
    rw [hb.filter_eq, List.splitOnP_eq_singleton hb]
    induction t using induct sep with
    | block c hc =>
      rw [hc.filter_eq, List.splitOnP_eq_singleton hc, hR b c hb hc]
      simp
    | append c e t hc he _ =>
      rw [hc.filter_append_cons he, hf.append_cons he]
      exact ⟨fun h => absurd h ((hf.free hb).ne_append_cons he),
        fun h => absurd h.1 (List.cons_ne_nil _ _).symm⟩
  | append b d s hb hd ih =>
    rw [hb.filter_append_cons hd, List.splitOnP_append_cons_of_forall_mem hb d hd,
      hf.append_cons hd]
    induction t using induct sep with
    | block c hc =>
      rw [hc.filter_eq]
      exact ⟨fun h => absurd h.symm ((hf.free hc).ne_append_cons hd),
        fun h => absurd h.1 (List.cons_ne_nil _ _)⟩
    | append c e t hc he _ =>
      rw [hc.filter_append_cons he, List.splitOnP_append_cons_of_forall_mem hc e he,
        hf.append_cons he, append_cons_inj (hf.free hb) (hf.free hc) hd he, hR b c hb hc, ih t,
        List.cons.injEq, List.forall₂_cons]
      tauto

end Blockwise

/-! ### A word put into a text at several places -/

/-- The word after the first piece and after each of the next ones, and then the last piece. -/
def weave (opening : List α) (turns : List (List α)) (closing w : List α) : List α :=
  opening ++ w ++ turns.flatMap (· ++ w) ++ closing

/-- A word that is put into every gap makes a text longer by its length for each gap. -/
theorem length_weave (opening : List α) (turns : List (List α)) (closing w : List α) :
    (weave opening turns closing w).length =
      (weave opening turns closing []).length + (turns.length + 1) * w.length := by
  have hturns : (turns.flatMap (· ++ w)).length =
      (turns.flatMap (· ++ [])).length + turns.length * w.length := by
    induction turns with
    | nil => simp
    | cons s turns ih =>
      simp only [List.flatMap_cons, List.length_append, List.length_cons, List.length_nil, ih,
        Nat.add_mul, Nat.one_mul]
      omega
  simp only [weave, List.length_append, hturns, List.length_nil, Nat.add_mul, Nat.one_mul]
  omega

/-- **The word can be read off** what is woven of it, the pieces around it being known. -/
theorem weave_inj {opening : List α} {turns : List (List α)} {closing w w' : List α} :
    weave opening turns closing w = weave opening turns closing w' ↔ w = w' := by
  constructor
  · intro h
    have hlength := congrArg List.length h
    rw [length_weave opening turns closing w, length_weave opening turns closing w'] at hlength
    have hw : w.length = w'.length :=
      Nat.eq_of_mul_eq_mul_left (Nat.succ_pos turns.length) (Nat.add_left_cancel hlength)
    simp only [weave, List.append_assoc] at h
    exact (List.append_inj (List.append_cancel_left h) hw).1
  · rintro rfl
    rfl

end Blocks
