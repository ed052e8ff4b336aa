/-
# Reading words whose letters may expand

A machine reads a word letter by letter.  At a letter it moves on, or it first
reads the body of a key, a word of its own, and goes on from where that ends.
Bodies may contain further keys, so a key may turn up while its own body is being
read, and then there is no value to go on with.  Macro expansion, includes and
symbolic links are of this kind.

`Reads n k w q` is a complete reading of `w` from `k` to `q` in `n` steps, and it
is deterministic (`Reads.det`).  There is one exactly if no key is met whose body leads
to it again (`evaluates_iff`).  `eval` is the reader that programs implement: it
keeps a table, enters a key there before it reads its body and the value
afterwards, and gives up when it meets a key that is entered without a value.
`eval_eq_value_iff` says that it gives up in no other case, so it finds every
reading there is.
-/

import Mathlib.Data.Finset.Card
import Mathlib.Data.List.Basic
import Mathlib.Tactic.Common

/-- At a letter, `next` says where to move or which key to read first; `body` is
where the body of a key starts and what it is. -/
structure Expand (κ α ι : Type*) where
  next : κ → α → κ ⊕ ι
  body : ι → κ × List α

namespace Expand

variable {κ α ι σ : Type*} (M : Expand κ α ι)

/-- Reading `w` from `k` ends at `q` after `n` letters, those of bodies included. -/
inductive Reads : ℕ → κ → List α → κ → Prop
  | done (k : κ) : Reads 0 k [] k
  | move {n : ℕ} {k k' q : κ} {a : α} {w : List α} (h : M.next k a = .inl k')
      (hw : Reads n k' w q) : Reads (n + 1) k (a :: w) q
  | expand {m n : ℕ} {k k' q : κ} {i : ι} {a : α} {w : List α} (h : M.next k a = .inr i)
      (hi : Reads m (M.body i).1 (M.body i).2 k') (hw : Reads n k' w q) :
      Reads (m + n + 1) k (a :: w) q

/-- Reading `w` from `k` ends at `q`. -/
def Evaluates (k : κ) (w : List α) (q : κ) : Prop := ∃ n, M.Reads n k w q

variable {M}

/-- **There is at most one reading,** of one length: the machine decides at every letter what to do,
so two readings of a word from the same place agree step by step. -/
theorem Reads.det {m n : ℕ} {k q q' : κ} {w : List α} (h : M.Reads m k w q)
    (h' : M.Reads n k w q') : m = n ∧ q = q' := by
  induction h generalizing n q' with
  | done k =>
    cases h'
    exact ⟨rfl, rfl⟩
  | move hn _ ih =>
    cases h' with
    | move hn' hw' =>
      obtain rfl := Sum.inl.inj (hn.symm.trans hn')
      obtain ⟨rfl, rfl⟩ := ih hw'
      exact ⟨rfl, rfl⟩
    | expand hn' _ _ => exact absurd (hn.symm.trans hn') (by simp)
  | expand hn _ _ ihi ihw =>
    cases h' with
    | move hn' _ => exact absurd (hn.symm.trans hn') (by simp)
    | expand hn' hi' hw' =>
      obtain rfl := Sum.inr.inj (hn.symm.trans hn')
      obtain ⟨rfl, rfl⟩ := ihi hi'
      obtain ⟨rfl, rfl⟩ := ihw hw'
      exact ⟨rfl, rfl⟩

/-- Where a word leads to is determined by where it is read from, whatever number of steps the two
readings are given with. -/
theorem Evaluates.det {k q q' : κ} {w : List α} (h : M.Evaluates k w q)
    (h' : M.Evaluates k w q') : q = q' :=
  let ⟨_, hm⟩ := h
  let ⟨_, hn⟩ := h'
  (hm.det hn).2

/-- Reading a word is reading its beginning and then the rest. -/
theorem Reads.of_append {n : ℕ} {k q : κ} {u v : List α} (h : M.Reads n k (u ++ v) q) :
    ∃ l m k', M.Reads l k u k' ∧ M.Reads m k' v q := by
  induction u generalizing n k with
  | nil => exact ⟨0, n, k, .done k, h⟩
  | cons a u ih =>
    rw [List.cons_append] at h
    cases h with
    | move hn hw =>
      obtain ⟨l, m, k', hu, hv⟩ := ih hw
      exact ⟨l + 1, m, k', .move hn hu, hv⟩
    | expand hn hi hw =>
      obtain ⟨l, m, k', hu, hv⟩ := ih hw
      exact ⟨_, m, k', .expand hn hi hu, hv⟩

/-! ### Keys that meet themselves -/

variable (M) in
/-- Reading `w` from `k`, as far as it gets, meets the key `i`: at a letter of the word, or
while the body of another key is being read. -/
inductive Meets : κ → List α → ι → Prop
  | here {k : κ} {a : α} {w : List α} {i : ι} (h : M.next k a = .inr i) : Meets k (a :: w) i
  | move {k k' : κ} {a : α} {w : List α} {i : ι} (h : M.next k a = .inl k') (hw : Meets k' w i) :
      Meets k (a :: w) i
  | inside {k : κ} {a : α} {w : List α} {i j : ι} (h : M.next k a = .inr j)
      (hi : Meets (M.body j).1 (M.body j).2 i) : Meets k (a :: w) i
  | after {k k' : κ} {a : α} {w : List α} {i j : ι} (h : M.next k a = .inr j)
      (hj : M.Evaluates (M.body j).1 (M.body j).2 k') (hw : Meets k' w i) : Meets k (a :: w) i

variable (M) in
/-- Reading the body of `i` leads to `i` again. -/
def MeetsItself (i : ι) : Prop := M.Meets (M.body i).1 (M.body i).2 i

/-- The body of a key that a complete reading meets is read completely, in fewer steps.  The
induction is on the way to the key. -/
theorem Meets.body_reads {k q : κ} {w : List α} {i : ι} {n : ℕ} (hmeets : M.Meets k w i)
    (h : M.Reads n k w q) : ∃ m < n, ∃ k', M.Reads m (M.body i).1 (M.body i).2 k' := by
  induction hmeets generalizing n q with
  | here hn =>
    cases h with
    | move hn' _ => exact absurd (hn.symm.trans hn') (by simp)
    | expand hn' hi' _ =>
      obtain rfl := Sum.inr.inj (hn.symm.trans hn')
      exact ⟨_, by omega, _, hi'⟩
  | move hn _ ih =>
    cases h with
    | move hn' hw' =>
      obtain rfl := Sum.inl.inj (hn.symm.trans hn')
      obtain ⟨m, hm, hbody⟩ := ih hw'
      exact ⟨m, by omega, hbody⟩
    | expand hn' _ _ => exact absurd (hn.symm.trans hn') (by simp)
  | inside hn _ ih =>
    cases h with
    | move hn' _ => exact absurd (hn.symm.trans hn') (by simp)
    | expand hn' hi' _ =>
      obtain rfl := Sum.inr.inj (hn.symm.trans hn')
      obtain ⟨m, hm, hbody⟩ := ih hi'
      exact ⟨m, by omega, hbody⟩
  | after hn hj _ ih =>
    cases h with
    | move hn' _ => exact absurd (hn.symm.trans hn') (by simp)
    | expand hn' hi' hw' =>
      obtain rfl := Sum.inr.inj (hn.symm.trans hn')
      obtain rfl := hj.det ⟨_, hi'⟩
      obtain ⟨m, hm, hbody⟩ := ih hw'
      exact ⟨m, by omega, hbody⟩

/-- So a key that meets itself cannot be read: there would be a shorter reading of its body
than any. -/
theorem MeetsItself.not_evaluates {i : ι} (h : M.MeetsItself i) (q : κ) :
    ¬M.Evaluates (M.body i).1 (M.body i).2 q := by
  rintro ⟨n, hr⟩
  induction n using Nat.strong_induction_on generalizing q with
  | _ n ih =>
    obtain ⟨m, hm, k', hbody⟩ := Meets.body_reads h hr
    exact ih m hm k' hbody

/-- Where nothing is met that is being read already, and nothing that meets itself, there is a
reading.  The induction is on the keys that are not being read yet. -/
theorem exists_evaluates [DecidableEq ι] {keys : Finset ι}
    (hkeys : ∀ k a i, M.next k a = .inr i → i ∈ keys) (reading : Finset ι) {k : κ} {w : List α}
    (h : ∀ i, M.Meets k w i → i ∉ reading ∧ ¬M.MeetsItself i) : ∃ q, M.Evaluates k w q := by
  obtain ⟨n, hn⟩ : ∃ n, (keys \ reading).card = n := ⟨_, rfl⟩
  induction n using Nat.strong_induction_on generalizing reading k w with
  | _ n ih =>
    induction w generalizing k with
    | nil => exact ⟨k, 0, .done k⟩
    | cons a w ihw =>
      cases hnext : M.next k a with
      | inl k' =>
        obtain ⟨q, m, hr⟩ := ihw fun i hi => h i (.move hnext hi)
        exact ⟨q, m + 1, .move hnext hr⟩
      | inr j =>
        obtain ⟨hfresh, hself⟩ := h j (.here hnext)
        have hlt : (keys \ insert j reading).card < n := by
          rw [← hn]
          refine Finset.card_lt_card ⟨Finset.sdiff_subset_sdiff le_rfl (Finset.subset_insert _ _),
            fun hsub => ?_⟩
          have hj := hsub (Finset.mem_sdiff.mpr ⟨hkeys k a j hnext, hfresh⟩)
          exact (Finset.mem_sdiff.mp hj).2 (Finset.mem_insert_self _ _)
        have hbody : ∀ i, M.Meets (M.body j).1 (M.body j).2 i →
            i ∉ insert j reading ∧ ¬M.MeetsItself i := by
          intro i hi
          obtain ⟨hi₁, hi₂⟩ := h i (.inside hnext hi)
          rw [Finset.mem_insert, not_or]
          exact ⟨⟨fun heq => hself (heq ▸ hi), hi₁⟩, hi₂⟩
        obtain ⟨k', m, hr⟩ := ih _ hlt (insert j reading) hbody rfl
        obtain ⟨q, l, hw⟩ := ihw fun i hi => h i (.after hnext ⟨m, hr⟩ hi)
        exact ⟨q, m + l + 1, .expand hnext hr hw⟩

/-- **There is a reading exactly if no key is met that meets itself.** -/
theorem evaluates_iff [DecidableEq ι] {keys : Finset ι}
    (hkeys : ∀ k a i, M.next k a = .inr i → i ∈ keys) {k : κ} {w : List α} :
    (∃ q, M.Evaluates k w q) ↔ ∀ i, M.Meets k w i → ¬M.MeetsItself i := by
  constructor
  · rintro ⟨q, n, hr⟩ i hi hself
    obtain ⟨m, -, k', hbody⟩ := hi.body_reads hr
    exact hself.not_evaluates k' ⟨m, hbody⟩
  · exact fun h => exists_evaluates hkeys ∅ fun i hi => ⟨Finset.notMem_empty i, h i hi⟩

/-! ### The reader -/

/-- What the reader comes to: a value, or what is left when it gives up. -/
inductive Outcome (κ σ : Type*) where
  | value (k : κ)
  | stuck (s : σ)

/-- What has been read of the keys met so far: nothing yet, or the value. -/
abbrev Table (κ ι : Type*) := List (ι × Option κ)

variable (M) [DecidableEq ι] (fail : ι → List α → σ) (unwind : σ → List α → σ)

/-- The loop over the letters; `enter` reads the body of a key. -/
def evalLoop (enter : ι → Table κ ι → Outcome κ σ × Table κ ι) :
    κ → List α → Table κ ι → Outcome κ σ × Table κ ι
  | k, [], T => (.value k, T)
  | k, a :: w, T =>
    match M.next k a with
    | .inl k' => evalLoop enter k' w T
    | .inr i =>
      match T.lookup i with
      | some (some k') => evalLoop enter k' w T
      | some none => (.stuck (fail i w), T)
      | none =>
        match enter i ((i, none) :: T) with
        | (.value k', T') => evalLoop enter k' w ((i, some k') :: T')
        | (.stuck s, T') => (.stuck (unwind s w), T')

/-- The reader, with bodies nested at most `fuel` deep. -/
def eval : ℕ → κ → List α → Table κ ι → Outcome κ σ × Table κ ι
  | 0 => evalLoop M fail unwind fun i T => (.stuck (fail i []), T)
  | fuel + 1 => evalLoop M fail unwind fun i T => eval fuel (M.body i).1 (M.body i).2 T

/-- Reading the body of a key, at one level less. -/
def enterAt : ℕ → ι → Table κ ι → Outcome κ σ × Table κ ι
  | 0 => fun i T => (.stuck (fail i []), T)
  | fuel + 1 => fun i T => eval M fail unwind fuel (M.body i).1 (M.body i).2 T

/-- At one more level, entering a key is reading its body from where the body starts. -/
theorem enterAt_succ (fuel : ℕ) (i : ι) (T : Table κ ι) :
    enterAt M fail unwind (fuel + 1) i T = eval M fail unwind fuel (M.body i).1 (M.body i).2 T :=
  rfl

/-- At every depth the reader is the same loop over the letters; only what it does to enter a key
depends on how deep it may still go. -/
theorem eval_eq (fuel : ℕ) :
    eval M fail unwind fuel = evalLoop M fail unwind (enterAt M fail unwind fuel) := by
  cases fuel <;> rfl

section Equations

variable {M} (fuel : ℕ) {k k' : κ} {i : ι} {a : α} (w : List α) (T : Table κ ι)

/-- Of the empty word nothing is left to read: the reader answers with where it stands, and has met
nothing new. -/
theorem eval_nil (k : κ) : eval M fail unwind fuel k [] T = (.value k, T) := by
  rw [eval_eq, evalLoop]

/-- At a letter that moves on, the reader goes on from there and the table is what it was. -/
theorem eval_move (h : M.next k a = .inl k') :
    eval M fail unwind fuel k (a :: w) T = eval M fail unwind fuel k' w T := by
  rw [eval_eq, evalLoop, h]

/-- At a letter with a key the table decides: a value is used, an entry without a value ends the
reading, and a key that is not there is entered first and its value noted. -/
theorem eval_expand (h : M.next k a = .inr i) :
    eval M fail unwind fuel k (a :: w) T =
      match T.lookup i with
      | some (some k') => eval M fail unwind fuel k' w T
      | some none => (.stuck (fail i w), T)
      | none =>
        match enterAt M fail unwind fuel i ((i, none) :: T) with
        | (.value k', T') => eval M fail unwind fuel k' w ((i, some k') :: T')
        | (.stuck s, T') => (.stuck (unwind s w), T') := by
  rw [eval_eq, evalLoop, h]

end Equations

/-! ### What the table holds -/

/-- The values in the table are right. -/
def Table.Sound (T : Table κ ι) : Prop :=
  ∀ i k, T.lookup i = some (some k) → M.Evaluates (M.body i).1 (M.body i).2 k

/-- The bodies being read, if they can be read at all, take at least `n` steps. -/
def Table.Pending (n : ℕ) (T : Table κ ι) : Prop :=
  ∀ i, T.lookup i = some none → ∀ m q, M.Reads m (M.body i).1 (M.body i).2 q → n ≤ m

/-- The keys among `keys` not met so far. -/
def Table.unmet (keys : List ι) (T : Table κ ι) : List ι :=
  keys.filter fun i => (T.lookup i).isNone

/-- `T'` has met what `T` has, and no more bodies are being read in it. -/
structure Table.le (T T' : Table κ ι) : Prop where
  met : ∀ i, (T.lookup i).isSome → (T'.lookup i).isSome
  pending : ∀ i, T'.lookup i = some none → T.lookup i = some none

variable {M fail unwind} {T T' T'' : Table κ ι}

/-- Every table goes on from itself: it has met what it has met. -/
theorem Table.le_refl (T : Table κ ι) : T.le T := ⟨fun _ => id, fun _ => id⟩

/-- Tables that go on from one another are ordered, so what one reading after another leaves goes on
from the first. -/
theorem Table.le.trans (h : T.le T') (h' : T'.le T'') : T.le T'' :=
  ⟨fun i hi => h'.met i (h.met i hi), fun i hi => h.pending i (h'.pending i hi)⟩

/-- The entry that stands first in a table is the one that is found for its key. -/
theorem lookup_cons_self (i : ι) (v : Option κ) (T : Table κ ι) :
    List.lookup i ((i, v) :: T) = some v := by
  rw [List.lookup_cons, beq_self_eq_true]

/-- An entry for another key in front changes nothing in what is found. -/
theorem lookup_cons_ne {i j : ι} (h : j ≠ i) (v : Option κ) (T : Table κ ι) :
    List.lookup j ((i, v) :: T) = T.lookup j := by
  rw [List.lookup_cons, beq_false_of_ne h]

/-- A key entered, its body read, and its value noted: the table afterwards goes on from the one
before, since the entry without a value has got one. -/
theorem Table.le_value {i : ι} {k : κ} (h : Table.le ((i, none) :: T) T') :
    T.le ((i, some k) :: T') where
  met := by
    intro j hj
    by_cases hji : j = i
    · rw [hji, lookup_cons_self]; rfl
    · rw [lookup_cons_ne hji]
      exact h.met j (by rwa [lookup_cons_ne hji])
  pending := by
    intro j hj
    by_cases hji : j = i
    · rw [hji, lookup_cons_self] at hj
      exact absurd hj (by simp)
    · rw [lookup_cons_ne hji] at hj
      have := h.pending j hj
      rwa [lookup_cons_ne hji] at this

/-- A key that is entered without a value claims nothing, so the values in the table stay right. -/
theorem Table.Sound.enter (h : T.Sound M) (i : ι) : Table.Sound M ((i, none) :: T) := by
  intro j k hj
  by_cases hji : j = i
  · rw [hji, lookup_cons_self] at hj
    exact absurd hj (by simp)
  · exact h j k (by rwa [lookup_cons_ne hji] at hj)

/-- A value may be noted for a key once its body has been read to that value. -/
theorem Table.Sound.value (h : T.Sound M) {i : ι} {k : κ}
    (hi : M.Evaluates (M.body i).1 (M.body i).2 k) : Table.Sound M ((i, some k) :: T) := by
  intro j k' hj
  by_cases hji : j = i
  · rw [hji, lookup_cons_self] at hj
    obtain rfl := Option.some.inj (Option.some.inj hj)
    rwa [hji]
  · exact h j k' (by rwa [lookup_cons_ne hji] at hj)

/-- What is pending stays pending when less is left to read and no further key is entered. -/
theorem Table.Pending.mono {m n : ℕ} (h : T.Pending M n) (hT : T.le T') (hmn : m ≤ n) :
    T'.Pending M m :=
  fun i hi l q hl => Nat.le_trans hmn (h i (hT.pending i hi) l q hl)

/-- A table that goes on from another has met at least as many of the keys. -/
theorem unmet_le (keys : List ι) (h : T.le T') :
    (T'.unmet keys).length ≤ (T.unmet keys).length := by
  rw [Table.unmet, Table.unmet, ← List.countP_eq_length_filter, ← List.countP_eq_length_filter]
  refine List.countP_mono_left fun i _ hi => ?_
  cases hT : T.lookup i with
  | none => rfl
  | some v =>
    have := h.met i (by rw [hT]; rfl)
    cases hT' : T'.lookup i with
    | none => rw [hT'] at this; exact absurd this (by simp)
    | some v' => rw [hT'] at hi; exact absurd hi (by simp)

/-- Entering a key that has not been met leaves fewer unmet: this is what bounds the nesting of the
bodies. -/
theorem unmet_enter {keys : List ι} {i : ι} (hi : i ∈ keys) (hT : T.lookup i = none) :
    (Table.unmet keys ((i, none) :: T)).length < (T.unmet keys).length := by
  rw [Table.unmet, Table.unmet, ← List.countP_eq_length_filter, ← List.countP_eq_length_filter]
  induction keys with
  | nil => exact absurd hi List.not_mem_nil
  | cons j keys ih =>
    have hle : keys.countP (fun j => (List.lookup j ((i, none) :: T)).isNone) ≤
        keys.countP fun j => (T.lookup j).isNone := by
      refine List.countP_mono_left fun j _ hj => ?_
      by_cases hji : j = i
      · rw [hji, hT]; rfl
      · rwa [lookup_cons_ne hji] at hj
    rw [List.countP_cons, List.countP_cons]
    by_cases hji : j = i
    · rw [hji, lookup_cons_self, hT]
      simpa using Nat.lt_succ_of_le hle
    · rw [lookup_cons_ne hji]
      exact Nat.add_lt_add_right (ih ((List.mem_cons.mp hi).resolve_left (Ne.symm hji))) _

/-! ### The reader reads what can be read -/

variable (M fail unwind)

/-- A reading is found, whatever has been read before. -/
theorem eval_of_reads {keys : List ι} (hkeys : ∀ k a i, M.next k a = .inr i → i ∈ keys)
    {n : ℕ} {k q : κ} {w : List α} (h : M.Reads n k w q) {fuel : ℕ} {T : Table κ ι}
    (hs : T.Sound M) (hp : T.Pending M n) (hf : (T.unmet keys).length ≤ fuel) :
    ∃ T', eval M fail unwind fuel k w T = (.value q, T') ∧ T'.Sound M ∧ T.le T' := by
  induction h generalizing fuel T with
  | done k => exact ⟨T, eval_nil fail unwind fuel T k, hs, Table.le_refl T⟩
  | move hn _ ih =>
    rw [eval_move fail unwind fuel _ T hn]
    exact ih hs (hp.mono (Table.le_refl T) (Nat.le_succ _)) hf
  | @expand m n k k' q i a w hn hi hw ihi ihw =>
    rw [eval_expand fail unwind fuel w T hn]
    rcases hT : T.lookup i with _ | (_ | k'')
    · have hunmet := unmet_enter (hkeys k a i hn) hT
      obtain ⟨f, rfl⟩ : ∃ f, fuel = f + 1 := ⟨fuel - 1, by omega⟩
      have hpi : Table.Pending M m ((i, none) :: T) := by
        intro j hj l q' hl
        by_cases hji : j = i
        · subst hji
          exact Nat.le_of_eq (hi.det hl).1
        · rw [lookup_cons_ne hji] at hj
          exact Nat.le_trans (by omega) (hp j hj l q' hl)
      obtain ⟨T₁, heval₁, hs₁, hle₁⟩ := @ihi f _ (hs.enter i) hpi (by omega)
      have hle := Table.le_value (k := k') hle₁
      obtain ⟨T', heval, hs', hle'⟩ := @ihw (f + 1) _ (hs₁.value ⟨m, hi⟩)
        (hp.mono hle (by omega)) (Nat.le_trans (unmet_le keys hle) hf)
      refine ⟨T', ?_, hs', hle.trans hle'⟩
      rw [enterAt_succ, heval₁]
      exact heval
    · -- the body of `i` would be shorter than itself
      have := hp i hT m k' hi
      omega
    · obtain rfl := (hs i k'' hT).det ⟨m, hi⟩
      exact ihw hs (hp.mono (Table.le_refl T) (by omega)) hf

/-- One level of the reader, by induction on the word: given that entering a key answers rightly one
level down, a value the loop comes to is that of a reading, and the table stays sound. -/
theorem evaluates_of_eval_of_enter {fuel : ℕ}
    (henter : ∀ i k' (T T' : Table κ ι), T.Sound M →
      enterAt M fail unwind fuel i T = (.value k', T') →
        M.Evaluates (M.body i).1 (M.body i).2 k' ∧ T'.Sound M ∧ T.le T')
    {k q : κ} {w : List α} {T T' : Table κ ι} (hs : T.Sound M)
    (h : eval M fail unwind fuel k w T = (.value q, T')) :
    M.Evaluates k w q ∧ T'.Sound M ∧ T.le T' := by
  induction w generalizing k T with
  | nil =>
    rw [eval_nil] at h
    obtain ⟨hq, rfl⟩ := Prod.mk.inj h
    obtain rfl := Outcome.value.inj hq
    exact ⟨⟨0, .done k⟩, hs, Table.le_refl T⟩
  | cons a w ih =>
    cases hn : M.next k a with
    | inl k' =>
      rw [eval_move fail unwind fuel w T hn] at h
      obtain ⟨⟨n, hr⟩, hrest⟩ := ih hs h
      exact ⟨⟨n + 1, .move hn hr⟩, hrest⟩
    | inr i =>
      rw [eval_expand fail unwind fuel w T hn] at h
      rcases hT : T.lookup i with _ | (_ | k')
      · rw [hT] at h
        dsimp only at h
        rcases he : enterAt M fail unwind fuel i ((i, none) :: T) with ⟨k' | s, T₁⟩
        · rw [he] at h
          obtain ⟨⟨m, hi⟩, hs₁, hle₁⟩ := henter i k' _ T₁ (hs.enter i) he
          obtain ⟨⟨n, hr⟩, hs', hle'⟩ := ih (hs₁.value ⟨m, hi⟩) h
          exact ⟨⟨m + n + 1, .expand hn hi hr⟩, hs', (Table.le_value hle₁).trans hle'⟩
        · rw [he] at h
          exact absurd (Prod.mk.inj h).1 (by simp)
      · rw [hT] at h
        exact absurd (Prod.mk.inj h).1 (by simp)
      · rw [hT] at h
        obtain ⟨m, hi⟩ := hs i k' hT
        obtain ⟨⟨n, hr⟩, hrest⟩ := ih hs h
        exact ⟨⟨m + n + 1, .expand hn hi hr⟩, hrest⟩

/-- Entering a key answers rightly at every depth, by induction on the depth. -/
theorem evaluates_of_enterAt (fuel : ℕ) : ∀ i k' (T T' : Table κ ι), T.Sound M →
    enterAt M fail unwind fuel i T = (.value k', T') →
      M.Evaluates (M.body i).1 (M.body i).2 k' ∧ T'.Sound M ∧ T.le T' := by
  induction fuel with
  | zero => exact fun i k' T T' _ h => absurd (Prod.mk.inj h).1 (by simp)
  | succ fuel ih => exact fun i k' T T' hs h => evaluates_of_eval_of_enter M fail unwind ih hs h

/-- A value that the reader comes to is that of a reading, and what it has noted on the way is
right. -/
theorem evaluates_of_eval {fuel : ℕ} {k q : κ} {w : List α} {T T' : Table κ ι} (hs : T.Sound M)
    (h : eval M fail unwind fuel k w T = (.value q, T')) :
    M.Evaluates k w q ∧ T'.Sound M ∧ T.le T' :=
  evaluates_of_eval_of_enter M fail unwind (evaluates_of_enterAt M fail unwind fuel) hs h

/-- A table with nothing in it claims nothing. -/
theorem Table.sound_nil : Table.Sound M ([] : Table κ ι) :=
  fun _ _ h => absurd h (by simp [List.lookup_nil])

/-- **The reader finds every reading there is.**  With all keys in `keys`, bodies
need not be nested deeper than there are keys. -/
theorem eval_eq_value_iff (keys : List ι) (hkeys : ∀ k a i, M.next k a = .inr i → i ∈ keys)
    {fuel : ℕ} (hf : keys.length ≤ fuel) {k q : κ} {w : List α} :
    (eval M fail unwind fuel k w []).1 = .value q ↔ M.Evaluates k w q := by
  constructor
  · intro h
    have heval : eval M fail unwind fuel k w [] =
        (.value q, (eval M fail unwind fuel k w []).2) := Prod.ext h rfl
    exact (evaluates_of_eval M fail unwind (Table.sound_nil M) heval).1
  · rintro ⟨n, hr⟩
    have hunmet : (Table.unmet keys ([] : Table κ ι)).length ≤ fuel :=
      Nat.le_trans (List.length_filter_le _ _) hf
    obtain ⟨T', heval, -⟩ := eval_of_reads M fail unwind hkeys hr (Table.sound_nil M)
      (fun i hi => absurd hi (by simp [List.lookup_nil])) hunmet
    rw [heval]

/-- One level of the comparison of two depths, by induction on the word: they answer alike on a word
if they do for every key that the word may enter. -/
theorem eval_congr_of_enter {keys : List ι} (hkeys : ∀ k a i, M.next k a = .inr i → i ∈ keys)
    {m n : ℕ}
    (henter : ∀ i ∈ keys, ∀ T : Table κ ι, T.Sound M → T.lookup i = none →
      (T.unmet keys).length ≤ m → (T.unmet keys).length ≤ n →
        enterAt M fail unwind m i ((i, none) :: T) = enterAt M fail unwind n i ((i, none) :: T))
    {T : Table κ ι} (hs : T.Sound M) (hm : (T.unmet keys).length ≤ m)
    (hn : (T.unmet keys).length ≤ n) (k : κ) (w : List α) :
    eval M fail unwind m k w T = eval M fail unwind n k w T := by
  induction w generalizing k T with
  | nil => rw [eval_nil, eval_nil]
  | cons a w ih =>
    cases hnext : M.next k a with
    | inl k' =>
      rw [eval_move fail unwind m w T hnext, eval_move fail unwind n w T hnext]
      exact ih hs hm hn k'
    | inr i =>
      rw [eval_expand fail unwind m w T hnext, eval_expand fail unwind n w T hnext]
      rcases hT : T.lookup i with _ | (_ | k')
      · have heq := henter i (hkeys k a i hnext) T hs hT hm hn
        dsimp only
        rw [← heq]
        rcases he : enterAt M fail unwind m i ((i, none) :: T) with ⟨k' | s, T₁⟩
        · obtain ⟨hi, hs₁, hle₁⟩ :=
            evaluates_of_enterAt M fail unwind m i k' _ T₁ (hs.enter i) he
          have hle := unmet_le keys (Table.le_value (k := k') hle₁)
          exact ih (hs₁.value hi) (Nat.le_trans hle hm) (Nat.le_trans hle hn) k'
        · rfl
      · rfl
      · exact ih hs hm hn k'

/-- **More depth makes no difference,** when there is a level for every key that has
not been met. -/
theorem eval_fuel {keys : List ι} (hkeys : ∀ k a i, M.next k a = .inr i → i ∈ keys) {m n : ℕ}
    {T : Table κ ι} (hs : T.Sound M) (hm : (T.unmet keys).length ≤ m)
    (hn : (T.unmet keys).length ≤ n) (k : κ) (w : List α) :
    eval M fail unwind m k w T = eval M fail unwind n k w T := by
  induction m generalizing n k w T with
  | zero =>
    refine eval_congr_of_enter M fail unwind hkeys (fun i hi T _ hT hm _ => ?_) hs hm hn k w
    have := unmet_enter hi hT
    omega
  | succ m ih =>
    refine eval_congr_of_enter M fail unwind hkeys (fun i hi T hs hT hm hn => ?_) hs hm hn k w
    have hlt := unmet_enter hi hT
    obtain ⟨n', rfl⟩ : ∃ n', n = n' + 1 := ⟨n - 1, by omega⟩
    exact ih (hs.enter i) (by omega) (by omega) _ _

/-! ### What the reader keeps, whether it gives up or not -/

/-- The value is `P`, or what is left is `S`. -/
def Outcome.Keeps (P : κ → Prop) (S : σ → Prop) : Outcome κ σ → Prop
  | .value k => P k
  | .stuck s => S s

/-- The values in the table are `P`. -/
def Table.Keeps (P : κ → Prop) (T : Table κ ι) : Prop :=
  ∀ i k, T.lookup i = some (some k) → P k

/-- A new entry keeps what holds of all values in the table if it holds of its own, or if it has
none yet. -/
theorem Table.Keeps.cons {P : κ → Prop} {T : Table κ ι} (h : T.Keeps P) {i : ι} {v : Option κ}
    (hv : ∀ k, v = some k → P k) : Table.Keeps P ((i, v) :: T) := by
  intro j k hj
  by_cases hji : j = i
  · rw [hji, lookup_cons_self] at hj
    exact hv k (Option.some.inj hj)
  · exact h j k (by rwa [lookup_cons_ne hji] at hj)

/-- **What every step keeps is kept.** A property of places that moves and bodies respect holds of
the value the reader comes to and of all values in its table, and where it gives up, what is left
has the property that giving up establishes. -/
theorem eval_keeps {P : κ → Prop} {A : α → Prop} {I : ι → Prop} {S : σ → Prop}
    (hmove : ∀ k a k', P k → A a → M.next k a = .inl k' → P k')
    (hexpand : ∀ k a i, P k → A a → M.next k a = .inr i → I i)
    (hbody : ∀ i, I i → P (M.body i).1 ∧ ∀ a ∈ (M.body i).2, A a)
    (hfail : ∀ i w, I i → (∀ a ∈ w, A a) → S (fail i w))
    (hunwind : ∀ s w, S s → (∀ a ∈ w, A a) → S (unwind s w)) (fuel : ℕ) {k : κ} {w : List α}
    {T : Table κ ι} (hk : P k) (hw : ∀ a ∈ w, A a) (hT : T.Keeps P) :
    (eval M fail unwind fuel k w T).1.Keeps P S ∧ (eval M fail unwind fuel k w T).2.Keeps P := by
  have loop : ∀ fuel, (∀ i T, I i → Table.Keeps P T →
      (enterAt M fail unwind fuel i T).1.Keeps P S ∧ (enterAt M fail unwind fuel i T).2.Keeps P) →
      ∀ w k T, P k → (∀ a ∈ w, A a) → Table.Keeps P T →
      (eval M fail unwind fuel k w T).1.Keeps P S ∧ (eval M fail unwind fuel k w T).2.Keeps P := by
    intro fuel henter w
    induction w with
    | nil =>
      intro k T hk _ hT
      rw [eval_nil]
      exact ⟨hk, hT⟩
    | cons a w ih =>
      intro k T hk hw hT
      have ha := hw a (List.mem_cons_self ..)
      have hrest := fun b hb => hw b (List.mem_cons_of_mem a hb)
      cases hn : M.next k a with
      | inl k' =>
        rw [eval_move fail unwind fuel w T hn]
        exact ih k' T (hmove k a k' hk ha hn) hrest hT
      | inr i =>
        have hi := hexpand k a i hk ha hn
        rw [eval_expand fail unwind fuel w T hn]
        rcases hlookup : T.lookup i with _ | (_ | k')
        · obtain ⟨hout, htab⟩ := henter i ((i, none) :: T) hi
            (hT.cons fun k h => absurd h (by simp))
          dsimp only
          rcases he : enterAt M fail unwind fuel i ((i, none) :: T) with ⟨k' | s, T₁⟩ <;>
            rw [he] at hout htab
          · exact ih k' _ hout hrest (htab.cons fun k h => Option.some.inj h ▸ hout)
          · exact ⟨hunwind s w hout hrest, htab⟩
        · exact ⟨hfail i w hi hrest, hT⟩
        · exact ih k' T (hT i k' hlookup) hrest hT
  induction fuel generalizing k w T with
  | zero =>
    refine loop 0 (fun i T hi hT => ⟨?_, hT⟩) w k T hk hw hT
    exact hfail i [] hi fun a ha => absurd ha List.not_mem_nil
  | succ fuel ih =>
    refine loop (fuel + 1) (fun i T hi hT => ?_) w k T hk hw hT
    exact ih (hbody i hi).1 (hbody i hi).2 hT

end Expand
