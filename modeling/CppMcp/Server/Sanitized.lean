/-
# What the sanitizer leaves

`_sanitize_message` against its own regular expression read as a shape: a slash and one or more
characters other than whitespace, comma and quotes.  `re.sub` goes from left to right and never
looks back; the maximal runs of the shape are a matter of the whole message.  A block, between two
separators, has at most one of them, which begins at its first slash, and the mark has neither a
slash nor a separator in it, so that what is put in joins nothing on its left or right to a run.
-/

import CppMcp.Lib.Runs
import CppMcp.Server.ErrorEnvelope

namespace CppMcp
namespace Server

/-- A slash and one or more characters other than whitespace, comma and quotes. -/
def PathShaped (run : List Char) : Prop :=
  ∃ c cs, run = '/' :: c :: cs ∧ ∀ x ∈ c :: cs, isPathChar x = true

/-- A run that starts with an echo value, and the mark for any other. -/
def keptOrRedacted (echo : List String) (run : List Char) : List Char :=
  if ∃ e ∈ echo, e.toList <+: run then run else redacted.toList

/-- **What is left of a message:** the maximal runs that start with no echo value are replaced and
all else is there in its order; a maximal run of what is left starts with an echo value; without
echo values there is no run at all; and there is nothing left to sanitize. -/
structure Sanitized (echo : List String) (message output : String) : Prop where
  pieces : ∃ pieces, Blocks.Splits PathShaped message.toList pieces ∧
    output.toList = pieces.flatMap (Blocks.Piece.replaced (keptOrRedacted echo))
  starts : ∀ before run after, Blocks.MaximalRun PathShaped output.toList before run after →
    ∃ e ∈ echo, e.toList <+: run
  no_run : echo = [] → ∀ before run after, ¬Blocks.Run PathShaped output.toList before run after
  stable : sanitizeMessage output echo = output

/-- The replacement that the code makes is the one that the specification asks for. -/
theorem replaceRun_eq (echo : List String) (run : List Char) :
    replaceRun echo run = keptOrRedacted echo run := by
  unfold keptOrRedacted
  split_ifs with h
  · obtain ⟨e, he, hprefix⟩ := h
    exact replaceRun_of_start he hprefix
  · exact replaceRun_of_forall fun e he hprefix => h ⟨e, he, hprefix⟩

/-! ### The run of a block -/

/-- A character separates if and only if it is no part of a path. -/
theorem separates_eq_false {c : Char} : separates c = false ↔ isPathChar c = true := by
  simp [separates]

/-- A run is not empty, and nothing in it separates. -/
theorem free_of_pathShaped (run : List Char) (h : PathShaped run) :
    run ≠ [] ∧ Blocks.Free separates run := by
  obtain ⟨c, cs, rfl, hcs⟩ := h
  refine ⟨List.cons_ne_nil _ _, Blocks.free_cons.mpr ⟨by decide, fun x hx => ?_⟩⟩
  exact separates_eq_false.mpr (hcs x hx)

/-- A block that begins with a slash and goes on has the shape of a path. -/
theorem pathShaped_of_free {c : Char} {cs : List Char}
    (h : Blocks.Free separates ('/' :: c :: cs)) : PathShaped ('/' :: c :: cs) :=
  ⟨c, cs, rfl, fun x hx => separates_eq_false.mp (h x (List.mem_cons_of_mem _ hx))⟩

/-- Where there is no slash before it, a slash is found behind `shown`. -/
theorem prefix_of_slash {shown rest before r : List Char} (hshown : '/' ∉ shown)
    (h : shown ++ rest = before ++ '/' :: r) : shown <+: before := by
  rcases List.append_eq_append_iff.mp h with ⟨k, rfl, -⟩ | ⟨k, rfl, hk⟩
  · exact List.prefix_append _ _
  · cases k with
    | nil => rw [List.append_nil]
    | cons c k =>
      obtain ⟨rfl, -⟩ := List.cons.inj hk
      exact absurd (by simp) hshown

/-- Text without a slash has no run in it. -/
theorem not_run_of_not_mem {b : List Char} (hb : '/' ∉ b) (before run after : List Char) :
    ¬Blocks.Run PathShaped b before run after := by
  rintro ⟨rfl, c, cs, rfl, -⟩
  exact hb (by simp)

/-- A slash that nothing follows is not a run. -/
theorem not_run_of_slash {shown : List Char} (hshown : '/' ∉ shown)
    (before run after : List Char) :
    ¬Blocks.Run PathShaped (shown ++ ['/']) before run after := by
  rintro ⟨heq, c, cs, rfl, -⟩
  have hle := (prefix_of_slash hshown heq).length_le
  have hlength := congrArg List.length heq
  simp only [List.length_append, List.length_cons, List.length_nil] at hlength
  omega

/-- **The maximal run of a block** goes from its first slash to its end. -/
theorem maximalRun_block {shown run : List Char} (hshown : '/' ∉ shown) (hrun : PathShaped run)
    (before' run' after' : List Char) :
    Blocks.MaximalRun PathShaped (shown ++ run) before' run' after' ↔
      before' = shown ∧ run' = run ∧ after' = [] := by
  have hwhole : Blocks.Run PathShaped (shown ++ run) shown run [] := ⟨by simp, hrun⟩
  constructor
  · rintro ⟨⟨heq, hrun'⟩, hmax⟩
    obtain ⟨c, cs, rfl, -⟩ := hrun'
    have hbefore := prefix_of_slash hshown heq
    obtain rfl := hmax _ _ _ hwhole hbefore List.nil_suffix
    have hlength := congrArg List.length heq
    simp only [List.length_append, List.length_cons] at hlength
    have hle := hbefore.length_le
    exact ⟨(hbefore.eq_of_length (by omega)).symm, rfl, List.length_eq_zero_iff.mp (by omega)⟩
  · rintro ⟨rfl, rfl, rfl⟩
    refine ⟨hwhole, fun x m y hrun'' hx hy => ?_⟩
    obtain rfl := List.suffix_nil.mp hy
    obtain ⟨heq, c, cs, rfl, -⟩ := hrun''
    obtain rfl := hx.eq_of_length_le (prefix_of_slash hshown heq).length_le
    have htail := List.append_cancel_left heq
    rw [List.append_nil] at htail
    exact htail.symm

/-- What a block is: text without a slash, text with a slash at its end, or text and a run. -/
theorem block_cases {b : List Char} (hb : Blocks.Free separates b) :
    '/' ∉ b ∨ ∃ shown, '/' ∉ shown ∧
      (b = shown ++ ['/'] ∨ ∃ run, PathShaped run ∧ b = shown ++ run) := by
  by_cases hslash : '/' ∈ b
  · obtain ⟨shown, r, rfl, hshown⟩ := List.eq_append_cons_of_mem hslash
    refine Or.inr ⟨shown, hshown, ?_⟩
    cases r with
    | nil => exact Or.inl rfl
    | cons c r => exact Or.inr ⟨_, pathShaped_of_free (Blocks.free_append.mp hb).2, rfl⟩
  · exact Or.inl hslash

/-! ### The blocks of a message -/

variable (echo : List String)

/-- Text without a slash and a slash at its end: nothing is replaced. -/
theorem sub_of_slash {shown : List Char} (hshown : '/' ∉ shown) :
    subAbsPath (replaceRun echo) (shown ++ ['/']) = shown ++ ['/'] := by
  rw [subAbsPath_append hshown, subAbsPath_slash]

/-- In a block the run is kept or redacted. -/
theorem sub_of_run {shown run : List Char} (hshown : '/' ∉ shown) (hrun : PathShaped run) :
    subAbsPath (replaceRun echo) (shown ++ run) = shown ++ keptOrRedacted echo run := by
  have hfree := (free_of_pathShaped run hrun).2
  obtain ⟨c, cs, rfl, -⟩ := hrun
  rw [subAbsPath_append hshown, subAbsPath_run (Blocks.free_cons.mp hfree).2, replaceRun_eq]

/-- A redacted block has no slash, and any other is as it was. -/
theorem sub_run_cases {shown run : List Char} (hshown : '/' ∉ shown) (hrun : PathShaped run) :
    '/' ∉ subAbsPath (replaceRun echo) (shown ++ run) ∨
      (∃ e ∈ echo, e.toList <+: run) ∧
        subAbsPath (replaceRun echo) (shown ++ run) = shown ++ run := by
  rw [sub_of_run echo hshown hrun, keptOrRedacted]
  split_ifs with h
  · exact Or.inr ⟨h, rfl⟩
  · refine Or.inl fun hmem => ?_
    exact (List.mem_append.mp hmem).elim hshown slash_not_mem_redacted

/-- A block is split into its text and its run, and the sanitizer replaces that run and nothing
else. -/
theorem splits_block {b : List Char} (hb : Blocks.Free separates b) :
    ∃ pieces, Blocks.Splits PathShaped b pieces ∧ subAbsPath (replaceRun echo) b =
      pieces.flatMap (Blocks.Piece.replaced (keptOrRedacted echo)) := by
  rcases block_cases hb with hb | ⟨shown, hshown, rfl | ⟨run, hrun, rfl⟩⟩
  · refine ⟨[.text b], Blocks.splits_of_not_run (not_run_of_not_mem hb), ?_⟩
    simp [subAbsPath_of_not_mem hb, Blocks.Piece.replaced]
  · refine ⟨[.text _], Blocks.splits_of_not_run (not_run_of_slash hshown), ?_⟩
    simp [sub_of_slash echo hshown, Blocks.Piece.replaced]
  · refine ⟨[.text shown, .run run], Blocks.splits_of_maximalRun (maximalRun_block hshown hrun), ?_⟩
    simp [sub_of_run echo hshown hrun, Blocks.Piece.replaced]

/-- A run that is left in a sanitized block begins with one of the caller's paths. -/
theorem starts_block {b : List Char} (hb : Blocks.Free separates b) (x m y : List Char)
    (h : Blocks.MaximalRun PathShaped (subAbsPath (replaceRun echo) b) x m y) :
    ∃ e ∈ echo, e.toList <+: m := by
  rcases block_cases hb with hb | ⟨shown, hshown, rfl | ⟨run, hrun, rfl⟩⟩
  · rw [subAbsPath_of_not_mem hb] at h
    exact absurd h.toRun (not_run_of_not_mem hb x m y)
  · rw [sub_of_slash echo hshown] at h
    exact absurd h.toRun (not_run_of_slash hshown x m y)
  · rcases sub_run_cases echo hshown hrun with hslash | ⟨hecho, heq⟩
    · exact absurd h.toRun (not_run_of_not_mem hslash x m y)
    · rw [heq, maximalRun_block hshown hrun] at h
      obtain ⟨-, rfl, -⟩ := h
      exact hecho

/-- A block that has been sanitized stays as it is when it is sanitized again. -/
theorem idem_block {b : List Char} (hb : Blocks.Free separates b) :
    subAbsPath (replaceRun echo) (subAbsPath (replaceRun echo) b) =
      subAbsPath (replaceRun echo) b := by
  rcases block_cases hb with hb | ⟨shown, hshown, rfl | ⟨run, hrun, rfl⟩⟩
  · rw [subAbsPath_of_not_mem hb, subAbsPath_of_not_mem hb]
  · rw [sub_of_slash echo hshown, sub_of_slash echo hshown]
  · rcases sub_run_cases echo hshown hrun with hslash | ⟨-, heq⟩
    · exact subAbsPath_of_not_mem hslash
    · rw [heq, heq]

/-- **The structure of a sanitized message.** For every message and every list of the caller's
paths: the maximal runs are kept or replaced by the mark, the text between them stays, every run
that is left begins with a path of the caller's, and sanitizing again changes nothing. -/
theorem sanitized (message : String) : Sanitized echo message (sanitizeMessage message echo) := by
  have hf := blockwise_sanitize echo
  have hstarts := hf.forall_maximalRun free_of_pathShaped (P := fun m => ∃ e ∈ echo, e.toList <+: m)
    (fun b hb => starts_block echo hb) message.toList
  rw [← toList_sanitizeMessage] at hstarts
  refine ⟨?_, hstarts, ?_, ?_⟩
  · rw [toList_sanitizeMessage]
    exact hf.exists_splits free_of_pathShaped (fun b hb => splits_block echo hb) message.toList
  · rintro rfl before run after hrun
    obtain ⟨x, m, y, hmax, -, -⟩ := hrun.exists_maximalRun
    obtain ⟨e, he, -⟩ := hstarts x m y hmax
    exact absurd he List.not_mem_nil
  · rw [← String.toList_inj, toList_sanitizeMessage, toList_sanitizeMessage]
    exact hf.idem (fun b hb => idem_block echo hb) message.toList

end Server
end CppMcp
