/-
# Error envelopes

`core/error_envelope.py`: what a tool raises leaves the server as an envelope of four strings, and
the message in it is rewritten so that no path is told that the caller did not give.  The regular
expression `/[^\s,"']+` finds the runs, and a run stays only if `_replace` keeps it.

The two-run law is that of the message: two internal paths in the same place of the same template
give the same envelope.  A run is kept by `startswith`, which knows nothing of components, and a
path may hold the very characters that end a run; so the law holds exactly for paths that are alike
(`Alike`).
-/

import CppMcp.Lib.Blocks
import CppMcp.Py.Json
import CppMcp.Py.Path
import Mathlib.Data.List.TakeWhile

namespace CppMcp
namespace Server

/-! ### The sanitizer -/

/-- `[^\s,"']`. -/
def isPathChar (c : Char) : Bool := !(Py.isSpace c || c == ',' || c == '"' || c == '\'')

/-- `_ABS_PATH_RE.match`, at the beginning of the text: the run, and what follows it. -/
def matchAbsPath : List Char → Option (List Char × List Char)
  | [] => none
  | c :: cs =>
    if c = '/' ∧ cs.takeWhile isPathChar ≠ [] then
      some (c :: cs.takeWhile isPathChar, cs.dropWhile isPathChar)
    else none

/-- What is left behind a run of the pattern is shorter than the text. -/
theorem length_of_matchAbsPath {c : Char} {cs run rest : List Char}
    (h : matchAbsPath (c :: cs) = some (run, rest)) : rest.length ≤ cs.length := by
  rw [matchAbsPath] at h
  split_ifs at h
  cases h
  exact (List.dropWhile_suffix _).length_le

/-- `_ABS_PATH_RE.sub(repl, text)`. -/
def subAbsPath (repl : List Char → List Char) : List Char → List Char
  | [] => []
  | c :: cs =>
    match _h : matchAbsPath (c :: cs) with
    | some (run, rest) => repl run ++ subAbsPath repl rest
    | none => c :: subAbsPath repl cs
termination_by text => text.length
decreasing_by
  · exact Nat.lt_succ_of_le (length_of_matchAbsPath ‹_›)
  · exact Nat.lt_succ_self _

/-- What stands for a path that is not told. -/
def redacted : String := "<redacted>"

/-- `_replace`. -/
def replace (echo : List String) (candidate : String) : String :=
  if echo.any fun allowed => candidate == allowed || Py.startswith candidate allowed then candidate
  else redacted

/-- `_sanitize_message`. -/
def sanitizeMessage (message : String) (echo : List String) : String :=
  String.ofList
    (subAbsPath (fun run => (replace echo (String.ofList run)).toList) message.toList)

/-! ### The envelope -/

inductive ErrorCode where
  | FILE_NOT_FOUND | INVALID_POSITION | INVALID_RANGE | INVALID_ARGUMENT | PATH_VIOLATION
  | DB_UNREACHABLE | DEPENDENCY_MISSING | PARSE_ERROR | INTERNAL_ERROR | READ_ONLY_VIOLATION
  | QUERY_PARSE_ERROR | QUERY_UNSUPPORTED | QUERY_TIMEOUT
  deriving DecidableEq

def ErrorCode.str : ErrorCode → String
  | FILE_NOT_FOUND => "FILE_NOT_FOUND"
  | INVALID_POSITION => "INVALID_POSITION"
  | INVALID_RANGE => "INVALID_RANGE"
  | INVALID_ARGUMENT => "INVALID_ARGUMENT"
  | PATH_VIOLATION => "PATH_VIOLATION"
  | DB_UNREACHABLE => "DB_UNREACHABLE"
  | DEPENDENCY_MISSING => "DEPENDENCY_MISSING"
  | PARSE_ERROR => "PARSE_ERROR"
  | INTERNAL_ERROR => "INTERNAL_ERROR"
  | READ_ONLY_VIOLATION => "READ_ONLY_VIOLATION"
  | QUERY_PARSE_ERROR => "QUERY_PARSE_ERROR"
  | QUERY_UNSUPPORTED => "QUERY_UNSUPPORTED"
  | QUERY_TIMEOUT => "QUERY_TIMEOUT"

/-- The exception types that `wrap_tool` knows. -/
inductive ExcType where
  | PathViolationError | InvalidPositionError | InvalidRangeError | InvalidArgumentError
  | DependencyMissingError | DBUnreachableError | FatalParseError | FileNotFoundError
  | FileNotFoundError_ | ReadOnlyViolationError | QueryParseError | QueryUnsupportedError
  | QueryTimeoutError
  deriving DecidableEq

/-- `_EXC_TO_CODE`. -/
def excToCode : List (ExcType × ErrorCode) :=
  [(.PathViolationError, .PATH_VIOLATION),
    (.InvalidPositionError, .INVALID_POSITION),
    (.InvalidRangeError, .INVALID_RANGE),
    (.InvalidArgumentError, .INVALID_ARGUMENT),
    (.DependencyMissingError, .DEPENDENCY_MISSING),
    (.DBUnreachableError, .DB_UNREACHABLE),
    (.FatalParseError, .PARSE_ERROR),
    (.FileNotFoundError, .FILE_NOT_FOUND),
    (.FileNotFoundError_, .FILE_NOT_FOUND),
    (.ReadOnlyViolationError, .READ_ONLY_VIOLATION),
    (.QueryParseError, .QUERY_PARSE_ERROR),
    (.QueryUnsupportedError, .QUERY_UNSUPPORTED),
    (.QueryTimeoutError, .QUERY_TIMEOUT)]

/-- An exception: the known types it is an instance of, and its text. -/
structure Raised where
  isinstance : ExcType → Bool
  str : String

/-- What leaves the server. -/
structure Envelope where
  code : String
  message : String
  tool : String
  request_id : String
  deriving DecidableEq

/-- `build_error`. -/
def buildError (code : ErrorCode) (message tool request_id : String) (echo : List String) :
    Envelope where
  code := code.str
  message := sanitizeMessage message echo
  tool := tool
  request_id := request_id

/-- `_make_envelope`; what it logs stays on the server. -/
def makeEnvelope (tool_name : String) (exc : Raised) (echo : List String) (request_id : String) :
    Envelope :=
  match excToCode.find? fun entry => exc.isinstance entry.1 with
  | some (_, code) => buildError code exc.str tool_name request_id echo
  | none => buildError .INTERNAL_ERROR "An internal error occurred." tool_name request_id echo

/-- The values of the keywords that are strings and begin with a slash. -/
def echoOf (kwargs : List (String × Py.Json)) : List String :=
  kwargs.filterMap fun
    | (_, .str v) => if Py.startswith v "/" then some v else none
    | _ => none

/-- `wrap_tool`, for either kind of function: what the call returns, or the envelope of what it
raises.  `request_id` is the fresh identifier of the call. -/
def wrapTool {α : Type} (tool_name request_id : String)
    (fn : List (String × Py.Json) → Except Raised α) (kwargs : List (String × Py.Json)) :
    Except Envelope α :=
  match fn kwargs with
  | .ok result => .ok result
  | .error exc => .error (makeEnvelope tool_name exc (echoOf kwargs) request_id)

/-! ### The two-run law -/

/-- Whitespace or a quote. -/
def isDelimiter (c : Char) : Bool := Py.isSpace c || c == '"' || c == '\''

/-- A message with a path missing, at one place or more.  Where the path goes, a delimiter stands
before and after it, or the message begins or ends. -/
structure Template where
  opening : String
  turns : List String
  closing : String
  opening_ends : opening.toList = [] ∨
    ∃ d, opening.toList.getLast? = some d ∧ isDelimiter d = true
  turns_begin : ∀ s ∈ turns, ∃ d, s.toList.head? = some d ∧ isDelimiter d = true
  turns_end : ∀ s ∈ turns, ∃ d, s.toList.getLast? = some d ∧ isDelimiter d = true
  closing_begins : closing.toList = [] ∨
    ∃ d, closing.toList.head? = some d ∧ isDelimiter d = true

/-- The message with the path inserted. -/
def Template.fill (t : Template) (p : String) : String :=
  String.ofList
    (Blocks.weave t.opening.toList (t.turns.map String.toList) t.closing.toList p.toList)

/-- An absolute path that is no echo path and lies below none, component by component. -/
structure Internal (echo : List String) (p : String) : Prop where
  isabs : Py.isabs p = true
  not_below : ∀ e ∈ echo, ¬Py.components e <+: Py.components p

/-- **The law, at two paths:** neither the message nor the envelope of a call that raises it tells
which of the two was inserted. -/
structure Undisclosed (echo : List String) (t : Template) (p q : String) : Prop where
  message : sanitizeMessage (t.fill p) echo = sanitizeMessage (t.fill q) echo
  envelope : ∀ (kwargs : List (String × Py.Json)), echoOf kwargs = echo →
    ∀ (tool_name request_id : String) (isinstance : ExcType → Bool),
      wrapTool (α := Empty) tool_name request_id (fun _ => .error ⟨isinstance, t.fill p⟩) kwargs =
        wrapTool tool_name request_id (fun _ => .error ⟨isinstance, t.fill q⟩) kwargs

/-- What separates the parts of a path for the sanitizer. -/
def separates (c : Char) : Bool := !isPathChar c

/-- The part `b` of a path is `shown`, in which there is no slash, and then a slash and more, which
begins with no echo path. -/
def Redacts (echo : List String) (shown b : List Char) : Prop :=
  '/' ∉ shown ∧ ∃ c r, b = shown ++ '/' :: c :: r ∧ ∀ e ∈ echo, ¬e.toList <+: '/' :: c :: r

/-- The part is so, or it has the text `<redacted>` itself behind `shown`. -/
def ReadsRedacted (echo : List String) (shown b : List Char) : Prop :=
  Redacts echo shown b ∨ '/' ∉ shown ∧ b = shown ++ redacted.toList

/-- Two parts are the same, or redacted behind the same text. -/
def AlikePart (echo : List String) (b c : List Char) : Prop :=
  b = c ∨ ∃ shown, ReadsRedacted echo shown b ∧ ReadsRedacted echo shown c

/-- Two paths have the same separators, and part by part they are alike. -/
def Alike (echo : List String) (p q : String) : Prop :=
  p.toList.filter separates = q.toList.filter separates ∧
    List.Forall₂ (AlikePart echo) (p.toList.splitOnP separates) (q.toList.splitOnP separates)

/-! ### The sanitizer block by block -/

/-- Every character that does not separate is one that the pattern takes for part of a path. -/
theorem isPathChar_eq_true {c : Char} (h : separates c = false) : isPathChar c = true := by
  simpa [separates] using h

/-- The characters that end a path in the pattern are among those that separate. -/
theorem separates_of_isDelimiter {c : Char} (h : isDelimiter c = true) : separates c = true := by
  unfold isDelimiter at h
  unfold separates isPathChar
  revert h
  cases Py.isSpace c <;> cases c == '"' <;> cases c == '\'' <;> simp

section Sub

variable {repl : List Char → List Char}

/-- The pattern stops at a separator, so what stands behind it makes no difference to the match. -/
theorem matchAbsPath_append_cons {d : Char} (hd : separates d = true) (c : Char) (cs y : List Char) :
    matchAbsPath (c :: cs ++ d :: y) =
      (matchAbsPath (c :: cs)).map fun m => (m.1, m.2 ++ d :: y) := by
  have hd' : isPathChar d = false := by simpa [separates] using hd
  have htake : (cs ++ d :: y).takeWhile isPathChar = cs.takeWhile isPathChar := by
    induction cs with
    | nil => rw [List.nil_append, List.takeWhile_cons_of_neg (by simp [hd']), List.takeWhile_nil]
    | cons x cs ih =>
      rw [List.cons_append, List.takeWhile_cons, List.takeWhile_cons, ih]
  have hdrop : (cs ++ d :: y).dropWhile isPathChar = cs.dropWhile isPathChar ++ d :: y := by
    have h := (cs ++ d :: y).takeWhile_append_dropWhile (p := isPathChar)
    have h' := cs.takeWhile_append_dropWhile (p := isPathChar)
    rw [htake] at h
    refine (List.append_right_inj (cs.takeWhile isPathChar)).mp ?_
    rw [h, ← List.append_assoc, h']
  rw [List.cons_append, matchAbsPath, matchAbsPath, htake, hdrop]
  split_ifs <;> rfl

/-- Where the pattern finds no path, the character stays. -/
theorem subAbsPath_of_none {c : Char} {cs : List Char} (h : matchAbsPath (c :: cs) = none) :
    subAbsPath repl (c :: cs) = c :: subAbsPath repl cs := by
  rw [subAbsPath]
  split
  · rename_i h'
    exact nomatch h.symm.trans h'
  · rfl

/-- Where the pattern finds a path, it is replaced, and sanitizing goes on behind it. -/
theorem subAbsPath_of_some {c : Char} {cs run rest : List Char}
    (h : matchAbsPath (c :: cs) = some (run, rest)) :
    subAbsPath repl (c :: cs) = repl run ++ subAbsPath repl rest := by
  rw [subAbsPath]
  split
  · rename_i h'
    cases h.symm.trans h'
    rfl
  · rename_i h'
    exact nomatch h.symm.trans h'

/-- The pattern finds a path only at a slash. -/
theorem matchAbsPath_of_ne {c : Char} (hc : c ≠ '/') (cs : List Char) :
    matchAbsPath (c :: cs) = none :=
  if_neg fun h => hc h.1

/-- **A separator ends the run before it,** so what stands on its two sides is sanitized separately.
-/
theorem subAbsPath_append_cons {d : Char} (hd : separates d = true) (x y : List Char) :
    subAbsPath repl (x ++ d :: y) = subAbsPath repl x ++ d :: subAbsPath repl y := by
  fun_induction subAbsPath repl x with
  | case1 =>
    have hslash : d ≠ '/' := by
      rintro rfl
      exact absurd hd (by decide)
    exact subAbsPath_of_none (matchAbsPath_of_ne hslash y)
  | case2 c cs run rest h ih =>
    have hmatch := matchAbsPath_append_cons hd c cs y
    rw [h, List.cons_append] at hmatch
    rw [List.cons_append, subAbsPath_of_some hmatch, ih, List.append_assoc]
  | case3 c cs h ih =>
    have hmatch := matchAbsPath_append_cons hd c cs y
    rw [h, List.cons_append] at hmatch
    rw [List.cons_append, subAbsPath_of_none hmatch, ih, List.cons_append]

/-- Text without a slash stays, and what follows it is sanitized as it would be alone. -/
theorem subAbsPath_append {shown : List Char} (hshown : '/' ∉ shown) (s : List Char) :
    subAbsPath repl (shown ++ s) = shown ++ subAbsPath repl s := by
  induction shown with
  | nil => rfl
  | cons c shown ih =>
    obtain ⟨hc, hrest⟩ := not_or.mp (mt List.mem_cons.mpr hshown)
    rw [List.cons_append, subAbsPath_of_none (matchAbsPath_of_ne (Ne.symm hc) _), ih hrest,
      List.cons_append]

/-- So a text without any slash stays as it is. -/
theorem subAbsPath_of_not_mem {b : List Char} (hb : '/' ∉ b) : subAbsPath repl b = b := by
  have h : subAbsPath repl (b ++ []) = b ++ subAbsPath repl [] := subAbsPath_append hb []
  rwa [subAbsPath, List.append_nil] at h

/-- A run that nothing ends is replaced as a whole. -/
theorem subAbsPath_run {c : Char} {r : List Char} (h : Blocks.Free separates (c :: r)) :
    subAbsPath repl ('/' :: c :: r) = repl ('/' :: c :: r) := by
  have htake : (c :: r).takeWhile isPathChar = c :: r :=
    List.takeWhile_eq_self_iff.mpr fun x hx => isPathChar_eq_true (h x hx)
  have hdrop : (c :: r).dropWhile isPathChar = [] :=
    List.dropWhile_eq_nil_iff.mpr fun x hx => isPathChar_eq_true (h x hx)
  have hmatch : matchAbsPath ('/' :: c :: r) = some ('/' :: c :: r, []) := by
    rw [matchAbsPath, if_pos ⟨rfl, by rw [htake]; exact List.cons_ne_nil _ _⟩, htake, hdrop]
  rw [subAbsPath_of_some hmatch, subAbsPath, List.append_nil]

/-- A slash that nothing follows is no path. -/
theorem subAbsPath_slash : subAbsPath repl ['/'] = ['/'] := by
  rw [subAbsPath_of_none rfl, subAbsPath]

/-- **The sanitizer works block by block:** separators stay, and what stands between them is
sanitized by itself. -/
theorem blockwise_subAbsPath
    (hrepl : ∀ b, Blocks.Free separates b → Blocks.Free separates (repl b)) :
    Blocks.Blockwise separates (subAbsPath repl) where
  nil := by rw [subAbsPath]
  append_cons hd := subAbsPath_append_cons hd
  free {b} hb := by
    fun_induction subAbsPath repl b with
    | case1 => exact hb
    | case2 c cs run rest h ih =>
      rw [matchAbsPath] at h
      split_ifs at h
      cases h
      have hsplit := cs.takeWhile_append_dropWhile (p := isPathChar)
      obtain ⟨hc, hcs⟩ := Blocks.free_cons.mp hb
      rw [← hsplit] at hcs
      obtain ⟨htake, hdrop⟩ := Blocks.free_append.mp hcs
      exact Blocks.free_append.mpr ⟨hrepl _ (Blocks.free_cons.mpr ⟨hc, htake⟩), ih hdrop⟩
    | case3 c cs h ih =>
      obtain ⟨hc, hcs⟩ := Blocks.free_cons.mp hb
      exact Blocks.free_cons.mpr ⟨hc, ih hcs⟩

end Sub

/-! ### What is redacted in a part -/

/-- `_replace` on characters. -/
def replaceRun (echo : List String) (run : List Char) : List Char :=
  (replace echo (String.ofList run)).toList

/-- `sanitize_message` replaces the runs of its text; the rest of its code is how they are replaced.
-/
theorem toList_sanitizeMessage (message : String) (echo : List String) :
    (sanitizeMessage message echo).toList = subAbsPath (replaceRun echo) message.toList :=
  String.toList_ofList

/-- The mark that stands for a hidden path has no separator in it. -/
theorem free_redacted : Blocks.Free separates redacted.toList := by
  simp [Blocks.Free, redacted, separates, isPathChar, Py.isSpace]

/-- The mark that stands for a hidden path has no slash, so it is not taken for a path again. -/
theorem slash_not_mem_redacted : '/' ∉ redacted.toList := by decide

/-- A run that begins with a path of the caller's is kept. -/
theorem replaceRun_of_start {echo : List String} {e : String} {run : List Char} (he : e ∈ echo)
    (h : e.toList <+: run) : replaceRun echo run = run := by
  have hany : (echo.any fun allowed => String.ofList run == allowed ||
      Py.startswith (String.ofList run) allowed) = true := by
    refine List.any_eq_true.mpr ⟨e, he, Bool.or_eq_true_iff.mpr (Or.inr ?_)⟩
    rwa [Py.startswith_iff, String.toList_ofList]
  rw [replaceRun, replace, if_pos hany, String.toList_ofList]

/-- A run that begins with none of them is hidden. -/
theorem replaceRun_of_forall {echo : List String} {run : List Char}
    (h : ∀ e ∈ echo, ¬e.toList <+: run) : replaceRun echo run = redacted.toList := by
  have hany : ¬(echo.any fun allowed => String.ofList run == allowed ||
      Py.startswith (String.ofList run) allowed) = true := by
    intro hany
    obtain ⟨e, he, hkeep⟩ := List.any_eq_true.mp hany
    refine h e he ?_
    rcases Bool.or_eq_true_iff.mp hkeep with heq | hprefix
    · rw [← beq_iff_eq.mp heq, String.toList_ofList]
    · rwa [Py.startswith_iff, String.toList_ofList] at hprefix
  rw [replaceRun, replace, if_neg hany]

/-- Neither way does a run get a separator. -/
theorem free_replaceRun {echo : List String} {run : List Char} (h : Blocks.Free separates run) :
    Blocks.Free separates (replaceRun echo run) := by
  by_cases hkeep : ∃ e ∈ echo, e.toList <+: run
  · obtain ⟨e, he, hprefix⟩ := hkeep
    rwa [replaceRun_of_start he hprefix]
  · rw [replaceRun_of_forall fun e he hprefix => hkeep ⟨e, he, hprefix⟩]
    exact free_redacted

/-- What begins with no echo path is replaced by the mark. -/
theorem subAbsPath_of_redacts {echo : List String} {shown b : List Char}
    (hb : Blocks.Free separates b) (h : Redacts echo shown b) :
    subAbsPath (replaceRun echo) b = shown ++ redacted.toList := by
  obtain ⟨hshown, c, r, rfl, hecho⟩ := h
  have hrun : Blocks.Free separates (c :: r) :=
    (Blocks.free_cons.mp (Blocks.free_append.mp hb).2).2
  rw [subAbsPath_append hshown, subAbsPath_run hrun, replaceRun_of_forall hecho]

/-- **Everything else in a path stays:** a block of which no part is hidden is left as it is. -/
theorem subAbsPath_of_not_redacts {echo : List String} {b : List Char}
    (hb : Blocks.Free separates b) (h : ∀ shown, ¬Redacts echo shown b) :
    subAbsPath (replaceRun echo) b = b := by
  by_cases hslash : '/' ∈ b
  · obtain ⟨shown, r, rfl, hshown⟩ := List.eq_append_cons_of_mem hslash
    rw [subAbsPath_append hshown]
    congr 1
    cases r with
    | nil => exact subAbsPath_slash
    | cons c r =>
      have hrun : Blocks.Free separates (c :: r) :=
        (Blocks.free_cons.mp (Blocks.free_append.mp hb).2).2
      rw [subAbsPath_run hrun]
      by_cases hkeep : ∃ e ∈ echo, e.toList <+: '/' :: c :: r
      · obtain ⟨e, he, hprefix⟩ := hkeep
        exact replaceRun_of_start he hprefix
      · exact absurd ⟨hshown, c, r, rfl, fun e he hprefix => hkeep ⟨e, he, hprefix⟩⟩ (h shown)
  · exact subAbsPath_of_not_mem hslash

/-- A block that reads as redacted is what is shown of it, and the mark. -/
theorem subAbsPath_of_readsRedacted {echo : List String} {shown b : List Char}
    (hb : Blocks.Free separates b) (h : ReadsRedacted echo shown b) :
    subAbsPath (replaceRun echo) b = shown ++ redacted.toList := by
  rcases h with h | ⟨hshown, rfl⟩
  · exact subAbsPath_of_redacts hb h
  · rw [subAbsPath_append hshown, subAbsPath_of_not_mem slash_not_mem_redacted]

/-- **When two parts are sanitized to one:** they are the same, or in both of them a path is hidden
behind the same beginning. -/
theorem subAbsPath_eq_iff (echo : List String) (b c : List Char) (hb : Blocks.Free separates b)
    (hc : Blocks.Free separates c) :
    subAbsPath (replaceRun echo) b = subAbsPath (replaceRun echo) c ↔ AlikePart echo b c := by
  constructor
  · intro h
    by_cases hrb : ∃ shown, Redacts echo shown b
    · obtain ⟨shown, hshown⟩ := hrb
      rw [subAbsPath_of_redacts hb hshown] at h
      refine Or.inr ⟨shown, Or.inl hshown, ?_⟩
      by_cases hrc : ∃ shown, Redacts echo shown c
      · obtain ⟨shown', hshown'⟩ := hrc
        rw [subAbsPath_of_redacts hc hshown'] at h
        rw [List.append_cancel_right h]
        exact Or.inl hshown'
      · rw [subAbsPath_of_not_redacts hc (not_exists.mp hrc)] at h
        exact Or.inr ⟨hshown.1, h.symm⟩
    · rw [subAbsPath_of_not_redacts hb (not_exists.mp hrb)] at h
      by_cases hrc : ∃ shown, Redacts echo shown c
      · obtain ⟨shown, hshown⟩ := hrc
        rw [subAbsPath_of_redacts hc hshown] at h
        exact Or.inr ⟨shown, Or.inr ⟨hshown.1, h⟩, Or.inl hshown⟩
      · rw [subAbsPath_of_not_redacts hc (not_exists.mp hrc)] at h
        exact Or.inl h
  · rintro (rfl | ⟨shown, hshown, hshown'⟩)
    · rfl
    · rw [subAbsPath_of_readsRedacted hb hshown, subAbsPath_of_readsRedacted hc hshown']

/-! ### The law -/

/-- The sanitizer with the caller's paths works block by block too. -/
theorem blockwise_sanitize (echo : List String) :
    Blocks.Blockwise separates (subAbsPath (replaceRun echo)) :=
  blockwise_subAbsPath fun _ => free_replaceRun

/-- **The message is sanitized piece by piece**, the path by itself wherever it stands. -/
theorem toList_sanitizeMessage_fill (t : Template) (p : String) (echo : List String) :
    (sanitizeMessage (t.fill p) echo).toList =
      Blocks.weave (subAbsPath (replaceRun echo) t.opening.toList)
        (t.turns.map fun s => subAbsPath (replaceRun echo) s.toList)
        (subAbsPath (replaceRun echo) t.closing.toList)
        (subAbsPath (replaceRun echo) p.toList) := by
  have hf := blockwise_sanitize echo
  have hdelimiter : ∀ {c : Option Char}, (∃ d, c = some d ∧ isDelimiter d = true) →
      ∃ d, c = some d ∧ separates d = true := by
    rintro c ⟨d, hd, hdelim⟩
    exact ⟨d, hd, separates_of_isDelimiter hdelim⟩
  -- from the end of the message on: what follows a path begins with a delimiter, or is empty
  have hturns : ∀ turns : List String, (∀ s ∈ turns, s ∈ t.turns) →
      ∀ w, subAbsPath (replaceRun echo)
          (w ++ ((turns.map String.toList).flatMap (· ++ p.toList) ++ t.closing.toList)) =
        subAbsPath (replaceRun echo) w ++
          ((turns.map fun s => subAbsPath (replaceRun echo) s.toList).flatMap
              (· ++ subAbsPath (replaceRun echo) p.toList) ++
            subAbsPath (replaceRun echo) t.closing.toList) := by
    intro turns
    induction turns with
    | nil =>
      intro _ w
      exact hf.append_of_head? (t.closing_begins.imp_right hdelimiter)
    | cons s turns ih =>
      intro hmem w
      obtain ⟨d, hd, hsep⟩ := hdelimiter (t.turns_begin s (hmem s List.mem_cons_self))
      have hbegin : ∀ rest, ∃ d, (s.toList ++ rest).head? = some d ∧ separates d = true :=
        fun rest => ⟨d, by rw [List.head?_append, hd, Option.some_or], hsep⟩
      have hend := hdelimiter (t.turns_end s (hmem s List.mem_cons_self))
      have hrest := ih (fun x hx => hmem x (List.mem_cons_of_mem _ hx)) p.toList
      simp only [List.map_cons, List.flatMap_cons, List.append_assoc] at hrest ⊢
      rw [hf.append_of_head? (Or.inr (hbegin _)), hf.append_of_getLast? (Or.inr hend), hrest]
  rw [toList_sanitizeMessage, Template.fill, String.toList_ofList, Blocks.weave, Blocks.weave]
  simp only [List.append_assoc]
  rw [hf.append_of_getLast? (t.opening_ends.imp_right hdelimiter), hturns t.turns fun _ hs => hs]

/-- The law at two paths is that of the paths alone. -/
theorem undisclosed_iff_alike (echo : List String) (t : Template) (p q : String) :
    Undisclosed echo t p q ↔ Alike echo p q := by
  have hmessage : sanitizeMessage (t.fill p) echo = sanitizeMessage (t.fill q) echo ↔
      Alike echo p q := by
    rw [← String.toList_inj, toList_sanitizeMessage_fill, toList_sanitizeMessage_fill,
      Blocks.weave_inj, (blockwise_sanitize echo).eq_iff (subAbsPath_eq_iff echo), Alike]
  refine ⟨fun h => hmessage.mp h.message, fun h => ⟨hmessage.mpr h, ?_⟩⟩
  rintro kwargs rfl tool_name request_id isinstance
  simp only [wrapTool, makeEnvelope, buildError, hmessage.mpr h]

/-- **Messages tell two internal paths apart unless these are alike.** For every message that names
a path between delimiters: the sanitized texts, and with them the envelopes, are the same for both
exactly if the paths have the same separators and each part is the same in both or redacted in both
behind the same text. -/
theorem undisclosed_iff (echo : List String) (t : Template) (p q : String) :
    (Internal echo p → Internal echo q → Undisclosed echo t p q) ↔
      (Internal echo p → Internal echo q → Alike echo p q) := by
  rw [undisclosed_iff_alike]

/-- The path is more than a slash and begins with no echo path. -/
def Hidden (echo : List String) (p : String) : Prop :=
  p ≠ "/" ∧ ∀ e ∈ echo, Py.startswith p e = false

/-- An absolute path begins with a slash. -/
theorem exists_cons_of_isabs {p : String} (hp : Py.isabs p = true) : ∃ r, p.toList = '/' :: r := by
  obtain ⟨r, hr⟩ := Py.startswith_iff.mp hp
  exact ⟨r, hr.symm⟩

/-- An absolute path reads as redacted exactly if it is hidden, and then nothing of it is shown. -/
theorem readsRedacted_iff {echo : List String} {shown : List Char} {p : String}
    (hp : Py.isabs p = true) : ReadsRedacted echo shown p.toList ↔ shown = [] ∧ Hidden echo p := by
  obtain ⟨r, hr⟩ := exists_cons_of_isabs hp
  have hne : p ≠ "/" ↔ r ≠ [] := by
    rw [not_iff_not, ← String.toList_inj, hr]
    simp
  have hstart : ∀ e, Py.startswith p e = false ↔ ¬e.toList <+: '/' :: r := by
    intro e
    rw [← hr, ← Py.startswith_iff, Bool.not_eq_true]
  simp only [Hidden, hne, hstart, hr]
  constructor
  · intro h
    have hshown : shown = [] := by
      cases shown with
      | nil => rfl
      | cons x shown =>
        have hx : '/' ≠ x := by
          have hmem : '/' ∉ x :: shown := by
            rcases h with h | h
            · exact h.1
            · exact h.1
          exact fun hx => hmem (hx ▸ List.mem_cons_self)
        rcases h with ⟨-, c, r', heq, -⟩ | ⟨-, heq⟩
        · exact absurd (List.cons.inj heq).1 hx
        · exact absurd (List.cons.inj heq).1 hx
    subst hshown
    rcases h with ⟨-, c, r', heq, hecho⟩ | ⟨-, heq⟩
    · obtain rfl := (List.cons.inj heq).2
      exact ⟨rfl, List.cons_ne_nil _ _, hecho⟩
    · exact absurd (List.cons.inj heq).1 (by decide)
  · rintro ⟨rfl, hr', hecho⟩
    obtain ⟨c, r', rfl⟩ := List.exists_cons_of_ne_nil hr'
    exact Or.inl ⟨List.not_mem_nil, c, r', rfl, hecho⟩

/-- **For paths without whitespace, commas and quotes:** two different ones are told apart unless
both are hidden. -/
theorem undisclosed_iff_of_free {echo : List String} (t : Template) {p q : String}
    (hp : Py.isabs p = true) (hq : Py.isabs q = true) (hfp : Blocks.Free separates p.toList)
    (hfq : Blocks.Free separates q.toList) :
    Undisclosed echo t p q ↔ p = q ∨ Hidden echo p ∧ Hidden echo q := by
  rw [undisclosed_iff_alike, Alike, hfp.filter_eq, hfq.filter_eq, List.splitOnP_eq_singleton hfp,
    List.splitOnP_eq_singleton hfq]
  simp only [List.forall₂_cons, List.Forall₂.nil, and_true, true_and, AlikePart, String.toList_inj,
    readsRedacted_iff hp, readsRedacted_iff hq]
  constructor
  · rintro (h | ⟨shown, ⟨-, hp'⟩, -, hq'⟩)
    · exact Or.inl h
    · exact Or.inr ⟨hp', hq'⟩
  · rintro (h | ⟨hp', hq'⟩)
    · exact Or.inl h
    · exact Or.inr ⟨[], ⟨rfl, hp'⟩, rfl, hq'⟩

/-- `Cannot read '…'` -/
def cannotRead : Template where
  opening := "Cannot read '"
  turns := []
  closing := "'"
  opening_ends := Or.inr ⟨'\'', rfl, rfl⟩
  turns_begin := by simp
  turns_end := by simp
  closing_begins := Or.inr ⟨'\'', rfl, rfl⟩

/-- **A path that only begins like one of the caller's is told:** `/home/username` begins with the
echo path `/home/user`, so the sanitizer takes it for one of the caller's own. -/
theorem username_disclosed :
    ¬(Internal ["/home/user"] "/home/username/key" → Internal ["/home/user"] "/srv/key" →
      Undisclosed ["/home/user"] cannotRead "/home/username/key" "/srv/key") := by
  have hfree : ∀ p ∈ ["/home/username/key", "/srv/key"], Blocks.Free separates p.toList := by
    simp [Blocks.Free, separates, isPathChar, Py.isSpace]
  intro h
  have hundisclosed := h ⟨rfl, by decide⟩ ⟨rfl, by decide⟩
  rw [undisclosed_iff_of_free _ rfl rfl (hfree _ (by simp)) (hfree _ (by simp))] at hundisclosed
  rcases hundisclosed with heq | ⟨hhidden, -⟩
  · exact absurd heq (by decide)
  · exact absurd (hhidden.2 _ List.mem_cons_self) (by decide)

end Server
end CppMcp
