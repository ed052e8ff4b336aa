/-
# The tool `get_references`

`tools/get_references.py`: the symbol is the own USR of the cursor at the position, and the
references are the other cursors of the translation unit whose `referenced` has it, each location
once, in the order of the walk.

The answer depends on the position through that USR alone.  An expression that uses a symbol has no
USR of its own, so at a use the tool looks for the empty one, and what it answers there is never
what it answers at the declaration.
-/

import CppMcp.Lib.Visitor
import CppMcp.Tools.CursorAt

namespace CppMcp
namespace Tools

open Py (Path)
open Cache (ClangSession)
open Export (Acc Exc Cursor CursorInfo Location)
open Ingest (FlagSource)

/-- `_MAX_REFERENCES`. -/
def MAX_REFERENCES : ℕ := 1000

/-- An item of the list of references. -/
structure Reference where
  file : String
  line : ℕ
  col : ℕ
  context_snippet : String
  deriving DecidableEq, Repr

/-- What is kept in `seen_locations`. -/
def Reference.key (r : Reference) : String × ℕ × ℕ := (r.file, r.line, r.col)

/-- `_context_snippet`, of a file that is there. -/
def contextSnippet (read_text : String → Except String String) (file : String) (line : ℕ) :
    String :=
  match read_text file with
  | .error _ => ""
  | .ok text =>
    let lines := Py.splitlines text
    if 1 ≤ line ∧ line ≤ lines.length then Py.strip ((lines[line - 1]?).getD "") else ""

section Collect

variable (read_text : String → Except String String) (target_usr : String)

/-- The location at which the cursor refers to the symbol, if it does. -/
def referenceAt (cursor : CursorInfo) : Acc (Option (String × ℕ × ℕ)) := do
  let loc ← cursor.location
  match loc.file with
  | none => return none
  | some file =>
    if (← cursor.get_usr) = target_usr then return none
    else
      match ← cursor.referenced with
      | none => return none
      | some ref =>
        if (← ref.get_usr) ≠ target_usr then return none
        else return some (file, loc.line, loc.column)

/-- `results` and `seen_locations`. -/
structure Collected where
  results : List Reference := []
  seen_locations : List (String × ℕ × ℕ) := []

/-- The item for a location. -/
def referenceOf (key : String × ℕ × ℕ) : Reference :=
  ⟨key.1, key.2.1, key.2.2, contextSnippet read_text key.1 key.2.1⟩

/-- What a turn of the loop makes of the answer of a cursor: a location that has come up before is
passed over. -/
def Collected.add (w : Collected) : Option (String × ℕ × ℕ) → Collected
  | none => w
  | some key =>
    if key ∈ w.seen_locations then w
    else ⟨w.results ++ [referenceOf read_text key], key :: w.seen_locations⟩

/-- One turn of the loop of `_collect_references`. -/
def collectStep (w : Collected) (cursor : CursorInfo) : Acc Collected := do
  return w.add read_text (← referenceAt target_usr cursor)

/-- `_collect_references`.  `walk_preorder` asks a cursor for its children when the loop comes back for
the next one. -/
def collectReferences (tu : TranslationUnit) : Acc (List Reference) := do
  let w ← Rose.walkM (collectStep read_text target_usr) CursorInfo.getChildren tu.cursor {}
  return w.results

end Collect

/-- What the tool answers. -/
structure References where
  usr : String
  references : List Reference
  truncated : Bool
  omitted_count : ℕ
  flags_source : FlagSource
  cache_hit : Bool
  request_id : String

/-- `_do_get_references` from the cursor on. -/
def references (read_text : String → Except String String) (opened : Opened) (request_id : String)
    (cursor : CursorInfo) : Acc References := do
  let target_usr ← cursor.get_usr
  let all_refs ← collectReferences read_text target_usr opened.tu
  return {
    usr := target_usr
    references := all_refs.take MAX_REFERENCES
    truncated := MAX_REFERENCES < all_refs.length
    omitted_count := all_refs.length - MAX_REFERENCES
    flags_source := opened.flags_source
    cache_hit := opened.cache_hit
    request_id }

/-- `_do_get_references`, and the session after it. -/
def doGetReferences (o : Outside) (session : ClangSession TranslationUnit) (req : Request) :
    Acc References × ClangSession TranslationUnit :=
  let opened := openUnit o session req
  (do
    let opened ← opened.1
    let cursor ← cursorAt o.read_text opened.tu opened.resolved_file req.line req.col
    references o.read_text opened req.request_id cursor, opened.2)

/-! ### What a cursor refers to -/

section Collect

variable {read_text : String → Except String String} {target_usr : String}

/-- The cursor has a location in a file, another USR of its own, and refers to the symbol. -/
def RefersTo (target_usr : String) (key : String × ℕ × ℕ) (cursor : CursorInfo) : Prop :=
  ∃ loc file usr ref, cursor.location = .ok loc ∧ loc.file = some file ∧
    key = (file, loc.line, loc.column) ∧ cursor.get_usr = .ok usr ∧ usr ≠ target_usr ∧
      cursor.referenced = .ok (some ref) ∧ ref.get_usr = .ok target_usr

/-- A cursor adds a location exactly if it refers to the symbol from there. -/
theorem referenceAt_eq_some_iff {cursor : CursorInfo} {key : String × ℕ × ℕ} :
    referenceAt target_usr cursor = .ok (some key) ↔ RefersTo target_usr key cursor := by
  constructor
  · intro h
    obtain ⟨loc, hloc, h⟩ := Except.bind_eq_ok.mp h
    cases hfile : loc.file with
    | none =>
      rw [hfile] at h
      exact nomatch h
    | some file =>
      rw [hfile] at h
      obtain ⟨usr, husr, h⟩ := Except.bind_eq_ok.mp h
      split_ifs at h with hself
      · exact nomatch h
      · obtain ⟨ref, href, h⟩ := Except.bind_eq_ok.mp h
        cases ref with
        | none => exact nomatch h
        | some ref =>
          obtain ⟨rusr, hrusr, h⟩ := Except.bind_eq_ok.mp h
          split_ifs at h with hother
          · exact nomatch h
          · cases h
            rw [not_not.mp hother] at hrusr
            exact ⟨loc, file, usr, ref, hloc, hfile, rfl, husr, hself, href, hrusr⟩
  · rintro ⟨loc, file, usr, ref, hloc, hfile, rfl, husr, hself, href, hrusr⟩
    simp only [referenceAt, hloc, hfile, husr, href, hrusr, bind, Except.bind, pure, Except.pure,
      if_neg hself, ne_eq, not_true_eq_false, if_false]

end Collect

/-! ### The answer and the position -/

/-- At the position there is a use of the symbol: a cursor without a USR of its own that refers to
it. -/
def UseSite (tu : TranslationUnit) (file : String) (line col : ℤ) (usr : String) : Prop :=
  ∃ c, tu.from_location file line col = .ok (some c) ∧ c.get_usr = .ok "" ∧
    ∃ ref, c.referenced = .ok (some ref) ∧ ref.get_usr = .ok usr

/-- At the position the symbol is declared. -/
def DeclarationSite (tu : TranslationUnit) (file : String) (line col : ℤ) (usr : String) : Prop :=
  ∃ c, tu.from_location file line col = .ok (some c) ∧ c.get_usr = .ok usr

/-- Both calls answer, with the same symbol and the same locations. -/
def SameAnswer (x y : Acc References) : Prop :=
  ∃ r r', x = .ok r ∧ y = .ok r' ∧ r.usr = r'.usr ∧
    ∀ key, key ∈ r.references.map Reference.key ↔ key ∈ r'.references.map Reference.key

/-- The symbol of an answer is the own USR of the cursor that libclang gives for the position. -/
theorem usr_of_doGetReferences {o : Outside} {session : ClangSession TranslationUnit}
    {req : Request} {opened : Opened} {r : References}
    (hopen : (openUnit o session req).1 = .ok opened)
    (h : (doGetReferences o session req).1 = .ok r) :
    ∃ c, opened.tu.from_location opened.resolved_file.str req.line req.col = .ok (some c) ∧
      c.get_usr = .ok r.usr := by
  obtain ⟨opened', hopen', h⟩ := Except.bind_eq_ok.mp h
  cases hopen.symm.trans hopen'
  obtain ⟨c, hc, h⟩ := Except.bind_eq_ok.mp h
  obtain ⟨usr, husr, h⟩ := Except.bind_eq_ok.mp h
  obtain ⟨refs, -, h⟩ := Except.bind_eq_ok.mp h
  cases h
  exact ⟨c, from_location_of_cursorAt hc, husr⟩

/-- **At a use the answer is never that at the declaration.** The tool looks for the own USR of the
cursor at the position. At a use that is empty, so the symbol of the answer is the empty one, in
every unit and from every state of the session. -/
theorem not_sameAnswer_of_useSite {o : Outside} {session session' : ClangSession TranslationUnit}
    {req req' : Request} {opened opened' : Opened} {usr : String} (husr : usr ≠ "")
    (hopen : (openUnit o session req).1 = .ok opened)
    (hopen' : (openUnit o session' req').1 = .ok opened')
    (huse : UseSite opened.tu opened.resolved_file.str req.line req.col usr)
    (hdecl : DeclarationSite opened'.tu opened'.resolved_file.str req'.line req'.col usr) :
    ¬SameAnswer (doGetReferences o session req).1 (doGetReferences o session' req').1 := by
  rintro ⟨r, r', hr, hr', hsame, -⟩
  obtain ⟨c, hc, hcusr⟩ := usr_of_doGetReferences hopen hr
  obtain ⟨c', hc', hcusr'⟩ := usr_of_doGetReferences hopen' hr'
  obtain ⟨d, hd, hdusr, -⟩ := huse
  obtain ⟨d', hd', hdusr'⟩ := hdecl
  cases hc.symm.trans hd
  cases hc'.symm.trans hd'
  have hempty : r.usr = "" := Except.ok.inj (hcusr.symm.trans hdusr)
  have hfull : r'.usr = usr := Except.ok.inj (hcusr'.symm.trans hdusr')
  exact husr (hfull.symm.trans (hsame.symm.trans hempty))

/-- `/calc/a.cpp`, in which `main` calls `calculate`. -/
def calcHost : Files.Host where
  fs :=
    { entries := [(["calc"], .dir), (["calc", "a.cpp"], .file)]
      nodup := by decide
      plain := by decide
      below := by decide }
  cwd := []
  cwd_dir := rfl

def calculateUsr : String := "c:@F@calculate#"

def calculateDecl : CursorInfo where
  kind := .ok .functionDecl
  get_usr := .ok calculateUsr
  location := .ok ⟨some "/calc/a.cpp", 1, 5⟩

def calculateUse : CursorInfo where
  kind := .ok .declRefExpr
  location := .ok ⟨some "/calc/a.cpp", 2, 21⟩
  referenced := .ok (some ⟨.ok calculateUsr⟩)

def calcUnit : TranslationUnit where
  cursor := .node { kind := .ok TRANSLATION_UNIT }
    [.node calculateDecl [],
      .node { kind := .ok .functionDecl, get_usr := .ok "c:@F@main#" } [.node calculateUse []]]
  get_file _ := .ok true
  from_location _ line _ := .ok (some (if line = 1 then calculateDecl else calculateUse))

def calcOutside : Outside where
  host := calcHost
  sha1 := default
  old_mtime _ := some 1
  new_mtime _ := some 1
  index_parse _ := .ok calcUnit
  load_compile_db _ := none
  read_text _ := .ok "int calculate() { return 1; }\nint main() { return calculate(); }\n"

/-- The request at a position of `/calc/a.cpp`. -/
def calcAt (line col : ℤ) : Request := ⟨"/calc/a.cpp", line, col, none, ["/calc"], [], "id"⟩

/-- In the example the unit is opened at every position. -/
theorem openUnit_calc (line col : ℤ) : (openUnit calcOutside .new (calcAt line col)).1 =
    .ok ⟨["calc", "a.cpp"], calcUnit, .default_, false⟩ := by
  have hpaths : resolveRequest calcOutside (calcAt line col) =
      .ok (["calc", "a.cpp"], none, [], .default_) := by
    have h : resolveRequest calcOutside (calcAt 1 1) =
        .ok (["calc", "a.cpp"], none, [], .default_) := by decide +kernel
    exact h
  rw [openUnit, hpaths]
  rfl

/-- `not_sameAnswer_of_useSite` at the call of `calculate` on line 2 and its declaration on line 1.
-/
theorem not_sameAnswer_of_useSite_calc :
    ¬SameAnswer (doGetReferences calcOutside .new (calcAt 2 21)).1
      (doGetReferences calcOutside .new (calcAt 1 5)).1 :=
  not_sameAnswer_of_useSite (show calculateUsr ≠ "" by decide) (openUnit_calc 2 21)
    (openUnit_calc 1 5) ⟨calculateUse, rfl, rfl, _, rfl, rfl⟩ ⟨calculateDecl, rfl, rfl⟩

/-- **A use is not found from itself:** at the call the tool answers with no symbol and no
references, at the declaration with the symbol and the call. -/
theorem calculate_not_found_at_use :
    ((doGetReferences calcOutside .new (calcAt 2 21)).1.map fun r => (r.usr, r.references)) =
        .ok ("", []) ∧
      ((doGetReferences calcOutside .new (calcAt 1 5)).1.map fun r => (r.usr, r.references)) =
        .ok (calculateUsr, [⟨"/calc/a.cpp", 2, 21, "int main() { return calculate(); }"⟩]) ∧
      ¬SameAnswer (doGetReferences calcOutside .new (calcAt 2 21)).1
        (doGetReferences calcOutside .new (calcAt 1 5)).1 := by
  have huse : ((doGetReferences calcOutside .new (calcAt 2 21)).1.map fun r =>
      (r.usr, r.references)) = .ok ("", []) := by decide +kernel
  have hdecl : ((doGetReferences calcOutside .new (calcAt 1 5)).1.map fun r =>
      (r.usr, r.references)) = .ok (calculateUsr,
        [⟨"/calc/a.cpp", 2, 21, "int main() { return calculate(); }"⟩]) := by decide +kernel
  refine ⟨huse, hdecl, ?_⟩
  rintro ⟨r, r', hr, hr', hsame, -⟩
  rw [hr] at huse
  rw [hr'] at hdecl
  have hempty : r.usr = "" := congrArg Prod.fst (Except.ok.inj huse)
  have hfull : r'.usr = calculateUsr := congrArg Prod.fst (Except.ok.inj hdecl)
  exact absurd (hfull.symm.trans (hsame.symm.trans hempty)) (by decide)

end Tools
end CppMcp
