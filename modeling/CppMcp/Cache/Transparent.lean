/-
# A session parses what it is asked to parse

`_get_or_parse_sync` adds the options to the flags as one more string, so that the cache
keeps requests with different options apart, and takes every string of that kind out again before
it calls libclang.  A flag of the caller that looks like such a string is taken out as well, and
its request shares an entry with another one.

`transparent_iff` says that this is all that can go wrong: whatever is in the cache, a
session returns what libclang returns for exactly the request, unless a flag starts with
`__options=`.
-/

import CppMcp.Cache.ClangSession
import CppMcp.Py.Repr
import Mathlib.Data.Set.Function

namespace CppMcp
namespace Cache

open Py (Path)
open Files (FileSystem)
open Export (Acc Exc)

/-- A request to the session.  A path is split at its slashes. -/
structure SessionRequest where
  file_path : Path
  build_path : Option Path
  flags : List String
  options : ℤ
  slashless : FileSystem.Slashless file_path

namespace SessionRequest

/-- What libclang is to be asked: the resolved path, all flags, and the options. -/
def parseCall (r : SessionRequest) (fs : FileSystem) : ParseCall :=
  ⟨fs.realpath r.file_path, r.flags, r.options⟩

/-- What the cache is asked. -/
def cacheRequest (r : SessionRequest) : Request :=
  ⟨r.file_path, r.build_path, effectiveFlags r.flags r.options⟩

/-- No flag of the caller looks like one that the session adds. -/
def Clean (r : SessionRequest) : Prop := ∀ flag ∈ r.flags, Py.startswith flag "__options=" = false

end SessionRequest

/-- **Flags that the cache can tell apart:** no flag looks like one that the session adds, and the text
that is digested for the flags is among `M`, on which the digest is asked to have no collisions. -/
structure FlagsAmong (M : Set String) (flags : List String) (options : ℤ) : Prop where
  clean : ∀ flag ∈ flags, Py.startswith flag "__options=" = false
  digested : Py.reprTuple (effectiveFlags flags options) ∈ M

/-- The request has such flags. -/
def SessionRequest.Among (r : SessionRequest) (M : Set String) : Prop := FlagsAmong M r.flags r.options

section Serve

variable {TU : Type} (w : World TU)

/-- The session answers a request. -/
def ClangSession.serve (s : ClangSession TU) (r : SessionRequest) : Answer TU :=
  s.getOrParseSync w r.file_path r.build_path r.flags r.options

/-- The session after some requests. -/
def ClangSession.after (s : ClangSession TU) (rs : List SessionRequest) : ClangSession TU :=
  rs.foldl (fun s r => (s.serve w r).session) s

/-- A session that has parsed nothing. -/
def ClangSession.ofCapacity (capacity : ℕ) (capacity_pos : 0 < capacity) : ClangSession TU :=
  ⟨.ofCapacity capacity capacity_pos⟩

/-- **Every answer is what libclang returns for exactly the request.** -/
def Transparent (capacity : ℕ) (capacity_pos : 0 < capacity) (rs : List SessionRequest) : Prop :=
  ∀ before r after, rs = before ++ r :: after →
    (((ClangSession.ofCapacity capacity capacity_pos).after w before).serve w r).result.map
      Prod.fst = w.index_parse (r.parseCall w.fs)

end Serve

/-! ### Flags and options, in and out -/

/-- The flag that `parse` adds for the options begins with `__options=`. -/
theorem startswith_optionsFlag (options : ℤ) :
    Py.startswith (optionsFlag options) "__options=" = true := by
  rw [Py.startswith_iff, optionsFlag, String.toList_append]
  exact List.prefix_append _ _

/-- Different options are added as different flags, since numbers are spelled differently. -/
theorem optionsFlag_injective : Function.Injective optionsFlag := fun _ _ h =>
  Py.toString_int_injective ((String.append_right_inj _).mp h)

/-- **What was added is what is taken out:** from flags that do not begin with `__options=`, the
parser gets back those of the caller. -/
theorem filter_effectiveFlags {flags : List String} (options : ℤ)
    (h : ∀ flag ∈ flags, Py.startswith flag "__options=" = false) :
    (effectiveFlags flags options).filter (fun x => !Py.startswith x "__options=") = flags := by
  have hflags : flags.filter (fun x => !Py.startswith x "__options=") = flags :=
    List.filter_eq_self.mpr fun flag hflag => by rw [h flag hflag]; rfl
  unfold effectiveFlags
  split_ifs
  · exact hflags
  · rw [List.filter_append, hflags, List.filter_cons_of_neg, List.filter_nil, List.append_nil]
    rw [startswith_optionsFlag]
    exact Bool.false_ne_true

/-- **Flags and options can be told from the effective flags,** if no flag begins like the one that
is added for the options. -/
theorem effectiveFlags_inj {flags flags' : List String} {options options' : ℤ}
    (h : ∀ flag ∈ flags, Py.startswith flag "__options=" = false)
    (h' : ∀ flag ∈ flags', Py.startswith flag "__options=" = false)
    (heq : effectiveFlags flags options = effectiveFlags flags' options') :
    flags = flags' ∧ options = options' := by
  have hflags : flags = flags' := by
    rw [← filter_effectiveFlags options h, heq, filter_effectiveFlags options' h']
  subst hflags
  refine ⟨rfl, ?_⟩
  have hlen : ∀ {x : String}, flags ≠ flags ++ [x] := fun h => by simp at h
  unfold effectiveFlags at heq
  split_ifs at heq with h₁ h₂ h₂
  · rw [h₁, h₂]
  · exact absurd heq hlen
  · exact absurd heq.symm hlen
  · exact optionsFlag_injective (List.singleton_inj.mp (List.append_cancel_left heq))

/-! ### What the entries are -/

section Sound

variable {TU : Type} {w : World TU} {s : ClangSession TU} {r : SessionRequest}

/-- **The three outcomes of a request,** those of `get_or_parse`: a hit, an exception of libclang,
or a new entry. -/
theorem serve_cases (w : World TU) (s : ClangSession TU) (r : SessionRequest) :
    (∃ entry, (r.cacheRequest.key w.fs w.sha1, entry) ∈ s.cache.store.items ∧
      (s.serve w r).result = .ok (entry.tu, true) ∧
      ∀ item ∈ (s.serve w r).session.cache.store.items, item ∈ s.cache.store.items) ∨
    (∃ exc, w.index_parse (parserCall r.options (w.fs.realpath r.file_path)
        (effectiveFlags r.flags r.options)) = .error exc ∧ (s.serve w r).result = .error exc ∧
      ∀ item ∈ (s.serve w r).session.cache.store.items, item ∈ s.cache.store.items) ∨
    (∃ entry, w.index_parse (parserCall r.options (w.fs.realpath r.file_path)
        (effectiveFlags r.flags r.options)) = .ok entry.tu ∧
      (s.serve w r).result = .ok (entry.tu, false) ∧
      ∀ item ∈ (s.serve w r).session.cache.store.items, item ∈ s.cache.store.items ∨
        item = (r.cacheRequest.key w.fs w.sha1, entry)) :=
  s.cache.getOrParse_cases w.fs w.sha1 w.old_mtime w.new_mtime r.cacheRequest
    (fun path flags => w.index_parse (parserCall r.options path flags)) rfl

/-- What is stored came from libclang, for flags without those of the session. -/
def Parses (w : World TU) (s : ClangSession TU) : Prop :=
  ∀ item ∈ s.cache.store.items, ∃ call : ParseCall, w.index_parse call = .ok item.2.tu ∧
    ∀ flag ∈ call.args, Py.startswith flag "__options=" = false

/-- A request keeps what is known of the parser: it is called for what the session is asked, with
the flags that were made of the request. -/
theorem Parses.serve (h : Parses w s) (r : SessionRequest) : Parses w (s.serve w r).session := by
  intro item hitem
  obtain ⟨-, -, -, hkeep⟩ | ⟨-, -, -, hkeep⟩ | ⟨entry, hparse, -, hkeep⟩ := serve_cases w s r
  · exact h item (hkeep item hitem)
  · exact h item (hkeep item hitem)
  · obtain hitem | rfl := hkeep item hitem
    · exact h item hitem
    · refine ⟨_, hparse, fun flag hflag => ?_⟩
      simpa using (List.mem_filter.mp hflag).2

/-- What is stored under the key of a request is what libclang returns for it, if the flags of the
request are among those that can be told apart. -/
def Faithful (M : Set String) (w : World TU) (s : ClangSession TU) : Prop :=
  ∀ item ∈ s.cache.store.items, ∀ r : SessionRequest, r.Among M →
    item.1 = r.cacheRequest.key w.fs w.sha1 → w.index_parse (r.parseCall w.fs) = .ok item.2.tu

/-- libclang is asked for exactly the request, with its own flags and options, if no flag begins
with `__options=`. -/
theorem parserCall_of_clean (hclean : r.Clean) (fs : FileSystem) :
    parserCall r.options (fs.realpath r.file_path) (effectiveFlags r.flags r.options) =
      r.parseCall fs := by
  rw [parserCall, filter_effectiveFlags r.options hclean, SessionRequest.parseCall]

/-- **Requests with one key are the same to libclang,** if their flags can be told apart: the key has the
resolved path as it is, and the flags and the options only as a digest. -/
theorem parseCall_of_key_eq {fs : FileSystem} {sha1 : Py.Sha1} {M : Set String}
    (hsha1 : Set.InjOn sha1.hexdigest M) {r r' : SessionRequest} (hr : r.Among M)
    (hr' : r'.Among M) (hkey : r.cacheRequest.key fs sha1 = r'.cacheRequest.key fs sha1) :
    r.parseCall fs = r'.parseCall fs := by
  have hpath := FileSystem.realpath_str_inj fs r.slashless r'.slashless
    (congrArg CacheKey.file_realpath hkey)
  obtain ⟨hflags, hoptions⟩ := effectiveFlags_inj hr.clean hr'.clean
    (Py.reprTuple_injective (hsha1 hr.digested hr'.digested (congrArg CacheKey.flags_sha1 hkey)))
  rw [SessionRequest.parseCall, SessionRequest.parseCall, hpath, hflags, hoptions]

/-- What a request adds to the cache is what libclang has just returned for it, so the cache stays
faithful. -/
theorem Faithful.serve {M : Set String} (h : Faithful M w s) (hsha1 : Set.InjOn w.sha1.hexdigest M)
    (hr : r.Among M) : Faithful M w (s.serve w r).session := by
  intro item hitem r' hr' hkey
  obtain ⟨-, -, -, hkeep⟩ | ⟨-, -, -, hkeep⟩ | ⟨entry, hparse, -, hkeep⟩ := serve_cases w s r
  · exact h item (hkeep item hitem) r' hr' hkey
  · exact h item (hkeep item hitem) r' hr' hkey
  · obtain hitem | rfl := hkeep item hitem
    · exact h item hitem r' hr' hkey
    · rw [← parseCall_of_key_eq hsha1 hr hr' hkey, ← parserCall_of_clean hr.clean]
      exact hparse

/-- A cache that is faithful stays so through any requests with such flags. -/
theorem faithful_after {M : Set String} {rs : List SessionRequest}
    (hsha1 : Set.InjOn w.sha1.hexdigest M) (hrs : ∀ r ∈ rs, r.Among M) (h : Faithful M w s) :
    Faithful M w (s.after w rs) := by
  induction rs generalizing s with
  | nil => exact h
  | cons r rs ih =>
    exact ih (fun r' hr' => hrs r' (List.mem_cons_of_mem r hr'))
      (h.serve hsha1 (hrs r (List.mem_cons_self ..)))

/-- So do any requests, one after the other, from a session that does. -/
theorem parses_after (rs : List SessionRequest) (h : Parses w s) : Parses w (s.after w rs) := by
  induction rs generalizing s with
  | nil => exact h
  | cons r rs ih => exact ih (h.serve r)

/-- **A clean request is answered with what libclang returns for it.** -/
theorem Faithful.answer {M : Set String} (h : Faithful M w s) (hr : r.Among M) :
    (s.serve w r).result.map Prod.fst = w.index_parse (r.parseCall w.fs) := by
  obtain ⟨entry, hentry, hresult, -⟩ | ⟨exc, hparse, hresult, -⟩ | ⟨entry, hparse, hresult, -⟩ :=
    serve_cases w s r <;> rw [hresult]
  · exact (h _ hentry r hr rfl).symm
  · rw [← parserCall_of_clean hr.clean, hparse]
    rfl
  · rw [← parserCall_of_clean hr.clean, hparse]
    rfl

end Sound

/-- If a run is answered as without a cache, its requests were clean: a flag that is dropped shows
in what libclang is asked. -/
theorem clean_of_answer {w : World ParseCall} (hw : w.index_parse = .ok)
    {s : ClangSession ParseCall} (h : Parses w s) {r : SessionRequest}
    (hanswer : (s.serve w r).result.map Prod.fst = w.index_parse (r.parseCall w.fs)) : r.Clean := by
  obtain ⟨entry, hentry, hresult, -⟩ | ⟨exc, hparse, -⟩ | ⟨entry, hparse, hresult, -⟩ :=
    serve_cases w s r
  · obtain ⟨call, hcall, hflags⟩ := h _ hentry
    rw [hw] at hcall hanswer
    rw [hresult, ← Except.ok.inj hcall] at hanswer
    obtain rfl := Except.ok.inj hanswer
    exact hflags
  · rw [hw] at hparse
    exact absurd hparse (by simp)
  · rw [hw] at hparse hanswer
    rw [hresult, ← Except.ok.inj hparse] at hanswer
    have hargs := congrArg ParseCall.args (Except.ok.inj hanswer)
    intro flag hflag
    have hmem : flag ∈ (parserCall r.options (w.fs.realpath r.file_path)
        (effectiveFlags r.flags r.options)).args := by
      rw [show _ = r.flags from hargs]
      exact hflag
    simpa using (List.mem_filter.mp hmem).2

/-- **Caching is transparent if and only if no flag starts with `__options=`.** In every run, with
any parser, each request is answered with what libclang returns for it, and libclang asked with its
own flags and options, exactly if no flag of the run can be taken for the one that carries the
options. -/
theorem transparent_iff (fs : FileSystem) (sha1 : Py.Sha1)
    (hsha1 : Function.Injective sha1.hexdigest) (old_mtime new_mtime : Path → Option ℤ)
    (capacity : ℕ) (capacity_pos : 0 < capacity) (rs : List SessionRequest) :
    (∀ (TU : Type) (index_parse : ParseCall → Acc TU),
      Transparent ⟨fs, sha1, old_mtime, new_mtime, index_parse⟩ capacity capacity_pos rs) ↔
    ∀ r ∈ rs, ∀ flag ∈ r.flags, Py.startswith flag "__options=" = false := by
  constructor
  · intro h r hr
    obtain ⟨before, after, rfl⟩ := List.append_of_mem hr
    exact clean_of_answer rfl (parses_after before fun _ hitem => absurd hitem List.not_mem_nil)
      (h ParseCall .ok before r after rfl)
  · rintro hclean TU index_parse before r after rfl
    have hamong : ∀ r' ∈ before ++ r :: after, r'.Among Set.univ := fun r' hr' =>
      ⟨hclean r' hr', Set.mem_univ _⟩
    refine Faithful.answer (faithful_after hsha1.injOn (fun r' hr' => hamong r' ?_)
      fun _ hitem => absurd hitem List.not_mem_nil) (hamong r ?_)
    · exact List.mem_append_left _ hr'
    · exact List.mem_append_right _ (List.mem_cons_self ..)

/-! ### A digest without collisions, and a flag that is dropped -/

/-- A character as so many ones and a zero. -/
def unary (c : Char) : List Char := List.replicate c.toNat '1' ++ ['0']

/-- Numbers in unary, each ended by a zero, are a prefix code. -/
theorem prefixCode_unary : PrefixCode unary :=
  .of_decode (fun l => some (Char.ofNat (l.takeWhile (· == '1')).length)) fun c u => by
    have hones : ∀ a ∈ List.replicate c.toNat '1', (a == '1') = true := fun a ha =>
      beq_iff_eq.mpr (List.eq_of_mem_replicate ha)
    rw [unary, List.append_assoc, List.takeWhile_append_of_pos hones, List.singleton_append,
      List.takeWhile_cons_of_neg (by decide), List.append_nil, List.length_replicate,
      Char.ofNat_toNat]

/-- A number in unary is written with two characters. -/
theorem mem_unary {c d : Char} (h : d ∈ unary c) : d = '0' ∨ d = '1' := by
  rcases List.mem_append.mp h with h | h
  · exact Or.inr (List.eq_of_mem_replicate h)
  · exact Or.inl (List.mem_singleton.mp h)

/-- The digits of a string. -/
def unaryDigits (s : String) : List Char := s.toList.flatMap unary ++ ['2']

/-- A string as it is spelled here is written with three characters, all of them hexadecimal digits.
-/
theorem mem_unaryDigits {s : String} {d : Char} (h : d ∈ unaryDigits s) :
    d = '0' ∨ d = '1' ∨ d = '2' := by
  rcases List.mem_append.mp h with h | h
  · obtain ⟨c, -, hd⟩ := List.mem_flatMap.mp h
    exact (mem_unary hd).imp_right Or.inl
  · exact Or.inr (Or.inr (List.mem_singleton.mp h))

/-- Different strings are spelled differently in unary. -/
theorem unaryDigits_injective : Function.Injective unaryDigits := by
  intro s s' h
  have hstop : ∀ c, ∃ x w, unary c = x :: w ∧ x ≠ '2' := fun c => by
    cases hcode : unary c with
    | nil => exact absurd hcode (by simp [unary])
    | cons x w =>
      have hx := mem_unary (c := c) (hcode ▸ List.mem_cons_self (a := x))
      exact ⟨x, w, rfl, by rcases hx with rfl | rfl <;> decide⟩
  have happend : unaryDigits s ++ [] = unaryDigits s' ++ [] := by rw [h]
  exact String.toList_inj.mp (prefixCode_unary.flatMap hstop happend).1

/-- The digest of `()`, and for every other string one of its own. -/
def collisionFree : Py.Sha1 where
  hexdigest s :=
    if s = "()" then "f9065fa7389750e16fe00d7ba36748f61d3e0df6" else String.ofList (unaryDigits s)
  isHex := by
    intro s d hd
    split_ifs at hd
    · have hall : "f9065fa7389750e16fe00d7ba36748f61d3e0df6".toList.all
          ("0123456789abcdef".toList.elem ·) = true := by decide
      exact List.elem_iff.mp (List.all_eq_true.mp hall d hd)
    · rw [String.toList_ofList] at hd
      rcases mem_unaryDigits hd with rfl | rfl | rfl <;> decide

/-- So the spelling, taken for a digest, has no collisions. -/
theorem collisionFree_injective : Function.Injective collisionFree.hexdigest := by
  have hother : ∀ s, "f9065fa7389750e16fe00d7ba36748f61d3e0df6" ≠ String.ofList (unaryDigits s) := by
    intro s h
    have hmem : 'f' ∈ (String.ofList (unaryDigits s)).toList := h ▸ by decide
    rw [String.toList_ofList] at hmem
    rcases mem_unaryDigits hmem with h | h | h <;> exact absurd h (by decide)
  intro s s' h
  change (if s = "()" then _ else _) = if s' = "()" then _ else _ at h
  split_ifs at h with hs hs' hs'
  · rw [hs, hs']
  · exact absurd h (hother s')
  · exact absurd h.symm (hother s)
  · exact unaryDigits_injective (String.ofList_injective h)

/-- A request for `main.cpp` with one flag. -/
def flagRequest (flags : List String) : SessionRequest :=
  ⟨["main.cpp"], none, flags, 0, fun _ hc => List.mem_singleton.mp hc ▸ by decide⟩

/-- One file with a flag and without, with the flag again, with an option, and without again. -/
def repeatedRequests : List SessionRequest :=
  [flagRequest ["-DN=1"], flagRequest [], flagRequest ["-DN=1"], { flagRequest [] with options := 1 },
    flagRequest []]

/-- Where there is room for two units, the third request is a hit, and the last one finds its unit
evicted; each is answered as if it were the first. -/
theorem transparent_iff_repeated : Transparent
    ⟨oneFile, collisionFree, fun _ => some 1, fun _ => some 1, (.ok : ParseCall → Acc ParseCall)⟩
    2 Nat.two_pos repeatedRequests :=
  (transparent_iff oneFile collisionFree collisionFree_injective (fun _ => some 1)
    (fun _ => some 1) 2 Nat.two_pos repeatedRequests).mpr (by decide) ParseCall .ok

/-- **A caller's flag is dropped:** the session takes every flag that begins with `__options=` for
its own mark, and libclang is asked to parse without it. -/
theorem flag_dropped : ¬∀ (TU : Type) (index_parse : ParseCall → Acc TU), Transparent
    ⟨oneFile, collisionFree, fun _ => some 1, fun _ => some 1, index_parse⟩ 1 Nat.one_pos
    [flagRequest ["__options=5"]] := by
  intro h
  have hcall := h ParseCall .ok [] (flagRequest ["__options=5"]) [] rfl
  have hargs := congrArg ParseCall.args (Except.ok.inj hcall)
  exact absurd hargs (by decide)

end Cache
end CppMcp
