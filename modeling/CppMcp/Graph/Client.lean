/-
# The client of a graph database

The drivers of `src/cpp_mcp/graphdb/` talk to a database through a client library,
call by call.  A `Client` has what the database stores and says which calls
fail: `fault k` is the exception that call number `k` raises, if any.  A call that fails
leaves the store as it is.  A driver method is a program `Action`, whose state outlives
an exception.

`Acts x f` says what a program does when no call fails; it goes through the program by
`Acts.bind`.
-/

import CppMcp.Export.Record
import CppMcp.Export.Cursor
import CppMcp.Lib.PropertyGraph

namespace CppMcp
namespace Graph

open Export (Exc NodeRecord EdgeRecord Props PropVal)

/-- A connection: `connected` is false while the driver has no client. -/
structure Client (σ : Type) where
  store : σ
  connected : Bool
  calls : ℕ
  fault : ℕ → Option Exc

/-- A program that may raise. -/
abbrev Action (σ α : Type) := EStateM Exc σ α

/-- The structural protocol `GraphDriver`, for drivers over the state `σ`. -/
structure GraphDriver (σ : Type) where
  upsert_nodes : List NodeRecord → Action σ ℕ
  upsert_edges : List EdgeRecord → Action σ ℕ

/-- The nodes of a file are written, and then its edges. -/
def GraphDriver.pass {σ : Type} (driver : GraphDriver σ) (nodes : List NodeRecord)
    (edges : List EdgeRecord) : Action σ (ℕ × ℕ) := do
  let n ← driver.upsert_nodes nodes
  let m ← driver.upsert_edges edges
  return (n, m)

/-- One call: `f` gives its answer and the store it leaves. -/
def call {σ α : Type} (f : σ → α × σ) : Action (Client σ) α := fun c =>
  match c.fault c.calls with
  | some exc => .error exc { c with calls := c.calls + 1 }
  | none => .ok (f c.store).1 { c with store := (f c.store).2, calls := c.calls + 1 }

/-- `if not batch or self._client is None: return 0`. -/
def unlessIdle {σ α : Type} (batch : List α) (write : Action (Client σ) ℕ) :
    Action (Client σ) ℕ := fun c =>
  if batch = [] ∨ c.connected = false then .ok 0 c else write c

/-- The records are written in their order; the counter adds up what each one gives. -/
def tallyRecords {σ α : Type} (write : α → Action σ ℕ) : List α → Action σ ℕ
  | [] => pure 0
  | rec :: batch => do
    let inserted ← write rec
    let rest ← tallyRecords write batch
    return inserted + rest

/-- `dict(rec["props"])` with the key `usr` set. -/
def withUsr (props : Props) (usr : String) : Props :=
  if "usr" ∈ props.map Prod.fst then
    props.map fun item => if item.1 = "usr" then ("usr", .str usr) else item
  else props ++ [("usr", .str usr)]

/-- The properties that are stored. -/
abbrev Properties := OrderedDict String PropVal

/-- Properties are written over those that are stored. -/
def Properties.update (stored : Properties) (props : Props) : Properties :=
  props.foldl (fun stored item => stored.set item.1 item.2) stored

/-! ### What programs do when no call fails -/

section Acts

variable {σ α β : Type}

/-- A program in two parts returns exactly if the first returns and the second does from there. -/
theorem bind_eq_ok {x : Action σ α} {k : α → Action σ β} {s s'' : σ} {b : β} :
    (x >>= k) s = .ok b s'' ↔ ∃ a s', x s = .ok a s' ∧ k a s' = .ok b s'' := by
  change EStateM.bind x k s = _ ↔ _
  unfold EStateM.bind
  cases x s with
  | ok a s' =>
    refine ⟨fun h => ⟨a, s', rfl, h⟩, ?_⟩
    rintro ⟨_, _, h, h'⟩
    cases h
    exact h'
  | error exc s' =>
    refine ⟨fun h => absurd h (by simp), ?_⟩
    rintro ⟨_, _, h, -⟩
    exact absurd h (by simp)

/-- **The program acts on the store as `f`** whenever it returns. -/
def Acts (x : Action (Client σ) α) (f : σ → α × σ) : Prop :=
  ∀ c a c', x c = .ok a c' → (a, c'.store) = f c.store ∧ c'.connected = c.connected

/-- A program that only returns leaves the store as it is. -/
theorem Acts.pure (a : α) : Acts (pure a : Action (Client σ) α) fun s => (a, s) := by
  intro c a' c' h
  cases h
  exact ⟨rfl, rfl⟩

/-- One call acts as its function says. -/
theorem Acts.call (f : σ → α × σ) : Acts (call f) f := by
  intro c a c' h
  unfold Graph.call at h
  split at h <;> cases h
  exact ⟨rfl, rfl⟩

/-- Two parts of a program act on the store one after the other. -/
theorem Acts.bind {x : Action (Client σ) α} {k : α → Action (Client σ) β} {f : σ → α × σ}
    {g : α → σ → β × σ} (hx : Acts x f) (hk : ∀ a, Acts (k a) (g a)) :
    Acts (x >>= k) fun s => g (f s).1 (f s).2 := by
  intro c b c'' h
  obtain ⟨a, c', hxc, hkc⟩ := bind_eq_ok.mp h
  obtain ⟨hf, hconn⟩ := hx c a c' hxc
  obtain ⟨hg, hconn'⟩ := hk a c' b c'' hkc
  refine ⟨?_, hconn'.trans hconn⟩
  change _ = g (f c.store).1 (f c.store).2
  rw [hg, ← hf]

/-- What a program does may be written in another way. -/
theorem Acts.congr {x : Action (Client σ) α} {f g : σ → α × σ} (h : Acts x f)
    (hfg : ∀ s, f s = g s) : Acts x g := by
  intro c a c' hx
  rw [← hfg]
  exact h c a c' hx

/-- A loop over records acts as the records do in their turn, and adds up what they answer. -/
theorem Acts.tallyRecords {write : α → Action (Client σ) ℕ} {f : α → σ → ℕ × σ}
    (h : ∀ a, Acts (write a) (f a)) (batch : List α) :
    Acts (tallyRecords write batch) (PropertyGraph.tally f batch) := by
  induction batch with
  | nil => exact Acts.pure 0
  | cons a batch ih => exact (h a).bind fun n => ih.bind fun m => Acts.pure (n + m)

/-- A driver that is connected writes; with an empty batch there is nothing to write. -/
theorem Acts.unlessIdle {batch : List α} {write : Action (Client σ) ℕ} {f : σ → ℕ × σ}
    (h : Acts write f) (hnil : batch = [] → ∀ s, f s = (0, s)) {c c' : Client σ} {n : ℕ}
    (hc : c.connected = true) (hok : unlessIdle batch write c = .ok n c') :
    (n, c'.store) = f c.store ∧ c'.connected = true := by
  unfold Graph.unlessIdle at hok
  split_ifs at hok with hidle
  · cases hok
    rcases hidle with hnil' | hc'
    · exact ⟨(hnil hnil' _).symm, hc⟩
    · exact absurd hc (by rw [hc']; simp)
  · obtain ⟨hf, hconn⟩ := h c n c' hok
    exact ⟨hf, hconn.trans hc⟩

/-- **Batch after batch is one batch:** what writing each of them does to the store `g`, writing them
all does. -/
theorem tallyRecords_flatten {G : Type} {g : σ → G} {ready : σ → Prop} {f : α → G → ℕ × G}
    {write : List α → Action σ ℕ}
    (h : ∀ batch s n s', ready s → write batch s = .ok n s' →
      (n, g s') = PropertyGraph.tally f batch (g s) ∧ ready s')
    {batches : List (List α)} {s s' : σ} {n : ℕ} (hs : ready s)
    (hrun : tallyRecords write batches s = .ok n s') :
    (n, g s') = PropertyGraph.tally f batches.flatten (g s) ∧ ready s' := by
  induction batches generalizing s n with
  | nil =>
    cases hrun
    exact ⟨rfl, hs⟩
  | cons batch batches ih =>
    obtain ⟨m, s₁, hbatch, hrest⟩ := bind_eq_ok.mp hrun
    obtain ⟨m', s₂, hbatches, hpure⟩ := bind_eq_ok.mp hrest
    cases hpure
    obtain ⟨hm, hs₁⟩ := h batch s m s₁ hs hbatch
    obtain ⟨hm', hs'⟩ := ih hs₁ hbatches
    refine ⟨?_, hs'⟩
    rw [List.flatten_cons, PropertyGraph.tally_append, ← hm, ← hm']

end Acts

end Graph
end CppMcp
