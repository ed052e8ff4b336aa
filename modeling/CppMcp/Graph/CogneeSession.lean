/-
# A session of the Cognee driver

A record goes into the index and its document to the transport, whether the key was there or not,
and before it is known whether the transport takes it (`upsert_eq`).  So the index has the keys of
all records that have been tried, and the transport every document again.

The docstrings promise that no document is uploaded twice in a session; it is so exactly where no
key is offered twice (`uploads_once_iff`).  And the index has the keys that have been acknowledged
exactly where no call fails for a key that has not been (`index_exact_iff`).
-/

import CppMcp.Graph.CogneeDriver
import CppMcp.Graph.Failure
import Mathlib.Data.Finset.Card

namespace CppMcp
namespace Graph
namespace Cognee

open Export (Exc NodeRecord EdgeRecord)

/-- A session has begun. -/
structure Fresh (s : Session) : Prop where
  connected : s.connected = true
  node_index : s.node_index = .empty
  edge_index : s.edge_index = .empty
  requests : s.requests = []

/-- All that the session has sent went to this dataset, under these node sets, and what it is going
to send will. -/
structure Session.Aimed (s : Session) (dataset : String) (node_set : List String) : Prop where
  dataset_eq : s.dataset = dataset
  node_set_eq : s.node_set = node_set
  requests : ∀ request ∈ s.requests, request.dataset = dataset ∧ request.node_set = node_set

/-- **A session begins with `connect`,** and it is aimed at the dataset that the URI names. -/
theorem fresh_of_connect {urlparse_raises : String → Option Exc} {uri : String}
    {node_set : List String} {s s' : Session}
    (h : connect urlparse_raises uri node_set s = .ok () s') :
    Fresh s' ∧ s'.Aimed (datasetOf uri) node_set ∧ datasetOf uri ≠ "" ∧ s'.fault = s.fault ∧
      s'.calls = s.calls := by
  unfold connect at h
  split at h
  next => cases h
  next =>
    split_ifs at h with hscheme hdataset
    cases h
    exact ⟨⟨rfl, rfl, rfl, rfl⟩, ⟨rfl, rfl, fun _ hmem => absurd hmem List.not_mem_nil⟩, hdataset,
      rfl, rfl⟩

/-! ### One record -/

/-- A record of either kind. -/
inductive Record where
  | node (rec : NodeRecord)
  | edge (rec : EdgeRecord)

namespace Record

/-- The key of a record. -/
def subject : Record → Subject
  | node rec => .node rec.usr
  | edge rec => .edge rec.source_usr rec.edge_type.text rec.target_usr

/-- The document of a record. -/
def payload : Record → Payload
  | node rec => nodePayload rec
  | edge rec => edgePayload rec

variable (sha256 : String → String)

/-- The turn of the loop for a record. -/
def upsert : Record → Action Session ℕ
  | node rec => upsertNode sha256 rec
  | edge rec => upsertEdge sha256 rec

/-- The key under which its document is sent. -/
def key : Record → String
  | node rec => nodeKey sha256 rec.usr
  | edge rec => edgeKey sha256 rec.source_usr rec.edge_type.text rec.target_usr

end Record

/-- The keys in both indices. -/
def Session.index (s : Session) : List Subject :=
  s.node_index.keys.map Subject.node ++
    s.edge_index.keys.map fun triple => .edge triple.1 triple.2.1 triple.2.2

/-- The record is in the index. -/
def Session.store (s : Session) : Record → Session
  | .node rec => { s with node_index := s.node_index.set rec.usr rec }
  | .edge rec => { s with edge_index := s.edge_index.set (tripleOf rec) rec }

/-- A document has been handed to the transport. -/
def Session.asked (s : Session) (subject : Subject) (key : String) (payload : Payload) : Session :=
  { s with
    requests := s.requests ++
      [⟨subject, key, payload, s.dataset, s.node_set, (s.fault s.calls).isNone⟩]
    calls := s.calls + 1 }

/-- The record has been tried: it is in the index, and its document has been handed to the
transport. -/
def Session.tried (sha256 : String → String) (s : Session) (r : Record) : Session :=
  (s.store r).asked r.subject (r.key sha256) r.payload

/-- The key of a node is in the index exactly if its USR is in the index of nodes. -/
theorem mem_index_node {s : Session} {rec : NodeRecord} :
    (Record.node rec).subject ∈ s.index ↔ rec.usr ∈ s.node_index.keys := by
  simp [Session.index, Record.subject]

/-- The key of an edge is in the index exactly if its triple is in the index of edges. -/
theorem mem_index_edge {s : Session} {rec : EdgeRecord} :
    (Record.edge rec).subject ∈ s.index ↔ tripleOf rec ∈ s.edge_index.keys := by
  simp [Session.index, Record.subject, tripleOf]

/-- A call that the transport takes returns, and the session has made it. -/
theorem ingest_of_none {s : Session} (h : s.fault s.calls = none) (subject : Subject)
    (key : String) (payload : Payload) :
    ingest subject key payload s = .ok () (s.asked subject key payload) := by
  unfold ingest Session.asked
  rw [h]
  rfl

/-- A call that the transport refuses raises, and the session has made it all the same. -/
theorem ingest_of_some {s : Session} {exc : Exc} (h : s.fault s.calls = some exc)
    (subject : Subject) (key : String) (payload : Payload) :
    ingest subject key payload s = .error exc (s.asked subject key payload) := by
  unfold ingest Session.asked
  rw [h]
  rfl

/-- **What the driver does with a record:** it is tried, whether its key is new or not, and counted
if it is new. -/
theorem upsert_of_none (sha256 : String → String) (r : Record) {s : Session}
    (h : s.fault s.calls = none) :
    r.upsert sha256 s = .ok (if r.subject ∈ s.index then 0 else 1) (s.tried sha256 r) := by
  cases r with
  | node rec =>
    refine (bind_of_ok (ingest_of_none (s := s.store (.node rec)) h _ _ _)).trans ?_
    by_cases hmem : rec.usr ∈ s.node_index.keys <;> simp only [mem_index_node, hmem] <;> rfl
  | edge rec =>
    refine (bind_of_ok (ingest_of_none (s := s.store (.edge rec)) h _ _ _)).trans ?_
    by_cases hmem : tripleOf rec ∈ s.edge_index.keys <;> simp only [mem_index_edge, hmem] <;> rfl

/-- Where the transport raises, the record is in the index all the same. -/
theorem upsert_of_some (sha256 : String → String) (r : Record) {s : Session} {exc : Exc}
    (h : s.fault s.calls = some exc) : r.upsert sha256 s = .error exc (s.tried sha256 r) := by
  cases r with
  | node rec => exact (bind_of_error (ingest_of_some (s := s.store (.node rec)) h _ _ _)).trans rfl
  | edge rec => exact (bind_of_error (ingest_of_some (s := s.store (.edge rec)) h _ _ _)).trans rfl

/-! ### What has been tried -/

/-- The calls of the session: whose document, and whether the transport has taken it. -/
def Session.log (s : Session) : List (Subject × Bool) :=
  s.requests.map fun request => (request.subject, request.returned)

/-- The calls that are made for records with these keys, from call number `n` on: they end with the
first that raises. -/
def attempts (fault : ℕ → Option Exc) : ℕ → List Subject → List (Subject × Bool)
  | _, [] => []
  | n, k :: ks =>
    if (fault n).isNone then (k, true) :: attempts fault (n + 1) ks else [(k, false)]

/-- From `s` to `s'` the driver has made these calls, and has the keys in its index. -/
structure Session.Extends (s s' : Session) (sent : List (Subject × Bool)) : Prop where
  fault : s'.fault = s.fault
  connected : s'.connected = s.connected
  log : s'.log = s.log ++ sent
  calls : s'.calls = s.calls + sent.length
  index : s'.index.toFinset = s.index.toFinset ∪ (sent.map Prod.fst).toFinset
  aimed : ∀ dataset node_set, s.Aimed dataset node_set → s'.Aimed dataset node_set

namespace Session.Extends

variable {s s' s'' : Session} {sent sent' : List (Subject × Bool)}

/-- A session that does nothing has made no calls. -/
theorem refl (s : Session) : s.Extends s [] :=
  ⟨rfl, rfl, (List.append_nil _).symm, rfl, (Finset.union_empty _).symm, fun _ _ => id⟩

/-- What a session does in two stretches it does in one. -/
theorem trans (h : s.Extends s' sent) (h' : s'.Extends s'' sent') :
    s.Extends s'' (sent ++ sent') where
  fault := h'.fault.trans h.fault
  connected := h'.connected.trans h.connected
  log := by rw [h'.log, h.log, List.append_assoc]
  calls := by rw [h'.calls, h.calls, List.length_append, Nat.add_assoc]
  index := by rw [h'.index, h.index, List.map_append, List.toFinset_append, Finset.union_assoc]
  aimed dataset node_set haimed := h'.aimed dataset node_set (h.aimed dataset node_set haimed)

end Session.Extends

/-- After an entry is set, the keys are those that were there and the key of the entry. -/
theorem mem_keys_set {κ ν : Type} [DecidableEq κ] {d : OrderedDict κ ν} {key k : κ} {value : ν} :
    k ∈ (d.set key value).keys ↔ k ∈ d.keys ∨ k = key := by
  rw [OrderedDict.set, OrderedDict.keys_modify, OrderedDict.keys_add]
  split_ifs with h
  · exact ⟨Or.inl, fun hk => hk.elim id fun hk => hk ▸ h⟩
  · rw [List.mem_append, List.mem_singleton]

/-- After a record has been tried, the index has its key and those that it had. -/
theorem mem_index_tried {sha256 : String → String} {s : Session} {r : Record} {k : Subject} :
    k ∈ (s.tried sha256 r).index ↔ k ∈ s.index ∨ k = r.subject := by
  cases r with
  | node rec =>
    change k ∈ (s.node_index.set rec.usr rec).keys.map Subject.node ++ _ ↔
      k ∈ s.node_index.keys.map Subject.node ++ _ ∨ k = .node rec.usr
    simp only [List.mem_append, List.mem_map, mem_keys_set, or_and_right, exists_or,
      exists_eq_left, eq_comm (a := k)]
    exact or_right_comm
  | edge rec =>
    change k ∈ _ ++ (s.edge_index.set (tripleOf rec) rec).keys.map _ ↔
      k ∈ _ ++ s.edge_index.keys.map _ ∨
        k = .edge (tripleOf rec).1 (tripleOf rec).2.1 (tripleOf rec).2.2
    simp only [List.mem_append, List.mem_map, mem_keys_set, or_and_right, exists_or,
      exists_eq_left, eq_comm (a := k)]
    exact or_assoc.symm

/-- No key is twice in the index, since nodes and edges have keys of different forms. -/
theorem nodup_index (s : Session) : s.index.Nodup := by
  refine List.nodup_append.mpr ⟨s.node_index.nodup.map fun a b h => Subject.node.inj h,
    s.edge_index.nodup.map fun a b h => ?_, fun a ha b hb => ?_⟩
  · obtain ⟨h₁, h₂, h₃⟩ := Subject.edge.inj h
    exact Prod.ext h₁ (Prod.ext h₂ h₃)
  · obtain ⟨usr, -, rfl⟩ := List.mem_map.mp ha
    obtain ⟨triple, -, rfl⟩ := List.mem_map.mp hb
    exact Subject.noConfusion

/-- The index is as long as it has keys. -/
theorem length_index (s : Session) : s.index.length = s.index.toFinset.card :=
  (List.toFinset_card_of_nodup (nodup_index s)).symm

/-- A record that is tried is sent to the dataset of the session, so the session stays aimed at it.
-/
theorem Session.Aimed.tried {s : Session} {dataset : String} {node_set : List String}
    (h : s.Aimed dataset node_set) (sha256 : String → String) (r : Record) :
    (s.tried sha256 r).Aimed dataset node_set := by
  have hstore : (s.store r).Aimed dataset node_set := by
    cases r <;> exact ⟨h.dataset_eq, h.node_set_eq, h.requests⟩
  refine ⟨hstore.dataset_eq, hstore.node_set_eq, fun request hrequest => ?_⟩
  rcases List.mem_append.mp hrequest with hrequest | hrequest
  · exact hstore.requests request hrequest
  · cases List.mem_singleton.mp hrequest
    exact ⟨hstore.dataset_eq, hstore.node_set_eq⟩

/-- Trying a record makes one call, and puts the key into the index whether the call raises or not.
-/
theorem extends_tried (sha256 : String → String) (s : Session) (r : Record) :
    s.Extends (s.tried sha256 r) [(r.subject, (s.fault s.calls).isNone)] where
  fault := by cases r <;> rfl
  connected := by cases r <;> rfl
  log := by cases r <;> exact List.map_append
  calls := by cases r <;> rfl
  index := by
    ext k
    simp [mem_index_tried, or_comm]
  aimed _ _ haimed := haimed.tried sha256 r

/-- A new key makes the index longer by one, and an old one leaves its length. -/
theorem length_index_tried (sha256 : String → String) (s : Session) (r : Record) :
    (s.tried sha256 r).index.length =
      s.index.length + if r.subject ∈ s.index then 0 else 1 := by
  have hinsert : (s.tried sha256 r).index.toFinset = insert r.subject s.index.toFinset := by
    ext k
    simp [mem_index_tried, or_comm]
  rw [length_index, length_index, hinsert, Finset.card_insert_eq_ite]
  simp only [List.mem_toFinset]
  split_ifs <;> rfl

/-- **What the driver does with a list of records:** they are tried up to the first that the
transport refuses; if there is none, what is returned is the number of keys that are new. -/
theorem tallyRecords_cases (sha256 : String → String) (rs : List Record) (s : Session) :
    ∃ s', s.Extends s' (attempts s.fault s.calls (rs.map Record.subject)) ∧
      ((∃ n, tallyRecords (Record.upsert sha256) rs s = .ok n s' ∧
          s'.index.length = s.index.length + n) ∨
        ∃ exc k, tallyRecords (Record.upsert sha256) rs s = .error exc s' ∧
          (k, false) ∈ attempts s.fault s.calls (rs.map Record.subject)) := by
  induction rs generalizing s with
  | nil => exact ⟨s, .refl s, Or.inl ⟨0, rfl, rfl⟩⟩
  | cons r rs ih =>
    have htried := extends_tried sha256 s r
    rw [List.map_cons, attempts]
    cases hfault : s.fault s.calls with
    | some exc =>
      rw [hfault] at htried
      exact ⟨_, htried, Or.inr ⟨exc, r.subject, bind_of_error (upsert_of_some sha256 r hfault),
        List.mem_singleton_self _⟩⟩
    | none =>
      rw [hfault] at htried
      obtain ⟨s', hext, hrest⟩ := ih (s.tried sha256 r)
      have hext' := htried.trans hext
      rw [htried.fault, htried.calls] at hext'
      refine ⟨s', hext', ?_⟩
      rw [htried.fault, htried.calls] at hrest
      rcases hrest with ⟨n, hn, hcount⟩ | ⟨exc, k, hexc, hk⟩
      · refine Or.inl ⟨_, (bind_of_ok (upsert_of_none sha256 r hfault)).trans (bind_of_ok hn), ?_⟩
        rw [hcount, length_index_tried, Nat.add_assoc]
      · exact Or.inr ⟨exc, k,
          (bind_of_ok (upsert_of_none sha256 r hfault)).trans (bind_of_error hexc),
          List.mem_cons_of_mem _ hk⟩

/-! ### Batches -/

/-- A call of one of the methods. -/
inductive Batch where
  | nodes (batch : List NodeRecord)
  | edges (batch : List EdgeRecord)

namespace Batch

/-- The records. -/
def records : Batch → List Record
  | nodes batch => batch.map .node
  | edges batch => batch.map .edge

/-- The keys of the records. -/
def subjects (b : Batch) : List Subject := b.records.map Record.subject

/-- The call. -/
def upsert (sha256 : String → String) : Batch → Action Session ℕ
  | nodes batch => (driver sha256).upsert_nodes batch
  | edges batch => (driver sha256).upsert_edges batch

end Batch

/-- A loop over translated records is the loop that translates each record in its turn. -/
theorem tallyRecords_map {σ α β : Type} (write : β → Action σ ℕ) (f : α → β) (as : List α) :
    tallyRecords write (as.map f) = tallyRecords (fun a => write (f a)) as := by
  induction as with
  | nil => rfl
  | cons a as ih => rw [List.map_cons, tallyRecords, tallyRecords, ih]

/-- With a client, a method of the driver is the loop over its records, also for an empty batch. -/
theorem upsertAll_of_connected {α : Type} (sha256 : String → String) {s : Session}
    (hc : s.connected = true) (record : α → Record) (batch : List α) :
    upsertAll (fun a => (record a).upsert sha256) batch s =
      tallyRecords (Record.upsert sha256) (batch.map record) s := by
  rw [upsertAll, tallyRecords_map]
  split_ifs with h
  · rw [h.resolve_right (by rw [hc]; exact Bool.noConfusion)]
    rfl
  · rfl

/-- **What one call of a method does:** it makes the calls up to the first that is refused, and it
returns the number of new keys, or raises because a call was refused. -/
theorem batch_cases (sha256 : String → String) (b : Batch) {s : Session} (hc : s.connected = true) :
    ∃ s', s.Extends s' (attempts s.fault s.calls b.subjects) ∧
      ((∃ n, b.upsert sha256 s = .ok n s' ∧ s'.index.length = s.index.length + n) ∨
        ∃ exc k, b.upsert sha256 s = .error exc s' ∧
          (k, false) ∈ attempts s.fault s.calls b.subjects) := by
  have hupsert : b.upsert sha256 s = tallyRecords (Record.upsert sha256) b.records s := by
    cases b with
    | nodes batch => exact upsertAll_of_connected sha256 hc .node batch
    | edges batch => exact upsertAll_of_connected sha256 hc .edge batch
  rw [hupsert]
  exact tallyRecords_cases sha256 b.records s

/-! ### Documents that are sent twice -/

/-- **Each document is uploaded once,** and what has been counted is the number of keys. -/
structure UploadsOnce (batches : List Batch) (n : ℕ) (s : Session) : Prop where
  once : ∀ k, (s.requests.filter fun request => request.subject = k).length ≤ 1
  counted : n = (batches.flatMap Batch.subjects).toFinset.card

/-- A transport that never raises is called for every record. -/
theorem attempts_of_none {fault : ℕ → Option Exc} (h : ∀ k, fault k = none) (n : ℕ)
    (ks : List Subject) : attempts fault n ks = ks.map fun k => (k, true) := by
  induction ks generalizing n with
  | nil => rfl
  | cons k ks ih =>
    rw [attempts, h n, ih]
    rfl

/-- Batches that the transport takes: every record is sent, and the numbers returned add up to the
growth of the index. -/
theorem tallyRecords_batches (sha256 : String → String) (batches : List Batch) {s : Session}
    (hc : s.connected = true) (hok : ∀ k, s.fault k = none) :
    ∃ n s', tallyRecords (Batch.upsert sha256) batches s = .ok n s' ∧
      s.Extends s' ((batches.flatMap Batch.subjects).map fun k => (k, true)) ∧
      s'.index.length = s.index.length + n := by
  induction batches generalizing s with
  | nil => exact ⟨0, s, rfl, .refl s, rfl⟩
  | cons b batches ih =>
    obtain ⟨s', hext, ⟨n, hn, hcount⟩ | ⟨exc, k, -, hk⟩⟩ := batch_cases sha256 b hc
    · obtain ⟨m, s'', hm, hext', hcount'⟩ := ih (hext.connected.trans hc) (hext.fault ▸ hok)
      rw [attempts_of_none hok] at hext
      refine ⟨n + m, s'', (bind_of_ok hn).trans (bind_of_ok hm), ?_, ?_⟩
      · rw [List.flatMap_cons, List.map_append]
        exact hext.trans hext'
      · rw [hcount', hcount, Nat.add_assoc]
    · rw [attempts_of_none hok] at hk
      obtain ⟨k', -, heq⟩ := List.mem_map.mp hk
      cases heq

/-- At the beginning of a session there is no key in the index. -/
theorem Fresh.index {s : Session} (h : Fresh s) : s.index = [] := by
  rw [Session.index, h.node_index, h.edge_index]
  rfl

/-- At the beginning of a session no call has been made. -/
theorem Fresh.log {s : Session} (h : Fresh s) : s.log = [] := by
  rw [Session.log, h.requests]
  rfl

/-- **When each document is uploaded once:** for every sequence of batches, with a transport that
never raises, exactly if no key is offered twice.  What is counted is always the number of keys. -/
theorem uploads_once_iff (sha256 : String → String) {s : Session} (hs : Fresh s)
    (hok : ∀ k, s.fault k = none) (batches : List Batch) :
    ∃ n s', tallyRecords (Batch.upsert sha256) batches s = .ok n s' ∧
      n = (batches.flatMap Batch.subjects).toFinset.card ∧
      (UploadsOnce batches n s' ↔ (batches.flatMap Batch.subjects).Nodup) := by
  obtain ⟨n, s', hrun, hext, hcount⟩ := tallyRecords_batches sha256 batches hs.connected hok
  have hkeys : ((batches.flatMap Batch.subjects).map fun k => (k, true)).map Prod.fst =
      batches.flatMap Batch.subjects := by
    rw [List.map_map]
    exact List.map_id _
  have hcounted : n = (batches.flatMap Batch.subjects).toFinset.card := by
    rw [length_index, hext.index, hs.index, hkeys] at hcount
    simpa using hcount.symm
  refine ⟨n, s', hrun, hcounted, ?_⟩
  have hsubjects : s'.requests.map Request.subject = batches.flatMap Batch.subjects := by
    have hlog := congrArg (List.map Prod.fst) hext.log
    rw [hs.log, List.nil_append, hkeys, Session.log, List.map_map] at hlog
    exact hlog
  have hcopies : ∀ k, (s'.requests.filter fun request => request.subject = k).length =
      (batches.flatMap Batch.subjects).count k := by
    intro k
    rw [← hsubjects, List.count, List.countP_map, List.countP_eq_length_filter]
    exact congrArg List.length (List.filter_congr fun request _ => rfl)
  rw [List.nodup_iff_count_le_one]
  exact ⟨fun h k => hcopies k ▸ h.once k, fun h => ⟨fun k => hcopies k ▸ h k, hcounted⟩⟩

/-- Two files that use the same type: its record is in the batch of each. -/
def typeTwice : List Batch :=
  [.nodes [⟨.type, "type:46f8ab7c0cff9df7cd124852e26022a6bf89e315", [("spelling", .str "int")]⟩],
    .nodes [⟨.type, "type:46f8ab7c0cff9df7cd124852e26022a6bf89e315", [("spelling", .str "int")]⟩]]

/-- A session has begun, and the transport takes what it gets. -/
def newSession : Session := { dataset := "cpp-knowledge", connected := true, fault := fun _ => none }

/-- `uploads_once_iff` at two files that use the same type, in a new session. -/
theorem uploads_once_iff_typeTwice :
    ∃ n s', tallyRecords (Batch.upsert fun text => text) typeTwice newSession = .ok n s' ∧
      n = (typeTwice.flatMap Batch.subjects).toFinset.card ∧
      (UploadsOnce typeTwice n s' ↔ (typeTwice.flatMap Batch.subjects).Nodup) :=
  uploads_once_iff (fun text => text) ⟨rfl, rfl, rfl, rfl⟩ (fun _ => rfl) typeTwice

/-- **The type is uploaded twice,** once for each file, though the driver has counted it once. -/
theorem typeTwice_not_once :
    ∃ s', tallyRecords (Batch.upsert fun text => text) typeTwice newSession = .ok 1 s' ∧
      s'.requests.map Request.subject =
        [.node "type:46f8ab7c0cff9df7cd124852e26022a6bf89e315",
          .node "type:46f8ab7c0cff9df7cd124852e26022a6bf89e315"] ∧
      ¬UploadsOnce typeTwice 1 s' := by
  refine ⟨_, rfl, rfl, fun h => ?_⟩
  exact absurd (h.once (.node "type:46f8ab7c0cff9df7cd124852e26022a6bf89e315")) (by decide)

/-! ### A transport that raises -/

/-- The calls of a sequence of batches, from call number `n` on: what follows the first call of a
batch that raises is left out. -/
def sentBy (fault : ℕ → Option Exc) : ℕ → List Batch → List (Subject × Bool)
  | _, [] => []
  | n, b :: batches =>
    attempts fault n b.subjects ++
      sentBy fault (n + (attempts fault n b.subjects).length) batches

/-- One batch after the other, whether they return or raise. -/
def runBatches (sha256 : String → String) (batches : List Batch) (s : Session) : Session :=
  batches.foldl (fun s b => after (b.upsert sha256) s) s

/-- The keys that the transport has acknowledged. -/
def Session.acknowledged (s : Session) : Finset Subject :=
  ((s.log.filter fun call => call.2).map Prod.fst).toFinset

/-- The index has the acknowledged keys. -/
structure IndexExact (s : Session) : Prop where
  mem_iff : ∀ k, k ∈ s.index ↔ (k, true) ∈ s.log
  length : s.index.length = s.acknowledged.card

/-- **The index survives failures:** after each batch it has the acknowledged keys, and a batch that
returns has counted the keys that were acknowledged first during it. -/
structure Survives (sha256 : String → String) (batches : List Batch) (s : Session) : Prop where
  exact : ∀ done, done <+: batches → IndexExact (runBatches sha256 done s)
  counted : ∀ done b, done ++ [b] <+: batches → ∀ n s',
    b.upsert sha256 (runBatches sha256 done s) = .ok n s' →
      s'.acknowledged.card = (runBatches sha256 done s).acknowledged.card + n

/-- No call raises but for a key that has been acknowledged. -/
def FailsOnlyAgain (sent : List (Subject × Bool)) : Prop :=
  ∀ before k later, sent = before ++ (k, false) :: later → (k, true) ∈ before

/-- Whether a batch returns or raises, the session has made its calls up to the first that is
refused. -/
theorem extends_batch (sha256 : String → String) (b : Batch) {s : Session}
    (hc : s.connected = true) :
    s.Extends (after (b.upsert sha256) s) (attempts s.fault s.calls b.subjects) := by
  obtain ⟨s', hext, ⟨n, hn, -⟩ | ⟨exc, k, hexc, -⟩⟩ := batch_cases sha256 b hc
  · rwa [after_of_ok hn]
  · rwa [after_of_error hexc]

/-- So it has for a sequence of batches, each of them started whatever became of the one before. -/
theorem extends_runBatches (sha256 : String → String) (batches : List Batch) {s : Session}
    (hc : s.connected = true) :
    s.Extends (runBatches sha256 batches s) (sentBy s.fault s.calls batches) := by
  induction batches generalizing s with
  | nil => exact .refl s
  | cons b batches ih =>
    have hext := extends_batch sha256 b hc
    have hrest := ih (hext.connected.trans hc)
    rw [hext.fault, hext.calls] at hrest
    exact hext.trans hrest

/-- **A session sends to the dataset that its URI names,** and to none before it has one: from
`connect` on, for every sequence of batches and whatever calls of the transport raise. -/
theorem sends_to_dataset {urlparse_raises : String → Option Exc} {uri : String}
    {node_set : List String} {s s₀ : Session}
    (h : connect urlparse_raises uri node_set s = .ok () s₀) (sha256 : String → String)
    (batches : List Batch) :
    (runBatches sha256 batches s₀).log = sentBy s.fault s.calls batches ∧
      ∀ request ∈ (runBatches sha256 batches s₀).requests,
        request.dataset = datasetOf uri ∧ request.dataset ≠ "" ∧ request.node_set = node_set := by
  obtain ⟨hfresh, haimed, hname, hfault, hcalls⟩ := fresh_of_connect h
  have hext := extends_runBatches sha256 batches hfresh.connected
  refine ⟨?_, fun request hrequest => ?_⟩
  · rw [hext.log, hfresh.log, List.nil_append, hfault, hcalls]
  · obtain ⟨hdataset, hset⟩ := (hext.aimed _ _ haimed).requests request hrequest
    exact ⟨hdataset, hdataset ▸ hname, hset⟩

/-- **After `close` nothing is sent,** until the next `connect`. -/
theorem runBatches_close (sha256 : String → String) (batches : List Batch) (s : Session) :
    runBatches sha256 batches (after close s) = after close s := by
  induction batches with
  | nil => rfl
  | cons b batches ih =>
    have hb : after (b.upsert sha256) (after close s) = after close s := by
      cases b <;> exact after_of_ok (if_pos (Or.inr rfl))
    rw [runBatches, List.foldl_cons, hb]
    exact ih

/-- Of a fresh session the keys in the index are exactly those of the calls made since. -/
theorem mem_index_iff_of_extends {s s' : Session} (hs : Fresh s) {sent : List (Subject × Bool)}
    (h : s.Extends s' sent) (k : Subject) : k ∈ s'.index ↔ ∃ returned, (k, returned) ∈ s'.log := by
  rw [← List.mem_toFinset, h.index, h.log, hs.index, hs.log]
  simp

/-- Of a fresh session the index is exact if no key has only failed. -/
theorem indexExact_iff {s s' : Session} (hs : Fresh s) {sent : List (Subject × Bool)}
    (h : s.Extends s' sent) :
    IndexExact s' ↔ ∀ k, (k, false) ∈ s'.log → (k, true) ∈ s'.log := by
  have hmem := mem_index_iff_of_extends hs h
  constructor
  · exact fun hexact k hk => (hexact.mem_iff k).mp ((hmem k).mpr ⟨false, hk⟩)
  · intro hall
    have hiff : ∀ k, k ∈ s'.index ↔ (k, true) ∈ s'.log := by
      intro k
      rw [hmem]
      constructor
      · rintro ⟨_ | _, hk⟩
        · exact hall k hk
        · exact hk
      · exact fun hk => ⟨true, hk⟩
    refine ⟨hiff, ?_⟩
    rw [length_index]
    refine congrArg Finset.card (Finset.ext fun k => ?_)
    rw [List.mem_toFinset, hiff, Session.acknowledged]
    simp

/-- A call that raises is the last of its batch. -/
theorem attempts_failing_last {fault : ℕ → Option Exc} {n : ℕ} {ks : List Subject} {k : Subject}
    {before later : List (Subject × Bool)}
    (h : attempts fault n ks = before ++ (k, false) :: later) : later = [] := by
  induction ks generalizing n before with
  | nil => exact absurd h.symm (by simp [attempts])
  | cons k' ks ih =>
    rw [attempts] at h
    split_ifs at h
    · cases before with
      | nil => cases h
      | cons call before => exact ih (List.cons.inj h).2
    · cases before with
      | nil => exact (List.cons.inj h).2.symm
      | cons call before => exact absurd (List.cons.inj h).2.symm (by simp)

/-- The calls of two sequences of batches are those of the first and then those of the second,
numbered on. -/
theorem sentBy_append (fault : ℕ → Option Exc) (n : ℕ) (batches batches' : List Batch) :
    sentBy fault n (batches ++ batches') =
      sentBy fault n batches ++ sentBy fault (n + (sentBy fault n batches).length) batches' := by
  induction batches generalizing n with
  | nil => rfl
  | cons b batches ih =>
    rw [List.cons_append, sentBy, sentBy, ih, List.append_assoc, List.length_append, Nat.add_assoc]

/-- A call that raises is the last of a sequence of batches. -/
theorem exists_prefix_of_failing {fault : ℕ → Option Exc} {n : ℕ} {batches : List Batch}
    {k : Subject} {before later : List (Subject × Bool)}
    (h : sentBy fault n batches = before ++ (k, false) :: later) :
    ∃ done, done <+: batches ∧ sentBy fault n done = before ++ [(k, false)] := by
  induction batches generalizing n before with
  | nil => exact absurd h.symm (by simp [sentBy])
  | cons b batches ih =>
    rw [sentBy] at h
    have later_batch : ∀ x, before = attempts fault n b.subjects ++ x →
        sentBy fault (n + (attempts fault n b.subjects).length) batches = x ++ (k, false) :: later →
        ∃ done, done <+: b :: batches ∧ sentBy fault n done = before ++ [(k, false)] := by
      intro x hbefore hrest
      obtain ⟨done, hdone, hsent⟩ := ih hrest
      refine ⟨b :: done, List.cons_prefix_cons.mpr ⟨rfl, hdone⟩, ?_⟩
      rw [sentBy, hsent, hbefore, List.append_assoc]
    rcases List.append_eq_append_iff.mp h with ⟨x, hbefore, hrest⟩ | ⟨y, hfirst, hrest⟩
    · exact later_batch x hbefore hrest
    · cases y with
      | nil =>
        rw [List.append_nil] at hfirst
        exact later_batch [] (by rw [hfirst, List.append_nil]) hrest.symm
      | cons call y =>
        obtain ⟨rfl, -⟩ := List.cons.inj hrest
        obtain rfl := attempts_failing_last hfirst
        refine ⟨[b], List.cons_prefix_cons.mpr ⟨rfl, List.nil_prefix⟩, ?_⟩
        rw [sentBy, sentBy, List.append_nil, hfirst]

/-- **When the index survives failures:** for every sequence of batches and whatever calls raise,
exactly if no call raises but for a key that has been acknowledged earlier in the session. -/
theorem index_exact_iff (sha256 : String → String) {s : Session} (hs : Fresh s)
    (batches : List Batch) :
    Survives sha256 batches s ↔ FailsOnlyAgain (sentBy s.fault s.calls batches) := by
  have hlog : ∀ done, (runBatches sha256 done s).log = sentBy s.fault s.calls done := by
    intro done
    rw [(extends_runBatches sha256 done hs.connected).log, hs.log, List.nil_append]
  have hexact_iff := fun done => indexExact_iff hs (extends_runBatches sha256 done hs.connected)
  constructor
  · intro h before k later hsent
    obtain ⟨done, hdone, hlast⟩ := exists_prefix_of_failing hsent
    have hk := (hexact_iff done).mp (h.exact done hdone) k
    rw [hlog, hlast] at hk
    have hfailed := List.mem_append_right before (List.mem_singleton_self (k, false))
    rcases List.mem_append.mp (hk hfailed) with hk | hk
    · exact hk
    · cases List.mem_singleton.mp hk
  · intro h
    have hexact : ∀ done, done <+: batches → IndexExact (runBatches sha256 done s) := by
      rintro done ⟨rest, rfl⟩
      refine (hexact_iff done).mpr fun k hk => ?_
      rw [hlog] at hk ⊢
      obtain ⟨before, later, heq⟩ := List.append_of_mem hk
      rw [heq]
      obtain ⟨rest', hrest⟩ : ∃ rest', sentBy s.fault s.calls (done ++ rest) =
        sentBy s.fault s.calls done ++ rest' := ⟨_, sentBy_append _ _ done rest⟩
      refine List.mem_append_left _ (h before k (later ++ rest') ?_)
      rw [hrest, heq, List.append_assoc, List.cons_append]
    refine ⟨hexact, fun done b hdone n s' hreturns => ?_⟩
    have hbefore := hexact done ((List.prefix_append _ _).trans hdone)
    have hafter := hexact (done ++ [b]) hdone
    have hrun : runBatches sha256 (done ++ [b]) s = s' := by
      rw [runBatches, List.foldl_append]
      exact after_of_ok hreturns
    have hconn := (extends_runBatches sha256 done hs.connected).connected.trans hs.connected
    obtain ⟨s'', -, ⟨m, hm, hcount⟩ | ⟨exc, k, hexc, -⟩⟩ := batch_cases sha256 b hconn
    · cases hreturns.symm.trans hm
      rw [← hbefore.length, ← hcount, ← hrun, ← hafter.length]
    · cases hreturns.symm.trans hexc

/-- A node, offered again after its upload has failed. -/
def retried : List Batch :=
  [.nodes [⟨.file, "file:///proj/a.cpp", []⟩], .nodes [⟨.file, "file:///proj/a.cpp", []⟩]]

/-- The first call of the transport fails. -/
def failingSession : Session :=
  { newSession with
    fault := fun k => if k = 0 then some ⟨"DBUnreachableError", "cognee CLI timed out"⟩ else none }

/-- `index_exact_iff` at a node that is offered twice, where the first call of the transport fails.
-/
theorem index_exact_iff_retried :
    Survives (fun text => text) retried failingSession ↔
      FailsOnlyAgain (sentBy failingSession.fault failingSession.calls retried) :=
  index_exact_iff (fun text => text) ⟨rfl, rfl, rfl, rfl⟩ retried

/-- **The node is in the index though its upload has failed,** and the retry that succeeds does not
count it. -/
theorem retried_not_survives :
    ¬Survives (fun text => text) retried failingSession ∧
      (runBatches (fun text => text) (retried.take 1) failingSession).index =
        [.node "file:///proj/a.cpp"] ∧
      (runBatches (fun text => text) (retried.take 1) failingSession).acknowledged = ∅ ∧
      ∃ s', Batch.upsert (fun text => text) (.nodes [⟨.file, "file:///proj/a.cpp", []⟩])
          (runBatches (fun text => text) (retried.take 1) failingSession) = .ok 0 s' ∧
        s'.acknowledged = {.node "file:///proj/a.cpp"} := by
  refine ⟨fun h => ?_, rfl, rfl, _, rfl, rfl⟩
  have hmem := ((h.exact (retried.take 1) (List.take_prefix 1 retried)).mem_iff
    (.node "file:///proj/a.cpp")).mp (by decide)
  exact absurd hmem (by decide)

end Cognee
end Graph
end CppMcp
