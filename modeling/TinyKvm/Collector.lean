import TinyKvm.Api
import TinyKvm.Interleaving
import Mathlib.Data.BitVec
import Mathlib.Data.List.AList
import Mathlib.Data.List.Perm.Basic
import Mathlib.Tactic.Abel

/-!
# The URL collector

Every request machine of `collector.cpp` gathers the URLs it is asked for in a
batch of its own. The eighth URL makes it hand the batch to storage, where
`storage_collect` counts it into a map all machines share. `storage_report`
copies the map and lists it by count.

The machines are interleaved processes. A request takes several steps, and
between them other machines take theirs; `storage_collect` and the copy of
`storage_report` hold the mutex, and are one step each. What a machine has
neither counted nor finished, its batch and the URL in hand, moves into the map
without loss (`VmStep.balance`), so between requests the map and the batches hold
every request made (`collector_conserves`).
-/

namespace TinyKvm

namespace Collector

/-- The collection : a map from URLs to 32-bit counts. -/
abbrev Collection := AList fun _ : Bytes => BitVec 32

/-- The count of a URL, zero if it is not in the collection. -/
def count (collection : Collection) (url : Bytes) : BitVec 32 :=
  (collection.lookup url).getD 0

/-- One URL of a batch : `try_emplace` with one, or the increment of what is there. -/
def collectUrl (collection : Collection) (url : Bytes) : Collection :=
  match collection.lookup url with
  | none => collection.insert url 1
  | some n => collection.insert url (n + 1)

/-- `storage_collect`. -/
def storageCollect (collection : Collection) (invec : List Bytes) : Collection :=
  invec.foldl collectUrl collection

/-- The pairs of a collection, in an order `storage_report` may leave them in : by count, with
URLs of the same count in any order. -/
def Sorted (collection : Collection) (pairs : List (Bytes × BitVec 32)) : Prop :=
  pairs.Perm (collection.entries.map fun e => (e.1, e.2)) ∧
    pairs.Pairwise fun a b => a.2 ≤ b.2

instance (collection : Collection) (pairs : List (Bytes × BitVec 32)) :
    Decidable (Sorted collection pairs) :=
  inferInstanceAs (Decidable (_ ∧ _))

/-- The text of a report. -/
def reportText (pairs : List (Bytes × BitVec 32)) : Bytes :=
  pairs.flatMap fun p => ascii (toString p.2.toNat) ++ ascii ": " ++ p.1 ++ ascii "\n"

/-- The request that asks for a report. -/
def reportUrl : Bytes :=
  ascii ":report:"

/-- `MAX_LOCAL_URLS`. -/
def maxLocalUrls : ℕ := 8

/-- Where in `on_get` a machine is, with the URL of its request. -/
inductive Point where
  | idle
  | reporting
  | pushed (url : Bytes)
  | collected (url : Bytes)
  | answering (url : Bytes)
  deriving DecidableEq

/-- A request machine : its batch, and where it is. -/
structure Vm where
  urls : List Bytes
  point : Point
  deriving DecidableEq

/-- What makes a machine step : a request, the order its report comes in, or nothing more. -/
inductive Input where
  | get (url : Bytes)
  | report (pairs : List (Bytes × BitVec 32))
  | run

/-- A completed request. -/
structure Completed where
  url : Bytes
  response : Response

/-- A plain text response. -/
def plain (content : Bytes) : Response :=
  ⟨200, ascii "text/plain", content⟩

/-- A step of `on_get`. The response of a report concludes its request, so its URL joins no
batch. -/
def step (vm : Vm) (collection : Collection) : Input → Option (Vm × Collection × List Completed)
  | .get url =>
    match vm.point with
    | .idle =>
      if url = reportUrl then some ({ vm with point := .reporting }, collection, [])
      else some (⟨vm.urls ++ [url], .pushed url⟩, collection, [])
    | _ => none
  | .report pairs =>
    if vm.point = .reporting ∧ Sorted collection pairs then
      some ({ vm with point := .idle }, collection, [⟨reportUrl, plain (reportText pairs)⟩])
    else none
  | .run =>
    match vm.point with
    | .pushed url =>
      if vm.urls.length ≥ maxLocalUrls then
        some ({ vm with point := .collected url }, storageCollect collection vm.urls, [])
      else some ({ vm with point := .answering url }, collection, [])
    | .collected url => some (⟨[], .answering url⟩, collection, [])
    | .answering url =>
      some ({ vm with point := .idle }, collection, [⟨url, plain (ascii "OK")⟩])
    | _ => none

/-- The machines, started with empty batches, and the empty collection. -/
def collector : Processes Vm Collection Input Completed where
  start := ⟨[], .idle⟩
  shared := ∅
  step := step

/-- What a step can do, with the requests it completes. -/
inductive VmStep : Vm → Collection → Vm → Collection → List Completed → Prop
  | ask (urls : List Bytes) (s : Collection) :
      VmStep ⟨urls, .idle⟩ s ⟨urls, .reporting⟩ s []
  | report (urls : List Bytes) (s : Collection) (pairs : List (Bytes × BitVec 32)) :
      VmStep ⟨urls, .reporting⟩ s ⟨urls, .idle⟩ s [⟨reportUrl, plain (reportText pairs)⟩]
  | push (urls : List Bytes) (s : Collection) (url : Bytes) (h : url ≠ reportUrl) :
      VmStep ⟨urls, .idle⟩ s ⟨urls ++ [url], .pushed url⟩ s []
  | collect {urls : List Bytes} (s : Collection) (url : Bytes) (h : urls.length ≥ maxLocalUrls) :
      VmStep ⟨urls, .pushed url⟩ s ⟨urls, .collected url⟩ (storageCollect s urls) []
  | keep {urls : List Bytes} (s : Collection) (url : Bytes) (h : ¬urls.length ≥ maxLocalUrls) :
      VmStep ⟨urls, .pushed url⟩ s ⟨urls, .answering url⟩ s []
  | clear (urls : List Bytes) (s : Collection) (url : Bytes) :
      VmStep ⟨urls, .collected url⟩ s ⟨[], .answering url⟩ s []
  | answer (urls : List Bytes) (s : Collection) (url : Bytes) :
      VmStep ⟨urls, .answering url⟩ s ⟨urls, .idle⟩ s [⟨url, plain (ascii "OK")⟩]

theorem vmStep_of_step {vm vm' : Vm} {s s' : Collection} {e : Input} {os : List Completed}
    (h : step vm s e = some (vm', s', os)) : VmStep vm s vm' s' os := by
  obtain ⟨urls, point⟩ := vm
  cases e with
  | get url =>
    cases point with
    | idle =>
      by_cases hu : url = reportUrl
      · simp only [step, hu, if_true, Option.some.injEq, Prod.mk.injEq] at h
        obtain ⟨rfl, rfl, rfl⟩ := h
        exact .ask urls s
      · simp only [step, hu, if_false, Option.some.injEq, Prod.mk.injEq] at h
        obtain ⟨rfl, rfl, rfl⟩ := h
        exact .push urls s url hu
    | _ => cases h
  | report pairs =>
    by_cases hp : point = .reporting ∧ Sorted s pairs
    · obtain ⟨rfl, hs⟩ := hp
      simp only [step, hs, and_self, if_true, Option.some.injEq, Prod.mk.injEq] at h
      obtain ⟨rfl, rfl, rfl⟩ := h
      exact .report urls s pairs
    · rw [step, if_neg hp] at h
      cases h
  | run =>
    cases point with
    | pushed url =>
      by_cases hl : urls.length ≥ maxLocalUrls
      · simp only [step, hl, if_true, Option.some.injEq, Prod.mk.injEq] at h
        obtain ⟨rfl, rfl, rfl⟩ := h
        exact .collect s url hl
      · simp only [step, hl, if_false, Option.some.injEq, Prod.mk.injEq] at h
        obtain ⟨rfl, rfl, rfl⟩ := h
        exact .keep s url hl
    | collected url =>
      cases h
      exact .clear urls s url
    | answering url =>
      cases h
      exact .answer urls s url
    | _ => cases h

/-! ## Batches -/

/-- A batch is full only on its way to storage. -/
def BatchOk (vm : Vm) : Prop :=
  match vm.point with
  | .pushed _ => vm.urls.length ≤ maxLocalUrls
  | .collected _ => vm.urls.length ≤ maxLocalUrls
  | _ => vm.urls.length < maxLocalUrls

theorem batchOk_start : BatchOk collector.start :=
  Nat.zero_lt_succ 7

theorem VmStep.batchOk {vm vm' : Vm} {s s' : Collection} {os : List Completed}
    (h : VmStep vm s vm' s' os) (hok : BatchOk vm) : BatchOk vm' := by
  cases h with
  | ask => exact hok
  | report => exact hok
  | push urls s url =>
    have hlen : (urls ++ [url]).length ≤ maxLocalUrls := by
      rw [List.length_append]
      exact hok
    exact hlen
  | collect => exact hok
  | keep s url hl => exact Nat.lt_of_not_ge hl
  | clear => exact Nat.zero_lt_succ 7
  | answer => exact hok

/-! ## The balance of a URL -/

theorem count_collectUrl (collection : Collection) (url u : Bytes) :
    count (collectUrl collection url) u = count collection u + if url = u then 1 else 0 := by
  unfold count collectUrl
  by_cases h : url = u
  · subst h
    cases collection.lookup url <;> simp
  · have hne : u ≠ url := Ne.symm h
    cases collection.lookup url <;> simp [AList.lookup_insert_ne hne, h]

/-- A batch adds to the count of a URL its occurrences. -/
theorem count_storageCollect (invec : List Bytes) (collection : Collection) (u : Bytes) :
    count (storageCollect collection invec) u =
      count collection u + (invec.count u : BitVec 32) := by
  induction invec generalizing collection with
  | nil => simp [storageCollect]
  | cons url invec ih =>
    have hfold : storageCollect collection (url :: invec) =
        storageCollect (collectUrl collection url) invec := rfl
    rw [hfold, ih, count_collectUrl, List.count_cons, Nat.cast_add, add_right_comm, add_assoc]
    simp only [beq_iff_eq, Nat.cast_ite, Nat.cast_one, Nat.cast_zero]

/-- One if the URL is `u`. -/
def one (u url : Bytes) : BitVec 32 :=
  if url = u then 1 else 0

/-- The occurrences of `u` in a batch that are not in the collection. -/
def pending (u : Bytes) (vm : Vm) : BitVec 32 :=
  match vm.point with
  | .collected _ => 0
  | _ => (vm.urls.count u : BitVec 32)

/-- The request for `u` that has joined a batch and is not completed. -/
def inHand (u : Bytes) (vm : Vm) : BitVec 32 :=
  match vm.point with
  | .pushed url => one u url
  | .collected url => one u url
  | .answering url => one u url
  | _ => 0

theorem count_push (urls : List Bytes) (url u : Bytes) :
    ((urls ++ [url]).count u : BitVec 32) = urls.count u + one u url := by
  rw [List.count_append, List.count_singleton, Nat.cast_add]
  simp only [one, beq_iff_eq, Nat.cast_ite, Nat.cast_one, Nat.cast_zero]

/-- A step moves the occurrences of `u` from a batch to the collection, and the request in hand
to the completed ones, without loss. -/
theorem VmStep.balance {u : Bytes} (hu : u ≠ reportUrl) {vm vm' : Vm} {s s' : Collection}
    {os : List Completed} (h : VmStep vm s vm' s' os) :
    (pending u vm' - inHand u vm') + count s' u =
      (pending u vm - inHand u vm) + count s u + (os.map fun r => one u r.url).sum := by
  cases h with
  | ask => simp [pending, inHand]
  | report =>
    have hne : one u reportUrl = 0 := if_neg hu.symm
    simp [pending, inHand, hne]
  | push urls s url =>
    simp only [pending, inHand, count_push, List.map_nil, List.sum_nil]
    abel
  | collect s url =>
    simp only [pending, inHand, count_storageCollect, List.map_nil, List.sum_nil]
    abel
  | keep => simp [pending, inHand]
  | clear => simp [pending, inHand]
  | answer urls s url =>
    simp only [pending, inHand, List.map_cons, List.map_nil, List.sum_cons, List.sum_nil]
    abel

theorem balance_start (u : Bytes) :
    pending u collector.start - inHand u collector.start = 0 := by
  simp [collector, pending, inHand]

/-! ## Between requests -/

variable {ι : Type*}

/-- The requests for `u` completed so far. -/
def completed (u : Bytes) (es : List (ι × Completed)) : ℕ :=
  es.countP fun e => e.2.url = u

theorem sum_one_eq_completed (u : Bytes) (es : List (ι × Completed)) :
    (es.map fun e => one u e.2.url).sum = (completed u es : BitVec 32) := by
  induction es with
  | nil => rfl
  | cons e es ih =>
    have hcons : completed u (e :: es) = completed u es + if e.2.url = u then 1 else 0 := by
      simp [completed, List.countP_cons]
    rw [List.map_cons, List.sum_cons, ih, hcons, Nat.cast_add, add_comm, Nat.cast_ite,
      Nat.cast_one, Nat.cast_zero, one]

theorem natCast_eq_iff {w a b : ℕ} : (a : BitVec w) = b ↔ a ≡ b [MOD 2 ^ w] := by
  rw [← BitVec.toNat_inj, Nat.ModEq]
  simp

/-- Between requests, the count of a URL in the collection and its occurrences in the batches
are the requests completed for it, modulo 2^32, and every batch has fewer than 8 URLs. -/
theorem collector_conserves [Fintype ι] [DecidableEq ι] {c : Processes.Config ι Vm Collection}
    {es : List (ι × Completed)} (h : collector.Run c es)
    (hidle : ∀ i, (c.locals i).point = .idle) :
    (∀ u, u ≠ reportUrl →
      (count c.shared u).toNat + ∑ i, (c.locals i).urls.count u ≡ completed u es [MOD 2 ^ 32]) ∧
    ∀ i, (c.locals i).urls.length < maxLocalUrls := by
  constructor
  · intro u hu
    have hsum := h.conserves (f := fun vm => pending u vm - inHand u vm)
      (g := fun s => count s u) (w := fun r => one u r.url) (balance_start u) rfl
      (fun hs => (vmStep_of_step hs).balance hu)
    rw [sum_one_eq_completed] at hsum
    have hlocal : ∀ i, pending u (c.locals i) - inHand u (c.locals i) =
        ((c.locals i).urls.count u : BitVec 32) := fun i => by
      simp [pending, inHand, hidle i]
    simp only [hlocal] at hsum
    rw [← natCast_eq_iff, Nat.cast_add, Nat.cast_sum, BitVec.natCast_eq_ofNat,
      BitVec.ofNat_toNat, BitVec.setWidth_eq]
    exact hsum
  · intro i
    have hok := h.local_inv (I := BatchOk) batchOk_start
      (fun hok hs => (vmStep_of_step hs).batchOk hok) i
    rw [BatchOk, hidle i] at hok
    exact hok

/-! ## A full batch -/

/-- A request for `/a` that machine `i` completes without a flush. -/
def request (i : Fin 2) : List (Fin 2 × Input) :=
  [(i, .get (ascii "/a")), (i, .run), (i, .run)]

/-- Seven requests of the first machine, and an eighth, which the second machine's only request is
made in the middle of. -/
def schedule : List (Fin 2 × Input) :=
  (List.replicate 7 (request 0)).flatten ++ (0, .get (ascii "/a")) :: (0, .run) ::
    (request 1 ++ [(0, .run), (0, .run)])

/-- The machines after that. -/
def flushed : Processes.Config (Fin 2) Vm Collection :=
  (collector.scheduler (Fin 2)).after schedule

/-- The batch of the first machine is in the collection, and the second machine's request waits in
its batch. -/
theorem collector_conserves_flush :
    (count flushed.shared (ascii "/a") = 8 ∧ (flushed.locals 1).urls = [ascii "/a"]) ∧
    (∀ u, u ≠ reportUrl →
      (count flushed.shared u).toNat + ∑ i, (flushed.locals i).urls.count u ≡
        completed u (collector.emitted schedule) [MOD 2 ^ 32]) ∧
    ∀ i, (flushed.locals i).urls.length < maxLocalUrls :=
  ⟨by decide +kernel, collector_conserves (Processes.run_schedule schedule) (by decide +kernel)⟩

end Collector

end TinyKvm
