import TinyKvm.Api
import TinyKvm.BatchCounter
import Mathlib.Algebra.GroupWithZero.Nat
import Mathlib.Data.List.Induction

/-!
# The minimal example's counter

Every request machine of `minimal.cpp` counts its requests in a counter of its
own. Once that has `COMMIT_COUNT` requests the machine adds it to the counter in
storage and clears it, and the response to a request shows what the machine has
counted and what is in storage.

The machines are interleaved processes, and both counters are 64-bit words. They
refine processes that count in batches of 16 (`refinesCounter`), where adding a
batch to storage and clearing it is one step : up to the words, a machine between
the two owns nothing. As long as fewer than 2^64 requests were counted the words
are exact, so a report is short of the requests counted by at most 16 for every
other machine, and the reports of one machine increase (`report_accurate`).
-/

namespace TinyKvm

namespace Minimal

open BatchCounter (Owner Act Seen)

/-- `COMMIT_COUNT`. -/
def commitCount : BitVec 64 := 16

/-- Where in `on_get` a machine is. -/
inductive Point where
  | idle
  | incremented
  | added
  | counting
  deriving DecidableEq

/-- A request machine : `local_counter`, and where it is. -/
structure Vm where
  localCounter : BitVec 64
  point : Point

/-- What is seen of a machine : the increment of a request, or the value it computes with the
response that shows it. -/
inductive Output where
  | incremented
  | reported (counter : BitVec 64) (response : Response)
  deriving DecidableEq

/-- `storage_add_counter`. -/
def storageAddCounter (counter increment : BitVec 64) : BitVec 64 :=
  counter + increment

/-- The character of the last decimal digit. -/
def digit (n : BitVec 64) : Byte :=
  (0x30 + n % 10).setWidth 8

/-- The text of a response, which has room for four digits. -/
def reportText (counter : BitVec 64) : Bytes :=
  ((((ascii "Hell0 World, 000!").set 4 (digit (counter / 1000))).set 13
    (digit (counter / 100))).set 14 (digit (counter / 10))).set 15 (digit counter)

/-- The response to a GET. -/
def respond (counter : BitVec 64) : Response :=
  ⟨200, ascii "text/plain", reportText counter⟩

/-- A step of `on_get`, on the counter in storage. -/
def step (vm : Vm) (counter : BitVec 64) : Unit → Option (Vm × BitVec 64 × List Output)
  | () =>
    match vm.point with
    | .idle => some (⟨vm.localCounter + 1, .incremented⟩, counter, [.incremented])
    | .incremented =>
      if vm.localCounter ≥ commitCount then
        some ({ vm with point := .added }, storageAddCounter counter vm.localCounter, [])
      else some ({ vm with point := .counting }, counter, [])
    | .added => some (⟨0, .counting⟩, counter, [])
    | .counting =>
      let value := vm.localCounter + counter
      some ({ vm with point := .idle }, counter, [.reported value (respond value)])

/-- The machines and the counter in storage. -/
def minimal : Processes Vm (BitVec 64) Unit Output where
  start := ⟨0, .idle⟩
  shared := 0
  step := step

/-! ## Counting in batches of 16 -/

/-- What a machine owns of the requests counted : its local counter, unless that is already in
storage. The words are those of numbers, and a batch is full only on its way to storage. -/
def Stands (vm : Vm) (o : Owner) : Prop :=
  match vm.point with
  | .idle => vm.localCounter = BitVec.ofNat 64 o.owned ∧ o.owned < 16 ∧ o.gained = false
  | .incremented => vm.localCounter = BitVec.ofNat 64 o.owned ∧ o.owned ≤ 16 ∧ o.gained = true
  | .added => o.owned = 0 ∧ o.gained = true
  | .counting => vm.localCounter = BitVec.ofNat 64 o.owned ∧ o.owned < 16 ∧ o.gained = true

/-- What the machines show where the counting processes show `seen`. -/
def shown : Seen → Output
  | .gained => .incremented
  | .reported n => .reported (BitVec.ofNat 64 n) (respond (BitVec.ofNat 64 n))

theorem commitCount_le_iff {n : ℕ} (h : n ≤ 16) : BitVec.ofNat 64 n ≥ commitCount ↔ n = 16 := by
  rw [ge_iff_le, BitVec.le_def, BitVec.toNat_ofNat, Nat.mod_eq_of_lt (by omega)]
  have hcommit : commitCount.toNat = 16 := rfl
  omega

/-- A step of a machine is one of the counting process it stands for; clearing the local counter
is none. -/
theorem step_refines {vm vm' : Vm} {s s' : BitVec 64} {os : List Output} {o : Owner}
    {shared : ℕ} (ho : Stands vm o) (hs : s = BitVec.ofNat 64 shared)
    (h : step vm s () = some (vm', s', os)) :
    ∃ o' shared' seen, (BatchCounter.counter 16).StepOrStay o shared o' shared' seen ∧
      Stands vm' o' ∧ s' = BitVec.ofNat 64 shared' ∧ os = seen.map shown := by
  obtain ⟨localCounter, point⟩ := vm
  obtain ⟨owned, g⟩ := o
  subst hs
  cases point with
  | idle =>
    obtain ⟨rfl, hlt, rfl⟩ := ho
    cases h
    refine ⟨⟨owned + 1, true⟩, shared, [.gained], .inl ⟨.gain, if_pos hlt⟩, ?_, rfl, rfl⟩
    exact ⟨(BitVec.ofNat_add _ _).symm, hlt, rfl⟩
  | incremented =>
    obtain ⟨rfl, hle, rfl⟩ := ho
    by_cases hfull : owned = 16
    · rw [step, if_pos ((commitCount_le_iff hle).2 hfull)] at h
      cases h
      exact ⟨⟨0, true⟩, shared + owned, [], .inl ⟨.transfer, rfl⟩, ⟨rfl, rfl⟩,
        (BitVec.ofNat_add _ _).symm, rfl⟩
    · rw [step, if_neg (mt (commitCount_le_iff hle).1 hfull)] at h
      cases h
      exact ⟨⟨owned, true⟩, shared, [], .inr ⟨rfl, rfl, rfl⟩,
        ⟨rfl, lt_of_le_of_ne hle hfull, rfl⟩, rfl, rfl⟩
  | added =>
    obtain ⟨rfl, rfl⟩ := ho
    cases h
    exact ⟨⟨0, true⟩, shared, [], .inr ⟨rfl, rfl, rfl⟩, ⟨rfl, Nat.zero_lt_succ 15, rfl⟩, rfl, rfl⟩
  | counting =>
    obtain ⟨rfl, hlt, rfl⟩ := ho
    cases h
    refine ⟨⟨owned, false⟩, shared, [.reported (owned + shared)], .inl ⟨.report, rfl⟩,
      ⟨rfl, hlt, rfl⟩, rfl, ?_⟩
    rw [List.map_singleton, shown, BitVec.ofNat_add]

/-- The machines count in batches of 16. -/
def refinesCounter : Processes.Refines minimal (BatchCounter.counter 16) where
  relL := Stands
  relS := fun s shared => s = BitVec.ofNat 64 shared
  obs := shown
  startL := ⟨rfl, Nat.zero_lt_succ 15, rfl⟩
  startS := rfl
  step := fun ho hs h => step_refines ho hs h

/-! ## What the machines report -/

variable {ι : Type*}

/-- One for the increment of a request. -/
def increments : Output → ℕ
  | .incremented => 1
  | .reported _ _ => 0

/-- The requests that have performed their increment. -/
def total (es : List (ι × Output)) : ℕ :=
  (es.map fun e => increments e.2).sum

/-- The value a machine computed. -/
def Output.value : Output → Option (BitVec 64)
  | .incremented => none
  | .reported counter _ => some counter

/-- The values machine `i` computed, in order. -/
def counters [DecidableEq ι] (i : ι) (es : List (ι × Output)) : List (BitVec 64) :=
  es.filterMap fun e => if e.1 = i then e.2.value else none

theorem total_shown (es : List (ι × Seen)) :
    total (es.map (Prod.map id shown)) = BatchCounter.total es := by
  have hone : ∀ o : Seen, increments (shown o) = BatchCounter.ones o := by
    rintro (_ | n) <;> rfl
  simp [total, BatchCounter.total, Function.comp_def, hone]

theorem counters_shown [DecidableEq ι] (i : ι) (es : List (ι × Seen)) :
    counters i (es.map (Prod.map id shown)) =
      (BatchCounter.reports i es).map (BitVec.ofNat 64) := by
  have hvalue : ∀ o : Seen, (shown o).value = o.value.map (BitVec.ofNat 64) := by
    rintro (_ | n) <;> rfl
  rw [counters, BatchCounter.reports, List.filterMap_map, List.map_filterMap]
  congr 1
  funext e
  by_cases h : e.1 = i <;> simp [h, hvalue]

/-- A report of the machines is that of the counting processes, at the same point. -/
theorem exists_of_shown {es : List (ι × Seen)} {pre post : List (ι × Output)} {i : ι}
    {counter : BitVec 64} {response : Response}
    (h : es.map (Prod.map id shown) = pre ++ (i, .reported counter response) :: post) :
    ∃ pre' n post', es = pre' ++ (i, .reported n) :: post' ∧
      pre = pre'.map (Prod.map id shown) ∧ counter = BitVec.ofNat 64 n ∧
      response = respond counter := by
  obtain ⟨pre', es', rfl, rfl, h'⟩ := List.map_eq_append_iff.1 h
  obtain ⟨⟨j, o⟩, post', rfl, ho, -⟩ := List.map_eq_cons_iff.1 h'
  cases o with
  | gained => cases ho
  | reported n =>
    cases ho
    exact ⟨pre', n, post', rfl, rfl, rfl, rfl⟩

theorem total_append (es fs : List (ι × Output)) : total (es ++ fs) = total es + total fs := by
  rw [total, List.map_append, List.sum_append]
  rfl

section Report

variable [Fintype ι] [DecidableEq ι]

/-- As long as fewer than 2^64 requests were counted, the value a machine reports is at most the
requests counted by then and short of them by at most 16 for every other machine, and the values
one machine reports increase. -/
theorem report_accurate {c : Processes.Config ι Vm (BitVec 64)} {es : List (ι × Output)}
    (h : minimal.Run c es) (hes : total es < 2 ^ 64) :
    (∀ pre post i counter response, es = pre ++ (i, .reported counter response) :: post →
      total pre ≤ counter.toNat + 16 * (Fintype.card ι - 1) ∧ counter.toNat ≤ total pre) ∧
    ∀ i, (counters i es).Pairwise (· < ·) := by
  obtain ⟨c', seen, hrun, -, -, hseen⟩ := refinesCounter.run h
  obtain rfl : es = seen.map (Prod.map id shown) := hseen
  have hexact : ∀ {pre : List (ι × Seen)} {i n post}, seen = pre ++ (i, .reported n) :: post →
      n < 2 ^ 64 := by
    rintro pre i n post rfl
    have hle := (BatchCounter.seen_accurate hrun rfl).2
    rw [List.map_append, total_append, total_shown] at hes
    omega
  refine ⟨fun pre post i counter response hpre => ?_, fun i => ?_⟩
  · obtain ⟨pre, n, post, hseen, rfl, rfl, -⟩ := exists_of_shown hpre
    rw [total_shown, BitVec.toNat_ofNat, Nat.mod_eq_of_lt (hexact hseen)]
    exact BatchCounter.seen_accurate hrun hseen
  · rw [counters_shown]
    refine List.pairwise_map.2 ((BatchCounter.reports_increasing hrun i).imp_of_mem ?_)
    intro m n hm hn hlt
    have hlt_of_mem : ∀ k ∈ BatchCounter.reports i seen, k < 2 ^ 64 := fun k hk => by
      obtain ⟨pre, post, hseen⟩ := BatchCounter.exists_of_mem_reports hk
      exact hexact hseen
    rw [BitVec.lt_def, BitVec.toNat_ofNat, BitVec.toNat_ofNat,
      Nat.mod_eq_of_lt (hlt_of_mem m hm), Nat.mod_eq_of_lt (hlt_of_mem n hn)]
    exact hlt

end Report

/-! ## A full batch -/

/-- The steps of a request of machine `i`. -/
def request (i : Bool) : List (Bool × Unit) :=
  List.replicate 3 (i, ())

/-- Fifteen requests of the first machine, and a sixteenth, which the second machine's only request
is made in the middle of, after the batch is added and before it is cleared. -/
def schedule : List (Bool × Unit) :=
  (List.replicate 15 (request false)).flatten ++
    (false, ()) :: (false, ()) :: (request true ++ [(false, ()), (false, ())])

/-- The second machine reports all seventeen requests, and the first one sixteen of them. -/
theorem report_accurate_commit :
    (minimal.emitted schedule).drop 31 =
        [(true, .incremented), (true, .reported 17 (respond 17)),
          (false, .reported 16 (respond 16))] ∧
    (∀ pre post i counter response,
      minimal.emitted schedule = pre ++ (i, .reported counter response) :: post →
      total pre ≤ counter.toNat + 16 * (Fintype.card Bool - 1) ∧ counter.toNat ≤ total pre) ∧
    ∀ i, (counters i (minimal.emitted schedule)).Pairwise (· < ·) :=
  ⟨by decide +kernel, report_accurate (Processes.run_schedule schedule) (by decide +kernel)⟩

/-! ## One machine -/

/-- One machine, and the counter in storage. -/
def alone (localCounter : BitVec 64) (point : Point) (counter : BitVec 64) :
    Processes.Config (Fin 1) Vm (BitVec 64) :=
  ⟨fun _ => ⟨localCounter, point⟩, counter⟩

theorem set_alone (l s l' s' : BitVec 64) (p p' : Point) :
    (alone l p s).set 0 ⟨l', p'⟩ s' = alone l' p' s' := by
  have hlocals : ((alone l p s).set 0 ⟨l', p'⟩ s').locals = (alone l' p' s').locals := by
    funext i
    rw [Subsingleton.elim i 0, Processes.Config.set_locals_self]
    rfl
  exact congrArg (Processes.Config.mk · s') hlocals

/-- A step of the machine that emits `o`. -/
theorem run_alone_emit {l s l' s' : BitVec 64} {p p' : Point} {es : List (Fin 1 × Output)}
    {o : Output} (h : minimal.Run (alone l p s) es)
    (hs : step ⟨l, p⟩ s () = some (⟨l', p'⟩, s', [o])) :
    minimal.Run (alone l' p' s') (es ++ [(0, o)]) := by
  have hrun := h.step 0 () hs
  rwa [set_alone] at hrun

/-- A step of the machine that emits nothing. -/
theorem run_alone_silent {l s l' s' : BitVec 64} {p p' : Point} {es : List (Fin 1 × Output)}
    (h : minimal.Run (alone l p s) es) (hs : step ⟨l, p⟩ s () = some (⟨l', p'⟩, s', [])) :
    minimal.Run (alone l' p' s') es := by
  have hrun := h.step 0 () hs
  rwa [set_alone, List.map_nil, List.append_nil] at hrun

/-- One more request, counted and answered. -/
theorem run_alone_request {l s : BitVec 64} {es : List (Fin 1 × Output)}
    (h : minimal.Run (alone l .idle s) es) :
    ∃ l' s' counter, minimal.Run (alone l' .idle s')
      (es ++ [(0, .incremented)] ++ [(0, .reported counter (respond counter))]) := by
  have hincremented : minimal.Run (alone (l + 1) .incremented s) (es ++ [(0, .incremented)]) :=
    run_alone_emit h rfl
  by_cases hfull : l + 1 ≥ commitCount
  · have hadded : minimal.Run (alone (l + 1) .added (storageAddCounter s (l + 1)))
        (es ++ [(0, .incremented)]) :=
      run_alone_silent hincremented (if_pos hfull)
    have hcleared : minimal.Run (alone 0 .counting (storageAddCounter s (l + 1)))
        (es ++ [(0, .incremented)]) :=
      run_alone_silent hadded rfl
    exact ⟨_, _, _, run_alone_emit hcleared rfl⟩
  · have hcounting : minimal.Run (alone (l + 1) .counting s) (es ++ [(0, .incremented)]) :=
      run_alone_silent hincremented (if_neg hfull)
    exact ⟨_, _, _, run_alone_emit hcounting rfl⟩

theorem exists_run_alone (n : ℕ) :
    ∃ l s es, minimal.Run (alone l .idle s) es ∧ total es = n := by
  induction n with
  | zero => exact ⟨0, 0, [], .init, rfl⟩
  | succ n ih =>
    obtain ⟨l, s, es, h, rfl⟩ := ih
    obtain ⟨l', s', counter, h'⟩ := run_alone_request h
    refine ⟨l', s', _, h', ?_⟩
    rw [total_append, total_append]
    rfl

/-- One machine reports less than it counted once it counted 2^64 requests. -/
theorem report_not_accurate :
    ¬∀ (c : Processes.Config (Fin 1) Vm (BitVec 64)) (es pre post : List (Fin 1 × Output))
      (i : Fin 1) (counter : BitVec 64) (response : Response), minimal.Run c es →
      es = pre ++ (i, .reported counter response) :: post →
      total pre ≤ counter.toNat + 16 * (Fintype.card (Fin 1) - 1) ∧
        counter.toNat ≤ total pre := by
  intro hall
  obtain ⟨l, s, es, h, htotal⟩ := exists_run_alone (2 ^ 64 - 1)
  obtain ⟨l', s', counter, h'⟩ := run_alone_request h
  obtain ⟨hle, -⟩ := hall _ _ _ [] 0 counter (respond counter) h' rfl
  have hone : total [((0 : Fin 1), Output.incremented)] = 1 := rfl
  rw [total_append, htotal, hone] at hle
  have hlt := counter.isLt
  simp at hle
  omega

end Minimal

end TinyKvm
