import TinyKvm.MinimalCounter
import Mathlib.Data.BitVec

/-!
# The hit counters in shared memory

Every machine of `counter.c` adds one to a counter in shared memory, atomically,
and then reads it again for the number of its response. What `shared_counter.cpp`
responds with is what the addition itself returned.

The counter is the number of requests begun (`counter_eq`). While no request
begins between the addition and the read of another, the numbers are 1, 2, … in
the order of the responses. Once one does, the number it should have left to the
other is skipped for good (`ordered_or_skipped`). So the numbers of a run with no
request in progress are right exactly if no two requests were in progress at the
same time (`hits_distinct_iff`). The numbers of `shared_counter.cpp` are distinct in
every run (`fetched_distinct`).
-/

namespace TinyKvm

namespace Hits

open Processes (Config)

/-- Where in `on_get` a machine is : outside, or between its addition and its read. -/
inductive Point where
  | idle
  | added
  deriving DecidableEq

/-- A response, with the number it carries. -/
structure Hit where
  number : ℤ
  response : Response

/-- The response that `counter.c` makes of what it reads. -/
def hello (counter : BitVec 32) : Hit where
  number := counter.toInt
  response := ⟨200, ascii "text/plain", ascii s!"Hello {counter.toInt} World!"⟩

/-- A step of `on_get`, on the counter in shared memory. -/
def step (point : Point) (counter : BitVec 32) : Unit → Option (Point × BitVec 32 × List Hit)
  | () =>
    match point with
    | .idle => some (.added, counter + 1, [])
    | .added => some (.idle, counter, [hello counter])

/-- The machines of `counter.c`. -/
def counter : Processes Point (BitVec 32) Unit Hit where
  start := .idle
  shared := 0
  step := step

variable {ι : Type*}

/-- The numbers of the responses, in order. -/
def numbers (es : List (ι × Hit)) : List ℤ :=
  es.map fun e => e.2.number

/-- One for a request in progress. -/
def waiting : Point → ℕ
  | .idle => 0
  | .added => 1

/-- The requests begun : those answered, and those in progress. -/
def begun [Fintype ι] (c : Config ι Point (BitVec 32)) (es : List (ι × Hit)) : ℕ :=
  es.length + ∑ i, waiting (c.locals i)

/-- No request is in progress. -/
def Idle (c : Config ι Point (BitVec 32)) : Prop :=
  ∀ i, c.locals i = .idle

instance [Fintype ι] (c : Config ι Point (BitVec 32)) : Decidable (Idle c) :=
  inferInstanceAs (Decidable (∀ _, _))

/-- No two responses carry the same number, and they carry `1`, …, `k` when `k` requests were
answered and none is in progress. -/
structure Distinct (c : Config ι Point (BitVec 32)) (es : List (ι × Hit)) : Prop where
  nodup : (numbers es).Nodup
  exact : Idle c → ∀ n, n ∈ numbers es ↔ 1 ≤ n ∧ n ≤ es.length

/-- If the step is an addition, no request is in progress. -/
def OneAtATime (c : Config ι Point (BitVec 32)) (x : ι × Unit) : Prop :=
  c.locals x.1 = .idle → Idle c

instance [Fintype ι] (c : Config ι Point (BitVec 32)) (x : ι × Unit) :
    Decidable (OneAtATime c x) :=
  inferInstanceAs (Decidable (_ → _))

variable {c : Config ι Point (BitVec 32)} {es : List (ι × Hit)} {i : ι}

/-! ## Numbers in order -/

/-- The responses carry `1`, `2`, …, and at most one request is in progress. -/
structure Ordered (c : Config ι Point (BitVec 32)) (es : List (ι × Hit)) : Prop where
  numbers_eq : numbers es = (List.range es.length).map fun n : ℕ => (n : ℤ) + 1
  unique : ∀ {i j}, c.locals i = .added → c.locals j = .added → i = j

theorem numbers_snoc (es : List (ι × Hit)) (i : ι) (hit : Hit) :
    numbers (es ++ [(i, hit)]) = numbers es ++ [hit.number] := by
  simp [numbers]

theorem Ordered.mem_numbers (h : Ordered c es) {n : ℤ} :
    n ∈ numbers es ↔ 1 ≤ n ∧ n ≤ es.length := by
  rw [h.numbers_eq, List.mem_map]
  constructor
  · rintro ⟨k, hk, rfl⟩
    have := List.mem_range.1 hk
    omega
  · rintro ⟨hpos, hle⟩
    exact ⟨(n - 1).toNat, List.mem_range.2 (by omega), by omega⟩

theorem Ordered.distinct (h : Ordered c es) : Distinct c es where
  nodup := by
    rw [h.numbers_eq]
    refine List.nodup_range.map fun m n hmn => ?_
    have hmn : (m : ℤ) + 1 = n + 1 := hmn
    omega
  exact _ _ := h.mem_numbers

theorem Ordered.init : Ordered (counter.init ι) [] where
  numbers_eq := rfl
  unique h := Point.noConfusion h

section Steps

variable [DecidableEq ι]

theorem Ordered.add (h : Ordered c es) (hidle : Idle c) (s : BitVec 32) :
    Ordered (c.set i .added s) es where
  numbers_eq := h.numbers_eq
  unique {j k} hj hk := by
    have honly : ∀ {j}, (c.set i .added s).locals j = .added → j = i := by
      intro j hj
      by_contra hne
      rw [Config.set_locals_of_ne c hne, hidle j] at hj
      cases hj
    rw [honly hj, honly hk]

theorem Ordered.read (h : Ordered c es) (hi : c.locals i = .added) {hit : Hit}
    (hhit : hit.number = es.length + 1) (s : BitVec 32) :
    Ordered (c.set i .idle s) (es ++ [(i, hit)]) where
  numbers_eq := by
    rw [numbers_snoc, h.numbers_eq, hhit, List.length_append, List.length_singleton,
      List.range_succ, List.map_append, List.map_singleton]
  unique {j k} hj hk := by
    have hnone : ∀ {j}, (c.set i .idle s).locals j ≠ .added := by
      intro j hj
      by_cases hne : j = i
      · rw [hne, Config.set_locals_self] at hj
        cases hj
      · rw [Config.set_locals_of_ne c hne] at hj
        exact hne (h.unique hj hi)
    exact absurd hj hnone

/-- One more step is an addition or a read. -/
theorem snoc_cases (xs : List (ι × Unit)) (i : ι) :
    (((counter.scheduler ι).after xs).locals i = .idle ∧
      (counter.scheduler ι).after (xs ++ [(i, ())]) =
        ((counter.scheduler ι).after xs).set i .added
          (((counter.scheduler ι).after xs).shared + 1) ∧
      counter.emitted (xs ++ [(i, ())]) = counter.emitted xs) ∨
    (((counter.scheduler ι).after xs).locals i = .added ∧
      (counter.scheduler ι).after (xs ++ [(i, ())]) =
        ((counter.scheduler ι).after xs).set i .idle ((counter.scheduler ι).after xs).shared ∧
      counter.emitted (xs ++ [(i, ())]) =
        counter.emitted xs ++ [(i, hello ((counter.scheduler ι).after xs).shared)]) := by
  cases hi : ((counter.scheduler ι).after xs).locals i with
  | idle =>
    have hs : counter.step (((counter.scheduler ι).after xs).locals i)
        ((counter.scheduler ι).after xs).shared () =
          some (.added, ((counter.scheduler ι).after xs).shared + 1, []) := by
      rw [hi]
      rfl
    refine .inl ⟨rfl, Processes.after_snoc_of_step hs, ?_⟩
    rw [Processes.emitted_snoc_of_step hs, List.map_nil, List.append_nil]
  | added =>
    have hs : counter.step (((counter.scheduler ι).after xs).locals i)
        ((counter.scheduler ι).after xs).shared () =
          some (.idle, ((counter.scheduler ι).after xs).shared,
            [hello ((counter.scheduler ι).after xs).shared]) := by
      rw [hi]
      rfl
    exact .inr ⟨rfl, Processes.after_snoc_of_step hs, Processes.emitted_snoc_of_step hs⟩

end Steps

/-! ## Requests begun, and numbers skipped -/

section Runs

variable [Fintype ι]

/-- A number below the counter that no response carries. -/
def Skipped (c : Config ι Point (BitVec 32)) (es : List (ι × Hit)) : Prop :=
  ∃ n : ℤ, 1 ≤ n ∧ n < begun c es ∧ n ∉ numbers es

theorem begun_of_idle (hidle : Idle c) : begun c es = es.length := by
  simp [begun, hidle _, waiting]

/-- With one request in progress, the requests begun are those answered and it. -/
theorem Ordered.begun_eq (h : Ordered c es) (hi : c.locals i = .added) :
    begun c es = es.length + 1 := by
  have hone : ∑ j, waiting (c.locals j) = waiting (c.locals i) := by
    refine Finset.sum_eq_single i (fun j _ hj => ?_) fun hni => absurd (Finset.mem_univ i) hni
    cases hpoint : c.locals j with
    | idle => rfl
    | added => exact absurd (h.unique hpoint hi) hj
  rw [begun, hone, hi, waiting]

/-- Where a number was skipped, the numbers are not right once no request is in progress. -/
theorem Skipped.not_distinct (h : Skipped c es) (hidle : Idle c) : ¬Distinct c es := by
  obtain ⟨n, hpos, hlt, hn⟩ := h
  rw [begun_of_idle hidle] at hlt
  exact fun hdistinct => hn ((hdistinct.exact hidle n).2 ⟨hpos, hlt.le⟩)

variable [DecidableEq ι]

/-- An addition begins a request. -/
theorem begun_add (hi : c.locals i = .idle) (s : BitVec 32) :
    begun (c.set i .added s) es = begun c es + 1 := by
  rw [begun, begun, Processes.sum_set, ← Finset.add_sum_erase _ _ (Finset.mem_univ i), hi]
  simp only [waiting]
  omega

/-- A read answers one. -/
theorem begun_read (hi : c.locals i = .added) (s : BitVec 32) (hit : Hit) :
    begun (c.set i .idle s) (es ++ [(i, hit)]) = begun c es := by
  rw [begun, begun, Processes.sum_set, ← Finset.add_sum_erase _ _ (Finset.mem_univ i), hi,
    List.length_append, List.length_singleton]
  simp only [waiting]
  omega

/-- The counter is the number of requests begun, as a word. -/
theorem counter_eq (h : counter.Run c es) : c.shared = BitVec.ofNat 32 (begun c es) := by
  induction h with
  | init => simp [begun, Processes.init, counter, waiting]
  | @step c es h i e l s os hs ih =>
    cases hi : c.locals i with
    | idle =>
      rw [hi] at hs
      cases hs
      rw [List.map_nil, List.append_nil, begun_add hi, BitVec.ofNat_add, ← ih]
      rfl
    | added =>
      rw [hi] at hs
      cases hs
      rw [List.map_singleton, begun_read hi, ← ih]
      rfl

/-- The number a read responds with. -/
theorem number_eq (h : counter.Run c es) (hlt : begun c es < 2 ^ 31) :
    (hello c.shared).number = begun c es := by
  have hshared : c.shared.toNat = begun c es := by
    rw [counter_eq h, BitVec.toNat_ofNat, Nat.mod_eq_of_lt (by omega)]
  rw [hello, BitVec.toInt_eq_toNat_of_lt (by omega), hshared]

/-- An addition while another request is in progress takes the number that one was to get. -/
theorem Ordered.skipped (h : Ordered c es) (hi : c.locals i = .idle) (hbusy : ¬Idle c)
    (s : BitVec 32) : Skipped (c.set i .added s) es := by
  obtain ⟨j, hj⟩ := not_forall.1 hbusy
  have hadded : c.locals j = .added := by
    cases hpoint : c.locals j with
    | idle => exact absurd hpoint hj
    | added => rfl
  refine ⟨es.length + 1, by omega, ?_, fun hmem => ?_⟩
  · rw [begun_add hi, h.begun_eq hadded]
    omega
  · have := h.mem_numbers.1 hmem
    omega

theorem Skipped.add (h : Skipped c es) (hi : c.locals i = .idle) (s : BitVec 32) :
    Skipped (c.set i .added s) es := by
  obtain ⟨n, hpos, hlt, hn⟩ := h
  refine ⟨n, hpos, ?_, hn⟩
  rw [begun_add hi]
  omega

theorem Skipped.read (h : Skipped c es) (hi : c.locals i = .added) {hit : Hit}
    (hhit : hit.number = begun c es) (s : BitVec 32) :
    Skipped (c.set i .idle s) (es ++ [(i, hit)]) := by
  obtain ⟨n, hpos, hlt, hn⟩ := h
  refine ⟨n, hpos, ?_, fun hmem => ?_⟩
  · rw [begun_read hi]
    exact hlt
  · rw [numbers_snoc, List.mem_append, List.mem_singleton, hhit] at hmem
    exact hmem.elim hn (by omega)

/-! ## Schedules -/

/-- The requests a schedule began. -/
def begunBy (xs : List (ι × Unit)) : ℕ :=
  begun ((counter.scheduler ι).after xs) (counter.emitted xs)

theorem begunBy_le_snoc (xs : List (ι × Unit)) (x : ι × Unit) :
    begunBy xs ≤ begunBy (xs ++ [x]) := by
  unfold begunBy
  rcases snoc_cases xs x.1 with ⟨hi, hafter, hemitted⟩ | ⟨hi, hafter, hemitted⟩
  · rw [hafter, hemitted, begun_add hi]
    exact Nat.le_succ _
  · rw [hafter, hemitted, begun_read hi]

/-- A schedule took one request at a time and its numbers are in order, or it did not and has
skipped a number. -/
theorem ordered_or_skipped (xs : List (ι × Unit)) (hlt : begunBy xs < 2 ^ 31) :
    ((counter.scheduler ι).Meets OneAtATime xs ∧
      Ordered ((counter.scheduler ι).after xs) (counter.emitted xs)) ∨
    (¬(counter.scheduler ι).Meets OneAtATime xs ∧
      Skipped ((counter.scheduler ι).after xs) (counter.emitted xs)) := by
  induction xs using List.reverseRecOn with
  | nil => exact .inl ⟨Machine.meets_nil _ _, .init⟩
  | append_singleton xs x ih =>
    obtain ⟨i, ⟨⟩⟩ := x
    have hltxs := (begunBy_le_snoc xs (i, ())).trans_lt hlt
    have hnumber := number_eq (Processes.run_schedule xs) hltxs
    rw [(counter.scheduler ι).meets_snoc]
    rcases snoc_cases xs i with ⟨hi, hafter, hemitted⟩ | ⟨hi, hafter, hemitted⟩ <;>
      rw [hafter, hemitted]
    · rcases ih hltxs with ⟨hmeets, hordered⟩ | ⟨hnot, hskipped⟩
      · by_cases hidle : Idle ((counter.scheduler ι).after xs)
        · exact .inl ⟨⟨hmeets, fun _ => hidle⟩, hordered.add hidle _⟩
        · exact .inr ⟨fun h => hidle (h.2 hi), hordered.skipped hi hidle _⟩
      · exact .inr ⟨fun h => hnot h.1, hskipped.add hi _⟩
    · rcases ih hltxs with ⟨hmeets, hordered⟩ | ⟨hnot, hskipped⟩
      · have hread : OneAtATime ((counter.scheduler ι).after xs) (i, ()) := fun hidle =>
          Point.noConfusion (hi.symm.trans hidle)
        rw [hordered.begun_eq hi] at hnumber
        exact .inl ⟨⟨hmeets, hread⟩, hordered.read hi hnumber _⟩
      · exact .inr ⟨fun h => hnot h.1, hskipped.read hi hnumber _⟩

theorem begunBy_mono {xs ys : List (ι × Unit)} (h : xs <+: ys) :
    begunBy xs ≤ begunBy ys := by
  obtain ⟨zs, rfl⟩ := h
  induction zs using List.reverseRecOn with
  | nil => rw [List.append_nil]
  | append_singleton zs z ih =>
    rw [← List.append_assoc]
    exact ih.trans (begunBy_le_snoc _ _)

/-- As long as fewer than 2^31 requests have begun, the numbers are right throughout a schedule
that takes one request at a time, and those of a schedule that ends with none in progress only
in such a schedule. -/
theorem hits_distinct_iff (xs : List (ι × Unit)) (hlt : begunBy xs < 2 ^ 31) :
    ((counter.scheduler ι).Meets OneAtATime xs → ∀ pre, pre <+: xs →
      Distinct ((counter.scheduler ι).after pre) (counter.emitted pre)) ∧
    (Idle ((counter.scheduler ι).after xs) →
      (Distinct ((counter.scheduler ι).after xs) (counter.emitted xs) ↔
        (counter.scheduler ι).Meets OneAtATime xs)) := by
  have hdistinct : ∀ pre, pre <+: xs → (counter.scheduler ι).Meets OneAtATime pre →
      Distinct ((counter.scheduler ι).after pre) (counter.emitted pre) := by
    intro pre hpre hmeets
    have hltpre := (begunBy_mono hpre).trans_lt hlt
    rcases ordered_or_skipped pre hltpre with ⟨-, hordered⟩ | ⟨hnot, -⟩
    · exact hordered.distinct
    · exact absurd hmeets hnot
  refine ⟨fun hmeets pre hpre => hdistinct pre hpre (hmeets.initial hpre), fun hidle => ?_⟩
  refine ⟨fun hright => ?_, hdistinct xs (List.prefix_refl _)⟩
  rcases ordered_or_skipped xs hlt with ⟨hmeets, -⟩ | ⟨-, hskipped⟩
  · exact hmeets
  · exact absurd hright (hskipped.not_distinct hidle)

end Runs

/-- Two requests, one after the other. -/
theorem hits_distinct_two :
    Distinct ((counter.scheduler Bool).after [(false, ()), (false, ()), (true, ()), (true, ())])
      (counter.emitted [(false, ()), (false, ()), (true, ()), (true, ())]) :=
  ((hits_distinct_iff [(false, ()), (false, ()), (true, ()), (true, ())] (by decide)).2
    (by decide)).2 (by decide)

/-- Two machines that both add before they read : both respond with 2. -/
theorem hits_not_distinct :
    numbers (counter.emitted [(false, ()), (true, ()), (false, ()), (true, ())]) = [2, 2] ∧
      ¬∀ xs : List (Bool × Unit), begunBy xs < 2 ^ 31 →
        Distinct ((counter.scheduler Bool).after xs) (counter.emitted xs) := by
  have hnumbers :
      numbers (counter.emitted [(false, ()), (true, ()), (false, ()), (true, ())]) = [2, 2] := by
    decide
  refine ⟨hnumbers, fun h => ?_⟩
  have hnodup := (h [(false, ()), (true, ()), (false, ()), (true, ())] (by decide)).nodup
  rw [hnumbers] at hnodup
  revert hnodup
  decide

/-! ## Responding with what the addition returned -/

/-- The machines of `shared_counter.cpp`. -/
def sharedCounter : Processes Unit (BitVec 64) Unit Hit where
  start := ()
  shared := 0
  step _ counter _ := some ((), counter + 1, [⟨counter.toNat, Minimal.respond counter⟩])

/-- As long as fewer than 2^64 requests were answered, no two carry the same number, whatever the
order of the steps. -/
theorem fetched_distinct [DecidableEq ι] {c : Config ι Unit (BitVec 64)} {es : List (ι × Hit)}
    (h : sharedCounter.Run c es) (hlt : es.length < 2 ^ 64) : (numbers es).Nodup := by
  have hinv : c.shared = BitVec.ofNat 64 es.length ∧
      (es.length < 2 ^ 64 → numbers es = (List.range es.length).map fun n : ℕ => (n : ℤ)) := by
    clear hlt
    induction h with
    | init => exact ⟨rfl, fun _ => rfl⟩
    | @step c es h i e l s os hs ih =>
      obtain ⟨hshared, hnumbers⟩ := ih
      cases hs
      rw [List.map_singleton, List.length_append, List.length_singleton]
      refine ⟨?_, fun hlt => ?_⟩
      · rw [BitVec.ofNat_add, ← hshared]
        rfl
      · rw [numbers_snoc, hnumbers (by omega), hshared, List.range_succ, List.map_append,
          List.map_singleton, BitVec.toNat_ofNat, Nat.mod_eq_of_lt (by omega)]
  rw [hinv.2 hlt]
  exact List.nodup_range.map Nat.cast_injective

end Hits

end TinyKvm
