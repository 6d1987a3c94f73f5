import TinyKvm.SharedMemory

/-!
# Requests the shared-memory allocator refuses

`internal_shm_alloc` moves its cursor before it compares with the end of the
area, also when it then returns NULL. Where nothing overflows, the cursor is
therefore where the blocks asked for end, whether or not they were granted
(`cursorAt_after`), and from the first request that does not fit on it lies
behind the area, so every later request is refused (`answer_of_misfit`). What is
granted, on the other hand, no refusal has changed (`answer_accepted_of_granted`).

An allocator that a refusal leaves as it was would grant a later request that
fits. The two agree on a run exactly if there is none (`failures_harmless_iff`).
-/

namespace TinyKvm

variable (area : SharedMemoryArea)

/-- Where the block of a request ends, from a cursor. -/
def blockEnd (cursor : ℕ) (r : ShmRequest) : ℕ :=
  alignUp r.align.toNat cursor + r.size.toNat

/-- The request fits in the area, from a cursor. -/
def Fits (cursor : ℕ) (r : ShmRequest) : Prop :=
  blockEnd cursor r ≤ area.end_.toNat

instance (cursor : ℕ) (r : ShmRequest) : Decidable (Fits area cursor r) :=
  inferInstanceAs (Decidable (_ ≤ _))

/-- The cursor in unbounded arithmetic, moved behind every block asked for. -/
def cursorMachine : Machine ℕ ShmRequest Unit where
  init := area.ptr.toNat
  step cursor r := (blockEnd cursor r, ())

/-- The call's 64-bit sums do not overflow. -/
def NoOverflow (info : SharedMemoryInfo) (r : ShmRequest) : Prop :=
  shmEnd area info r < 2 ^ 64

instance (info : SharedMemoryInfo) (r : ShmRequest) : Decidable (NoOverflow area info r) :=
  inferInstanceAs (Decidable (_ < _))

/-- After the first request that does not fit in what the requests before it left of the area, no
request fits there. -/
def NoLateFit (rs : List ShmRequest) : Prop :=
  ∀ fit bad later, rs = fit ++ bad :: later → (cursorMachine area).Meets (Fits area) fit →
    ¬Fits area ((cursorMachine area).after fit) bad →
    ∀ r ∈ later, ¬Fits area ((cursorMachine area).after fit) r

/-- What `internal_shm_alloc` returns for a request it refuses. -/
def Null (p : BitVec 64) : Prop :=
  p = 0

instance : DecidablePred Null :=
  fun _ => inferInstanceAs (Decidable (_ = _))

/-! ## The cursor -/

/-- The record as a call sees it has its cursor at `cursor`. -/
structure CursorAt (info : SharedMemoryInfo) (cursor : ℕ) : Prop where
  ptr_eq : (shmInfo area info).ptr.toNat = cursor
  end_eq : (shmInfo area info).end_ = area.end_
  le : area.ptr.toNat ≤ cursor

theorem le_blockEnd (cursor : ℕ) (r : ShmRequest) : cursor ≤ blockEnd cursor r :=
  (le_alignUp r.align_pos cursor).trans (Nat.le_add_right _ _)

/-- Requests never move the cursor back. -/
theorem cursor_le_append (rs later : List ShmRequest) :
    (cursorMachine area).after rs ≤ (cursorMachine area).after (rs ++ later) := by
  induction later using List.reverseRecOn with
  | nil => rw [List.append_nil]
  | append_singleton later r ih =>
    rw [← List.append_assoc, Machine.after_snoc]
    exact ih.trans (le_blockEnd _ r)

theorem blockEnd_mono {c d : ℕ} (h : c ≤ d) (r : ShmRequest) : blockEnd c r ≤ blockEnd d r :=
  Nat.add_le_add_right (alignUp_mono _ h) _

/-- A call that does not overflow moves the cursor behind the block, and grants it if it fits. -/
theorem internalShmAlloc_of_cursorAt {info : SharedMemoryInfo} {cursor : ℕ} {r : ShmRequest}
    (h : CursorAt area info cursor) (hno : NoOverflow area info r) :
    CursorAt area (internalShmAlloc area info r.size r.align).1 (blockEnd cursor r) ∧
      (¬Null (internalShmAlloc area info r.size r.align).2 ↔ Fits area cursor r) := by
  have hlt : blockEnd cursor r < 2 ^ 64 := by
    rw [blockEnd, ← h.ptr_eq]
    exact hno
  have hle := le_alignUp r.align_pos cursor
  have hpos := area.pos
  have hcursor := h.le
  have hp := r.toNat_aligned (shmInfo area info).ptr
  rw [h.ptr_eq, Nat.mod_eq_of_lt (by unfold blockEnd at hlt; omega)] at hp
  set p := ((shmInfo area info).ptr + (r.align - 1)) &&& ~~~(r.align - 1) with hpdef
  have hsum : (p + r.size).toNat = blockEnd cursor r := by
    rw [BitVec.toNat_add, hp]
    exact Nat.mod_eq_of_lt hlt
  have heq : internalShmAlloc area info r.size r.align =
      (⟨p + r.size, area.end_⟩, if p + r.size ≤ area.end_ then p else 0) := by
    simp only [internalShmAlloc, ← hpdef, h.end_eq]
  have hinfo : shmInfo area ⟨p + r.size, area.end_⟩ = ⟨p + r.size, area.end_⟩ := by
    refine if_neg fun h0 : p + r.size = 0 => ?_
    have h0' : (p + r.size).toNat = 0 := by rw [h0]; rfl
    unfold blockEnd at hsum
    omega
  have hfits : p + r.size ≤ area.end_ ↔ Fits area cursor r := by
    rw [BitVec.le_def, hsum, Fits]
  have hp0 : p ≠ 0 := by
    intro h0
    rw [h0] at hp
    have hz : (0 : BitVec 64).toNat = 0 := rfl
    omega
  rw [heq]
  refine ⟨⟨?_, ?_, ?_⟩, ?_⟩
  · rw [hinfo]
    exact hsum
  · rw [hinfo]
  · exact hcursor.trans (le_blockEnd cursor r)
  · rw [← hfits, Null]
    by_cases hle : p + r.size ≤ area.end_
    · rw [if_pos hle]
      exact iff_of_true hp0 hle
    · rw [if_neg hle]
      exact iff_of_false (not_not.2 rfl) hle

/-- The cursor is where the blocks asked for end. -/
theorem cursorAt_after (rs : List ShmRequest) (h : (shmMachine area).Meets (NoOverflow area) rs) :
    CursorAt area ((shmMachine area).after rs) ((cursorMachine area).after rs) := by
  refine (shmMachine area).run_induction
    (I := fun rs info => CursorAt area info ((cursorMachine area).after rs))
    ⟨rfl, rfl, le_rfl⟩ (fun rs r hc hno => ?_) rs h
  rw [Machine.after_snoc, Machine.after_snoc]
  exact (internalShmAlloc_of_cursorAt area hc hno).1

section Run

variable {area} {rs fit later : List ShmRequest} {r bad : ShmRequest}

/-- A request is granted exactly if it fits from the cursor. -/
theorem answer_iff (hno : (shmMachine area).Meets (NoOverflow area) (rs ++ [r])) :
    ¬Null ((shmMachine area).answer rs r) ↔ Fits area ((cursorMachine area).after rs) r := by
  obtain ⟨hrs, hr⟩ := (shmMachine area).meets_snoc.1 hno
  exact (internalShmAlloc_of_cursorAt area (cursorAt_after area rs hrs) hr).2

/-- From a request that does not fit on, the cursor is behind the area. -/
theorem lt_cursor_of_misfit (hbad : ¬Fits area ((cursorMachine area).after fit) bad)
    (later : List ShmRequest) :
    area.end_.toNat < (cursorMachine area).after (fit ++ bad :: later) := by
  have hle := cursor_le_append area (fit ++ [bad]) later
  rw [Machine.after_snoc, List.append_assoc, List.singleton_append] at hle
  exact (Nat.lt_of_not_le hbad).trans_le hle

/-- After a request that does not fit, every request is refused. -/
theorem answer_of_misfit (hbad : ¬Fits area ((cursorMachine area).after fit) bad)
    (hno : (shmMachine area).Meets (NoOverflow area) (fit ++ bad :: later ++ [r])) :
    (shmMachine area).answer (fit ++ bad :: later) r = 0 := by
  have hlt := lt_cursor_of_misfit hbad later
  refine not_not.1 fun hsome => ?_
  have hfits := (answer_iff hno).1 hsome
  have hle := le_blockEnd ((cursorMachine area).after (fit ++ bad :: later)) r
  unfold Fits at hfits
  omega

/-- Requests that all fit are all granted. -/
theorem accepted_of_fits (hno : (shmMachine area).Meets (NoOverflow area) rs)
    (hfit : (cursorMachine area).Meets (Fits area) rs) :
    (shmMachine area).accepted Null rs = rs := by
  induction rs using List.reverseRecOn with
  | nil => rfl
  | append_singleton rs r ih =>
    have ⟨hnors, _⟩ := (shmMachine area).meets_snoc.1 hno
    obtain ⟨hfitrs, hr⟩ := (cursorMachine area).meets_snoc.1 hfit
    rw [Machine.accepted_snoc_of_not _ ((answer_iff hno).2 hr), ih hnors hfitrs]

/-- Of requests the first of which that does not fit is `bad`, those before it are granted. -/
theorem accepted_of_misfit (hfit : (cursorMachine area).Meets (Fits area) fit)
    (hbad : ¬Fits area ((cursorMachine area).after fit) bad)
    (hno : (shmMachine area).Meets (NoOverflow area) (fit ++ bad :: later)) :
    (shmMachine area).accepted Null (fit ++ bad :: later) = fit := by
  induction later using List.reverseRecOn with
  | nil =>
    have hnull : Null ((shmMachine area).answer fit bad) :=
      not_not.1 fun hsome => hbad ((answer_iff hno).1 hsome)
    have ⟨hnofit, _⟩ := (shmMachine area).meets_snoc.1 hno
    rw [Machine.accepted_snoc_of_refused _ hnull, accepted_of_fits hnofit hfit]
  | append_singleton later r ih =>
    have happend : fit ++ bad :: (later ++ [r]) = fit ++ bad :: later ++ [r] := by simp
    rw [happend] at hno ⊢
    have ⟨hnorest, _⟩ := (shmMachine area).meets_snoc.1 hno
    rw [Machine.accepted_snoc_of_refused _ (answer_of_misfit hbad hno), ih hnorest]

/-- What is granted is granted alike without the requests refused before it. -/
theorem answer_accepted_of_granted (hno : (shmMachine area).Meets (NoOverflow area) (rs ++ [r]))
    (hsome : ¬Null ((shmMachine area).answer rs r)) :
    (shmMachine area).answer rs r =
      (shmMachine area).answer ((shmMachine area).accepted Null rs) r := by
  rcases (cursorMachine area).meets_or_first (Fits area) rs with
    hfit | ⟨fit, bad, later, rfl, -, hbad⟩
  · rw [accepted_of_fits (hno.initial (List.prefix_append _ _)) hfit]
  · exact absurd (answer_of_misfit hbad hno) hsome

/-- A request that does not overflow from the cursor may follow. -/
theorem noOverflow_snoc (hno : (shmMachine area).Meets (NoOverflow area) rs)
    (hlt : blockEnd ((cursorMachine area).after rs) r < 2 ^ 64) :
    (shmMachine area).Meets (NoOverflow area) (rs ++ [r]) := by
  refine (shmMachine area).meets_snoc.2 ⟨hno, ?_⟩
  have hend : shmEnd area ((shmMachine area).after rs) r =
      blockEnd ((cursorMachine area).after rs) r := by
    rw [shmEnd, (cursorAt_after area rs hno).ptr_eq, blockEnd]
  rw [NoOverflow, hend]
  exact hlt

theorem blockEnd_lt (hno : (shmMachine area).Meets (NoOverflow area) (rs ++ [r])) :
    blockEnd ((cursorMachine area).after rs) r < 2 ^ 64 := by
  obtain ⟨hrs, hr⟩ := (shmMachine area).meets_snoc.1 hno
  rw [blockEnd, ← (cursorAt_after area rs hrs).ptr_eq]
  exact hr

end Run

/-- Where nothing overflows, a run of requests is answered as it were without those it refuses,
exactly if no request fits after one that does not. -/
theorem failures_harmless_iff (rs : List ShmRequest)
    (hno : (shmMachine area).Meets (NoOverflow area) rs) :
    (shmMachine area).RefusalsHarmless Null rs ↔ NoLateFit area rs := by
  constructor
  · intro h fit bad later heq hfit hbad r hr hfits
    obtain ⟨mid, rest, rfl⟩ := List.append_of_mem hr
    have hpre : fit ++ bad :: mid ++ [r] <+: rs := ⟨rest, by simp [heq]⟩
    have hnopre := hno.initial hpre
    have hnomid := hnopre.initial (List.prefix_append _ _)
    have hnofit := hnomid.initial (List.prefix_append _ _)
    have hsame := h _ r hpre
    rw [answer_of_misfit hbad hnopre, accepted_of_misfit hfit hbad hnomid] at hsame
    have hsnoc := noOverflow_snoc hnofit (hfits.trans_lt area.end_.isLt)
    exact (answer_iff hsnoc).2 hfits hsame.symm
  · intro h pre r hpre
    have hnopre := hno.initial hpre
    have hnomid := hnopre.initial (List.prefix_append _ _)
    rcases (cursorMachine area).meets_or_first (Fits area) pre with
      hfit | ⟨fit, bad, later, rfl, hfit, hbad⟩
    · rw [accepted_of_fits hnomid hfit]
    · rw [answer_of_misfit hbad hnopre, accepted_of_misfit hfit hbad hnomid]
      obtain ⟨rest, rfl⟩ := hpre
      have hmis : ¬Fits area ((cursorMachine area).after fit) r :=
        h fit bad (later ++ r :: rest) (by simp) hfit hbad r (by simp)
      -- What does not overflow behind the refused requests does not overflow before them.
      have hle := cursor_le_append area fit (bad :: later)
      have hnofit := hnomid.initial (List.prefix_append _ _)
      have hsnoc := noOverflow_snoc hnofit ((blockEnd_mono hle r).trans_lt (blockEnd_lt hnopre))
      exact (not_not.1 fun hsome => hmis ((answer_iff hsnoc).1 hsome)).symm

/-- In a page, the refusal of `0x1800` bytes after 64 bytes is the last answer, and harmless. -/
theorem failures_harmless_page :
    (shmMachine shmPage).RefusalsHarmless Null [shmAllocBytes 64, shmAllocBytes 0x1800] := by
  refine (failures_harmless_iff shmPage _ (by decide)).2 fun fit bad later heq hfit hbad r hr => ?_
  match fit with
  | [] =>
    obtain ⟨rfl, -⟩ := List.cons.inj heq
    exact absurd (by decide) hbad
  | [_] =>
    obtain ⟨-, rfl⟩ := List.cons.inj (List.cons.inj heq).2
    exact absurd hr List.not_mem_nil
  | _ :: _ :: _ => simp at heq

/-- A refusal is not harmless : after a request of more than a page, 64 bytes are refused though
the page is still free. -/
theorem failures_harmless_fails :
    ¬∀ (area : SharedMemoryArea) (rs : List ShmRequest),
      (shmMachine area).Meets (NoOverflow area) rs →
        (shmMachine area).RefusalsHarmless Null rs := by
  intro h
  have hanswer := h shmPage [shmAllocBytes 0x1001, shmAllocBytes 64] (by decide)
    [shmAllocBytes 0x1001] (shmAllocBytes 64) (List.prefix_refl _)
  revert hanswer
  decide

end TinyKvm
