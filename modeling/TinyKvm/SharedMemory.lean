import TinyKvm.Alignment
import TinyKvm.Machine
import Mathlib.Order.CompletePartialOrder
import Mathlib.Order.Interval.Set.Disjoint

/-!
# The shared-memory allocator

`internal_shm_alloc` of `kvm_api.h` hands out blocks of the area that
`shared_memory_area` returns. One static record holds the cursor and the end of
the area. A cursor of zero stands for a record not yet filled, and every call
moves the cursor past the block it was asked for, also when it then returns NULL.

The comparison with the end is made on a 64-bit sum. A call whose aligned cursor
plus size passes `2 ^ 64` can therefore pass the comparison with a block that
does not fit, or set the cursor back (`shmSound_fails`). While no call does that
(`NoWrap`) the cursor stays above every block handed out, and the blocks are
aligned, inside the area and disjoint (`shmSound_of_noWrap`).
-/

namespace TinyKvm

/-- `struct shared_memory_info`. -/
structure SharedMemoryInfo where
  ptr : BitVec 64
  end_ : BitVec 64
  deriving DecidableEq

/-- What `shared_memory_area` may return : an area `[ptr, end)` that does not start at zero. -/
structure SharedMemoryArea extends SharedMemoryInfo where
  pos : 0 < ptr.toNat
  ordered : ptr.toNat ≤ end_.toNat

/-- The arguments of a call. The alignment is a power of two. -/
structure ShmRequest where
  size : BitVec 64
  align : BitVec 64
  isPow2 : ∃ k < 64, align = BitVec.twoPow 64 k
  deriving DecidableEq

variable (area : SharedMemoryArea)

/-- The static record as a call sees it : filled from the area when its cursor is zero. -/
def shmInfo (info : SharedMemoryInfo) : SharedMemoryInfo :=
  if info.ptr = 0 then area.toSharedMemoryInfo else info

/-- `internal_shm_alloc` : the record it leaves, and the pointer it returns, zero for NULL. -/
def internalShmAlloc (info : SharedMemoryInfo) (size align : BitVec 64) :
    SharedMemoryInfo × BitVec 64 :=
  let info := shmInfo area info
  let p := (info.ptr + (align - 1)) &&& ~~~(align - 1)
  ({ info with ptr := p + size }, if p + size ≤ info.end_ then p else 0)

/-- The allocator of one translation unit. -/
def shmMachine : Machine SharedMemoryInfo ShmRequest (BitVec 64) where
  init := ⟨0, 0⟩
  step info r := internalShmAlloc area info r.size r.align

/-- The end of the block a call asks for, in unbounded arithmetic. -/
def shmEnd (info : SharedMemoryInfo) (r : ShmRequest) : ℕ :=
  alignUp r.align.toNat (shmInfo area info).ptr.toNat + r.size.toNat

/-- The call's 64-bit comparison does not pass because its sum wrapped around. -/
def NoWrap (info : SharedMemoryInfo) (r : ShmRequest) : Prop :=
  shmEnd area info r % 2 ^ 64 ≤ area.end_.toNat → shmEnd area info r < 2 ^ 64

instance (info : SharedMemoryInfo) (r : ShmRequest) : Decidable (NoWrap area info r) :=
  inferInstanceAs (Decidable (_ → _))

/-- The addresses of the block a call returned. -/
def shmBlock (c : ShmRequest × BitVec 64) : Set ℕ :=
  Set.Ico c.2.toNat (c.2.toNat + c.1.size.toNat)

/-- Every block returned is aligned and inside the area, and no two of them overlap. -/
structure ShmSound (t : List (ShmRequest × BitVec 64)) : Prop where
  aligned : ∀ c ∈ t, c.2 ≠ 0 → c.1.align.toNat ∣ c.2.toNat
  inside : ∀ c ∈ t, c.2 ≠ 0 →
    area.ptr.toNat ≤ c.2.toNat ∧ c.2.toNat + c.1.size.toNat ≤ area.end_.toNat
  disjoint : t.Pairwise fun c d => c.2 ≠ 0 → d.2 ≠ 0 → Disjoint (shmBlock c) (shmBlock d)

/-! ## One call -/

theorem ShmRequest.align_pos (r : ShmRequest) : 0 < r.align.toNat := by
  obtain ⟨k, hk, h⟩ := r.isPow2
  rw [h, BitVec.toNat_twoPow_of_lt hk]
  exact Nat.two_pow_pos k

/-- The aligned cursor, in the call's 64-bit arithmetic. -/
theorem ShmRequest.toNat_aligned (r : ShmRequest) (x : BitVec 64) :
    ((x + (r.align - 1)) &&& ~~~(r.align - 1)).toNat =
      alignUp r.align.toNat x.toNat % 2 ^ 64 := by
  obtain ⟨k, hk, h⟩ := r.isPow2
  rw [h, toNat_mask hk, BitVec.toNat_twoPow_of_lt hk]

/-- A call that does not wrap either returns the aligned cursor and moves to the end of
its block, inside the area, or returns NULL and moves past the area. -/
theorem internalShmAlloc_of_noWrap {info : SharedMemoryInfo} {r : ShmRequest}
    (hend : (shmInfo area info).end_ = area.end_) (hw : NoWrap area info r) :
    ∃ ptr p, internalShmAlloc area info r.size r.align = (⟨ptr, area.end_⟩, p) ∧
      ((p.toNat = alignUp r.align.toNat (shmInfo area info).ptr.toNat ∧
          ptr.toNat = p.toNat + r.size.toNat ∧ ptr.toNat ≤ area.end_.toNat) ∨
        (p = 0 ∧ area.end_.toNat < ptr.toNat)) := by
  have hp := r.toNat_aligned (shmInfo area info).ptr
  set p := ((shmInfo area info).ptr + (r.align - 1)) &&& ~~~(r.align - 1) with hpdef
  have hsum : (p + r.size).toNat = shmEnd area info r % 2 ^ 64 := by
    rw [BitVec.toNat_add, hp, Nat.mod_add_mod, shmEnd]
  have hle : p + r.size ≤ (shmInfo area info).end_ ↔
      shmEnd area info r % 2 ^ 64 ≤ area.end_.toNat := by
    rw [hend, BitVec.le_def, hsum]
  refine ⟨p + r.size, if p + r.size ≤ (shmInfo area info).end_ then p else 0, ?_, ?_⟩
  · simp only [internalShmAlloc, ← hend, ← hpdef]
  · by_cases h : p + r.size ≤ (shmInfo area info).end_
    · left
      have hend' := hle.1 h
      have hlt := hw hend'
      rw [if_pos h, hsum]
      rw [Nat.mod_eq_of_lt hlt] at hend' ⊢
      unfold shmEnd at hlt hend' ⊢
      rw [Nat.mod_eq_of_lt (by omega)] at hp
      omega
    · right
      rw [if_neg h, hsum]
      exact ⟨rfl, Nat.lt_of_not_le fun h' => h (hle.2 h')⟩

/-! ## Runs -/

/-- The cursor is inside or past the area and above every block returned so far. -/
structure ShmInv (t : List (ShmRequest × BitVec 64)) (info : SharedMemoryInfo) : Prop where
  sound : ShmSound area t
  end_eq : (shmInfo area info).end_ = area.end_
  le_ptr : area.ptr.toNat ≤ (shmInfo area info).ptr.toNat
  below : ∀ c ∈ t, c.2 ≠ 0 → c.2.toNat + c.1.size.toNat ≤ (shmInfo area info).ptr.toNat

theorem shmInv_init : ShmInv area [] ⟨0, 0⟩ where
  sound := ⟨by simp, by simp, List.Pairwise.nil⟩
  end_eq := rfl
  le_ptr := le_rfl
  below := by simp

/-- A block that starts above every earlier block overlaps none of them. -/
theorem ShmSound.snoc {t : List (ShmRequest × BitVec 64)} (h : ShmSound area t)
    {r : ShmRequest} {p : BitVec 64}
    (hp : p ≠ 0 → r.align.toNat ∣ p.toNat ∧ area.ptr.toNat ≤ p.toNat ∧
      p.toNat + r.size.toNat ≤ area.end_.toNat)
    (hbelow : p ≠ 0 → ∀ d ∈ t, d.2 ≠ 0 → d.2.toNat + d.1.size.toNat ≤ p.toNat) :
    ShmSound area (t ++ [(r, p)]) where
  aligned d hd h0 := by
    rcases List.mem_append.1 hd with hd | hd
    · exact h.aligned d hd h0
    · obtain rfl := List.mem_singleton.1 hd
      exact (hp h0).1
  inside d hd h0 := by
    rcases List.mem_append.1 hd with hd | hd
    · exact h.inside d hd h0
    · obtain rfl := List.mem_singleton.1 hd
      exact (hp h0).2
  disjoint := by
    refine List.pairwise_append.2 ⟨h.disjoint, List.pairwise_singleton _ _, ?_⟩
    intro d hd e he hd0 he0
    obtain rfl := List.mem_singleton.1 he
    have hle := hbelow he0 d hd hd0
    refine Set.disjoint_left.2 fun x hx hx' => ?_
    simp only [shmBlock, Set.mem_Ico] at hx hx'
    omega

/-- A call that does not wrap keeps the invariant. -/
theorem shmInv_step {t : List (ShmRequest × BitVec 64)} {info : SharedMemoryInfo}
    {r : ShmRequest} (h : ShmInv area t info) (hw : NoWrap area info r) :
    ShmInv area (t ++ [(r, (internalShmAlloc area info r.size r.align).2)])
      (internalShmAlloc area info r.size r.align).1 := by
  obtain ⟨ptr, p, heq, hcase⟩ := internalShmAlloc_of_noWrap area h.end_eq hw
  have hle := le_alignUp r.align_pos (shmInfo area info).ptr.toNat
  have hpos := area.pos
  have hord := area.ordered
  have hptr := h.le_ptr
  have hinfo : shmInfo area ⟨ptr, area.end_⟩ = ⟨ptr, area.end_⟩ := by
    refine if_neg fun h0 : ptr = 0 => ?_
    have h0' : ptr.toNat = 0 := by rw [h0]; rfl
    omega
  have hsome : p ≠ 0 → p.toNat = alignUp r.align.toNat (shmInfo area info).ptr.toNat ∧
      ptr.toNat = p.toNat + r.size.toNat ∧ ptr.toNat ≤ area.end_.toNat :=
    fun h0 => hcase.resolve_right fun hn => h0 hn.1
  have hsound : ShmSound area (t ++ [(r, p)]) := by
    refine h.sound.snoc area (fun h0 => ?_) (fun h0 d hd hd0 => ?_)
    · obtain ⟨hp, hend, hle'⟩ := hsome h0
      exact ⟨hp ▸ dvd_alignUp _ _, by omega, by omega⟩
    · obtain ⟨hp, -, -⟩ := hsome h0
      have := h.below d hd hd0
      omega
  have hbelow : ∀ d ∈ t ++ [(r, p)], d.2 ≠ 0 → d.2.toNat + d.1.size.toNat ≤ ptr.toNat := by
    intro d hd h0
    rcases List.mem_append.1 hd with hd | hd
    · have := h.below d hd h0
      have := h.sound.inside d hd h0
      omega
    · obtain rfl := List.mem_singleton.1 hd
      exact (hsome h0).2.1.ge
  rw [heq]
  refine ⟨hsound, ?_, ?_, ?_⟩
  · rw [hinfo]
  · rw [hinfo]
    show area.ptr.toNat ≤ ptr.toNat
    omega
  · rw [hinfo]
    exact hbelow

/-- While no call wraps around, every block returned is aligned and inside the area,
and no two of them overlap, whichever calls failed in between. -/
theorem shmSound_of_noWrap (rs : List ShmRequest) (h : (shmMachine area).Meets (NoWrap area) rs) :
    ShmSound area ((shmMachine area).trace rs) := by
  refine ((shmMachine area).run_induction
    (I := fun is info => ShmInv area ((shmMachine area).trace is) info)
    (shmInv_init area) (fun is r hinv hw => ?_) rs h).sound
  rw [Machine.trace_snoc, Machine.after_snoc]
  exact shmInv_step area hinv hw

/-- The area `[0x1000, 0x2000)`. -/
def shmPage : SharedMemoryArea :=
  ⟨⟨0x1000, 0x2000⟩, by decide, by decide⟩

/-- A request of `SHM_ALLOC_BYTES`, which asks for alignment 8. -/
def shmAllocBytes (size : BitVec 64) : ShmRequest :=
  ⟨size, 8, 3, by decide, by decide⟩

/-- In a page, 64 bytes are granted, a request of `0x1800` bytes returns NULL, and none of the
two wraps around. -/
theorem shmSound_page :
    ShmSound shmPage ((shmMachine shmPage).trace [shmAllocBytes 64, shmAllocBytes 0x1800]) :=
  shmSound_of_noWrap shmPage [shmAllocBytes 64, shmAllocBytes 0x1800] (by decide)

/-- Not every run is sound : the size `-64` is granted 64 bytes into the page, sets the
cursor back to its start, and the next block overlaps the first. -/
theorem shmSound_fails :
    ¬∀ (area : SharedMemoryArea) (rs : List ShmRequest),
      ShmSound area ((shmMachine area).trace rs) := by
  intro h
  have h := (h shmPage [shmAllocBytes 64, shmAllocBytes (-64), shmAllocBytes 64]).inside
    (shmAllocBytes (-64), 0x1040) (by decide) (by decide)
  revert h
  decide

end TinyKvm
