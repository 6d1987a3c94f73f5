import Mathlib.Data.Nat.Notation

/-!
# Growing buffers

A program that keeps an output buffer between requests holds a pointer and a
size in two variables. Here a heap pointer is known by the size of the block it
points at, `none` for NULL, and a `HeapBuffer` is the two variables. It is
`Sized` when a recorded size is one the block really has. Whether an allocation
is granted is an argument, so every pattern of failures is covered.
-/

namespace TinyKvm

/-- `malloc(n)` : the block, or NULL. -/
def malloc (granted : Bool) (n : ℕ) : Option ℕ :=
  if granted then some n else none

/-- `realloc(p, n)` : the block that replaces the one at `p`, or NULL. With a size of zero the
block is released and NULL is returned; when the allocation fails the block stays. -/
def realloc (granted : Bool) (n : ℕ) : Option ℕ :=
  if n = 0 then none else malloc granted n

theorem malloc_eq_some {granted : Bool} {n m : ℕ} :
    malloc granted n = some m ↔ granted = true ∧ m = n := by
  cases granted <;> simp [malloc, eq_comm]

theorem realloc_eq_some {granted : Bool} {n m : ℕ} :
    realloc granted n = some m ↔ n ≠ 0 ∧ granted = true ∧ m = n := by
  by_cases h : n = 0 <;> simp [realloc, h, malloc_eq_some]

/-- A pointer, by the size of its block, and the size the program recorded for it. -/
structure HeapBuffer where
  block : Option ℕ
  size : ℕ
  deriving DecidableEq

namespace HeapBuffer

/-- The buffer before anything is allocated. -/
def empty : HeapBuffer :=
  ⟨none, 0⟩

/-- A buffer of a whole block. -/
def ofBlock (n : ℕ) : HeapBuffer :=
  ⟨some n, n⟩

/-- `size` bytes can be written through the pointer. -/
def Holds (block : Option ℕ) (size : ℕ) : Prop :=
  0 < size → ∃ n, block = some n ∧ size ≤ n

/-- The recorded size is one the block has. -/
def Sized (b : HeapBuffer) : Prop :=
  Holds b.block b.size

theorem sized_empty : Sized empty :=
  fun h => absurd h (Nat.lt_irrefl 0)

theorem sized_ofBlock (n : ℕ) : Sized (ofBlock n) :=
  fun _ => ⟨n, rfl, Nat.le_refl n⟩

end HeapBuffer

end TinyKvm
