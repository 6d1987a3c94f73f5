import TinyKvm.Api
import Mathlib.Data.Int.Notation

/-!
# Storage calls

`storage_callv` runs a function in the storage machine on the buffers of the
request machine, and copies the buffer the function passes to `storage_return`
into the caller's. It returns the length of the reply, or a negative number if
the function did not get that far. The host is not part of the programs : what it
returns for a failed call, and what it makes of a reply that does not fit, are
its own.
-/

namespace TinyKvm

/-- A run of a storage function : the buffers it passed to `storage_return`, and whether it
aborted. -/
structure StorageRun where
  returns : List Bytes
  aborted : Bool

/-- The host's part of a storage call. -/
structure StorageHost where
  failure : ℤ
  failure_neg : failure < 0
  oversized : Bytes → ℕ → ℤ × Bytes

namespace StorageHost

variable (host : StorageHost) {func : List Bytes → ℕ → StorageRun} {buffers : List Bytes}
  {resmax : ℕ}

/-- `storage_callv` : what it returns, and what it leaves in the caller's buffer. -/
def callv (func : List Bytes → ℕ → StorageRun) (buffers : List Bytes) (resmax : ℕ) : ℤ × Bytes :=
  match (func buffers resmax).aborted, (func buffers resmax).returns with
  | false, reply :: _ =>
    if reply.length ≤ resmax then ((reply.length : ℤ), reply) else host.oversized reply resmax
  | _, _ => (host.failure, [])

/-- A host that returns -1 for a failed call and for a reply that does not fit. -/
def refusing : StorageHost where
  failure := -1
  failure_neg := by omega
  oversized _ _ := (-1, [])

theorem callv_of_reply {reply : Bytes} (h : func buffers resmax = ⟨[reply], false⟩)
    (hle : reply.length ≤ resmax) :
    host.callv func buffers resmax = ((reply.length : ℤ), reply) := by
  simp only [callv, h, if_pos hle]

theorem callv_of_aborted {returns : List Bytes} (h : func buffers resmax = ⟨returns, true⟩) :
    host.callv func buffers resmax = (host.failure, []) := by
  simp only [callv, h]

end StorageHost

end TinyKvm
