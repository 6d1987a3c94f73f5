import Mathlib.Data.List.Basic

/-!
# Bytes and responses

Data of `kvm_api.h` that every program shares : byte strings, zero-terminated
strings, and the response a program hands to `backend_response`. A response
concludes the request, so a handler produces at most one and no code runs after
it.
-/

namespace TinyKvm

/-- A byte. -/
abbrev Byte := BitVec 8

/-- A buffer of bytes, a `std::string` or `(pointer, length)` pair of the source. -/
abbrev Bytes := List Byte

/-- The bytes of an ASCII literal. -/
def ascii (s : String) : Bytes :=
  s.toList.map fun c => BitVec.ofNat 8 c.toNat

/-- A zero-terminated string : its bytes before the terminator, none of which is zero. -/
structure CString where
  bytes : Bytes
  nonzero : ∀ b ∈ bytes, b ≠ 0

/-- What `backend_response` sends : status, content type, and content. -/
structure Response where
  status : ℕ
  ctype : Bytes
  content : Bytes
  deriving DecidableEq, Repr

end TinyKvm
