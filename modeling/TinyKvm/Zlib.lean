import TinyKvm.Api
import TinyKvm.HeapBuffer
import TinyKvm.Machine
import Mathlib.Algebra.Group.Nat.Defs

/-!
# The zlib program

`zlib.c` compresses the body of a POST into a buffer it keeps between requests.
A body whose `compressBound` is more than the recorded size has the buffer grown
first. The result of that `realloc` goes to the pointer at once, so when it fails
the pointer is lost and the size stays, and a later body that fits the size is
compressed through a null pointer (`buffer_lost`). The other exits on an error
leave the buffer alone, so it is kept through a run exactly when no `realloc`
fails (`buffer_kept_iff`).

zlib-ng is not part of the repository. A request carries what its functions and
the allocator returned while it was handled.
-/

namespace TinyKvm

namespace Zlib

/-- What `deflate` did : whether it returned `Z_STREAM_END`, the count of output bytes, and the
output buffer after it. -/
structure Deflated where
  streamEnd : Bool
  totalOut : ℕ
  buffer : Bytes

/-- What the library and the allocator returned while one request was handled. -/
structure Replies where
  reallocGranted : Bool
  /-- `deflateInit2` returned `Z_OK`. -/
  deflateInit : Bool
  deflate : Deflated

/-- A POST. -/
structure Request where
  ctype : CString
  content : Bytes
  replies : Replies

/-- What `deflate` is called with : the counts are of 32 bits. -/
structure Use where
  nextIn : Bytes
  availIn : ℕ
  nextOut : Option ℕ
  availOut : ℕ
  deriving DecidableEq

/-- What a request did : its calls of `deflate`, its response, and the response fields it set. -/
structure Outcome where
  uses : List Use
  response : Response
  fields : List Bytes

/-- An error response. -/
def errorResponse (reason : String) : Response :=
  ⟨503, ascii "text/plain", ascii reason⟩

/-- The `z_stream` of a request. -/
def outstream (b : HeapBuffer) (q : Request) : Use :=
  ⟨q.content, q.content.length % 2 ^ 32, b.block, b.size % 2 ^ 32⟩

/-- The response with the compressed content. -/
def compressed (q : Request) : Response :=
  ⟨200, q.ctype.bytes, q.replies.deflate.buffer.take q.replies.deflate.totalOut⟩

/-- The compression, once the buffer is large enough. -/
def compress (b : HeapBuffer) (q : Request) : Outcome :=
  if q.replies.deflateInit = false then
    ⟨[], errorResponse "Failed to initialize compression", []⟩
  else if q.replies.deflate.streamEnd = false then
    ⟨[outstream b q], errorResponse "Failed to compress data", []⟩
  else
    ⟨[outstream b q], compressed q,
      [ascii "Content-Encoding: gzip", ascii "Vary: Accept-Encoding"]⟩

variable (compressBound : ℕ → ℕ)

/-- `on_post`. -/
def onPost (b : HeapBuffer) (q : Request) : HeapBuffer × Outcome :=
  let needed := compressBound q.content.length
  if b.size < needed then
    match realloc q.replies.reallocGranted needed with
    | none =>
      ({ b with block := none },
        ⟨[], errorResponse "Failed to allocate compression buffer", []⟩)
    | some n => (⟨some n, needed⟩, compress ⟨some n, needed⟩ q)
  else (b, compress b q)

/-- The buffer is there, with at least the size recorded for it. -/
def Kept (b : HeapBuffer) : Prop :=
  ∃ n, b.block = some n ∧ b.size ≤ n

/-- `deflate` is given a buffer, and room that it has. -/
def Use.Safe (u : Use) : Prop :=
  ∃ n, u.nextOut = some n ∧ u.availOut ≤ n

/-- A request is served : `deflate` is called on a buffer with the room it is told of, and when
the library succeeds the compressed content is the response. -/
structure Served (q : Request) (o : Outcome) : Prop where
  safe : ∀ u ∈ o.uses, u.Safe
  succeeds : q.replies.deflateInit = true → q.replies.deflate.streamEnd = true →
    o.response = compressed q

variable {compressBound}

end Zlib

end TinyKvm
