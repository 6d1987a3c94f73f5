import TinyKvm.HeapBuffer
import TinyKvm.Json
import TinyKvm.Machine

/-!
# The deflate program

`deflate.cpp` compresses or decompresses the body of a POST. Between requests it
keeps a decompressor and an output buffer, each in one place, and a request that
fails on its way must leave them fit for the next one.

The compressing half does : it takes a failed `realloc` into a variable of its
own. The decompressing half does not. It releases the decompressor whenever it
fails, and overwrites the pointer with the result of a failed `realloc` while
the size stays. So the state stays good through a run exactly when no
decompression in it fails (`state_ok_iff`), and after one that does, the next
decompression uses a released decompressor (`state_not_ok`).

libdeflate is not part of the repository. A request carries what its functions
and the allocator returned while it was handled.
-/

namespace TinyKvm

namespace Deflate

/-- `libdeflate_result`. -/
inductive LibdeflateResult where
  | success
  | badData
  | shortOutput
  | insufficientSpace
  deriving DecidableEq

/-- What `libdeflate_gzip_decompress` did : its result, the count of output bytes if it
stored one, and the bytes of the output buffer after it. -/
structure Decompressed where
  result : LibdeflateResult
  written : Option ℕ
  buffer : Bytes
  deriving DecidableEq

/-- What the library and the allocator returned while one request was handled. -/
structure Replies where
  allocCompressor : Bool
  gzipCompressBound : ℕ
  mallocGranted : Bool
  reallocGranted : Bool
  /-- The size `libdeflate_gzip_compress` returned, and the output buffer after it. -/
  gzipCompress : ℕ × Bytes
  gzipDecompress : Decompressed
  /-- The call after the buffer was resized. -/
  gzipDecompressAgain : Decompressed
  deriving DecidableEq

/-- A POST. -/
structure Request where
  arg : CString
  ctype : Bytes
  content : Bytes
  replies : Replies

/-- The statics of the program. -/
structure Globals where
  decompressorFreed : Bool
  compressionBuffer : HeapBuffer
  deriving DecidableEq

/-- A use of the library, with what is passed to it of the program's state. -/
inductive Use where
  | allocCompressor (level : ℤ)
  | gzipCompress (content : Bytes) (block : Option ℕ) (avail : ℕ)
  | gzipDecompress (freed : Bool) (content : Bytes) (block : Option ℕ) (avail : ℕ)
  | freeDecompressor (freed : Bool)
  deriving DecidableEq

/-- What a request did : its uses of the library, its response (none when an exception
ended it), and the response fields it set, where a bare name unsets a field. -/
structure Outcome where
  uses : List Use
  response : Option Response
  fields : List Bytes

/-- `INITIAL_BUFFER_SIZE`, 16MB. -/
def initialBufferSize : ℕ := 16 <<< 20

/-- An error response. -/
def errorResponse (status : ℕ) (reason : String) : Response :=
  ⟨status, ascii "text/plain", ascii reason⟩

/-- How an argument is rejected : with a response, or by an exception. -/
abbrev Rejected := Option Response

variable (parse : Bytes → Option Json)

/-- "action" of the argument : whether to compress. -/
def actionCompress (j : Json) : Except Rejected Bool :=
  if j.contains "action" then
    match (j.get "action").getString with
    | none => .error none
    | some action =>
      if action = ascii "compress" then .ok true
      else if action = ascii "decompress" then .ok false
      else .error (some (errorResponse 400 "Invalid action"))
  else .ok true

/-- "level" of the argument. -/
def compressionLevel (j : Json) : Except Rejected ℤ :=
  if j.contains "level" then
    match (j.get "level").getInt with
    | none => .error none
    | some level =>
      if level < 1 ∨ level > 12 then
        .error (some (errorResponse 400 "Invalid compression level"))
      else .ok level
  else .ok 6

/-- The optional JSON document : whether to compress, and at what level. -/
def settings (arg : CString) : Except Rejected (Bool × ℤ) :=
  if arg.bytes.length > 0 then
    match parse arg.bytes with
    | none => .error none
    | some j => do
      let action ← actionCompress j
      let level ← compressionLevel j
      return (action, level)
  else .ok (true, 6)

/-- The compression, once its buffer is large enough. -/
def gzipCompress (g : Globals) (q : Request) (level : ℤ) : Globals × Outcome :=
  let b := g.compressionBuffer
  let uses := [.allocCompressor level, .gzipCompress q.content b.block b.size]
  let (actual, buffer) := q.replies.gzipCompress
  if actual = 0 then (g, ⟨uses, some (errorResponse 500 "Compression failed"), []⟩)
  else
    (g, ⟨uses, some ⟨200, q.ctype, buffer.take actual⟩, [ascii "Content-Encoding: gzip"]⟩)

/-- A compression. -/
def compress (g : Globals) (q : Request) (level : ℤ) : Globals × Outcome :=
  let r := q.replies
  let fail (reason : String) : Globals × Outcome :=
    (g, ⟨[.allocCompressor level], some (errorResponse 500 reason), []⟩)
  if r.allocCompressor = false then fail "Failed to allocate compressor"
  else if r.gzipCompressBound > g.compressionBuffer.size then
    match realloc r.reallocGranted r.gzipCompressBound with
    | none => fail "Failed to allocate compression buffer"
    | some n =>
      gzipCompress { g with compressionBuffer := ⟨some n, r.gzipCompressBound⟩ } q level
  else gzipCompress g q level

/-- The buffer a decompression starts with, or the state a failed allocation leaves. -/
def initialBuffer (b : HeapBuffer) (granted : Bool) : Except HeapBuffer HeapBuffer :=
  if b.size = 0 then
    match malloc granted initialBufferSize with
    | none => .error { b with block := none }
    | some n => .ok ⟨some n, initialBufferSize⟩
  else .ok b

/-- The buffer resized for the second attempt, or the state a failed `realloc` leaves. -/
def resizeBuffer (b : HeapBuffer) (granted : Bool) (n : ℕ) : Except HeapBuffer HeapBuffer :=
  match realloc granted n with
  | none => .error { b with block := none }
  | some m => .ok ⟨some m, n⟩

/-- A decompression that ends in an error : the decompressor is released. -/
def decompressFailed (g : Globals) (b : HeapBuffer) (uses : List Use) (reason : String) :
    Globals × Outcome :=
  (⟨true, b⟩,
    ⟨uses ++ [.freeDecompressor g.decompressorFreed], some (errorResponse 500 reason), []⟩)

/-- A decompression that ends well : the content without its encoding. -/
def decompressDone (g : Globals) (b : HeapBuffer) (uses : List Use) (q : Request)
    (content : Bytes) : Globals × Outcome :=
  ({ g with compressionBuffer := b },
    ⟨uses, some ⟨200, q.ctype, content⟩, [ascii "Content-Encoding"]⟩)

/-- What `libdeflate_gzip_decompress` is called with. -/
def decompressUse (g : Globals) (b : HeapBuffer) (q : Request) : Use :=
  .gzipDecompress g.decompressorFreed q.content b.block b.size

/-- The second attempt, in a buffer resized to what the first one left in
`actual_out_nbytes_ret`. -/
def decompressAgain (g : Globals) (b : HeapBuffer) (q : Request) (actual : ℕ) :
    Globals × Outcome :=
  let first := decompressUse g b q
  match resizeBuffer b q.replies.reallocGranted actual with
  | .error b => decompressFailed g b [first] "Failed to allocate decompression buffer"
  | .ok b =>
    let uses := [first, decompressUse g b q]
    let again := q.replies.gzipDecompressAgain
    if again.result = .success then
      decompressDone g b uses q (again.buffer.take (again.written.getD actual))
    else decompressFailed g b uses "Decompression failed"

/-- A decompression. -/
def decompress (g : Globals) (q : Request) : Globals × Outcome :=
  match initialBuffer g.compressionBuffer q.replies.mallocGranted with
  | .error b => decompressFailed g b [] "Failed to allocate decompression buffer"
  | .ok b =>
    let first := q.replies.gzipDecompress
    let actual := first.written.getD 0
    match first.result with
    | .success => decompressDone g b [decompressUse g b q] q (first.buffer.take actual)
    | .insufficientSpace => decompressAgain g b q actual
    | _ => decompressFailed g b [decompressUse g b q] "Decompression failed"

/-- `on_post`. -/
def onPost (g : Globals) (q : Request) : Globals × Outcome :=
  match settings parse q.arg with
  | .error response => (g, ⟨[], response, []⟩)
  | .ok (true, level) => compress g q level
  | .ok (false, _) => decompress g q

/-- The program in one virtual machine, once its decompressor is allocated. -/
def deflateMachine : Machine Globals Request Outcome where
  init := ⟨false, .empty⟩
  step := onPost parse

/-! ## The state between requests -/

/-- The decompressor is there, and the buffer has the size recorded for it. -/
structure StateOk (g : Globals) : Prop where
  alive : g.decompressorFreed = false
  sized : g.compressionBuffer.Sized

/-- A use passes a level the library has, a live decompressor, and no more than the buffer
holds. -/
def Use.Safe : Use → Prop
  | allocCompressor level => 1 ≤ level ∧ level ≤ 12
  | gzipCompress _ block avail => HeapBuffer.Holds block avail
  | gzipDecompress freed _ block avail => freed = false ∧ HeapBuffer.Holds block avail
  | freeDecompressor freed => freed = false

/-- A decompression that finds a recorded size of `size` meets no failure : the buffer can be
had, and the stream is decompressed at once, or after the buffer was resized to a count the
library did store. -/
structure Decompresses (size : ℕ) (r : Replies) : Prop where
  allocated : size = 0 → r.mallocGranted = true
  decompressed : r.gzipDecompress.result = .success ∨
    (r.gzipDecompress.result = .insufficientSpace ∧ r.gzipDecompress.written.getD 0 ≠ 0 ∧
      r.reallocGranted = true ∧ r.gzipDecompressAgain.result = .success)

/-- The request is not a decompression that fails. -/
def NotFailing (g : Globals) (q : Request) : Prop :=
  match settings parse q.arg with
  | .ok (false, _) => Decompresses g.compressionBuffer.size q.replies
  | _ => True

/-! ## What an accepted argument says -/

/-- A level that is accepted is one the library has. -/
theorem level_of_compressionLevel {j : Json} {level : ℤ} (h : compressionLevel j = .ok level) :
    1 ≤ level ∧ level ≤ 12 := by
  unfold compressionLevel at h
  split at h
  · split at h
    · cases h
    · split at h
      · cases h
      · cases h
        omega
  · cases h
    decide

theorem level_of_settings {arg : CString} {action : Bool} {level : ℤ}
    (h : settings parse arg = .ok (action, level)) : 1 ≤ level ∧ level ≤ 12 := by
  unfold settings at h
  split at h
  · split at h
    · cases h
    · next j _ =>
      cases ha : actionCompress j with
      | error e => rw [ha] at h; cases h
      | ok action' =>
        cases hl : compressionLevel j with
        | error e => rw [ha, hl] at h; cases h
        | ok level' =>
          rw [ha, hl] at h
          cases h
          exact level_of_compressionLevel hl
  · cases h
    decide

/-! ## One request -/

/-- The first buffer of a decompression : had, and sized, unless it was to be allocated and
could not be, which leaves the buffer empty. -/
theorem initialBuffer_spec {b : HeapBuffer} (hb : b.Sized) (granted : Bool) :
    (∃ b', initialBuffer b granted = .ok b' ∧ b'.Sized ∧ (b.size = 0 → granted = true)) ∨
      (initialBuffer b granted = .error .empty ∧ b.size = 0 ∧ granted = false) := by
  by_cases hs : b.size = 0
  · cases granted with
    | true =>
      refine .inl ⟨.ofBlock initialBufferSize, ?_, HeapBuffer.sized_ofBlock _, fun _ => rfl⟩
      simp [initialBuffer, hs, malloc, HeapBuffer.ofBlock]
    | false => exact .inr ⟨by simp [initialBuffer, hs, malloc, HeapBuffer.empty], hs, rfl⟩
  · exact .inl ⟨b, by simp [initialBuffer, hs], hb, fun h => absurd h hs⟩

theorem resizeBuffer_spec (b : HeapBuffer) (granted : Bool) (n : ℕ) :
    (resizeBuffer b granted n = .ok (.ofBlock n) ∧ n ≠ 0 ∧ granted = true) ∨
      (resizeBuffer b granted n = .error ⟨none, b.size⟩ ∧ ¬(n ≠ 0 ∧ granted = true)) := by
  by_cases h : n ≠ 0 ∧ granted = true
  · exact .inl ⟨by simp [resizeBuffer, realloc, malloc, h, HeapBuffer.ofBlock], h⟩
  · refine .inr ⟨?_, h⟩
    have hr : realloc granted n = none := by
      by_contra hr
      obtain ⟨m, hm⟩ := Option.ne_none_iff_exists'.1 hr
      obtain ⟨hn, hg, -⟩ := realloc_eq_some.1 hm
      exact h ⟨hn, hg⟩
    simp [resizeBuffer, hr]

theorem gzipCompress_spec {g : Globals} (hg : StateOk g) (q : Request) {level : ℤ}
    (hl : 1 ≤ level ∧ level ≤ 12) :
    StateOk (gzipCompress g q level).1 ∧ ∀ u ∈ (gzipCompress g q level).2.uses, u.Safe := by
  have huses : ∀ u ∈ [Use.allocCompressor level,
      .gzipCompress q.content g.compressionBuffer.block g.compressionBuffer.size], u.Safe := by
    intro u hu
    rcases List.mem_pair.1 hu with rfl | rfl
    · exact hl
    · exact hg.sized
  unfold gzipCompress
  by_cases h : q.replies.gzipCompress.1 = 0
  · simp only [h, if_true]
    exact ⟨hg, huses⟩
  · simp only [h, if_false]
    exact ⟨hg, huses⟩

/-- A compression keeps the state good however it ends, and uses the library well. -/
theorem compress_spec {g : Globals} (hg : StateOk g) (q : Request) {level : ℤ}
    (hl : 1 ≤ level ∧ level ≤ 12) :
    StateOk (compress g q level).1 ∧ ∀ u ∈ (compress g q level).2.uses, u.Safe := by
  have hfail : ∀ u ∈ [Use.allocCompressor level], u.Safe := fun u hu => by
    rw [List.mem_singleton.1 hu]
    exact hl
  unfold compress
  by_cases hc : q.replies.allocCompressor = false
  · rw [if_pos hc]
    exact ⟨hg, hfail⟩
  rw [if_neg hc]
  by_cases hb : q.replies.gzipCompressBound > g.compressionBuffer.size
  · rw [if_pos hb]
    cases hr : realloc q.replies.reallocGranted q.replies.gzipCompressBound with
    | none => exact ⟨hg, hfail⟩
    | some n =>
      obtain ⟨-, -, rfl⟩ := realloc_eq_some.1 hr
      exact gzipCompress_spec (g := { g with compressionBuffer := .ofBlock _ })
        ⟨hg.alive, HeapBuffer.sized_ofBlock _⟩ q hl
  · rw [if_neg hb]
    exact gzipCompress_spec hg q hl

theorem decompressUse_safe {g : Globals} (hg : StateOk g) {b : HeapBuffer} (hb : b.Sized)
    (q : Request) : (decompressUse g b q).Safe :=
  ⟨hg.alive, hb⟩

/-- A failed decompression spoils the state, with one more good use of the library. -/
theorem decompressFailed_spec {g : Globals} (hg : StateOk g) (b : HeapBuffer) {uses : List Use}
    (hu : ∀ u ∈ uses, u.Safe) (reason : String) :
    ¬StateOk (decompressFailed g b uses reason).1 ∧
      ∀ u ∈ (decompressFailed g b uses reason).2.uses, u.Safe := by
  refine ⟨fun h => absurd h.alive (by simp [decompressFailed]), fun u h => ?_⟩
  rcases List.mem_append.1 h with h | h
  · exact hu u h
  · rw [List.mem_singleton.1 h]
    exact hg.alive

theorem decompressAgain_spec {g : Globals} (hg : StateOk g) {b : HeapBuffer} (hb : b.Sized)
    (q : Request) (actual : ℕ) :
    (StateOk (decompressAgain g b q actual).1 ↔ actual ≠ 0 ∧ q.replies.reallocGranted = true ∧
        q.replies.gzipDecompressAgain.result = .success) ∧
      ∀ u ∈ (decompressAgain g b q actual).2.uses, u.Safe := by
  have hfirst := decompressUse_safe hg hb q
  unfold decompressAgain
  rcases resizeBuffer_spec b q.replies.reallocGranted actual with ⟨hr, hn, hgr⟩ | ⟨hr, hno⟩
  · simp only [hr]
    have hsized := HeapBuffer.sized_ofBlock actual
    have huses : ∀ u ∈ [decompressUse g b q, decompressUse g (.ofBlock actual) q], u.Safe := by
      intro u hu
      rcases List.mem_pair.1 hu with rfl | rfl
      · exact hfirst
      · exact decompressUse_safe hg hsized q
    by_cases hs : q.replies.gzipDecompressAgain.result = .success
    · rw [if_pos hs]
      exact ⟨iff_of_true ⟨hg.alive, hsized⟩ ⟨hn, hgr, hs⟩, huses⟩
    · rw [if_neg hs]
      obtain ⟨hbad, hu⟩ := decompressFailed_spec hg (.ofBlock actual) huses "Decompression failed"
      exact ⟨iff_of_false hbad fun h => hs h.2.2, hu⟩
  · simp only [hr]
    obtain ⟨hbad, hu⟩ := decompressFailed_spec hg ⟨none, b.size⟩
      (List.forall_mem_singleton.2 hfirst) "Failed to allocate decompression buffer"
    exact ⟨iff_of_false hbad fun h => hno ⟨h.1, h.2.1⟩, hu⟩

/-- A decompression keeps the state good exactly when it meets no failure. Its own uses of
the library are good in either case. -/
theorem decompress_spec {g : Globals} (hg : StateOk g) (q : Request) :
    (StateOk (decompress g q).1 ↔ Decompresses g.compressionBuffer.size q.replies) ∧
      ∀ u ∈ (decompress g q).2.uses, u.Safe := by
  unfold decompress
  rcases initialBuffer_spec hg.sized q.replies.mallocGranted with
    ⟨b, hb, hsized, halloc⟩ | ⟨hb, hsize, hfailed⟩
  · have hfirst := List.forall_mem_singleton.2 (decompressUse_safe hg hsized q)
    have hfailed := decompressFailed_spec hg b hfirst "Decompression failed"
    simp only [hb]
    cases hres : q.replies.gzipDecompress.result with
    | success => exact ⟨iff_of_true ⟨hg.alive, hsized⟩ ⟨halloc, .inl hres⟩, hfirst⟩
    | insufficientSpace =>
      obtain ⟨hiff, hu⟩ :=
        decompressAgain_spec hg hsized q (q.replies.gzipDecompress.written.getD 0)
      refine ⟨hiff.trans ⟨fun h => ⟨halloc, .inr ⟨hres, h⟩⟩, fun h => ?_⟩, hu⟩
      rcases h.decompressed with h | h
      · rw [hres] at h
        cases h
      · exact h.2
    | badData =>
      refine ⟨iff_of_false hfailed.1 fun h => ?_, hfailed.2⟩
      rcases h.decompressed with h | h <;> simp [hres] at h
    | shortOutput =>
      refine ⟨iff_of_false hfailed.1 fun h => ?_, hfailed.2⟩
      rcases h.decompressed with h | h <;> simp [hres] at h
  · simp only [hb]
    obtain ⟨hbad, hu⟩ := decompressFailed_spec hg .empty (fun u hu => absurd hu List.not_mem_nil)
      "Failed to allocate decompression buffer"
    exact ⟨iff_of_false hbad fun h => by simp [h.allocated hsize] at hfailed, hu⟩

/-- From a good state, a request keeps it good exactly if it is not a decompression that
fails, and uses the library well in either case. -/
theorem onPost_spec {g : Globals} (hg : StateOk g) (q : Request) :
    (StateOk (onPost parse g q).1 ↔ NotFailing parse g q) ∧
      ∀ u ∈ (onPost parse g q).2.uses, u.Safe := by
  unfold onPost NotFailing
  match hs : settings parse q.arg with
  | .error response => exact ⟨iff_of_true hg trivial, fun u hu => absurd hu List.not_mem_nil⟩
  | .ok (true, level) =>
    obtain ⟨hok, hu⟩ := compress_spec hg q (level_of_settings parse hs)
    exact ⟨iff_of_true hok trivial, hu⟩
  | .ok (false, _) => exact decompress_spec hg q

/-! ## A run -/

/-- The state is good after every request of a run exactly when no decompression in it
fails, and while it is good, a further request uses no released decompressor and no buffer
shorter than the size it passes. -/
theorem state_ok_iff (qs : List Request) :
    ((deflateMachine parse).Always StateOk qs ↔
        (deflateMachine parse).Meets (NotFailing parse) qs) ∧
      ((deflateMachine parse).Always StateOk qs →
        ∀ q, ∀ u ∈ ((deflateMachine parse).answer qs q).uses, u.Safe) := by
  constructor
  · exact (deflateMachine parse).always_iff_meets ⟨rfl, HeapBuffer.sized_empty⟩
      (fun _ q hg => (onPost_spec parse hg q).1) qs
  · exact fun h q => (onPost_spec parse (h qs (List.prefix_refl _)) q).2

/-! ## A stream that is not gzip -/

/-- The argument that asks for a decompression, `{"action":"decompress"}`. -/
def argDecompress : CString :=
  ⟨[0x7B] ++ ascii "\"action\":\"decompress\"" ++ [0x7D], by simp [ascii]⟩

/-- The parser on that argument. -/
def parseAction (arg : Bytes) : Option Json :=
  if arg = argDecompress.bytes then
    some (.object [(ascii "action", .string (ascii "decompress"))])
  else none

/-- Every allocation succeeds, and no stream is one of gzip. -/
def repliesBadData : Replies where
  allocCompressor := true
  gzipCompressBound := 64
  mallocGranted := true
  reallocGranted := true
  gzipCompress := (0, [])
  gzipDecompress := ⟨.badData, none, []⟩
  gzipDecompressAgain := ⟨.badData, none, []⟩

/-- A POST of a body that is not gzip, to be decompressed. -/
def postBadData : Request :=
  ⟨argDecompress, ascii "text/plain", ascii "no gzip", repliesBadData⟩

/-- One such POST releases the decompressor, and a second one uses it. -/
theorem state_not_ok :
    ¬(deflateMachine parseAction).Always StateOk [postBadData] ∧
      ¬∀ u ∈ ((deflateMachine parseAction).answer [postBadData] postBadData).uses, u.Safe := by
  constructor
  · intro h
    exact absurd (h [postBadData] (List.prefix_refl _)).alive (by decide)
  · intro h
    have h := h (.gzipDecompress true (ascii "no gzip") (some initialBufferSize) initialBufferSize)
      (by decide)
    exact absurd h.1 (by decide)

end Deflate

end TinyKvm
