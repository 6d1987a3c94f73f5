import TinyKvm.Deflate

/-!
# Decompressing more than the buffer holds

A decompression in `deflate.cpp` that runs out of space has its buffer resized to
what the first attempt left in `actual_out_nbytes_ret`, and is tried again.
libdeflate writes that count only when it succeeds, so the buffer is resized to
zero bytes, which `realloc` answers with NULL, and the request fails.

So a gzip stream is answered with its content exactly if the content fits the
buffer that is there, of 16MB if there is none yet (`inflates_iff`). What is there
is what the requests before left : a compression of a few bytes leaves a buffer
that hardly anything fits (`not_inflates`).
-/

namespace TinyKvm

namespace Deflate

variable (parse : Bytes → Option Json) (gunzip : Bytes → Option Bytes)

/-- What libdeflate documents of a decompression that it is asked for properly : a stream whose
content fits is decompressed and its size stored, and for one that does not fit there is
insufficient space, with nothing stored. -/
def Documented (u : Use) (d : Decompressed) : Prop :=
  match u with
  | .gzipDecompress _ content _ avail =>
    u.Safe → ∀ out, gunzip content = some out →
      if out.length ≤ avail then
        d.result = .success ∧ d.written = some out.length ∧ d.buffer.take out.length = out
      else d.result = .insufficientSpace ∧ d.written = none
  | _ => True

/-- The allocations of a request succeed, and libdeflate does what it documents. -/
structure Answered (g : Globals) (q : Request) : Prop where
  malloc : q.replies.mallocGranted = true
  realloc : q.replies.reallocGranted = true
  first : ∀ u, (onPost parse g q).2.uses[0]? = some u →
    Documented gunzip u q.replies.gzipDecompress
  again : ∀ u, (onPost parse g q).2.uses[1]? = some u →
    Documented gunzip u q.replies.gzipDecompressAgain

/-- A POST that asks for the decompression of a gzip stream, with its content. -/
structure GzipPost where
  arg : CString
  ctype : Bytes
  stream : Bytes
  content : Bytes
  level : ℤ
  accepted : settings parse arg = .ok (false, level)
  valid : gunzip stream = some content

/-- The request, with the replies it meets. -/
def GzipPost.request {parse gunzip} (p : GzipPost parse gunzip) (r : Replies) : Request :=
  ⟨p.arg, p.ctype, p.stream, r⟩

/-- The POST is answered with the content. -/
def Inflates {parse gunzip} (g : Globals) (p : GzipPost parse gunzip) : Prop :=
  ∀ r, Answered parse gunzip g (p.request r) →
    (onPost parse g (p.request r)).2.response = some ⟨200, p.ctype, p.content⟩

/-- The space of the first attempt. -/
def room (b : HeapBuffer) : ℕ :=
  if b.size = 0 then initialBufferSize else b.size

variable {parse gunzip}

theorem GzipPost.onPost_eq (p : GzipPost parse gunzip) (g : Globals) (r : Replies) :
    onPost parse g (p.request r) = decompress g (p.request r) := by
  simp only [onPost, GzipPost.request, p.accepted]

/-- When allocations succeed, the first attempt has a buffer of that space. -/
theorem exists_initialBuffer (b : HeapBuffer) :
    ∃ b', initialBuffer b true = .ok b' ∧ b'.size = room b ∧ (b'.Sized ↔ b.Sized) := by
  unfold room
  by_cases h : b.size = 0
  · have hempty : b.Sized := fun hpos => absurd h hpos.ne'
    rw [if_pos h]
    exact ⟨.ofBlock initialBufferSize, by simp [initialBuffer, h, malloc, HeapBuffer.ofBlock], rfl,
      iff_of_true (HeapBuffer.sized_ofBlock _) hempty⟩
  · rw [if_neg h]
    exact ⟨b, by simp [initialBuffer, h], rfl, Iff.rfl⟩

/-- The first use of a decompression is that of its first attempt. -/
theorem decompress_uses_head {g : Globals} {q : Request} {b : HeapBuffer}
    (hb : initialBuffer g.compressionBuffer q.replies.mallocGranted = .ok b) :
    (decompress g q).2.uses[0]? = some (decompressUse g b q) := by
  simp only [decompress, hb]
  cases q.replies.gzipDecompress.result with
  | insufficientSpace =>
    simp only [decompressAgain]
    split
    · rfl
    · split <;> rfl
  | success | badData | shortOutput => rfl

/-- An attempt that ends without a count fails the request, and is its only use of the stream. -/
theorem decompress_failed {g : Globals} {q : Request} {b : HeapBuffer}
    (hb : initialBuffer g.compressionBuffer q.replies.mallocGranted = .ok b)
    (hresult : q.replies.gzipDecompress.result ≠ .success)
    (hwritten : q.replies.gzipDecompress.written = none) :
    (decompress g q).2.uses[1]? = some (.freeDecompressor g.decompressorFreed) ∧
      ∃ reason, (decompress g q).2.response = some (errorResponse 500 reason) := by
  simp only [decompress, hb, hwritten, Option.getD_none]
  cases hr : q.replies.gzipDecompress.result with
  | success => exact absurd hr hresult
  | insufficientSpace => exact ⟨rfl, _, rfl⟩
  | badData | shortOutput => exact ⟨rfl, _, rfl⟩

/-- The replies of a library that fails at once with `result`. -/
def repliesFailing (result : LibdeflateResult) : Replies :=
  { repliesBadData with gzipDecompress := ⟨result, none, []⟩ }

/-- A stream whose content fits a good state is answered with it. -/
theorem inflates_of_fits {g : Globals} {p : GzipPost parse gunzip} (hg : StateOk g)
    (hfits : p.content.length ≤ room g.compressionBuffer) : Inflates g p := by
  intro r ha
  obtain ⟨b, hb, hsize, hsized⟩ := exists_initialBuffer g.compressionBuffer
  rw [← ha.malloc] at hb
  have hfirst := ha.first (decompressUse g b (p.request r)) (by
    rw [p.onPost_eq]
    exact decompress_uses_head hb)
  have hsafe := decompressUse_safe hg (hsized.2 hg.sized) (p.request r)
  have hdoc := hfirst hsafe p.content p.valid
  rw [if_pos (hsize ▸ hfits)] at hdoc
  obtain ⟨hresult, hwritten, hbuffer⟩ := hdoc
  rw [p.onPost_eq]
  simp only [decompress, hb, hresult, hwritten, Option.getD_some, decompressDone, hbuffer]
  rfl

/-- A library that fails at once, and may do so, is one the POST is not answered by. -/
theorem not_inflates_of_failing {g : Globals} {p : GzipPost parse gunzip} {b : HeapBuffer}
    (hb : initialBuffer g.compressionBuffer true = .ok b) (result : LibdeflateResult)
    (hresult : result ≠ .success)
    (hdoc : Documented gunzip (decompressUse g b (p.request (repliesFailing result)))
      ⟨result, none, []⟩) : ¬Inflates g p := by
  intro h
  have hhead := decompress_uses_head (q := p.request (repliesFailing result)) hb
  obtain ⟨hnext, reason, hresponse⟩ :=
    decompress_failed (q := p.request (repliesFailing result)) hb hresult rfl
  have hanswered : Answered parse gunzip g (p.request (repliesFailing result)) := by
    refine ⟨rfl, rfl, fun u hu => ?_, fun u hu => ?_⟩
    · rw [p.onPost_eq, hhead] at hu
      obtain rfl := Option.some.inj hu
      exact hdoc
    · rw [p.onPost_eq, hnext] at hu
      obtain rfl := Option.some.inj hu
      trivial
  have hok := h _ hanswered
  rw [p.onPost_eq, hresponse] at hok
  have hstatus : 500 = 200 := congrArg Response.status (Option.some.inj hok)
  omega

/-- After every run of requests, a gzip stream is answered with its content exactly if the
decompressor is live and the buffer has its recorded size, and the content fits the space of the
first attempt. -/
theorem inflates_iff (qs : List Request) (p : GzipPost parse gunzip) :
    Inflates ((deflateMachine parse).after qs) p ↔
      StateOk ((deflateMachine parse).after qs) ∧
        p.content.length ≤ room ((deflateMachine parse).after qs).compressionBuffer := by
  set g := (deflateMachine parse).after qs
  refine ⟨fun h => ?_, fun h => inflates_of_fits h.1 h.2⟩
  obtain ⟨b, hb, hsize, hsized⟩ := exists_initialBuffer g.compressionBuffer
  by_contra hno
  by_cases hg : StateOk g
  · -- The stream does not fit, and the library says so.
    refine not_inflates_of_failing hb .insufficientSpace (by decide) ?_ h
    intro _ out hout
    have hcontent : p.content = out := Option.some.inj (p.valid.symm.trans hout)
    rw [if_neg (by rw [← hcontent, hsize]; exact fun hle => hno ⟨hg, hle⟩)]
    exact ⟨rfl, rfl⟩
  · -- The library is called with what it must not be called with, and owes nothing.
    refine not_inflates_of_failing hb .badData (by decide) ?_ h
    rintro ⟨halive, hholds⟩
    exact absurd ⟨halive, hsized.1 hholds⟩ hg

/-! ## A small buffer -/

/-- A compression in a buffer of 64 bytes. -/
def postCompress : Request where
  arg := ⟨[], by simp⟩
  ctype := ascii "text/plain"
  content := ascii "abc"
  replies := { repliesBadData with gzipCompress := (23, List.replicate 23 0) }

/-- A stream of one byte that stands for a hundred. -/
def gunzipHundred (stream : Bytes) : Option Bytes :=
  if stream = [1] then some (List.replicate 100 0) else none

/-- A POST of that stream. -/
def postHundred : GzipPost parseAction gunzipHundred where
  arg := argDecompress
  ctype := ascii "text/plain"
  stream := [1]
  content := List.replicate 100 0
  level := 6
  accepted := by decide
  valid := by decide

/-- After one compression, a stream of a hundred bytes is not answered with them. -/
theorem not_inflates :
    ¬Inflates ((deflateMachine parseAction).after [postCompress]) postHundred := by
  have hafter : (deflateMachine parseAction).after [postCompress] = ⟨false, .ofBlock 64⟩ := by
    decide
  rw [hafter]
  refine not_inflates_of_failing (b := .ofBlock 64) rfl .insufficientSpace (by decide) ?_
  intro _ out hout
  have hcontent : List.replicate 100 0 = out := Option.some.inj hout
  rw [if_neg (by rw [← hcontent]; decide)]
  exact ⟨rfl, rfl⟩

end Deflate

end TinyKvm
