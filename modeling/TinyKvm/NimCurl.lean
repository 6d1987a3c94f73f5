import TinyKvm.Api
import TinyKvm.Machine
import Mathlib.Data.Int.Notation

/-!
# cURL in Nim

`Curl.fetch` and `Curl.post` present one static `curl_op` to the host and read
their result from it. Each sets only some of its fields before the call : the
others are as an earlier call left them, and the host does not read response
headers into a structure that has some. A non-zero return leaves the structure
undefined, but only a negative one is treated as an error.

A call is independent of the calls before it, and every error gives an empty
result, exactly if the fields it does not set are as at start-up and a positive
return leaves the fields of the result zero (`curl_independent_iff`). After a
return of zero or less no call is (`not_independent_of_ret`).
-/

namespace TinyKvm

namespace Nim

/-- The content type field of a `curl_op`. -/
structure Ctype where
  bytes : Bytes
  length_eq : bytes.length = 128
  deriving DecidableEq

namespace Ctype

/-- The field at start-up. -/
def zero : Ctype :=
  ⟨List.replicate 128 0, List.length_replicate⟩

/-- `memcpy` of bytes that fit to the start of the field. -/
def copy (ctype : Ctype) (src : Bytes) (h : src.length ≤ 128) : Ctype where
  bytes := src ++ ctype.bytes.drop src.length
  length_eq := by rw [List.length_append, List.length_drop, ctype.length_eq]; omega

end Ctype

/-- `struct curl_op`. A pointer is `none` if it is null, or else the bytes it points to. -/
structure CurlOp where
  status : BitVec 32
  postBuflen : BitVec 32
  postBuffer : Option Bytes
  headers : Option Bytes
  headersLength : BitVec 32
  unused1 : BitVec 32
  content : Option Bytes
  contentLength : BitVec 32
  ctlen : BitVec 32
  ctype : Ctype
  deriving DecidableEq

/-- `cop` at start-up. -/
def CurlOp.start : CurlOp where
  status := 0
  postBuflen := 0
  postBuffer := none
  headers := none
  headersLength := 0
  unused1 := 0
  content := none
  contentLength := 0
  ctlen := 0
  ctype := .zero

/-! ## The host -/

/-- What a successful fetch fills out. -/
structure Fetched where
  status : BitVec 32
  headers : Bytes
  content : Bytes
  ctype : Bytes
  ctype_fits : ctype.length ≤ 128
  deriving DecidableEq

theorem empty_ctype_fits : ([] : Bytes).length ≤ 128 :=
  Nat.zero_le 128

/-- What a failed fetch may have written, field by field. -/
structure Writes where
  status : Option (BitVec 32)
  postBuflen : Option (BitVec 32)
  postBuffer : Option (Option Bytes)
  headers : Option (Option Bytes)
  headersLength : Option (BitVec 32)
  unused1 : Option (BitVec 32)
  content : Option (Option Bytes)
  contentLength : Option (BitVec 32)
  ctlen : Option (BitVec 32)
  ctype : Option Ctype
  deriving DecidableEq

/-- The reply of `sys_fetch` : zero with the structure filled out, or non-zero with whatever is
in it then. -/
inductive Reply where
  | fetched (out : Fetched)
  | failed (ret : ℤ) (ne : ret ≠ 0) (out : Writes)
  deriving DecidableEq

namespace Reply

/-- What `sys_fetch` returns. -/
def ret : Reply → ℤ
  | fetched _ => 0
  | failed ret _ _ => ret

/-- What `sys_fetch` makes of the structure. The response headers are read unless the structure
has some. -/
def apply (op : CurlOp) : Reply → CurlOp
  | fetched out =>
    { op with
      status := out.status
      headers := if op.headers = none ∧ op.headersLength = 0 then some out.headers
        else op.headers
      headersLength := if op.headers = none ∧ op.headersLength = 0 then
        BitVec.ofNat 32 out.headers.length else op.headersLength
      content := some out.content
      contentLength := BitVec.ofNat 32 out.content.length
      ctlen := BitVec.ofNat 32 out.ctype.length
      ctype := op.ctype.copy out.ctype out.ctype_fits }
  | failed _ _ out =>
    { status := out.status.getD op.status
      postBuflen := out.postBuflen.getD op.postBuflen
      postBuffer := out.postBuffer.getD op.postBuffer
      headers := out.headers.getD op.headers
      headersLength := out.headersLength.getD op.headersLength
      unused1 := out.unused1.getD op.unused1
      content := out.content.getD op.content
      contentLength := out.contentLength.getD op.contentLength
      ctlen := out.ctlen.getD op.ctlen
      ctype := out.ctype.getD op.ctype }

end Reply

/-! ## The wrappers -/

/-- A call of `Curl.fetch` or `Curl.post`. -/
inductive Call where
  | fetch (url : Bytes)
  | post (url ctype data : Bytes)
  deriving DecidableEq

/-- The structure as a call presents it to `sys_fetch`, unless the content type overruns its
field. -/
def present (op : CurlOp) : Call → Option CurlOp
  | .fetch _ => some { op with postBuffer := none, postBuflen := 0 }
  | .post _ ctype data =>
    if h : ctype.length ≤ 128 then
      some { op with
        postBuffer := some data
        postBuflen := BitVec.ofNat 32 data.length
        ctlen := BitVec.ofNat 32 ctype.length
        ctype := op.ctype.copy ctype h }
    else none

/-- The structure as a wrapper leaves it. -/
def settle (op : CurlOp) (reply : Reply) : CurlOp :=
  if reply.ret < 0 then
    { reply.apply op with status := 0, content := some [], contentLength := 0, ctlen := 0 }
  else reply.apply op

/-- The object a call returns. -/
structure Curl where
  status : ℕ
  content : Bytes
  contentType : Bytes
  deriving DecidableEq

/-- A new string of length `n`, as a `cint`, with the bytes at a pointer. A negative length raises,
and there must be that many bytes. -/
def copyMem (memory : Option Bytes) (n : BitVec 32) : Option Bytes :=
  if n.toInt < 0 then none
  else if n = 0 then some []
  else
    match memory with
    | none => none
    | some bytes => if n.toNat ≤ bytes.length then some (bytes.take n.toNat) else none

/-- The end of both calls, on the structure the wrapper leaves. -/
def result (op : CurlOp) : Option Curl :=
  match copyMem op.content op.contentLength, copyMem (some op.ctype.bytes) op.ctlen with
  | some content, some contentType => some ⟨op.status.toNat, content, contentType⟩
  | _, _ => none

/-- What is seen of a call : the structure it presents, and what it returns. -/
structure Answer where
  presented : Option CurlOp
  result : Option Curl
  deriving DecidableEq

/-- The calls of one machine, on its structure unless that has been overrun. -/
def curlMachine : Machine (Option CurlOp) (Call × Reply) Answer where
  init := some .start
  step s c :=
    match s.bind (present · c.1) with
    | none => (none, ⟨none, none⟩)
    | some op => (some (settle op c.2), ⟨some op, result (settle op c.2)⟩)

/-- A call after others presents a structure, it and its result are those of the same call with
the same reply on its own, and an error gives an empty result. -/
structure Independent (before : List (Call × Reply)) (c : Call × Reply) : Prop where
  presented : (curlMachine.answer before c).presented ≠ none
  same : curlMachine.answer before c = curlMachine.answer [] c
  failed : c.2.ret ≠ 0 → (curlMachine.answer before c).result = some ⟨0, [], []⟩

/-- The fields that a call does not set are as at start-up. -/
structure Unset (op : CurlOp) (call : Call) : Prop where
  status : op.status = 0
  headers : op.headers = none
  headersLength : op.headersLength = 0
  unused1 : op.unused1 = 0
  content : op.content = none
  contentLength : op.contentLength = 0
  ctype : match call with
    | .fetch _ => op.ctlen = 0 ∧ op.ctype = .zero
    | .post _ ctype _ => ctype.length ≤ 128 ∧
      op.ctype.bytes.drop ctype.length = List.replicate (128 - ctype.length) 0

/-- The length of the content type that a call presents at start-up. -/
def Call.ctlen : Call → BitVec 32
  | fetch _ => 0
  | post _ ctype _ => BitVec.ofNat 32 ctype.length

/-- A positive return leaves or sets the status and the lengths to zero. -/
def ZeroOnError (call : Call) : Reply → Prop
  | .fetched _ => True
  | .failed ret _ out => 0 < ret → out.status.getD 0 = 0 ∧ out.contentLength.getD 0 = 0 ∧
    out.ctlen.getD call.ctlen = 0

/-! ## Results -/

/-- Only nothing copies to the empty string. -/
theorem copyMem_eq_nil_iff {memory : Option Bytes} {n : BitVec 32} :
    copyMem memory n = some [] ↔ n = 0 := by
  refine ⟨fun h => ?_, fun h => by rw [h]; rfl⟩
  by_contra hn
  simp only [copyMem, if_neg hn] at h
  obtain ⟨-, h⟩ := Option.ite_none_left_eq_some.1 h
  rcases memory with - | bytes
  · exact absurd h (by simp)
  · obtain ⟨hle, h⟩ := Option.ite_none_right_eq_some.1 h
    have hlen := congrArg List.length (Option.some.inj h)
    rw [List.length_take, List.length_nil] at hlen
    have hzero : n.toNat = 0 := by omega
    exact hn (BitVec.eq_of_toNat_eq hzero)

/-- A result is empty exactly if the status and the lengths are zero. -/
theorem result_eq_empty_iff {op : CurlOp} :
    result op = some ⟨0, [], []⟩ ↔ op.status = 0 ∧ op.contentLength = 0 ∧ op.ctlen = 0 := by
  have hcontentLength : copyMem op.content op.contentLength = some [] ↔ op.contentLength = 0 :=
    copyMem_eq_nil_iff
  have hctlen : copyMem (some op.ctype.bytes) op.ctlen = some [] ↔ op.ctlen = 0 :=
    copyMem_eq_nil_iff
  rw [← hcontentLength, ← hctlen]
  constructor
  · intro h
    rcases hcontent : copyMem op.content op.contentLength with - | content
    · simp [result, hcontent] at h
    · rcases hctype : copyMem (some op.ctype.bytes) op.ctlen with - | ctype
      · simp [result, hcontent, hctype] at h
      · simp only [result, hcontent, hctype, Option.some.injEq, Curl.mk.injEq] at h
        obtain ⟨hstatus, rfl, rfl⟩ := h
        exact ⟨BitVec.eq_of_toNat_eq hstatus, rfl, rfl⟩
  · rintro ⟨hstatus, hcontent, hctype⟩
    rw [result, hcontent, hctype, hstatus]
    rfl

/-- An error gives an empty result exactly if it is negative, or leaves the status and the
lengths zero. -/
theorem result_settle_iff {op : CurlOp} {reply : Reply} :
    result (settle op reply) = some ⟨0, [], []⟩ ↔
      (0 ≤ reply.ret → (reply.apply op).status = 0 ∧ (reply.apply op).contentLength = 0 ∧
        (reply.apply op).ctlen = 0) := by
  rw [result_eq_empty_iff, settle]
  by_cases h : reply.ret < 0
  · rw [if_pos h]
    exact iff_of_true ⟨rfl, rfl, rfl⟩ fun h' => absurd h (Int.not_lt.2 h')
  · rw [if_neg h]
    exact ⟨fun h' _ => h', fun h' => h' (Int.not_lt.1 h)⟩

/-! ## Presented structures -/

theorem Ctype.copy_eq_iff {ctype ctype' : Ctype} {src : Bytes} (h : src.length ≤ 128) :
    ctype.copy src h = ctype'.copy src h ↔
      ctype.bytes.drop src.length = ctype'.bytes.drop src.length := by
  rw [copy, copy, Ctype.mk.injEq, List.append_cancel_left_eq]

/-- A call presents what it presents at start-up exactly if the fields it does not set are as
at start-up. -/
theorem present_eq_iff {op : CurlOp} {call : Call} :
    (present op call ≠ none ∧ present op call = present .start call) ↔ Unset op call := by
  rcases call with url | ⟨url, ctype, data⟩
  · constructor
    · rintro ⟨-, h⟩
      obtain ⟨hstatus, -, -, hheaders, hlength, hunused, hcontent, hcontentLength, hctlen,
          hctype⟩ :=
        CurlOp.mk.inj (Option.some.inj h)
      exact ⟨hstatus, hheaders, hlength, hunused, hcontent, hcontentLength, hctlen, hctype⟩
    · intro h
      have ⟨hctlen, hctype⟩ := h.ctype
      refine ⟨Option.some_ne_none _, ?_⟩
      simp only [present, CurlOp.start, h.status, h.headers, h.headersLength, h.unused1, h.content,
        h.contentLength, hctlen, hctype]
  · by_cases hfits : ctype.length ≤ 128
    · have hzero : Ctype.zero.bytes.drop ctype.length = List.replicate (128 - ctype.length) 0 :=
        List.drop_replicate
      simp only [present, dif_pos hfits]
      constructor
      · rintro ⟨-, h⟩
        obtain ⟨hstatus, -, -, hheaders, hlength, hunused, hcontent, hcontentLength, -, hctype⟩ :=
          CurlOp.mk.inj (Option.some.inj h)
        exact ⟨hstatus, hheaders, hlength, hunused, hcontent, hcontentLength, hfits,
          ((Ctype.copy_eq_iff hfits).1 hctype).trans hzero⟩
      · intro h
        have hctype : op.ctype.copy ctype hfits = Ctype.zero.copy ctype hfits :=
          (Ctype.copy_eq_iff hfits).2 (h.ctype.2.trans hzero.symm)
        refine ⟨Option.some_ne_none _, ?_⟩
        simp only [CurlOp.start, h.status, h.headers, h.headersLength, h.unused1, h.content,
          h.contentLength, hctype]
    · exact iff_of_false (fun h => h.1 (dif_neg hfits)) fun h => hfits h.ctype.1

theorem present_start {p : CurlOp} {call : Call} (h : present .start call = some p) :
    p.status = 0 ∧ p.contentLength = 0 ∧ p.ctlen = call.ctlen := by
  rcases call with url | ⟨url, ctype, data⟩
  · rw [← Option.some.inj h]
    exact ⟨rfl, rfl, rfl⟩
  · obtain ⟨hfits, h⟩ := Option.dite_none_right_eq_some.1 h
    rw [← Option.some.inj h]
    exact ⟨rfl, rfl, rfl⟩

/-- On a structure at start-up, an error gives an empty result exactly if it is negative or
leaves the status and the lengths zero. -/
theorem zeroOnError_iff {p : CurlOp} {call : Call} {reply : Reply}
    (h : present .start call = some p) :
    (reply.ret ≠ 0 → result (settle p reply) = some ⟨0, [], []⟩) ↔ ZeroOnError call reply := by
  obtain ⟨hstatus, hcontentLength, hctlen⟩ := present_start h
  rw [result_settle_iff]
  rcases reply with out | ⟨ret, hne, out⟩
  · exact iff_of_true (fun h => absurd rfl h) trivial
  · simp only [Reply.ret, Reply.apply, ZeroOnError, hstatus, hcontentLength, hctlen]
    exact ⟨fun h hpos => h hne (by omega), fun h _ hle => h (by omega)⟩

/-! ## Calls -/

/-- The condition on a call in a state of the machine. -/
def Clean (s : Option CurlOp) (c : Call × Reply) : Prop :=
  ∃ op, s = some op ∧ Unset op c.1 ∧ ZeroOnError c.1 c.2

theorem step_of_present {s : Option CurlOp} {c : Call × Reply} {p : CurlOp}
    (h : s.bind (present · c.1) = some p) :
    curlMachine.step s c = (some (settle p c.2), ⟨some p, result (settle p c.2)⟩) := by
  simp only [curlMachine, h]

theorem step_of_none {s : Option CurlOp} {c : Call × Reply} (h : s.bind (present · c.1) = none) :
    curlMachine.step s c = (none, ⟨none, none⟩) := by
  simp only [curlMachine, h]

/-- The answer shows the structure that was presented. -/
theorem presented_answer (before : List (Call × Reply)) (c : Call × Reply) :
    (curlMachine.answer before c).presented = (curlMachine.after before).bind (present · c.1) := by
  rw [Machine.answer]
  rcases h : (curlMachine.after before).bind (present · c.1) with - | p
  · rw [step_of_none h]
  · rw [step_of_present h]

theorem answer_of_present {before : List (Call × Reply)} {c : Call × Reply} {p : CurlOp}
    (h : (curlMachine.after before).bind (present · c.1) = some p) :
    curlMachine.answer before c = ⟨some p, result (settle p c.2)⟩ := by
  rw [Machine.answer, step_of_present h]

theorem Independent.clean {before : List (Call × Reply)} {c : Call × Reply}
    (h : Independent before c) : Clean (curlMachine.after before) c := by
  obtain ⟨hpresented, hsame, hfailed⟩ := h
  have hfresh := congrArg Answer.presented hsame
  rw [presented_answer] at hpresented
  rw [presented_answer, presented_answer] at hfresh
  obtain ⟨p, hp⟩ := Option.ne_none_iff_exists'.1 hpresented
  rw [answer_of_present hp] at hfailed
  obtain ⟨op, hop, hpresent⟩ := Option.bind_eq_some_iff.1 hp
  rw [hop] at hfresh hpresented
  exact ⟨op, hop, present_eq_iff.1 ⟨hpresented, hfresh⟩,
    (zeroOnError_iff (hfresh.symm.trans hpresent)).1 hfailed⟩

/-- A call is independent of the calls before it, and an error gives an empty result, exactly if
the fields it does not set are as at start-up and a positive return leaves the fields of the
result zero. -/
theorem curl_independent_iff (before : List (Call × Reply)) (c : Call × Reply) :
    Independent before c ↔ Clean (curlMachine.after before) c := by
  constructor
  · exact Independent.clean
  · rintro ⟨op, hop, hunset, hzero⟩
    obtain ⟨hpresented, hfresh⟩ := present_eq_iff.2 hunset
    obtain ⟨p, hp⟩ := Option.ne_none_iff_exists'.1 hpresented
    have hanswer : curlMachine.answer before c = ⟨some p, result (settle p c.2)⟩ :=
      answer_of_present (by rw [hop]; exact hp)
    have hstart : curlMachine.answer [] c = ⟨some p, result (settle p c.2)⟩ :=
      answer_of_present (hfresh.symm.trans hp)
    refine ⟨by rw [hanswer]; exact Option.some_ne_none p, hanswer.trans hstart.symm, ?_⟩
    rw [hanswer]
    exact (zeroOnError_iff (hfresh.symm.trans hp)).2 hzero

theorem settle_content {op : CurlOp} {reply : Reply} (hret : reply.ret ≤ 0) :
    (settle op reply).content ≠ none := by
  rcases reply with out | ⟨ret, hne, out⟩
  · exact Option.some_ne_none out.content
  · have hle : ret ≤ 0 := hret
    have hneg : (Reply.failed ret hne out).ret < 0 := show ret < 0 by omega
    rw [settle, if_pos hneg]
    exact Option.some_ne_none []

/-- After a return of zero or less, the next call presents a content pointer. -/
theorem not_independent_of_ret {before : List (Call × Reply)} {c : Call × Reply}
    (hret : c.2.ret ≤ 0) (next : Call × Reply) : ¬Independent (before ++ [c]) next := by
  intro hindep
  obtain ⟨op, hop, hunset, -⟩ := hindep.clean
  rw [Machine.after_snoc] at hop
  rcases h : (curlMachine.after before).bind (present · c.1) with - | p
  · rw [step_of_none h] at hop
    exact Option.some_ne_none op hop.symm
  · rw [step_of_present h] at hop
    rw [← Option.some.inj hop] at hunset
    exact settle_content hret hunset.content

/-- A fetch that fails with a positive return, after one that succeeded, returns the page of the
earlier one. -/
theorem curl_not_independent :
    ¬Independent
      [(.fetch (ascii "/a"),
        .fetched ⟨200, [], ascii "page", ascii "text/plain", by decide⟩)]
      (.fetch (ascii "/b"),
        .failed 1 (by decide) ⟨none, none, none, none, none, none, none, none, none, none⟩) := by
  intro h
  exact absurd (h.failed (by decide)) (by decide +kernel)

end Nim

end TinyKvm
