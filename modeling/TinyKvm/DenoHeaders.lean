import TinyKvm.DenoRequest
import TinyKvm.Utf16

/-!
# Request headers in Deno

`get_headers` steps through the array of headers of a request, cuts the field of
each at the colon the host gives, skips spaces and tabs behind it, and decodes
the name and the value with `new TextDecoder("latin1")`. That label names
windows-1252, which agrees with Latin-1 except for the bytes from `0x80` to
`0x9F` that it gives to printable characters (`windows1252_eq_iff`).

The function returns one pair a header, in order (`getHeaders_eq`). The pairs
are the Latin-1 ones, which the `Request` constructor takes, exactly if no header
has one of the reassigned bytes (`latin1_decoded_iff`).
-/

namespace TinyKvm

namespace Deno

open Utf16

/-! ## The program -/

/-- The memory shared with C, by address. -/
abbrev Memory := ℕ → Byte

/-- `Deno.UnsafePointerView.getArrayBuffer`. -/
def getArrayBuffer (mem : Memory) (pointer byteLength : ℕ) : Bytes :=
  (List.range byteLength).map fun i => mem (pointer + i)

/-- `Deno.UnsafePointer.create`, which is null for the address zero. -/
def createPointer (address : ℤ) : Option ℕ :=
  if address = 0 then none else some address.toNat

/-- The number or big integer a value is. -/
def JsValue.toInteger : JsValue → Option ℤ
  | .number n => some n
  | .bigint n => some n
  | _ => none

/-- The index of windows-1252 for the bytes from `0x80` to `0x9F`. -/
def windows1252Index : List Unit16 :=
  [0x20AC, 0x0081, 0x201A, 0x0192, 0x201E, 0x2026, 0x2020, 0x2021,
    0x02C6, 0x2030, 0x0160, 0x2039, 0x0152, 0x008D, 0x017D, 0x008F,
    0x0090, 0x2018, 0x2019, 0x201C, 0x201D, 0x2022, 0x2013, 0x2014,
    0x02DC, 0x2122, 0x0161, 0x203A, 0x0153, 0x009D, 0x017E, 0x0178]

/-- The character of a byte in windows-1252. -/
def windows1252 (b : Byte) : Unit16 :=
  if 0x80 ≤ b.toNat ∧ b.toNat < 0xA0 then windows1252Index.getD (b.toNat - 0x80) 0
  else b.setWidth 16

/-- `latin1.decode`, where `latin1` is `new TextDecoder("latin1")`. -/
def latin1 (buffer : Bytes) : List Unit16 :=
  buffer.map windows1252

/-- `bufferAccessor` : the buffer a pointer and a length of a struct name, or null. -/
def bufferAccessor (mem : Memory) (name : String) (spec : Spec) (dv : Bytes) :
    Option (Option Bytes) := do
  let pointer ← (← getRaw spec name dv).toInteger
  match createPointer pointer with
  | none => some none
  | some pointer => do
    let byteLength ← (← getRaw spec (name ++ "_len") dv).toInteger
    some (some (getArrayBuffer mem pointer byteLength.toNat))

/-- The loop of `get_headers` that skips spaces and tabs. -/
def skipBlanks (buffer : Bytes) (start : ℕ) : ℕ :=
  if h : start < buffer.length then
    if buffer[start] = 32 ∨ buffer[start] = 9 then skipBlanks buffer (start + 1) else start
  else start
termination_by buffer.length - start

/-- The round of `get_headers` for a view of a header. -/
def getHeader (mem : Memory) (headerView : Bytes) : Option (List Unit16 × List Unit16) := do
  let some buffer ← bufferAccessor mem "field" kvmRequestHeader.spec headerView | none
  let colon ← (← getRaw kvmRequestHeader.spec "field_colon" headerView).toInteger
  let name := latin1 (buffer.take colon.toNat)
  let start := skipBlanks buffer (colon.toNat + 1)
  let value := latin1 (buffer.drop start)
  some (name, value)

/-- `get_headers`. -/
def getHeaders (mem : Memory) (dv : Bytes) : Option (List (List Unit16 × List Unit16)) := do
  let headerPointer ← (← getRaw kvmRequest.spec "headers" dv).toInteger
  match createPointer headerPointer with
  | none => some []
  | some headerPointer => do
    let numHeaders ← (← getRaw kvmRequest.spec "num_headers" dv).toInteger
    let headerLength := (struct kvmRequestHeader.spec).byteLength
    let headerBuffer := getArrayBuffer mem headerPointer (numHeaders.toNat * headerLength)
    (List.range numHeaders.toNat).mapM fun i =>
      getHeader mem ((headerBuffer.drop (i * headerLength)).take headerLength)

/-! ## The host's side -/

/-- The field a header points to. -/
def KvmRequestHeader.text (mem : Memory) (h : KvmRequestHeader) : Bytes :=
  getArrayBuffer mem h.field.toNat h.fieldLen.toNat

/-- A request with an array of headers in memory, each with its colon where the host says. -/
structure HostRequest where
  mem : Memory
  request : KvmRequest
  headers : List KvmRequestHeader
  count : request.numHeaders.toNat = headers.length
  pointer : headers ≠ [] → request.headers ≠ 0
  array : getArrayBuffer mem request.headers.toNat (headers.length * kvmRequestHeader.cSizeof) =
    headers.flatMap KvmRequestHeader.bytes
  field : ∀ h ∈ headers, h.field ≠ 0
  colon : ∀ h ∈ headers, (h.text mem)[h.fieldColon.toNat]? = some 0x3A

/-- What `get_headers` returns for the request. -/
def HostRequest.getHeaders (x : HostRequest) : Option (List (List Unit16 × List Unit16)) :=
  Deno.getHeaders x.mem (waitForRequestsPaused x.request)

/-! ## The property -/

/-- Spaces and tabs. -/
def isBlank (b : Byte) : Bool :=
  b = 32 ∨ b = 9

/-- The name and the value of a field, before they are decoded. -/
def splitField (text : Bytes) (colon : ℕ) : Bytes × Bytes :=
  (text.take colon, (text.drop (colon + 1)).dropWhile isBlank)

/-- The name and the value of a header, each byte as the character of its value. -/
def KvmRequestHeader.latin1Pair (mem : Memory) (h : KvmRequestHeader) :
    List Unit16 × List Unit16 :=
  let (name, value) := splitField (h.text mem) h.fieldColon.toNat
  (name.map (·.setWidth 16), value.map (·.setWidth 16))

/-- The strings the `Request` constructor takes in a header. -/
def IsByteString (s : List Unit16) : Prop :=
  ∀ u ∈ s, u.toNat < 256

/-- The headers are the Latin-1 ones, one for each in order, and so byte strings. -/
def Latin1Decoded (x : HostRequest) : Prop :=
  ∃ headers, x.getHeaders = some headers ∧ headers = x.headers.map (·.latin1Pair x.mem) ∧
    ∀ header ∈ headers, IsByteString header.1 ∧ IsByteString header.2

/-- The bytes windows-1252 gives to other characters than Latin-1. -/
def Reassigned (b : Byte) : Prop :=
  0x80 ≤ b.toNat ∧ b.toNat < 0xA0 ∧ b ∉ [0x81#8, 0x8D#8, 0x8F#8, 0x90#8, 0x9D#8]

instance (b : Byte) : Decidable (Reassigned b) :=
  inferInstanceAs (Decidable (_ ∧ _))

/-! ## One header -/

/-- The decoder gives a byte the character of its value exactly if the byte is not reassigned. -/
theorem windows1252_eq_iff (b : Byte) : windows1252 b = b.setWidth 16 ↔ ¬Reassigned b := by
  revert b
  decide

theorem latin1_eq_iff {buffer : Bytes} :
    latin1 buffer = buffer.map (·.setWidth 16) ↔ ∀ b ∈ buffer, ¬Reassigned b := by
  rw [latin1, List.map_inj_left]
  exact forall₂_congr fun b _ => windows1252_eq_iff b

theorem isByteString_map (buffer : Bytes) : IsByteString (buffer.map (·.setWidth 16)) := by
  intro u hu
  obtain ⟨b, -, rfl⟩ := List.mem_map.1 hu
  rw [BitVec.toNat_setWidth]
  omega

/-- The loop stops behind the blanks. -/
theorem drop_skipBlanks (buffer : Bytes) (start : ℕ) :
    buffer.drop (skipBlanks buffer start) = (buffer.drop start).dropWhile isBlank := by
  fun_induction skipBlanks buffer start with
  | case1 start h hblank ih =>
    have hb : isBlank buffer[start] := by simpa [isBlank] using hblank
    rw [ih, List.drop_eq_getElem_cons h, List.dropWhile_cons_of_pos hb]
  | case2 start h hblank =>
    have hb : ¬isBlank buffer[start] := by simpa [isBlank] using hblank
    rw [List.drop_eq_getElem_cons h, List.dropWhile_cons_of_neg hb]
  | case3 start h =>
    rw [List.drop_eq_nil_of_le (not_lt.1 h), List.dropWhile_nil]

/-- The name and the value of a header as `get_headers` decodes them. -/
def KvmRequestHeader.decodedPair (mem : Memory) (h : KvmRequestHeader) :
    List Unit16 × List Unit16 :=
  let (name, value) := splitField (h.text mem) h.fieldColon.toNat
  (latin1 name, latin1 value)

theorem createPointer_toNat {w : ℕ} {x : BitVec w} (h : x ≠ 0) :
    createPointer (x.toNat : ℤ) = some x.toNat := by
  have hx : (x.toNat : ℤ) ≠ 0 := by
    intro hzero
    exact h (BitVec.eq_of_toNat_eq (by simpa using hzero))
  rw [createPointer, if_neg hx, Int.toNat_natCast]

/-- The round for a header the host has stored. -/
theorem getHeader_bytes (mem : Memory) (h : KvmRequestHeader) (hfield : h.field ≠ 0) :
    getHeader mem h.bytes = some (h.decodedPair mem) := by
  have hpointer : getRaw kvmRequestHeader.spec "field" h.bytes = some (.bigint h.field.toNat) :=
    getRaw_header h (f := ⟨"field", .pointer, h.field⟩) (by simp [KvmRequestHeader.fields])
  have hcolon : getRaw kvmRequestHeader.spec "field_colon" h.bytes =
      some (.number h.fieldColon.toNat) :=
    getRaw_header h (f := ⟨"field_colon", .u32, h.fieldColon⟩) (by simp [KvmRequestHeader.fields])
  have hlen : getRaw kvmRequestHeader.spec ("field" ++ "_len") h.bytes =
      some (.number h.fieldLen.toNat) :=
    getRaw_header h (f := ⟨"field_len", .u32, h.fieldLen⟩) (by simp [KvmRequestHeader.fields])
  have hbuffer : bufferAccessor mem "field" kvmRequestHeader.spec h.bytes =
      some (some (h.text mem)) := by
    rw [bufferAccessor, hpointer, hlen]
    simp only [Option.bind_eq_bind, Option.bind_some, JsValue.toInteger, createPointer_toNat hfield,
      Int.toNat_natCast]
    rfl
  rw [getHeader, hbuffer, hcolon]
  simp only [Option.bind_eq_bind, Option.bind_some, JsValue.toInteger, Int.toNat_natCast,
    drop_skipBlanks]
  rfl

/-! ## The array of headers -/

theorem length_bytes (h : KvmRequestHeader) : h.bytes.length = kvmRequestHeader.cSizeof := by
  have hroom : layoutEnd 0 (h.fields.map fun f => cSize f.type) ≤
      (List.replicate kvmRequestHeader.cSizeof (0 : Byte)).length := by
    rw [List.length_replicate]
    exact (by decide : layoutEnd 0 [8, 4, 4] ≤ kvmRequestHeader.cSizeof)
  exact (length_cStore hroom).trans (List.length_replicate ..)

/-- Rounds that all return are as many results. -/
theorem mapM_eq_some_map {α β : Type} {f : α → Option β} {g : α → β} :
    ∀ {as : List α}, (∀ a ∈ as, f a = some (g a)) → as.mapM f = some (as.map g)
  | [], _ => rfl
  | a :: as, h => by
    rw [List.mapM_cons, h a List.mem_cons_self,
      mapM_eq_some_map fun b hb => h b (List.mem_cons_of_mem a hb)]
    rfl

/-- The views `get_headers` makes are the elements of the array. -/
theorem map_headerViews (headers : List KvmRequestHeader) :
    ((List.range headers.length).map fun i =>
      ((headers.flatMap KvmRequestHeader.bytes).drop (i * kvmRequestHeader.cSizeof)).take
        kvmRequestHeader.cSizeof) = headers.map KvmRequestHeader.bytes := by
  refine List.ext_getElem (by simp) fun i hi hi' => ?_
  rw [List.getElem_map, List.getElem_map, List.getElem_range, Nat.mul_comm,
    take_drop_flatMap length_bytes]

/-- `get_headers` returns a pair for each header, in order. -/
theorem getHeaders_eq (x : HostRequest) :
    x.getHeaders = some (x.headers.map (·.decodedPair x.mem)) := by
  have hpointer : getRaw kvmRequest.spec "headers" (waitForRequestsPaused x.request) =
      some (.bigint x.request.headers.toNat) :=
    getRaw_request x.request (f := ⟨"headers", .pointer, x.request.headers⟩)
      (by simp [KvmRequest.fields])
  have hcount : getRaw kvmRequest.spec "num_headers" (waitForRequestsPaused x.request) =
      some (.number x.request.numHeaders.toNat) :=
    getRaw_request x.request (f := ⟨"num_headers", .u16, x.request.numHeaders⟩)
      (by simp [KvmRequest.fields])
  have hsize : (struct kvmRequestHeader.spec).byteLength = kvmRequestHeader.cSizeof :=
    (kvmRequestHeader.sized_iff.2 (by decide)).size
  have hrounds : (x.headers.map KvmRequestHeader.bytes).mapM (getHeader x.mem) =
      some (x.headers.map (·.decodedPair x.mem)) := by
    rw [List.mapM_map]
    exact mapM_eq_some_map fun h hh => getHeader_bytes x.mem h (x.field h hh)
  rw [HostRequest.getHeaders, Deno.getHeaders, hpointer]
  by_cases hnull : x.request.headers = 0
  · have hnil : x.headers = [] := by_contra fun h => x.pointer h hnull
    rw [hnil, hnull]
    rfl
  · rw [hcount]
    simp only [Option.bind_eq_bind, Option.bind_some, JsValue.toInteger,
      createPointer_toNat hnull, Int.toNat_natCast, hsize, x.count, x.array]
    rw [← hrounds, ← map_headerViews, List.mapM_map]
    rfl

/-! ## The pairs -/

theorem not_reassigned_of_isBlank {b : Byte} (h : isBlank b) : ¬Reassigned b := by
  have hblank : b = 32 ∨ b = 9 := by simpa [isBlank] using h
  rcases hblank with rfl | rfl
  · decide
  · decide

theorem decodedPair_eq_iff {mem : Memory} {h : KvmRequestHeader}
    (hcolon : (h.text mem)[h.fieldColon.toNat]? = some 0x3A) :
    h.decodedPair mem = h.latin1Pair mem ↔ ∀ b ∈ h.text mem, ¬Reassigned b := by
  rw [KvmRequestHeader.decodedPair, KvmRequestHeader.latin1Pair, splitField, Prod.mk.injEq,
    latin1_eq_iff, latin1_eq_iff]
  obtain ⟨hlt, hbyte⟩ := List.getElem?_eq_some_iff.1 hcolon
  have htext : h.text mem = (h.text mem).take h.fieldColon.toNat ++
      0x3A :: (h.text mem).drop (h.fieldColon.toNat + 1) := by
    rw [← hbyte, ← List.drop_eq_getElem_cons hlt, List.take_append_drop]
  constructor
  · rintro ⟨hname, hvalue⟩ b hb
    rw [htext, List.mem_append, List.mem_cons] at hb
    rcases hb with hb | rfl | hb
    · exact hname b hb
    · decide
    · rw [← List.takeWhile_append_dropWhile (p := isBlank)
        (l := (h.text mem).drop (h.fieldColon.toNat + 1)), List.mem_append] at hb
      rcases hb with hb | hb
      · exact not_reassigned_of_isBlank (List.mem_takeWhile_imp hb)
      · exact hvalue b hb
  · intro hall
    refine ⟨fun b hb => hall b (List.mem_of_mem_take hb), fun b hb => hall b ?_⟩
    exact List.mem_of_mem_drop ((List.dropWhile_sublist _).subset hb)

/-- The headers `get_headers` returns are the Latin-1 ones exactly if no byte of a header is one
that windows-1252 reassigns. -/
theorem latin1_decoded_iff (x : HostRequest) :
    Latin1Decoded x ↔ ∀ h ∈ x.headers, ∀ b ∈ h.text x.mem, ¬Reassigned b := by
  have hpairs : Latin1Decoded x ↔
      x.headers.map (·.decodedPair x.mem) = x.headers.map (·.latin1Pair x.mem) := by
    unfold Latin1Decoded
    rw [getHeaders_eq]
    constructor
    · rintro ⟨headers, heq, h, -⟩
      exact (Option.some.inj heq).trans h
    · intro h
      refine ⟨_, rfl, h, ?_⟩
      rw [h]
      intro header hheader
      obtain ⟨_, -, rfl⟩ := List.mem_map.1 hheader
      exact ⟨isByteString_map _, isByteString_map _⟩
  rw [hpairs, List.map_inj_left]
  exact forall₂_congr fun h hh => decodedPair_eq_iff (x.colon h hh)

/-- Memory that has a header at 16, and its field, `a:` and the byte `0x80`, at 32. -/
def euroMemory : Memory := fun address =>
  (List.replicate 16 0 ++ KvmRequestHeader.bytes ⟨32, 1, 3⟩ ++ [0x61, 0x3A, 0x80]).getD address 0

/-- A request with that header. -/
def euroRequest : HostRequest where
  mem := euroMemory
  request := ⟨0, 0, 0, 0, 0, 0, 0, 0, 0, 0, 16, 1, 0, 0, 0, 0, 0, 0⟩
  headers := [⟨32, 1, 3⟩]
  count := rfl
  pointer _ := by decide
  array := by decide
  field := by decide
  colon := by decide

/-- Its value is decoded to the euro sign. -/
theorem latin1_not_decoded : ¬Latin1Decoded euroRequest := by
  rintro ⟨headers, hheaders, rfl, hbytes⟩
  rw [getHeaders_eq] at hheaders
  have hvalue := congrArg (·.map fun hs => hs.map Prod.snd) hheaders
  revert hvalue
  decide

end Deno

end TinyKvm
