import TinyKvm.CurlFields
import TinyKvm.QuickJs

/-!
# cURL in JavaScript

`varnish.fetch` and `varnish.post` convert their arguments to zero-terminated
strings, fill in the slots of `curl_fields` from the array of headers, and make an
object of what the host returns.

`get_headers` splits the block of response headers at its carriage returns. It
stays inside the block whatever that holds (`headerRanges_inside`), and it is the
inverse of ending every line with `\r\n` (`splitHeaders_lines`), as
`response_headers_split` puts together.

`get_request_fields` always runs through all twelve slots (`fillFields_eq`). A
slot for which the array has no element gets the string `undefined`, and elements
from the thirteenth on are left out. A call so presents its arguments as they are
exactly if there are twelve headers and all lengths fit (`js_request_iff`).
-/

namespace TinyKvm

namespace Js

open Curl
open Nim (CurlOp Reply)

/-! ## Response headers -/

/-- `strchr(hdr, '\r')`, as an index into the memory. -/
def findReturn (mem : Bytes) (hdr : ℕ) : Option ℕ :=
  ((Utf16.cString (mem.drop hdr)).findIdx? (· = 0x0D)).map (hdr + ·)

theorem le_of_findReturn {mem : Bytes} {hdr n : ℕ} (h : findReturn mem hdr = some n) : hdr ≤ n := by
  obtain ⟨i, -, rfl⟩ := Option.map_eq_some_iff.1 h
  exact Nat.le_add_right hdr i

/-- The loop of `get_headers`, as the start and the length of each element. -/
def headerRanges (mem : Bytes) (hdrEnd hdr : ℕ) : List (ℕ × ℕ) :=
  if hdr < hdrEnd then
    match h : findReturn mem hdr with
    | none => []
    | some n => (hdr, n - hdr) :: headerRanges mem hdrEnd (n + 2)
  else []
termination_by hdrEnd - hdr
decreasing_by
  have := le_of_findReturn h
  omega

/-- The bytes of the elements of `get_headers`. -/
def splitHeaders (mem : Bytes) (headersLength : ℕ) : List Bytes :=
  (headerRanges mem headersLength 0).map fun r => (mem.drop r.1).take r.2

/-- `get_headers`. -/
def getHeaders (engine : Engine) (mem : Bytes) (headersLength : ℕ) : List Str :=
  (splitHeaders mem headersLength).map engine.newString

/-- A line of a header block. -/
structure HeaderLine where
  bytes : Bytes
  noReturn : 0x0D ∉ bytes
  nonzero : 0 ∉ bytes

/-- The line with its end. -/
def HeaderLine.ended (line : HeaderLine) : Bytes :=
  line.bytes ++ [0x0D, 0x0A]

/-- A carriage return is found inside the block. -/
theorem findReturn_lt {block rest : Bytes} {hdr n : ℕ} (hhdr : hdr < block.length)
    (h : findReturn (block ++ 0 :: rest) hdr = some n) : n < block.length := by
  obtain ⟨i, hi, rfl⟩ := Option.map_eq_some_iff.1 h
  rw [List.drop_append_of_le_length hhdr.le, Utf16.cString_append_zero] at hi
  have hlt := (List.findIdx?_eq_some_iff_getElem.1 hi).1
  have hle := Utf16.length_cString_le (block.drop hdr)
  rw [List.length_drop] at hle
  omega

theorem headerRanges_of_some {mem : Bytes} {hdrEnd hdr n : ℕ} (hlt : hdr < hdrEnd)
    (h : findReturn mem hdr = some n) :
    headerRanges mem hdrEnd hdr = (hdr, n - hdr) :: headerRanges mem hdrEnd (n + 2) := by
  rw [headerRanges, if_pos hlt]
  split
  · next hnone => rw [h] at hnone; exact absurd hnone (by simp)
  · next m hm => rw [h] at hm; rw [Option.some.inj hm]

/-- Every element lies inside the block. -/
theorem headerRanges_inside (block rest : Bytes) (hdr : ℕ) :
    ∀ r ∈ headerRanges (block ++ 0 :: rest) block.length hdr, r.1 + r.2 ≤ block.length := by
  fun_induction headerRanges (block ++ 0 :: rest) block.length hdr with
  | case1 hdr hlt hnone => simp
  | case2 hdr hlt n hn ih =>
    have hinside := findReturn_lt hlt hn
    have hle := le_of_findReturn hn
    rw [List.forall_mem_cons]
    exact ⟨by simp only; omega, ih⟩
  | case3 hdr hlt => simp

/-- The carriage return of a line is found at its end. -/
theorem findReturn_line (pre tail : Bytes) (line : HeaderLine) :
    findReturn (pre ++ (line.bytes ++ 0x0D :: tail)) pre.length =
      some (pre.length + line.bytes.length) := by
  have hnonzero : ∀ b ∈ line.bytes, decide (b ≠ 0) :=
    fun b hb => decide_eq_true fun h => line.nonzero (h ▸ hb)
  have hread : Utf16.cString (line.bytes ++ 0x0D :: tail) =
      line.bytes ++ 0x0D :: Utf16.cString tail := by
    rw [Utf16.cString, List.takeWhile_append_of_pos hnonzero,
      List.takeWhile_cons_of_pos (by decide)]
    rfl
  have hbefore : line.bytes.findIdx? (· = 0x0D) = none :=
    List.findIdx?_eq_none_iff.2 fun b hb => decide_eq_false fun h => line.noReturn (h ▸ hb)
  rw [findReturn, List.drop_left, hread, List.findIdx?_append, hbefore, List.findIdx?_cons]
  simp

/-- From the start of a line on, the elements are the lines. -/
theorem headerRanges_lines (rest : Bytes) : ∀ (lines : List HeaderLine) {mem pre : Bytes},
    mem = pre ++ (lines.flatMap HeaderLine.ended ++ 0 :: rest) →
    (headerRanges mem (pre.length + (lines.flatMap HeaderLine.ended).length) pre.length).map
      (fun r => (mem.drop r.1).take r.2) = lines.map HeaderLine.bytes
  | [], mem, pre, _ => by
    rw [headerRanges, if_neg (by simp)]
    rfl
  | line :: lines, mem, pre, hmem => by
    have hline : mem = pre ++ (line.bytes ++ 0x0D ::
        (0x0A :: (lines.flatMap HeaderLine.ended ++ 0 :: rest))) := by
      rw [hmem]
      simp [HeaderLine.ended]
    have hnext : mem = (pre ++ line.ended) ++ (lines.flatMap HeaderLine.ended ++ 0 :: rest) := by
      rw [hmem, List.flatMap_cons, List.append_assoc, List.append_assoc]
    have hfind : findReturn mem pre.length = some (pre.length + line.bytes.length) := by
      rw [hline]
      exact findReturn_line pre _ line
    have hlen : (pre ++ line.ended).length = pre.length + line.bytes.length + 2 := by
      simp [HeaderLine.ended, Nat.add_assoc]
    have hend : pre.length + ((line :: lines).flatMap HeaderLine.ended).length =
        (pre ++ line.ended).length + (lines.flatMap HeaderLine.ended).length := by
      rw [List.flatMap_cons, List.length_append, List.length_append, Nat.add_assoc]
    have hrest := headerRanges_lines rest lines hnext
    have hslice : (mem.drop pre.length).take (pre.length + line.bytes.length - pre.length) =
        line.bytes := by
      rw [hline, List.drop_left, Nat.add_sub_cancel_left, List.take_left]
    rw [headerRanges_of_some (by omega) hfind, hend, ← hlen, List.map_cons, hslice, hrest,
      List.map_cons]

/-- The elements of lines that were ended by `\r\n` are these lines. -/
theorem splitHeaders_lines (lines : List HeaderLine) (rest : Bytes) :
    splitHeaders (lines.flatMap HeaderLine.ended ++ 0 :: rest)
      (lines.flatMap HeaderLine.ended).length = lines.map HeaderLine.bytes := by
  have h := headerRanges_lines rest lines (List.nil_append _).symm
  rw [List.length_nil, Nat.zero_add] at h
  exact h

/-- `get_headers` makes elements that lie inside the block, and of lines that were ended by `\r\n`
it returns exactly these. -/
theorem response_headers_split (engine : Engine) :
    (∀ block rest : Bytes, ∀ r ∈ headerRanges (block ++ 0 :: rest) block.length 0,
      r.1 + r.2 ≤ block.length) ∧
    ∀ (lines : List HeaderLine) (rest : Bytes),
      getHeaders engine (lines.flatMap HeaderLine.ended ++ 0 :: rest)
        (lines.flatMap HeaderLine.ended).length =
      lines.map fun line => engine.newString line.bytes := by
  refine ⟨fun block rest => headerRanges_inside block rest 0, fun lines rest => ?_⟩
  rw [getHeaders, splitHeaders_lines, List.map_map]
  rfl

/-- A line and an empty one. -/
example : splitHeaders (ascii "A: b\r\n\r\n" ++ 0 :: []) 8 = [ascii "A: b", []] :=
  splitHeaders_lines [⟨ascii "A: b", by decide, by decide⟩, ⟨[], by decide, by decide⟩] []

/-! ## The calls -/

/-- An argument of a call : a value, and its elements if it is an array. Reading an element gives
a value or throws. -/
structure Argument where
  value : Value
  elements : Option (List Completion)

/-- The argument that is a string. -/
def Argument.ofString (s : Str) : Argument :=
  ⟨.string s, none⟩

/-- The argument that is an array of strings, which converts to its elements with commas. -/
def Argument.ofArray (strings : List Str) : Argument :=
  ⟨.other (some ((Utf16.ofAscii ",").intercalate strings)),
    some (strings.map fun s => .returned (.string s))⟩

/-- `JS_ToCStringLen`, which is null if the conversion throws. -/
def toCStringLen (engine : Engine) (v : Value) : Option Bytes :=
  v.text.map engine.toCString

/-- `JS_GetPropertyUint32` of an array. -/
def getPropertyUint32 (elements : List Completion) (i : ℕ) : Completion :=
  elements.getD i (.returned .undefined)

/-- The slot of a value, which is null if it has no string. -/
def slot (engine : Engine) (v : Value) : Slot :=
  match toCStringLen engine v with
  | some s => .ofString s
  | none => .unused

/-- The loop of `get_request_fields`. -/
def fillFields (engine : Engine) (elements : List Completion) (i : ℕ) (fields : CurlFields) :
    CurlFields :=
  if h : i < CURL_FIELDS_COUNT then
    match getPropertyUint32 elements i with
    | .threw => fields
    | .returned val => fillFields engine elements (i + 1) (fields.set ⟨i, h⟩ (slot engine val))
  else fields
termination_by CURL_FIELDS_COUNT - i

/-- `get_request_fields`, which throws unless it is given an array. -/
def getRequestFields (engine : Engine) (fields : CurlFields) (array : Argument) :
    Option CurlFields :=
  array.elements.map fun elements => fillFields engine elements 0 fields

/-- The object a call returns. -/
structure FetchResult where
  status : ℕ
  type : Str
  content : Str
  headers : List Str

/-- What a call comes to : it throws before it contacts the host, or overruns the content type of
its structure, or contacts the host and returns an object or throws then. -/
inductive Outcome where
  | threw
  | overrun
  | contacted (request : Request) (result : Option FetchResult)

/-- The object of a structure that the host has filled out. -/
def fetchResult (engine : Engine) (op : CurlOp) : FetchResult where
  status := op.status.toNat
  type := engine.newString (op.ctype.bytes.take op.ctlen.toNat)
  content := engine.newString ((op.content.getD []).take op.contentLength.toNat)
  headers := getHeaders engine (op.headers.getD [] ++ [0]) op.headersLength.toNat

/-- The call of `sys_fetch`, and what is made of its reply. -/
def sysFetch (engine : Engine) (host : Request → Reply) (request : Request) : Outcome :=
  let reply := host request
  .contacted request
    (if reply.ret = 0 then some (fetchResult engine (reply.apply request.op)) else none)

/-- The slots of the array of headers, if there is that argument. -/
def requestFields (engine : Engine) (array : Option Argument) : Option CurlFields :=
  match array with
  | none => some .zero
  | some array => getRequestFields engine .zero array

/-- `js_http_fetch_call`. -/
def jsHttpFetchCall (engine : Engine) (host : Request → Reply) (argv : List Argument) : Outcome :=
  match argv with
  | [] => .threw
  | arg :: rest =>
    match toCStringLen engine arg.value with
    | none => .threw
    | some url =>
      match requestFields engine rest[0]? with
      | none => .threw
      | some fields => sysFetch engine host ⟨url, .start, fields⟩

/-- `js_http_post_call`. -/
def jsHttpPostCall (engine : Engine) (host : Request → Reply) (argv : List Argument) : Outcome :=
  match argv with
  | arg :: type :: data :: rest =>
    match toCStringLen engine arg.value, toCStringLen engine type.value with
    | some url, some ctype =>
      match setCtype .start ctype with
      | none => .overrun
      | some op =>
        match requestFields engine rest[0]?, toCStringLen engine data.value with
        | some fields, some postBuffer => sysFetch engine host ⟨url, setBody op postBuffer, fields⟩
        | _, _ => .threw
    | _, _ => .threw
  | _ => .threw

/-! ## The property -/

/-- A call of a script, with strings and an array of strings. -/
inductive FetchCall where
  | fetch (url : Str) (headers : List Str)
  | post (url ctype data : Str) (headers : List Str)

namespace FetchCall

/-- The array of headers. -/
def headers : FetchCall → List Str
  | fetch _ headers => headers
  | post _ _ _ headers => headers

/-- What the call comes to. -/
def run (engine : Engine) (host : Request → Reply) : FetchCall → Outcome
  | fetch url headers => jsHttpFetchCall engine host [.ofString url, .ofArray headers]
  | post url ctype data headers =>
    jsHttpPostCall engine host [.ofString url, .ofString ctype, .ofString data, .ofArray headers]

/-- The request has the URL, the content type and the body of the call. -/
def PresentedBy (engine : Engine) (request : Request) : FetchCall → Prop
  | fetch url _ => request.url = engine.toCString url ∧ request.op = .start
  | post url ctype data _ => request.url = engine.toCString url ∧
    HoldsCtype request.op (engine.toCString ctype) ∧ HoldsBody request.op (engine.toCString data)

/-- The call throws without contacting the host, or presents exactly what it was given. -/
def Faithful (engine : Engine) (host : Request → Reply) (c : FetchCall) : Prop :=
  match c.run engine host with
  | .threw => True
  | .overrun => False
  | .contacted request _ =>
    Curl.Holds request.fields (c.headers.map engine.toCString) ∧ c.PresentedBy engine request

/-- There are twelve headers, and they, the content type and the body fit the fields that have
their lengths. -/
def Fits (engine : Engine) (c : FetchCall) : Prop :=
  c.headers.length = CURL_FIELDS_COUNT ∧ (∀ h ∈ c.headers, (engine.toCString h).length < 2 ^ 16) ∧
    match c with
    | .fetch _ _ => True
    | .post _ ctype data _ =>
      (engine.toCString ctype).length ≤ 128 ∧ (engine.toCString data).length < 2 ^ 32

end FetchCall

/-! ## The slots -/

/-- Reading an element of an array of strings gives the string, or `undefined` past the end. -/
theorem getPropertyUint32_strings (strings : List Str) (i : ℕ) :
    getPropertyUint32 (strings.map fun s => .returned (.string s)) i =
      .returned ((strings[i]?.map Value.string).getD .undefined) := by
  rw [getPropertyUint32, List.getD_eq_getElem?_getD, List.getElem?_map]
  cases strings[i]? with
  | none => rfl
  | some s => rfl

/-- The loop sets every slot from `i` on, to its element or to `undefined`. -/
theorem fillFields_eq (engine : Engine) (strings : List Str) (i : ℕ) (fields : CurlFields)
    (j : Fin CURL_FIELDS_COUNT) :
    fillFields engine (strings.map fun s => .returned (.string s)) i fields j =
      if j.val < i then fields j
      else slot engine ((strings[j.val]?.map Value.string).getD .undefined) := by
  fun_induction fillFields engine (strings.map fun s => .returned (.string s)) i fields with
  | case1 i fields h hthrew =>
    rw [getPropertyUint32_strings] at hthrew
    exact absurd hthrew (by simp)
  | case2 i fields h val hval ih =>
    rw [getPropertyUint32_strings] at hval
    have hval := Completion.returned.inj hval
    rw [ih]
    rcases lt_trichotomy j.val i with hlt | heq | hgt
    · rw [if_pos hlt, if_pos (hlt.trans (Nat.lt_succ_self i)), CurlFields.set_of_ne _ hlt.ne]
    · obtain rfl : j = ⟨i, h⟩ := Fin.ext heq
      rw [if_pos (Nat.lt_succ_self i), if_neg (lt_irrefl i), CurlFields.set_self, hval]
    · rw [if_neg (by omega), if_neg (by omega)]
  | case3 i fields h =>
    rw [if_pos (lt_of_lt_of_le j.isLt (not_lt.1 h))]

/-- The slots that `get_request_fields` makes of an array of strings. -/
def arrayFields (engine : Engine) (strings : List Str) : CurlFields :=
  fillFields engine (strings.map fun s => .returned (.string s)) 0 .zero

theorem arrayFields_of_some {engine : Engine} {strings : List Str} {j : Fin CURL_FIELDS_COUNT}
    {s : Str} (h : strings[j.val]? = some s) :
    arrayFields engine strings j = .ofString (engine.toCString s) := by
  rw [arrayFields, fillFields_eq, if_neg (Nat.not_lt_zero _), h]
  rfl

theorem arrayFields_of_none {engine : Engine} {strings : List Str} {j : Fin CURL_FIELDS_COUNT}
    (h : strings[j.val]? = none) :
    arrayFields engine strings j = .ofString (engine.toCString (Utf16.ofAscii "undefined")) := by
  rw [arrayFields, fillFields_eq, if_neg (Nat.not_lt_zero _), h]
  rfl

/-- The slots have an array of strings exactly if it has twelve and all lengths fit. -/
theorem holds_arrayFields_iff (engine : Engine) (strings : List Str) :
    Holds (arrayFields engine strings) (strings.map engine.toCString) ↔
      strings.length = CURL_FIELDS_COUNT ∧
        ∀ s ∈ strings, (engine.toCString s).length < 2 ^ 16 := by
  have hget : ∀ (i : ℕ) (h : Bytes), (strings.map engine.toCString)[i]? = some h →
      ∃ s, strings[i]? = some s ∧ engine.toCString s = h := fun i h hi => by
    rw [List.getElem?_map] at hi
    exact Option.map_eq_some_iff.1 hi
  have hset : ∀ (i : Fin CURL_FIELDS_COUNT) (h : Bytes),
      (strings.map engine.toCString)[i.val]? = some h →
      arrayFields engine strings i = .ofString h := fun i h hi => by
    obtain ⟨s, hs, rfl⟩ := hget i h hi
    exact arrayFields_of_some hs
  rcases lt_trichotomy strings.length CURL_FIELDS_COUNT with hlt | heq | hgt
  · refine iff_of_false (fun hholds => ?_) fun h => hlt.ne h.1
    have hslot := hholds.2 ⟨strings.length, hlt⟩
    have hnone : strings[strings.length]? = none := List.getElem?_eq_none le_rfl
    rw [arrayFields_of_none hnone, List.getElem?_map, hnone] at hslot
    exact Slot.not_holds_none _ hslot
  · have hrest : ∀ i : Fin CURL_FIELDS_COUNT, (strings.map engine.toCString)[i.val]? = none →
        arrayFields engine strings i = .unused := fun i hi => by
      rw [List.getElem?_eq_none_iff, List.length_map, heq] at hi
      exact absurd i.isLt (not_lt.2 hi)
    rw [holds_iff (by rw [List.length_map, heq]) hset hrest, List.forall_mem_map,
      and_iff_right heq]
  · refine iff_of_false (fun hholds => ?_) fun h => hgt.ne' h.1
    have hle := hholds.1
    rw [List.length_map] at hle
    exact absurd hle (not_le.2 hgt)

/-! ## The calls of a script -/

/-- A call throws or presents exactly what it was given, exactly if it has twelve headers and all
lengths fit. -/
theorem js_request_iff (engine : Engine) (host : Request → Reply) (c : FetchCall) :
    c.Faithful engine host ↔ c.Fits engine := by
  cases c with
  | fetch url headers =>
    have hrun : (FetchCall.fetch url headers).run engine host =
        sysFetch engine host ⟨engine.toCString url, .start, arrayFields engine headers⟩ := rfl
    rw [FetchCall.Faithful, hrun]
    show Holds (arrayFields engine headers) (headers.map engine.toCString) ∧ _ ↔ _
    rw [holds_arrayFields_iff]
    exact ⟨fun ⟨⟨hcount, hlens⟩, _⟩ => ⟨hcount, hlens, trivial⟩,
      fun ⟨hcount, hlens, _⟩ => ⟨⟨hcount, hlens⟩, rfl, rfl⟩⟩
  | post url ctype data headers =>
    have hrun : (FetchCall.post url ctype data headers).run engine host =
        match setCtype .start (engine.toCString ctype) with
        | none => .overrun
        | some op => sysFetch engine host
          ⟨engine.toCString url, setBody op (engine.toCString data), arrayFields engine headers⟩ :=
      rfl
    rw [FetchCall.Faithful, hrun]
    rcases hset : setCtype .start (engine.toCString ctype) with - | op
    · have hover := setCtype_eq_none_iff.1 hset
      exact iff_of_false id fun hfits => absurd hfits.2.2.1 (not_le.2 hover)
    · obtain ⟨hle, hctype, -⟩ := setCtype_eq_some hset
      show Holds (arrayFields engine headers) (headers.map engine.toCString) ∧ _ ∧ _ ∧
        HoldsBody (setBody op (engine.toCString data)) (engine.toCString data) ↔ _
      rw [holds_arrayFields_iff, holdsBody_setBody_iff]
      exact ⟨fun ⟨⟨hcount, hlens⟩, _, _, hbody⟩ => ⟨hcount, hlens, hle, hbody⟩,
        fun ⟨hcount, hlens, _, hbody⟩ => ⟨⟨hcount, hlens⟩, rfl, hctype, hbody⟩⟩

/-- A fetch with no headers. -/
def bareFetch : FetchCall :=
  .fetch (Utf16.ofAscii "http://localhost/") []

/-- A host that fetches an empty response. -/
def emptyHost : Request → Reply :=
  fun _ => .fetched ⟨200, [], [], [], Nim.empty_ctype_fits⟩

/-- It presents twelve headers `undefined`. -/
theorem js_request_not_faithful : ¬bareFetch.Faithful .utf8 emptyHost := by
  intro h
  have hcount := ((holds_arrayFields_iff .utf8 []).1 h.1).1
  exact absurd hcount (by decide)

end Js

end TinyKvm
