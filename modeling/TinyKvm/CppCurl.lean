import TinyKvm.CurlFields

/-!
# cURL in C++

`Curl::fetch`, `Curl::self` and `Curl::post` copy the pointers and sizes of a
vector of strings to the slots of `curl_fields`, one slot for each string without
a bound. `Curl::post` copies its content type in full to the structure. None of
them checks an argument before it contacts the host.

A loop that stays inside the slots sets them in order (`setFields_eq_some`), and
one with more strings leaves them (`setFields_eq_none`). So a call passes exactly
what it was given, and writes only inside its structures, exactly if there are at
most twelve strings and all lengths fit (`cpp_request_iff`).
-/

namespace TinyKvm

namespace Cpp

open Curl
open Nim (CurlOp Reply)

/-! ## The program -/

/-- `struct curl_options`. -/
structure CurlOptions where
  interface : Option Bytes
  followLocation : Bool
  dummyFetch : Bool
  tcpFastOpen : Bool
  dontVerifyHost : Bool

/-- `struct curl_options options = {}`. -/
def CurlOptions.zero : CurlOptions :=
  ⟨none, false, false, false, false⟩

/-- The system calls that contact the host. -/
inductive Syscall where
  | sysFetch
  | sysRequest
  deriving DecidableEq

/-- What a call passes to the host. -/
structure HostCall where
  syscall : Syscall
  request : Request
  options : Option CurlOptions

/-- A `std::string_view`, which may outlive what it points to. -/
inductive View where
  | bytes (bytes : Bytes)
  | dangling

/-- `Curl::Result`. -/
structure Result where
  status : BitVec 16
  contentType : View
  content : Bytes

/-- What a call comes to : it writes past a field of its structures, or contacts the host and
returns. -/
inductive Outcome where
  | overrun
  | contacted (call : HostCall) (result : Result)

/-- The loop that sets the fields, from index `i` on. -/
def setFields : ℕ → List Bytes → CurlFields → Option CurlFields
  | _, [], fields => some fields
  | i, str :: strvec, fields =>
    if h : i < CURL_FIELDS_COUNT then
      setFields (i + 1) strvec (fields.set ⟨i, h⟩ (.ofString str))
    else none

/-- The fields of a vector of strings. -/
def requestFields (strvec : List Bytes) : Option CurlFields :=
  if strvec ≠ [] then setFields 0 strvec .zero else some .zero

/-- The result of a call, where `view` is what becomes of a view of the content type. -/
def result (host : HostCall → Reply) (call : HostCall) (view : Bytes → View) : Result :=
  let reply := host call
  if reply.ret = 0 then
    let op := reply.apply call.request.op
    { status := op.status.setWidth 16
      contentType := view (op.ctype.bytes.take op.ctlen.toNat)
      content := (op.content.getD []).take op.contentLength.toNat }
  else ⟨0, .bytes [], []⟩

/-- The body of `Curl::fetch` and `Curl::self`, on a structure that is static. -/
def fetchWith (syscall : Syscall) (host : HostCall → Reply) (url : Bytes) (strvec : List Bytes)
    (options : Option CurlOptions) : Outcome :=
  match requestFields strvec with
  | none => .overrun
  | some fields =>
    let call : HostCall := ⟨syscall, ⟨url, .start, fields⟩, options⟩
    .contacted call (result host call .bytes)

/-- `Curl::fetch`. -/
def fetch : (HostCall → Reply) → Bytes → List Bytes → Option CurlOptions → Outcome :=
  fetchWith .sysFetch

/-- `Curl::self`. -/
def self : (HostCall → Reply) → Bytes → List Bytes → Option CurlOptions → Outcome :=
  fetchWith .sysRequest

/-- `Curl::head`. -/
def head (host : HostCall → Reply) (url : Bytes) (strvec : List Bytes) : Outcome :=
  fetch host url strvec (some { CurlOptions.zero with dummyFetch := true })

/-- `Curl::post`, whose structure is gone when it returns. -/
def post (host : HostCall → Reply) (url ctype data : Bytes) (strvec : List Bytes) : Outcome :=
  match requestFields strvec with
  | none => .overrun
  | some fields =>
    match setCtype (setBody .start data) ctype with
    | none => .overrun
    | some op =>
      let call : HostCall := ⟨.sysFetch, ⟨url, op, fields⟩, none⟩
      .contacted call (result host call fun _ => .dangling)

/-! ## The property -/

/-- A call with strings of any number and any length. -/
inductive Call where
  | fetch (url : Bytes) (strvec : List Bytes) (options : Option CurlOptions)
  | self (url : Bytes) (strvec : List Bytes) (options : Option CurlOptions)
  | post (url ctype data : Bytes) (strvec : List Bytes)

namespace Call

/-- The header strings. -/
def strvec : Call → List Bytes
  | fetch _ strvec _ => strvec
  | self _ strvec _ => strvec
  | post _ _ _ strvec => strvec

/-- What the call comes to. -/
def run (host : HostCall → Reply) : Call → Outcome
  | fetch url strvec options => Cpp.fetch host url strvec options
  | self url strvec options => Cpp.self host url strvec options
  | post url ctype data strvec => Cpp.post host url ctype data strvec

/-- The call to the host has the URL, the options, the content type and the body. -/
def PresentedBy (call : HostCall) : Call → Prop
  | fetch url _ options => call.syscall = .sysFetch ∧ call.request.url = url ∧
    call.request.op = .start ∧ call.options = options
  | self url _ options => call.syscall = .sysRequest ∧ call.request.url = url ∧
    call.request.op = .start ∧ call.options = options
  | post url ctype data _ => call.syscall = .sysFetch ∧ call.request.url = url ∧
    HoldsCtype call.request.op ctype ∧ HoldsBody call.request.op data

/-- The call writes only inside its structures, and passes exactly what it was given. -/
def Faithful (host : HostCall → Reply) (c : Call) : Prop :=
  match c.run host with
  | .overrun => False
  | .contacted call _ => Holds call.request.fields c.strvec ∧ c.PresentedBy call

/-- There are at most twelve headers, and they, the content type and the body fit the fields that
have them or their lengths. -/
def Fits (c : Call) : Prop :=
  c.strvec.length ≤ CURL_FIELDS_COUNT ∧ (∀ str ∈ c.strvec, str.length < 2 ^ 16) ∧
    match c with
    | .fetch _ _ _ => True
    | .self _ _ _ => True
    | .post _ ctype data _ => ctype.length ≤ 128 ∧ data.length < 2 ^ 32

end Call

/-! ## The loop -/

/-- A loop with more strings than slots are left writes past the last one. -/
theorem setFields_eq_none : ∀ {i : ℕ} {strvec : List Bytes} (fields : CurlFields),
    i ≤ CURL_FIELDS_COUNT → CURL_FIELDS_COUNT < i + strvec.length →
    setFields i strvec fields = none
  | i, [], _, hi, hlen => absurd hi (not_le.2 hlen)
  | i, str :: strvec, fields, hi, hlen => by
    rw [setFields]
    split_ifs with h
    · rw [List.length_cons] at hlen
      exact setFields_eq_none _ h (by omega)
    · rfl

/-- A loop that stays inside the slots sets them in order, and no others. -/
theorem setFields_eq_some : ∀ (i : ℕ) (strvec : List Bytes) (fields : CurlFields),
    i + strvec.length ≤ CURL_FIELDS_COUNT → ∃ fields', setFields i strvec fields = some fields' ∧
      (∀ j : Fin CURL_FIELDS_COUNT, j.val < i → fields' j = fields j) ∧
      (∀ (j : Fin CURL_FIELDS_COUNT) (k : ℕ) (str : Bytes), j.val = i + k → strvec[k]? = some str →
        fields' j = .ofString str) ∧
      ∀ j : Fin CURL_FIELDS_COUNT, i + strvec.length ≤ j.val → fields' j = fields j
  | i, [], fields, _ => ⟨fields, rfl, fun _ _ => rfl, by simp, fun _ _ => rfl⟩
  | i, str :: strvec, fields, hlen => by
    rw [List.length_cons] at hlen
    have hi : i < CURL_FIELDS_COUNT := by omega
    obtain ⟨fields', hfields, hbefore, hset, hafter⟩ :=
      setFields_eq_some (i + 1) strvec (fields.set ⟨i, hi⟩ (.ofString str)) (by omega)
    refine ⟨fields', ?_, fun j hj => ?_, fun j k s hj hk => ?_, fun j hj => ?_⟩
    · rw [setFields, dif_pos hi, hfields]
    · rw [hbefore j (by omega), CurlFields.set_of_ne _ hj.ne]
    · cases k with
      | zero =>
        obtain rfl : str = s := by simpa using hk
        obtain rfl : j = ⟨i, hi⟩ := Fin.ext hj
        rw [hbefore _ (Nat.lt_succ_self i), CurlFields.set_self]
      | succ k => exact hset j k s (by omega) (by simpa using hk)
    · rw [List.length_cons] at hj
      have hne : j.val ≠ i := by omega
      rw [hafter j (by omega), CurlFields.set_of_ne _ hne]

/-- A vector with more strings than there are slots overruns them. -/
theorem requestFields_eq_none {strvec : List Bytes} (h : CURL_FIELDS_COUNT < strvec.length) :
    requestFields strvec = none := by
  have hne : strvec ≠ [] := by
    rintro rfl
    exact absurd h (by decide)
  rw [requestFields, if_pos hne]
  exact setFields_eq_none _ (Nat.zero_le _) (by omega)

/-- The fields of a vector that has a slot for each string have these exactly if the lengths
fit. -/
theorem requestFields_eq_some {strvec : List Bytes} (h : strvec.length ≤ CURL_FIELDS_COUNT) :
    ∃ fields, requestFields strvec = some fields ∧
      (Holds fields strvec ↔ ∀ str ∈ strvec, str.length < 2 ^ 16) := by
  obtain ⟨fields, hfields, -, hset, hafter⟩ :=
    setFields_eq_some 0 strvec .zero (by omega)
  refine ⟨fields, ?_, holds_iff h (fun i str hi => hset i i str (Nat.zero_add _).symm hi)
    fun i hi => ?_⟩
  · rw [requestFields]
    split_ifs with hne
    · exact hfields
    · rw [← hfields, not_not.1 hne]
      rfl
  · have hle := List.getElem?_eq_none_iff.1 hi
    exact hafter i (by omega)

/-! ## The calls -/

/-- A call that is one of the family is as it should be exactly if its strings are. -/
theorem faithful_fetchWith_iff (host : HostCall → Reply) (c : Call) (syscall : Syscall)
    (url : Bytes) (options : Option CurlOptions)
    (hrun : c.run host = fetchWith syscall host url c.strvec options)
    (hpresented : ∀ fields, c.PresentedBy ⟨syscall, ⟨url, .start, fields⟩, options⟩) :
    c.Faithful host ↔
      c.strvec.length ≤ CURL_FIELDS_COUNT ∧ ∀ str ∈ c.strvec, str.length < 2 ^ 16 := by
  rw [Call.Faithful, hrun, fetchWith]
  rcases le_or_gt c.strvec.length CURL_FIELDS_COUNT with hle | hgt
  · obtain ⟨fields, hfields, hholds⟩ := requestFields_eq_some hle
    rw [hfields]
    show Holds fields c.strvec ∧ _ ↔ _
    rw [hholds]
    exact ⟨fun h => ⟨hle, h.1⟩, fun h => ⟨h.2, hpresented fields⟩⟩
  · rw [requestFields_eq_none hgt]
    exact iff_of_false id fun h => absurd h.1 (not_le.2 hgt)

/-- A call passes exactly what it was given, and writes only inside its structures, exactly if
there are at most twelve headers and all lengths fit. -/
theorem cpp_request_iff (host : HostCall → Reply) (c : Call) : c.Faithful host ↔ c.Fits := by
  cases c with
  | fetch url strvec options =>
    rw [faithful_fetchWith_iff host (.fetch url strvec options) .sysFetch url options rfl
      fun fields => ⟨rfl, rfl, rfl, rfl⟩]
    exact ⟨fun h => ⟨h.1, h.2, trivial⟩, fun h => ⟨h.1, h.2.1⟩⟩
  | self url strvec options =>
    rw [faithful_fetchWith_iff host (.self url strvec options) .sysRequest url options rfl
      fun fields => ⟨rfl, rfl, rfl, rfl⟩]
    exact ⟨fun h => ⟨h.1, h.2, trivial⟩, fun h => ⟨h.1, h.2.1⟩⟩
  | post url ctype data strvec =>
    rw [Call.Faithful, Call.run, post]
    rcases le_or_gt strvec.length CURL_FIELDS_COUNT with hle | hgt
    · obtain ⟨fields, hfields, hholds⟩ := requestFields_eq_some hle
      rw [hfields]
      rcases hset : setCtype (setBody .start data) ctype with - | op
      · have hover := setCtype_eq_none_iff.1 hset
        exact iff_of_false id fun h => absurd h.2.2.1 (not_le.2 hover)
      · obtain ⟨hfit, hctype, hbody⟩ := setCtype_eq_some hset
        show Holds fields strvec ∧ _ ∧ _ ∧ HoldsCtype op ctype ∧ HoldsBody op data ↔ _
        rw [hholds, hbody, holdsBody_setBody_iff]
        exact ⟨fun ⟨hlens, _, _, _, hlen⟩ => ⟨hle, hlens, hfit, hlen⟩,
          fun ⟨_, hlens, _, hlen⟩ => ⟨hlens, rfl, rfl, hctype, hlen⟩⟩
    · rw [requestFields_eq_none hgt]
      exact iff_of_false id fun h => absurd h.1 (not_le.2 hgt)

/-- A fetch with thirteen empty headers. -/
def thirteenHeaders : Call :=
  .fetch (ascii "http://localhost/") (List.replicate 13 []) none

/-- A host that fetches an empty response. -/
def emptyHost : HostCall → Reply :=
  fun _ => .fetched ⟨200, [], [], [], Nim.empty_ctype_fits⟩

/-- The thirteenth is written past the slots. -/
theorem cpp_request_not_faithful : ¬thirteenHeaders.Faithful emptyHost := by
  have hnone : requestFields (List.replicate 13 []) = none := requestFields_eq_none (by decide)
  rw [Call.Faithful, thirteenHeaders, Call.run, fetch, fetchWith, hnone]
  exact id

end Cpp

end TinyKvm
