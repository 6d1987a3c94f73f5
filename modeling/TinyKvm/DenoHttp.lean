import TinyKvm.Utf16
import Mathlib.Data.List.TakeDrop
import Mathlib.Logic.Function.Basic

/-!
# Header fields in Deno

`http_set_req` encodes the field `name: value` in UTF-8 and gives the host the
buffer with the length of the string, which counts UTF-16 units. `http_get` finds
the field by its name, reads it back as a zero-terminated string, and splits it
at every `": "`, of which it takes the first two parts.

The host so stores the whole field exactly if it is ASCII
(`storedBytes_eq_iff`). The pair comes back, and the whole field is stored,
exactly if name and value are ASCII without zeros and the value has no `": "`
(`http_round_trip_iff`).
-/

namespace TinyKvm

namespace Deno

open Utf16

/-! ## The program -/

/-- `split` at the separator of two units. -/
def split (a b : Unit16) : List Unit16 → List (List Unit16)
  | [] => [[]]
  | [u] => [[u]]
  | u :: v :: s =>
    if u = a ∧ v = b then [] :: split a b s
    else (split a b (v :: s)).modifyHead (u :: ·)

/-- `new TextEncoder().encode`. -/
def textEncode (s : List Unit16) : Bytes :=
  toUtf8 (toWellFormed s)

/-- `Deno.UnsafePointerView.getCString`. -/
def getCString (buffer : Bytes) : List Unit16 :=
  ofUtf8Lossy (cString buffer)

/-- The name of a field, up to its colon. -/
def fieldName (field : Bytes) : Bytes :=
  field.takeWhile (· ≠ 0x3A)

/-- What the host takes for one name, and what is then in its fields. -/
structure Host where
  same : Bytes → Bytes → Bool
  same_refl : ∀ name, same name name

/-- The request and the response, whose fields a call names. -/
inductive Where where
  | REQ
  | RESP
  deriving DecidableEq

/-- The fields of the request and of the response. -/
abbrev Http := Where → List Bytes

/-- `HTTP_FMT_SIZE`. -/
def HTTP_FMT_SIZE : ℕ :=
  4096

/-- `sys_http_set` : the bytes replace a field of the same name. -/
def sysHttpSet (host : Host) (http : Http) (w : Where) (what : Bytes) (len : ℕ) : Http :=
  let field := what.take len
  Function.update http w
    ((http w).filter (fun f => ¬host.same (fieldName f) (fieldName field)) ++ [field])

/-- `sys_http_find` : what is written of the field of that name, which is nothing if there is none
or it is too long. -/
def sysHttpFind (host : Host) (http : Http) (w : Where) (key : Bytes) (outl : ℕ) : Bytes :=
  match (http w).find? fun f => host.same (fieldName f) key with
  | none => []
  | some field => if field.length ≤ outl then field else []

/-- `http_alloc_find`, with the terminator it adds. -/
def httpAllocFind (host : Host) (http : Http) (w : Where) (key : Bytes) : Bytes :=
  sysHttpFind host http w (cString key) HTTP_FMT_SIZE ++ [0]

/-- `vd_find_header`. -/
def vdFindHeader (host : Host) (http : Http) (name : Bytes) : Bytes :=
  httpAllocFind host http .REQ name

/-- `vd_set_req_header`. -/
def vdSetReqHeader (host : Host) (http : Http) (full : Bytes) (len : ℕ) : Http :=
  sysHttpSet host http .REQ full len

/-- `vd_set_resp_header`. -/
def vdSetRespHeader (host : Host) (http : Http) (full : Bytes) (len : ℕ) : Http :=
  sysHttpSet host http .RESP full len

/-- `http_getfield`. The name is terminated for `vd_find_header`. -/
def httpGetfield (host : Host) (http : Http) (name : List Unit16) : List Unit16 :=
  getCString (vdFindHeader host http (textEncode name ++ [0]))

/-- The key and the value `http_get` returns, where a value that is not there is `undefined`. -/
abbrev Pair := List Unit16 × Option (List Unit16)

/-- `http_get`, which returns null for an empty field. -/
def httpGet (host : Host) (http : Http) (name : List Unit16) : Option Pair :=
  let headerValue := httpGetfield host http name
  if headerValue = [] then none
  else
    let parts := split 0x3A 0x20 headerValue
    some (parts.headD [], parts[1]?)

/-- The string `name: value`. -/
def headerValue (name value : List Unit16) : List Unit16 :=
  name ++ 0x3A :: 0x20 :: value

/-- `http_set_req`. -/
def httpSetReq (host : Host) (http : Http) (name value : List Unit16) : Http :=
  vdSetReqHeader host http (textEncode (headerValue name value)) (headerValue name value).length

/-- `http_set_resp`. -/
def httpSetResp (host : Host) (http : Http) (name value : List Unit16) : Http :=
  vdSetRespHeader host http (textEncode (headerValue name value)) (headerValue name value).length

/-! ## The property -/

/-- A name without a colon and a value, whose field is short enough. -/
structure Header where
  name : List Unit16
  value : List Unit16
  noColon : 0x3A ∉ name
  short : (textEncode (headerValue name value)).length < HTTP_FMT_SIZE

/-- The bytes `http_set_req` gives to the host. -/
def Header.storedBytes (h : Header) : Bytes :=
  (textEncode (headerValue h.name h.value)).take (headerValue h.name h.value).length

/-- After `http_set_req`, `http_get` returns the pair, and the field that was stored is whole. -/
structure RoundTrips (host : Host) (http : Http) (h : Header) : Prop where
  returned : httpGet host (httpSetReq host http h.name h.value) h.name =
    some (h.name, some h.value)
  stored : h.storedBytes = textEncode (headerValue h.name h.value)

/-- ASCII without zeros, and no second `": "`. -/
structure Header.Plain (h : Header) : Prop where
  ascii : IsAscii h.name ∧ IsAscii h.value
  nonzero : 0 ∉ h.name ∧ 0 ∉ h.value
  separator : ¬[0x3A, 0x20] <:+: h.value

/-! ## Splitting -/

section Split

variable {a b : Unit16}

/-- The first part ends at the first separator, where it has none before it. -/
theorem split_append (rest : List Unit16) : ∀ {s : List Unit16}, a ∉ s →
    split a b (s ++ a :: b :: rest) = s :: split a b rest
  | [], _ => by
    rw [List.nil_append, split, if_pos ⟨rfl, rfl⟩]
  | [u], h => by
    have hu : u ≠ a := fun hu => h (hu ▸ List.mem_cons_self)
    have hrest := split_append rest (s := []) List.not_mem_nil
    rw [List.nil_append] at hrest
    rw [List.singleton_append, split, if_neg fun hua => hu hua.1, hrest]
    rfl
  | u :: v :: s, h => by
    have hu : u ≠ a := fun hu => h (hu ▸ List.mem_cons_self)
    have hrest := split_append rest (s := v :: s) fun hs => h (List.mem_cons_of_mem u hs)
    rw [List.cons_append, List.cons_append, split, if_neg fun hua => hu hua.1]
    rw [List.cons_append] at hrest
    rw [hrest]
    rfl

theorem exists_split (s : List Unit16) : ∃ p ps, split a b s = p :: ps := by
  induction s using split.induct (a := a) (b := b) with
  | case1 => exact ⟨_, _, rfl⟩
  | case2 u => exact ⟨_, _, rfl⟩
  | case3 u v s h => exact ⟨_, _, by rw [split, if_pos h]⟩
  | case4 u v s h ih =>
    obtain ⟨p, ps, hsplit⟩ := ih
    exact ⟨u :: p, ps, by rw [split, if_neg h, hsplit]; rfl⟩

/-- A string is its own first part exactly if the separator does not occur in it. -/
theorem split_head_iff (s : List Unit16) : (split a b s).head? = some s ↔ ¬[a, b] <:+: s := by
  induction s using split.induct (a := a) (b := b) with
  | case1 => simp [split]
  | case2 u => exact iff_of_true rfl fun h => by simpa using h.length_le
  | case3 u v s h =>
    rw [split, if_pos h]
    refine iff_of_false (by simp) fun hno => hno ?_
    rw [h.1, h.2]
    exact (List.prefix_append [a, b] s).isInfix
  | case4 u v s h ih =>
    obtain ⟨p, ps, hsplit⟩ := exists_split (a := a) (b := b) (v :: s)
    have hprefix : ¬[a, b] <+: u :: v :: s := by
      intro hp
      simp only [List.cons_prefix_cons, List.nil_prefix, and_true] at hp
      exact h ⟨hp.1.symm, hp.2.symm⟩
    have hinfix : [a, b] <:+: u :: v :: s ↔ [a, b] <:+: v :: s :=
      List.infix_cons_iff.trans (or_iff_right hprefix)
    rw [hsplit, List.head?_cons, Option.some_inj] at ih
    rw [split, if_neg h, hsplit, List.modifyHead_cons, List.head?_cons, Option.some_inj,
      List.cons_inj_right, ih, hinfix]

/-- The parts have only units of the string. -/
theorem mem_of_mem_split {u : Unit16} (s : List Unit16) : ∀ p ∈ split a b s, u ∈ p → u ∈ s := by
  induction s using split.induct (a := a) (b := b) with
  | case1 => simp [split]
  | case2 v => simp [split]
  | case3 v w s h ih =>
    rw [split, if_pos h, List.forall_mem_cons]
    exact ⟨fun hu => absurd hu List.not_mem_nil, fun p hp hu =>
      List.mem_cons_of_mem v (List.mem_cons_of_mem w (ih p hp hu))⟩
  | case4 v w s h ih =>
    obtain ⟨p, ps, hsplit⟩ := exists_split (a := a) (b := b) (w :: s)
    rw [hsplit, List.forall_mem_cons] at ih
    rw [split, if_neg h, hsplit, List.modifyHead_cons, List.forall_mem_cons]
    refine ⟨fun hu => ?_, fun q hq hu => List.mem_cons_of_mem v (ih.2 q hq hu)⟩
    rcases List.mem_cons.1 hu with rfl | hu
    · exact List.mem_cons_self
    · exact List.mem_cons_of_mem v (ih.1 hu)

end Split

/-! ## Encoding -/

theorem textEncode_of_isAscii {s : List Unit16} (h : IsAscii s) : textEncode s = toUtf8 s := by
  rw [textEncode, toWellFormed_of_isAscii s h]

/-- The host stores the whole field exactly if it is ASCII. -/
theorem storedBytes_eq_iff (h : Header) :
    h.storedBytes = textEncode (headerValue h.name h.value) ↔
      IsAscii (headerValue h.name h.value) := by
  rw [Header.storedBytes, List.take_eq_self_iff _, textEncode, ← length_toWellFormed,
    length_toUtf8_le_iff, isAscii_toWellFormed]

/-- What is read as a string has no zero. -/
theorem getCString_nonzero (buffer : Bytes) : 0 ∉ getCString buffer :=
  zero_notMem_ofUtf8Lossy (zero_notMem_cString buffer)

/-- An ASCII string without zeros is read back. -/
theorem getCString_textEncode {s : List Unit16} (hascii : IsAscii s) (hzero : 0 ∉ s) :
    getCString (textEncode s ++ [0]) = s := by
  have hbytes : cString (textEncode s ++ [0]) = textEncode s := by
    refine cString_terminated ?_ []
    rwa [textEncode_of_isAscii hascii, zero_mem_toUtf8_iff]
  rw [getCString, hbytes, textEncode_of_isAscii hascii, ofUtf8Lossy_toUtf8 hascii]

/-! ## The round trip -/

section RoundTrip

variable {host : Host} {http : Http} {h : Header}

theorem isAscii_headerValue (h : Header) :
    IsAscii (headerValue h.name h.value) ↔ IsAscii h.name ∧ IsAscii h.value := by
  rw [headerValue, isAscii_append, isAscii_cons, isAscii_cons]
  exact and_congr_right fun _ => ⟨fun hs => hs.2.2, fun hs => ⟨by decide, by decide, hs⟩⟩

theorem zero_notMem_headerValue (h : Header) :
    0 ∉ headerValue h.name h.value ↔ 0 ∉ h.name ∧ 0 ∉ h.value := by
  simp [headerValue]

/-- The name of an ASCII field is that of its header. -/
theorem fieldName_headerValue (hname : IsAscii h.name) (hvalue : IsAscii h.value) :
    fieldName (toUtf8 (headerValue h.name h.value)) = toUtf8 h.name := by
  have hcolon : ∀ b ∈ h.name.map (·.setWidth 8), decide (b ≠ (0x3A : Byte)) := by
    intro b hb
    obtain ⟨u, hu, rfl⟩ := List.mem_map.1 hb
    have hlt := hname u hu
    refine decide_eq_true fun heq => h.noColon ?_
    have hnat : u.toNat % 2 ^ 8 = 0x3A := by rw [← BitVec.toNat_setWidth, heq]; rfl
    have hu' : u = 0x3A := BitVec.eq_of_toNat_eq (by simp; omega)
    exact hu' ▸ hu
  rw [toUtf8_of_isAscii _ ((isAscii_headerValue h).2 ⟨hname, hvalue⟩), toUtf8_of_isAscii _ hname,
    fieldName, headerValue, List.map_append, List.takeWhile_append_of_pos hcolon]
  exact List.append_nil _

/-- After an ASCII field has been set, it is what is found by its name. -/
theorem vdFindHeader_set (hname : IsAscii h.name) (hvalue : IsAscii h.value) (hzero : 0 ∉ h.name) :
    vdFindHeader host (httpSetReq host http h.name h.value) (textEncode h.name ++ [0]) =
      textEncode (headerValue h.name h.value) ++ [0] := by
  have hascii := (isAscii_headerValue h).2 ⟨hname, hvalue⟩
  have hstored := (storedBytes_eq_iff h).2 hascii
  have hkey : cString (textEncode h.name ++ [0]) = toUtf8 h.name := by
    rw [textEncode_of_isAscii hname]
    exact cString_terminated (fun h0 => hzero (zero_mem_toUtf8_iff.1 h0)) []
  have hfieldName : fieldName (textEncode (headerValue h.name h.value)) = toUtf8 h.name := by
    rw [textEncode_of_isAscii hascii, fieldName_headerValue hname hvalue]
  have hothers : ((http .REQ).filter fun f => ¬host.same (fieldName f) (toUtf8 h.name)).find?
      (fun f => host.same (fieldName f) (toUtf8 h.name)) = none := by
    rw [List.find?_eq_none]
    intro f hf
    simpa using (List.mem_filter.1 hf).2
  have hfind : ((httpSetReq host http h.name h.value) .REQ).find?
      (fun f => host.same (fieldName f) (toUtf8 h.name)) =
      some (textEncode (headerValue h.name h.value)) := by
    rw [httpSetReq, vdSetReqHeader, sysHttpSet, Function.update_self]
    rw [Header.storedBytes] at hstored
    rw [hstored, hfieldName, List.find?_append, hothers, Option.none_or, List.find?_singleton,
      hfieldName, host.same_refl, if_pos rfl]
  rw [vdFindHeader, httpAllocFind, hkey, sysHttpFind, hfind]
  exact congrArg (· ++ [0]) (if_pos h.short.le)

/-- `http_get` returns the name and the value up to its first `": "`. -/
theorem httpGet_set (hname : IsAscii h.name) (hvalue : IsAscii h.value) (hzero : 0 ∉ h.name)
    (hzero' : 0 ∉ h.value) :
    httpGet host (httpSetReq host http h.name h.value) h.name =
      some (h.name, (split 0x3A 0x20 h.value).head?) := by
  have hread := getCString_textEncode ((isAscii_headerValue h).2 ⟨hname, hvalue⟩)
    ((zero_notMem_headerValue h).2 ⟨hzero, hzero'⟩)
  have hne : headerValue h.name h.value ≠ [] := by simp [headerValue]
  rw [httpGet, httpGetfield, vdFindHeader_set hname hvalue hzero, hread]
  dsimp only
  rw [if_neg hne, headerValue, split_append _ h.noColon, List.head?_eq_getElem?]
  rfl

/-- The pair that is returned has no zeros. -/
theorem nonzero_of_returned {name key value : List Unit16}
    (hget : httpGet host http name = some (key, some value)) : 0 ∉ key ∧ 0 ∉ value := by
  have hfield : 0 ∉ httpGetfield host http name := getCString_nonzero _
  obtain ⟨p, ps, hsplit⟩ := exists_split (a := 0x3A) (b := 0x20) (httpGetfield host http name)
  have hnone : ∀ q ∈ p :: ps, 0 ∉ q := fun q hq h0 =>
    hfield (mem_of_mem_split _ q (hsplit ▸ hq) h0)
  rw [httpGet] at hget
  by_cases hne : httpGetfield host http name = []
  · rw [if_pos hne] at hget
    exact absurd hget (by simp)
  · rw [if_neg hne, hsplit] at hget
    obtain ⟨rfl, hvalue⟩ : p = key ∧ ps[0]? = some value := by simpa using hget
    exact ⟨hnone p List.mem_cons_self,
      hnone value (List.mem_cons_of_mem p (List.mem_of_getElem? hvalue))⟩

/-- The header comes back and is stored whole exactly if it is ASCII without zeros and its value
has no `": "`. -/
theorem http_round_trip_iff (host : Host) (http : Http) (h : Header) :
    RoundTrips host http h ↔ h.Plain := by
  constructor
  · intro hrt
    obtain ⟨hname, hvalue⟩ := (isAscii_headerValue h).1 ((storedBytes_eq_iff h).1 hrt.stored)
    have hzero := nonzero_of_returned hrt.returned
    have hget := hrt.returned
    rw [httpGet_set hname hvalue hzero.1 hzero.2] at hget
    have hhead := (Prod.mk.inj (Option.some.inj hget)).2
    exact ⟨⟨hname, hvalue⟩, hzero, (split_head_iff h.value).1 hhead⟩
  · intro hplain
    obtain ⟨⟨hname, hvalue⟩, ⟨hzero, hzero'⟩, hsep⟩ := hplain
    refine ⟨?_, (storedBytes_eq_iff h).2 ((isAscii_headerValue h).2 ⟨hname, hvalue⟩)⟩
    rw [httpGet_set hname hvalue hzero hzero', (split_head_iff h.value).2 hsep]

end RoundTrip

/-- The header `X: é`. -/
def accented : Header where
  name := ofAscii "X"
  value := [0xE9]
  noColon := by decide
  short := by decide

/-- A host that compares names byte by byte. -/
def exactHost : Host where
  same a b := a = b
  same_refl _ := decide_eq_true rfl

/-- The last byte of its encoding is not stored. -/
theorem http_not_round_trip : ¬RoundTrips exactHost (fun _ => []) accented := by
  intro h
  exact absurd h.stored (by decide)

end Deno

end TinyKvm
