import TinyKvm.NimCurl
import Mathlib.Algebra.Group.Nat.Defs

/-!
# What a request presents to cURL

`sys_fetch` and `sys_request` take a URL, a `curl_op`, and a `curl_fields` with
twelve slots for request headers, each a pointer with a length of 16 bits. The
JavaScript and the C++ program fill in both from strings of any number and any
length.

A slot that was set from a string has it exactly if its length fits
(`Slot.holds_ofString_iff`), so slots that were set in order have a list of
headers exactly if all lengths do (`holds_iff`). A body is in the `curl_op` if
its length fits (`holdsBody_setBody_iff`), and a content type unless it overruns
its field (`setCtype_eq_some`).
-/

namespace TinyKvm

namespace Curl

open Nim (CurlOp Ctype)

/-- `CURL_FIELDS_COUNT`. -/
def CURL_FIELDS_COUNT : ℕ :=
  12

/-- A slot of `curl_fields` : a pointer, null or to the bytes it points to, and a length. -/
structure Slot where
  ptr : Option Bytes
  len : BitVec 16
  deriving DecidableEq

/-- A slot that is not used. -/
def Slot.unused : Slot :=
  ⟨none, 0⟩

/-- The slot of a string, whose length is cut to 16 bits. -/
def Slot.ofString (s : Bytes) : Slot :=
  ⟨some s, BitVec.ofNat 16 s.length⟩

/-- `struct curl_fields`. -/
abbrev CurlFields := Fin CURL_FIELDS_COUNT → Slot

/-- `struct curl_fields fields = {}`. -/
def CurlFields.zero : CurlFields :=
  fun _ => .unused

/-- The fields with slot `i` set. -/
def CurlFields.set (fields : CurlFields) (i : Fin CURL_FIELDS_COUNT) (slot : Slot) : CurlFields :=
  Function.update fields i slot

/-- What a call passes to the host. -/
structure Request where
  url : Bytes
  op : CurlOp
  fields : CurlFields

/-- `memcpy` of a content type to its field, with its length, unless it overruns the field. -/
def setCtype (op : CurlOp) (ctype : Bytes) : Option CurlOp :=
  if h : ctype.length ≤ 128 then
    some { op with ctlen := BitVec.ofNat 32 ctype.length, ctype := op.ctype.copy ctype h }
  else none

/-- The body, whose length is cut to 32 bits. -/
def setBody (op : CurlOp) (body : Bytes) : CurlOp :=
  { op with postBuffer := some body, postBuflen := BitVec.ofNat 32 body.length }

/-! ## What the host reads -/

/-- The slot has a header, its bytes with their number, or no header. -/
def Slot.Holds (slot : Slot) : Option Bytes → Prop
  | some header => slot.ptr = some header ∧ slot.len.toNat = header.length
  | none => slot = .unused

/-- The slots have the headers in order, and no others. -/
def Holds (fields : CurlFields) (headers : List Bytes) : Prop :=
  headers.length ≤ CURL_FIELDS_COUNT ∧ ∀ i, (fields i).Holds headers[i.val]?

/-- The structure has the content type inside its field, with its length. -/
def HoldsCtype (op : CurlOp) (ctype : Bytes) : Prop :=
  op.ctlen.toNat = ctype.length ∧ op.ctype.bytes.take op.ctlen.toNat = ctype

/-- The structure has the body with its length. -/
def HoldsBody (op : CurlOp) (body : Bytes) : Prop :=
  op.postBuffer = some body ∧ op.postBuflen.toNat = body.length

/-- The length of a string is its length in a field of `w` bits exactly if it fits. -/
theorem toNat_ofNat_eq_iff (w n : ℕ) : (BitVec.ofNat w n).toNat = n ↔ n < 2 ^ w := by
  rw [BitVec.toNat_ofNat]
  exact Nat.mod_eq_iff_lt (Nat.two_pow_pos w).ne'

@[simp] theorem CurlFields.set_self (fields : CurlFields) (i : Fin CURL_FIELDS_COUNT)
    (slot : Slot) : fields.set i slot i = slot :=
  Function.update_self ..

theorem CurlFields.set_of_ne (fields : CurlFields) {i j : Fin CURL_FIELDS_COUNT} (h : j.val ≠ i.val)
    (slot : Slot) : fields.set i slot j = fields j :=
  Function.update_of_ne (fun hij => h (congrArg Fin.val hij)) ..

theorem Slot.holds_ofString_iff (s : Bytes) :
    (Slot.ofString s).Holds (some s) ↔ s.length < 2 ^ 16 := by
  rw [Slot.Holds, Slot.ofString, toNat_ofNat_eq_iff]
  exact and_iff_right rfl

theorem Slot.not_holds_none (s : Bytes) : ¬(Slot.ofString s).Holds none := by
  intro h
  exact absurd (congrArg Slot.ptr h) (by simp [Slot.ofString, Slot.unused])

/-- Slots that were set from the headers in order, with the others unused, have the headers exactly
if all lengths fit. -/
theorem holds_iff {fields : CurlFields} {headers : List Bytes}
    (hle : headers.length ≤ CURL_FIELDS_COUNT)
    (hset : ∀ (i : Fin CURL_FIELDS_COUNT) (h : Bytes), headers[i.val]? = some h →
      fields i = .ofString h)
    (hrest : ∀ i : Fin CURL_FIELDS_COUNT, headers[i.val]? = none → fields i = .unused) :
    Holds fields headers ↔ ∀ h ∈ headers, h.length < 2 ^ 16 := by
  constructor
  · rintro ⟨-, hholds⟩ h hh
    obtain ⟨i, hi, rfl⟩ := List.getElem_of_mem hh
    have hslot := hholds ⟨i, hi.trans_le hle⟩
    rw [hset ⟨i, hi.trans_le hle⟩ _ (List.getElem?_eq_getElem hi),
      List.getElem?_eq_getElem hi] at hslot
    exact (Slot.holds_ofString_iff _).1 hslot
  · refine fun hfits => ⟨hle, fun i => ?_⟩
    rcases hi : headers[i.val]? with - | h
    · exact hrest i hi
    · rw [hset i h hi]
      exact (Slot.holds_ofString_iff h).2 (hfits h (List.mem_of_getElem? hi))

theorem holdsBody_setBody_iff (op : CurlOp) (body : Bytes) :
    HoldsBody (setBody op body) body ↔ body.length < 2 ^ 32 := by
  rw [HoldsBody, setBody, toNat_ofNat_eq_iff]
  exact and_iff_right rfl

theorem setCtype_eq_none_iff {op : CurlOp} {ctype : Bytes} :
    setCtype op ctype = none ↔ 128 < ctype.length := by
  rw [setCtype]
  split_ifs with h
  · exact iff_of_false (by simp) (not_lt.2 h)
  · exact iff_of_true rfl (not_le.1 h)

/-- A content type that was copied is in its field, and the body is as before. -/
theorem setCtype_eq_some {op op' : CurlOp} {ctype : Bytes} (h : setCtype op ctype = some op') :
    ctype.length ≤ 128 ∧ HoldsCtype op' ctype ∧
      ∀ body, HoldsBody op' body ↔ HoldsBody op body := by
  obtain ⟨hle, heq⟩ := Option.dite_none_right_eq_some.1 h
  obtain rfl := Option.some.inj heq
  have hlen : (BitVec.ofNat 32 ctype.length).toNat = ctype.length :=
    (toNat_ofNat_eq_iff 32 _).2 (by omega)
  refine ⟨hle, ⟨hlen, ?_⟩, fun body => Iff.rfl⟩
  rw [hlen]
  exact List.take_left

end Curl

end TinyKvm
