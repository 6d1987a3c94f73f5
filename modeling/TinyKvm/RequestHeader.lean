import TinyKvm.Api
import TinyKvm.Keyed

/-!
# Looking up a request header

`vd_request_header` walks the headers of a request, zero-terminated strings
`key: value`, and compares the requested name with each key by `strncasecmp`, as
far as the key goes. Two strings agree that far exactly if the key is a prefix of
the name up to ASCII case (`strncasecmp_eq_zero_iff`), so a header whose key is
a proper prefix of the name is taken for it.

The header with the requested name is returned exactly if the first header whose
key is a prefix of the name has a key of its length (`request_header_iff`).
-/

namespace TinyKvm

namespace Deno

/-! ## The program -/

/-- `tolower`. -/
def tolower (c : Byte) : Byte :=
  if 0x41 ≤ c.toNat ∧ c.toNat ≤ 0x5A then c + 0x20 else c

/-- `strchr`, as the index of the character. -/
def strchr (s : CString) (c : Byte) : Option ℕ :=
  s.bytes.findIdx? (· = c)

/-- `strncasecmp`, on the bytes before the terminators, which are read as zeros. -/
def strncasecmp : Bytes → Bytes → ℕ → ℤ
  | _, _, 0 => 0
  | s, t, n + 1 =>
    let a := tolower (s.headD 0)
    let b := tolower (t.headD 0)
    if a ≠ b then a.toNat - b.toNat
    else if a = 0 then 0
    else strncasecmp s.tail t.tail n

/-- The loop of `vd_request_header`, with the index of the header whose field is returned. -/
def vdRequestHeader : List CString → CString → Option ℕ
  | [], _ => none
  | key :: headers, header =>
    match strchr key 0x3A with
    | none => (vdRequestHeader headers header).map (· + 1)
    | some value =>
      if strncasecmp key.bytes header.bytes value = 0 then some 0
      else (vdRequestHeader headers header).map (· + 1)

/-! ## The property -/

/-- The key of a header, the part before its first colon. -/
def headerKey (header : CString) : Option Bytes :=
  (strchr header 0x3A).map header.bytes.take

/-- Whether a header has the name as its key, up to ASCII case. -/
def hasKey (name : CString) (header : CString) : Bool :=
  (headerKey header).any fun k => k.map tolower = name.bytes.map tolower

/-- The first header with the requested name is returned, if there is one. -/
def LooksUp (headers : List CString) (name : CString) : Prop :=
  vdRequestHeader headers name = headers.findIdx? (hasKey name)

/-- Whether the key of a header is a prefix of the name, up to ASCII case. -/
def keyIsPrefix (name : CString) (header : CString) : Bool :=
  (headerKey header).any fun k => k.map tolower <+: name.bytes.map tolower

/-- The first header whose key is a prefix of the name has a key of its length. -/
def FirstHasLength (headers : List CString) (name : CString) : Prop :=
  ∀ header, headers.find? (keyIsPrefix name) = some header →
    (headerKey header).map List.length = some name.bytes.length

/-! ## Comparing -/

theorem tolower_ne_zero : ∀ {c : Byte}, c ≠ 0 → tolower c ≠ 0 := by
  decide

/-- A step of `strncasecmp` : equal characters, and then the end or an agreeing rest. -/
theorem strncasecmp_succ (s t : Bytes) (n : ℕ) :
    strncasecmp s t (n + 1) = 0 ↔ tolower (s.headD 0) = tolower (t.headD 0) ∧
      (tolower (s.headD 0) = 0 ∨ strncasecmp s.tail t.tail n = 0) := by
  rw [strncasecmp]
  split_ifs with hne hzero
  · refine iff_of_false (fun hsub => hne ?_) fun h => hne h.1
    exact BitVec.eq_of_toNat_eq (by omega)
  · exact iff_of_true rfl ⟨not_not.1 hne, .inl hzero⟩
  · exact ⟨fun h => ⟨not_not.1 hne, .inr h⟩, fun h => h.2.resolve_left hzero⟩

/-- `strncasecmp` is zero on as many characters as a string has if these are a prefix of the other
string, up to ASCII case. -/
theorem strncasecmp_eq_zero_iff : ∀ {s t : Bytes} {n : ℕ}, n ≤ s.length → (∀ b ∈ s, b ≠ 0) →
    (strncasecmp s t n = 0 ↔ (s.take n).map tolower <+: t.map tolower)
  | s, t, 0, _, _ => by simp [strncasecmp]
  | a :: s, [], n + 1, _, hs => by
    have ha : tolower a ≠ tolower 0 := tolower_ne_zero (hs a List.mem_cons_self)
    have hnil : ¬((a :: s).take (n + 1)).map tolower <+: ([] : Bytes).map tolower := by simp
    exact iff_of_false (fun h => ha ((strncasecmp_succ _ _ n).1 h).1) hnil
  | a :: s, b :: t, n + 1, hn, hs => by
    have ha : tolower a ≠ 0 := tolower_ne_zero (hs a List.mem_cons_self)
    have hrest := strncasecmp_eq_zero_iff (t := t) (Nat.le_of_succ_le_succ hn)
      fun c hc => hs c (List.mem_cons_of_mem a hc)
    rw [strncasecmp_succ, List.headD_cons, List.headD_cons, List.tail_cons, List.tail_cons, hrest,
      List.take_succ_cons, List.map_cons, List.map_cons, List.cons_prefix_cons,
      or_iff_right ha]

/-! ## The loop -/

/-- The loop returns the first header whose key is a prefix of the name. -/
theorem vdRequestHeader_eq (name : CString) : ∀ headers : List CString,
    vdRequestHeader headers name = headers.findIdx? (keyIsPrefix name)
  | [] => rfl
  | header :: headers => by
    rw [vdRequestHeader, List.findIdx?_cons, vdRequestHeader_eq name headers]
    cases hcolon : strchr header 0x3A with
    | none =>
      have hkey : keyIsPrefix name header = false := by
        rw [keyIsPrefix, headerKey, hcolon]
        rfl
      rw [hkey]
      rfl
    | some value =>
      have hvalue : value ≤ header.bytes.length :=
        (List.findIdx?_eq_some_iff_getElem.1 hcolon).1.le
      have hkey : keyIsPrefix name header ↔ strncasecmp header.bytes name.bytes value = 0 := by
        rw [keyIsPrefix, headerKey, hcolon, strncasecmp_eq_zero_iff hvalue header.nonzero]
        simp
      simp only [hkey]

theorem keyIsPrefix_of_hasKey {name header : CString} (h : hasKey name header) :
    keyIsPrefix name header := by
  rw [hasKey, Option.any_eq_true] at h
  obtain ⟨k, hk, heq⟩ := h
  rw [keyIsPrefix, Option.any_eq_true]
  refine ⟨k, hk, ?_⟩
  rw [of_decide_eq_true heq]
  exact decide_eq_true (List.prefix_refl _)

/-- A key that is a prefix is the name if it is as long. -/
theorem hasKey_iff_length {name header : CString} (h : keyIsPrefix name header) :
    hasKey name header ↔ (headerKey header).map List.length = some name.bytes.length := by
  rw [keyIsPrefix, Option.any_eq_true] at h
  obtain ⟨k, hk, hprefix⟩ := h
  have hprefix := of_decide_eq_true hprefix
  rw [hasKey, hk]
  simp only [Option.any_some, decide_eq_true_eq, Option.map_some, Option.some_inj]
  constructor
  · intro heq
    simpa using congrArg List.length heq
  · intro hlen
    exact hprefix.eq_of_length (by simpa using hlen)

/-- `vd_request_header` returns the first header with the requested name exactly if the first
header whose key is a prefix of the name has a key of its length. -/
theorem request_header_iff (headers : List CString) (name : CString) :
    LooksUp headers name ↔ FirstHasLength headers name := by
  rw [LooksUp, vdRequestHeader_eq, findIdx?_eq_iff fun h => keyIsPrefix_of_hasKey]
  refine forall₂_congr fun header hfind => ?_
  exact hasKey_iff_length (List.find?_some hfind)

/-- A header `Accept: text/html`. -/
def acceptHeader : CString :=
  ⟨ascii "Accept: text/html", by simp [ascii]⟩

/-- The name `Accept-Encoding`. -/
def acceptEncoding : CString :=
  ⟨ascii "Accept-Encoding", by simp [ascii]⟩

/-- A request for `Accept-Encoding` is answered by the header `Accept`. -/
theorem request_header_fails : ¬LooksUp [acceptHeader] acceptEncoding := by
  rw [LooksUp]
  decide

end Deno

end TinyKvm
