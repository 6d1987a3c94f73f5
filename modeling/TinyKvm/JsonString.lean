import TinyKvm.Cutils
import TinyKvm.JsonText
import TinyKvm.StringConversions

/-!
# JSON strings in QuickJS

`js_parse_string` reads a string of a JSON text, after its first quote. It takes
UTF-8 bytes, in which it allows more than JSON does : an apostrophe or any other
character may be escaped, characters have escapes in two digits and in braces, and
an escaped line terminator is nothing.

What one turn of its loop takes is a `Piece` (`stringTurn_put`,
`stringTurn_of_piece`), so it accepts the sequences of these up to the first quote
that is not in one, and nothing else (`jsParseString_iff`). All strings of JSON are
among them (`looseChars_of_chars`).
-/

namespace TinyKvm

namespace QuickJs

open Utf16 (Unit16 charBytes charUnits)
open JsonText (byte Chars)

/-! ## Reading -/

/-- What a reader throws. -/
inductive JsonError where
  | syntaxError (message : Bytes)
  | unfinished
  deriving DecidableEq

/-- `js_parse_error`. A message is cut at 255 bytes. -/
def jsParseError (message : Bytes) : JsonError :=
  .syntaxError (message.take 255)

/-- `from_hex`. -/
def fromHex (c : Byte) : Option ℕ :=
  if c.toNat ≥ (byte '0').toNat ∧ c.toNat ≤ (byte '9').toNat then
    some (c.toNat - (byte '0').toNat)
  else if c.toNat ≥ (byte 'A').toNat ∧ c.toNat ≤ (byte 'F').toNat then
    some (c.toNat - (byte 'A').toNat + 10)
  else if c.toNat ≥ (byte 'a').toNat ∧ c.toNat ≤ (byte 'f').toNat then
    some (c.toNat - (byte 'a').toNat + 10)
  else none

/-- What `lre_parse_escape` returns : -1, -2, or a character and what follows it. -/
inductive Escape where
  | malformed
  | other
  | char (c : ℕ) (rest : Bytes)

/-- The loop over `n` digits. -/
def hexDigits : ℕ → ℕ → Bytes → Option (ℕ × Bytes)
  | 0, c, p => some (c, p)
  | _ + 1, _, [] => none
  | n + 1, c, d :: p => (fromHex d).bind fun h => hexDigits n (c <<< 4 ||| h) p

/-- The loop over the digits in braces. -/
def hexBraces : ℕ → Bytes → Option (ℕ × Bytes)
  | _, [] => none
  | c, d :: p =>
    (fromHex d).bind fun h =>
      if c <<< 4 ||| h > 0x10FFFF then none
      else if p.head? = some (byte '}') then some (c <<< 4 ||| h, p.tail)
      else hexBraces (c <<< 4 ||| h) p

/-- The digit of an octal escape. -/
def octalDigit (p : Bytes) : Option ℕ :=
  p.head?.bind fun d => if byte '0' ≤ d ∧ d ≤ byte '7' then some (d.toNat - 0x30) else none

/-- An octal escape of up to three digits, after the first one. -/
def octalEscape (c : ℕ) (p : Bytes) : Escape :=
  match octalDigit p with
  | none => .char c p
  | some v =>
    let c := c <<< 3 ||| v
    if c ≥ 32 then .char c p.tail
    else
      match octalDigit p.tail with
      | none => .char c p.tail
      | some v => .char (c <<< 3 ||| v) p.tail.tail

/-- `lre_parse_escape`, where escapes of UTF-16 units are allowed and pairs are not joined. -/
def lreParseEscape : Bytes → Escape
  | [] => .other
  | c :: p =>
    if c = byte 'b' then .char 0x08 p
    else if c = byte 'f' then .char 0x0c p
    else if c = byte 'n' then .char 0x0a p
    else if c = byte 'r' then .char 0x0d p
    else if c = byte 't' then .char 0x09 p
    else if c = byte 'v' then .char 0x0b p
    else if c = byte 'x' ∨ c = byte 'u' then
      match if p.head? = some (byte '{') then hexBraces 0 p.tail
        else hexDigits (if c = byte 'x' then 2 else 4) 0 p with
      | none => .malformed
      | some (c, rest) => .char c rest
    else if byte '0' ≤ c ∧ c ≤ byte '7' then octalEscape (c.toNat - 0x30) p
    else .other

/-- `string_buffer_putc` : the units it appends. -/
def putc (c : ℕ) : List Unit16 :=
  if c ≥ 0x10000 then
    [BitVec.ofNat 16 ((c - 0x10000) >>> 10 + 0xd800),
      BitVec.ofNat 16 (((c - 0x10000) &&& 0x3ff) + 0xdc00)]
  else [BitVec.ofNat 16 c]

/-- What one turn of the loop of `js_parse_string` does. -/
inductive Turn where
  | close (rest : Bytes)
  | put (units : List Unit16) (rest : Bytes)
  | fail (message : Bytes)

/-- After a backslash, in a JSON text. -/
def escapeTurn : Bytes → Turn
  | [] => .fail (ascii "unexpected end of string")
  | c :: p =>
    if c = 0 then .put (putc 0) p
    else if c = byte '\'' ∨ c = byte '"' ∨ c = byte '\\' then .put (putc c.toNat) p
    else if c = byte '\r' then .put [] (if p.head? = some (byte '\n') then p.tail else p)
    else if c = byte '\n' then .put [] p
    else if byte '0' ≤ c ∧ c ≤ byte '9' then
      .fail (ascii "malformed escape sequence in string literal")
    else if c.toNat ≥ 0x80 then
      match Cutils.unicodeFromUtf8 (c :: p) 6 with
      | none => .fail (ascii "invalid UTF-8 sequence")
      | some (c, rest) =>
        if c > 0x10FFFF then .fail (ascii "invalid UTF-8 sequence")
        else if c = 0x2028 ∨ c = 0x2029 then .put [] rest
        else .put (putc c) rest
    else
      match lreParseEscape (c :: p) with
      | .malformed => .fail (ascii "malformed escape sequence in string literal")
      | .other => .put (putc c.toNat) p
      | .char c rest => .put (putc c) rest

/-- A turn of the loop, in a JSON text. -/
def stringTurn : Bytes → Turn
  | [] => .fail (ascii "unexpected end of string")
  | c :: p =>
    if c.toNat < 0x20 then .fail (ascii "invalid character in a JSON string")
    else if c = byte '"' then .close p
    else if c = byte '\\' then escapeTurn p
    else if c.toNat ≥ 0x80 then
      match Cutils.unicodeFromUtf8 (c :: p) 6 with
      | none => .fail (ascii "invalid UTF-8 sequence")
      | some (c, rest) =>
        if c > 0x10FFFF then .fail (ascii "invalid UTF-8 sequence") else .put (putc c) rest
    else .put (putc c.toNat) p

/-! ## What a turn takes -/

/-- The unit of an escape of one byte. A byte that has none stands for itself, unless it begins
another escape. -/
def looseEscaped (e : Byte) : Option Unit16 :=
  if e = byte 'b' then some 0x08
  else if e = byte 'f' then some 0x0c
  else if e = byte 'n' then some 0x0a
  else if e = byte 'r' then some 0x0d
  else if e = byte 't' then some 0x09
  else if e = byte 'v' then some 0x0b
  else if e = byte 'x' ∨ e = byte 'u' ∨ e = byte '\r' ∨ e = byte '\n' ∨ JsonText.IsDigit e ∨
      0x80 ≤ e.toNat then none
  else some (e.setWidth 16)

/-- A number in hexadecimal digits, that `c` is in front of. -/
def hexNumber : ℕ → Bytes → Option ℕ
  | c, [] => some c
  | c, d :: ds => (JsonText.hexValue d).bind fun h => hexNumber (c * 16 + h) ds

/-- A line terminator. -/
def Terminator (t : Bytes) : Prop :=
  t = [byte '\n'] ∨ t = [byte '\r'] ∨ t = [byte '\r', byte '\n'] ∨ t = charBytes 0x2028 ∨
    t = charBytes 0x2029

/-- A part of a string that one turn takes, and its units. -/
inductive Piece : Bytes → List Unit16 → Prop
  | char {c} (h20 : 0x20 ≤ c) (hquote : c ≠ 0x22) (hslash : c ≠ 0x5c) (hc : c < 0x110000) :
      Piece (charBytes c) (charUnits c)
  | escape {e u} (he : looseEscaped e = some u) : Piece [byte '\\', e] [u]
  | escapedChar {c} (h80 : 0x80 ≤ c) (hls : c ≠ 0x2028) (hps : c ≠ 0x2029)
      (hc : c < 0x110000) : Piece (byte '\\' :: charBytes c) (charUnits c)
  | terminator {t} (ht : Terminator t) : Piece (byte '\\' :: t) []
  | hex {e ds c} (he : e = byte 'x' ∧ ds.length = 2 ∨ e = byte 'u' ∧ ds.length = 4)
      (hds : hexNumber 0 ds = some c) : Piece (byte '\\' :: e :: ds) (charUnits c)
  | braces {e ds c} (he : e = byte 'x' ∨ e = byte 'u') (hne : ds ≠ [])
      (hds : hexNumber 0 ds = some c) (hc : c < 0x110000) :
      Piece (byte '\\' :: e :: byte '{' :: (ds ++ [byte '}'])) (charUnits c)

/-- A text between quotes as the reader takes it, and its units. -/
inductive LooseChars : Bytes → List Unit16 → Prop
  | nil : LooseChars [] []
  | cons {q us p s} (hq : Piece q us) (h : LooseChars p s) : LooseChars (q ++ p) (us ++ s)

/-! ## Digits -/

theorem fromHex_eq (d : Byte) : fromHex d = JsonText.hexValue d :=
  rfl

theorem hexValue_lt {d : Byte} {h : ℕ} (hd : JsonText.hexValue d = some h) : h < 16 := by
  unfold JsonText.hexValue at hd
  split_ifs at hd <;> obtain rfl := Option.some.inj hd <;> omega

theorem shiftLeft_four_or {c h : ℕ} (hh : h < 16) : c <<< 4 ||| h = c * 16 + h := by
  rw [Nat.shiftLeft_eq, Nat.mul_comm]
  exact (Nat.two_pow_add_eq_or_of_lt (i := 4) hh c).symm

theorem le_of_hexNumber {c' : ℕ} : ∀ {c : ℕ} {ds : Bytes}, hexNumber c ds = some c' → c ≤ c'
  | c, [], h => (Option.some.inj h).le
  | c, d :: ds, h => by
    obtain ⟨v, -, h⟩ := Option.bind_eq_some_iff.1 h
    exact (by omega : c ≤ c * 16 + v).trans (le_of_hexNumber h)

/-- As many digits as asked for are read. -/
theorem hexDigits_iff {c' : ℕ} {rest : Bytes} : ∀ {n c : ℕ} {p : Bytes},
    hexDigits n c p = some (c', rest) ↔
      ∃ ds, p = ds ++ rest ∧ ds.length = n ∧ hexNumber c ds = some c'
  | 0, c, p => by
    rw [hexDigits, Option.some.injEq, Prod.mk.injEq]
    constructor
    · rintro ⟨rfl, rfl⟩
      exact ⟨[], rfl, rfl, rfl⟩
    · rintro ⟨ds, rfl, hlen, hds⟩
      obtain rfl := List.length_eq_zero_iff.1 hlen
      exact ⟨Option.some.inj hds, rfl⟩
  | n + 1, c, [] => by
    rw [hexDigits]
    refine iff_of_false nofun ?_
    rintro ⟨ds, hp, hlen, -⟩
    rw [(List.append_eq_nil_iff.1 hp.symm).1] at hlen
    cases hlen
  | n + 1, c, d :: p => by
    rw [hexDigits, fromHex_eq, Option.bind_eq_some_iff]
    constructor
    · rintro ⟨v, hd, h⟩
      rw [shiftLeft_four_or (hexValue_lt hd)] at h
      obtain ⟨ds, rfl, rfl, hds⟩ := hexDigits_iff.1 h
      exact ⟨d :: ds, rfl, rfl, Option.bind_eq_some_iff.2 ⟨v, hd, hds⟩⟩
    · rintro ⟨ds, hp, hlen, hds⟩
      rcases ds with - | ⟨d', ds⟩
      · cases hlen
      obtain ⟨rfl, rfl⟩ := List.cons.inj hp
      obtain ⟨v, hd, hds⟩ := Option.bind_eq_some_iff.1 hds
      refine ⟨v, hd, ?_⟩
      rw [shiftLeft_four_or (hexValue_lt hd)]
      exact hexDigits_iff.2 ⟨ds, rfl, Nat.succ.inj hlen, hds⟩

/-- A digit is no closing brace. -/
theorem ne_brace_of_hexValue {d : Byte} {v : ℕ} (hd : JsonText.hexValue d = some v) :
    d ≠ byte '}' := by
  rintro rfl
  cases hd

/-- The digits up to a closing brace are read, if there are some and their number is one of a
character. -/
theorem hexBraces_iff {c' : ℕ} {rest : Bytes} : ∀ {c : ℕ} {p : Bytes},
    hexBraces c p = some (c', rest) ↔ ∃ ds, ds ≠ [] ∧ p = ds ++ byte '}' :: rest ∧
      hexNumber c ds = some c' ∧ c' < 0x110000
  | c, [] => by
    rw [hexBraces]
    refine iff_of_false nofun ?_
    rintro ⟨ds, -, hp, -⟩
    cases (List.append_eq_nil_iff.1 hp.symm).2
  | c, d :: p => by
    rw [hexBraces, fromHex_eq, Option.bind_eq_some_iff]
    constructor
    · rintro ⟨v, hd, h⟩
      rw [shiftLeft_four_or (hexValue_lt hd)] at h
      split_ifs at h with hmax hhead
      · obtain ⟨rfl, rfl⟩ := Prod.mk.inj (Option.some.inj h)
        obtain ⟨p, rfl⟩ := List.head?_eq_some_iff.1 hhead
        exact ⟨[d], nofun, rfl, Option.bind_eq_some_iff.2 ⟨v, hd, rfl⟩, by omega⟩
      · obtain ⟨ds, -, rfl, hds, hc'⟩ := hexBraces_iff.1 h
        exact ⟨d :: ds, nofun, rfl, Option.bind_eq_some_iff.2 ⟨v, hd, hds⟩, hc'⟩
    · rintro ⟨ds, hne, hp, hds, hc'⟩
      rcases ds with - | ⟨d', ds⟩
      · exact absurd rfl hne
      obtain ⟨rfl, hrest⟩ := List.cons.inj hp
      obtain ⟨v, hd, hds⟩ := Option.bind_eq_some_iff.1 hds
      have hle := le_of_hexNumber hds
      refine ⟨v, hd, ?_⟩
      rw [shiftLeft_four_or (hexValue_lt hd), if_neg (by omega)]
      rcases ds with - | ⟨d', ds⟩
      · obtain rfl := Option.some.inj hds
        rw [hrest]
        exact if_pos rfl
      · obtain ⟨v', hd', -⟩ := Option.bind_eq_some_iff.1 hds
        have hhead : p.head? ≠ some (byte '}') := fun h => by
          rw [hrest] at h
          exact ne_brace_of_hexValue hd' (Option.some.inj h)
        rw [if_neg hhead]
        exact hexBraces_iff.2 ⟨d' :: ds, nofun, hrest, hds, hc'⟩

/-! ## Characters -/

/-- A character that is not ASCII begins with a byte that is not. -/
theorem charBytes_eq_cons {c : ℕ} (h80 : 0x80 ≤ c) (hc : c < 0x110000) :
    ∃ b q, charBytes c = b :: q ∧ 0x80 ≤ b.toNat := by
  unfold charBytes
  rw [if_neg (not_lt.2 h80)]
  split_ifs
  all_goals
    refine ⟨_, _, rfl, ?_⟩
    rw [BitVec.toNat_ofNat]
    omega

/-- A character is read from its bytes. -/
theorem unicodeFromUtf8_charBytes {c : ℕ} (hc : c < 0x110000) (rest : Bytes) :
    Cutils.unicodeFromUtf8 (charBytes c ++ rest) 6 = some (c, rest) := by
  have hlen : (charBytes c).length ≤ 6 := by
    unfold charBytes
    split_ifs <;> simp
  rw [← unicodeToUtf8_eq hc] at hlen ⊢
  exact Cutils.unicodeFromUtf8_unicodeToUtf8 (by omega) rest (by exact_mod_cast hlen)

/-- A character that is read from a byte outside of ASCII is not ASCII, and its bytes were there. -/
theorem eq_of_unicodeFromUtf8 {b : Byte} {p rest : Bytes} {c : ℕ} (hb : 0x80 ≤ b.toNat)
    (h : Cutils.unicodeFromUtf8 (b :: p) 6 = some (c, rest)) (hc : c < 0x110000) :
    0x80 ≤ c ∧ b :: p = charBytes c ++ rest := by
  obtain ⟨-, hp, -⟩ := Cutils.eq_of_unicodeFromUtf8 (by decide) h
  rw [unicodeToUtf8_eq hc] at hp
  refine ⟨?_, hp⟩
  by_contra hlt
  rw [Utf16.charBytes_of_lt (not_le.1 hlt), List.singleton_append] at hp
  obtain ⟨rfl, -⟩ := List.cons.inj hp
  rw [BitVec.toNat_ofNat] at hb
  omega

theorem putc_eq (c : ℕ) : putc c = charUnits c := by
  have hlow : (c - 0x10000) &&& 0x3ff = (c - 0x10000) % 1024 :=
    Nat.and_two_pow_sub_one_eq_mod _ 10
  have hhigh : (c - 0x10000) >>> 10 = (c - 0x10000) / 1024 := Nat.shiftRight_eq_div_pow _ _
  unfold putc charUnits
  rw [hlow, hhigh, Nat.add_comm _ 0xd800, Nat.add_comm _ 0xdc00]
  by_cases h : c < 0x10000
  · rw [if_neg (not_le.2 h), if_pos h]
  · rw [if_pos (not_lt.1 h), if_neg h]

theorem putc_toNat (b : Byte) : putc b.toNat = [b.setWidth 16] := by
  rw [putc, if_neg (by omega), BitVec.ofNat_toNat]

/-! ## Turns -/

theorem isDigit_iff (b : Byte) : JsonText.IsDigit b ↔ byte '0' ≤ b ∧ b ≤ byte '9' :=
  Iff.rfl

/-- An escape in hexadecimal is read up to its end. -/
theorem lreParseEscape_hex {e : Byte} {p : Bytes} (he : e = byte 'x' ∨ e = byte 'u') :
    lreParseEscape (e :: p) =
      match if p.head? = some (byte '{') then hexBraces 0 p.tail
        else hexDigits (if e = byte 'x' then 2 else 4) 0 p with
      | none => .malformed
      | some (c, rest) => .char c rest := by
  rcases he with rfl | rfl <;> rfl

/-- The bytes that `lre_parse_escape` does not know. -/
structure Unknown (e : Byte) : Prop where
  ne_b : e ≠ byte 'b'
  ne_f : e ≠ byte 'f'
  ne_n : e ≠ byte 'n'
  ne_r : e ≠ byte 'r'
  ne_t : e ≠ byte 't'
  ne_v : e ≠ byte 'v'
  ne_hex : ¬(e = byte 'x' ∨ e = byte 'u')

theorem lreParseEscape_of_unknown {e : Byte} (h : Unknown e) (hdigit : ¬JsonText.IsDigit e)
    (p : Bytes) : lreParseEscape (e :: p) = .other := by
  have hoctal : ¬(byte '0' ≤ e ∧ e ≤ byte '7') := fun ho =>
    hdigit ⟨ho.1, (show e.toNat ≤ 0x37 from ho.2).trans (by decide)⟩
  rw [lreParseEscape, if_neg h.ne_b, if_neg h.ne_f, if_neg h.ne_n, if_neg h.ne_r, if_neg h.ne_t,
    if_neg h.ne_v, if_neg h.ne_hex, if_neg hoctal]

/-- What `lre_parse_escape` does after a byte that is no digit. -/
theorem lreParseEscape_spec {e : Byte} (hdigit : ¬JsonText.IsDigit e) (p : Bytes) :
    (lreParseEscape (e :: p) = .other → Unknown e) ∧
      ∀ c rest, lreParseEscape (e :: p) = .char c rest →
        ∃ q, Piece (byte '\\' :: q) (putc c) ∧ e :: p = q ++ rest := by
  by_cases hknown : Unknown e
  · refine ⟨fun _ => hknown, fun c rest h => ?_⟩
    rw [lreParseEscape_of_unknown hknown hdigit] at h
    cases h
  by_cases hhex : e = byte 'x' ∨ e = byte 'u'
  · rw [lreParseEscape_hex hhex]
    by_cases hbrace : p.head? = some (byte '{')
    · obtain ⟨p, rfl⟩ := List.head?_eq_some_iff.1 hbrace
      rw [if_pos hbrace, List.tail_cons]
      rcases hread : hexBraces 0 p with - | ⟨c, rest⟩
      · exact ⟨nofun, nofun⟩
      · obtain ⟨ds, hne, rfl, hds, hc⟩ := hexBraces_iff.1 hread
        refine ⟨nofun, ?_⟩
        rintro c rest ⟨⟩
        rw [putc_eq]
        exact ⟨_, .braces hhex hne hds hc, by simp⟩
    · rw [if_neg hbrace]
      rcases hread : hexDigits (if e = byte 'x' then 2 else 4) 0 p with - | ⟨c, rest⟩
      · exact ⟨nofun, nofun⟩
      · obtain ⟨ds, rfl, hlen, hds⟩ := hexDigits_iff.1 hread
        refine ⟨nofun, ?_⟩
        rintro c rest ⟨⟩
        rw [putc_eq]
        refine ⟨_, .hex ?_ hds, rfl⟩
        rcases hhex with rfl | rfl
        · exact .inl ⟨rfl, hlen⟩
        · exact .inr ⟨rfl, hlen⟩
  · have hone : ∀ {u : ℕ}, lreParseEscape (e :: p) = .char u p →
        looseEscaped e = some (BitVec.ofNat 16 u) → putc u = [BitVec.ofNat 16 u] →
        (lreParseEscape (e :: p) = .other → Unknown e) ∧
          ∀ c rest, lreParseEscape (e :: p) = .char c rest →
            ∃ q, Piece (byte '\\' :: q) (putc c) ∧ e :: p = q ++ rest := by
      intro u hread he hu
      rw [hread]
      refine ⟨nofun, ?_⟩
      rintro c rest ⟨⟩
      rw [hu]
      exact ⟨[e], .escape he, rfl⟩
    by_cases hb : e = byte 'b'
    · subst hb
      exact hone rfl rfl rfl
    by_cases hf : e = byte 'f'
    · subst hf
      exact hone rfl rfl rfl
    by_cases hn : e = byte 'n'
    · subst hn
      exact hone rfl rfl rfl
    by_cases hr : e = byte 'r'
    · subst hr
      exact hone rfl rfl rfl
    by_cases ht : e = byte 't'
    · subst ht
      exact hone rfl rfl rfl
    by_cases hv : e = byte 'v'
    · subst hv
      exact hone rfl rfl rfl
    exact absurd ⟨hb, hf, hn, hr, ht, hv, hhex⟩ hknown

/-- A plain character is taken by a turn. -/
theorem stringTurn_char {c : ℕ} (h20 : 0x20 ≤ c) (hquote : c ≠ 0x22) (hslash : c ≠ 0x5c)
    (hc : c < 0x110000) (rest : Bytes) :
    stringTurn (charBytes c ++ rest) = .put (charUnits c) rest := by
  by_cases h80 : c < 0x80
  · have hb : (BitVec.ofNat 8 c).toNat = c := by
      rw [BitVec.toNat_ofNat]
      omega
    have hne : ∀ b : Byte, b.toNat ≠ c → BitVec.ofNat 8 c ≠ b := fun b hbc h =>
      hbc (by rw [← h, hb])
    rw [Utf16.charBytes_of_lt h80, List.singleton_append, stringTurn, hb, if_neg (by omega),
      if_neg (hne (byte '"') hquote.symm),
      if_neg (hne (byte '\\') hslash.symm), if_neg (by omega), putc_eq]
  · obtain ⟨b, q, hq, hb⟩ := charBytes_eq_cons (not_lt.1 h80) hc
    have hread := unicodeFromUtf8_charBytes hc rest
    have hne : ∀ b' : Byte, b'.toNat < 0x80 → b ≠ b' := by
      rintro b' hb' rfl
      omega
    rw [hq, List.cons_append] at hread ⊢
    rw [stringTurn, if_neg (by omega), if_neg (hne _ (by decide)), if_neg (hne _ (by decide)),
      if_pos hb, hread]
    dsimp only
    rw [if_neg (by omega), putc_eq]

/-- What an escape is taken as. -/
theorem escapeTurn_spec {p rest : Bytes} {us : List Unit16} (h : escapeTurn p = .put us rest) :
    ∃ q, Piece (byte '\\' :: q) us ∧ p = q ++ rest := by
  rcases p with - | ⟨e, p⟩
  · cases h
  have hself : looseEscaped e = some (e.setWidth 16) → .put (putc e.toNat) p = Turn.put us rest →
      ∃ q, Piece (byte '\\' :: q) us ∧ e :: p = q ++ rest := by
    rintro he ⟨⟩
    rw [putc_toNat]
    exact ⟨[e], .escape he, rfl⟩
  rw [escapeTurn] at h
  split_ifs at h with hzero hquote hcr hlf hlf hdigit h80
  · subst hzero
    exact hself rfl h
  · refine hself ?_ h
    rcases hquote with rfl | rfl | rfl <;> rfl
  · cases h
    subst hcr
    obtain ⟨p, rfl⟩ := List.head?_eq_some_iff.1 hlf
    exact ⟨_, .terminator (.inr (.inr (.inl rfl))), rfl⟩
  · cases h
    subst hcr
    exact ⟨_, .terminator (.inr (.inl rfl)), rfl⟩
  · cases h
    subst hlf
    exact ⟨_, .terminator (.inl rfl), rfl⟩
  · rcases hread : Cutils.unicodeFromUtf8 (e :: p) 6 with - | ⟨c, rest'⟩ <;> rw [hread] at h
    · cases h
    dsimp only at h
    split_ifs at h with hmax hterm
    · cases h
      obtain ⟨-, hp⟩ := eq_of_unicodeFromUtf8 h80 hread (by omega)
      refine ⟨_, .terminator (t := charBytes c) ?_, hp⟩
      rcases hterm with rfl | rfl
      · exact .inr (.inr (.inr (.inl rfl)))
      · exact .inr (.inr (.inr (.inr rfl)))
    · cases h
      obtain ⟨hc, hp⟩ := eq_of_unicodeFromUtf8 h80 hread (by omega)
      rw [putc_eq]
      exact ⟨_, .escapedChar hc (fun h => hterm (.inl h)) (fun h => hterm (.inr h)) (by omega), hp⟩
  · have hspec := lreParseEscape_spec (e := e) hdigit p
    rcases hread : lreParseEscape (e :: p) with - | - | ⟨c, rest'⟩ <;> rw [hread] at h
    · cases h
    · obtain ⟨hb, hf, hn, hr, ht, hv, hhex⟩ := hspec.1 hread
      refine hself ?_ h
      rw [looseEscaped, if_neg hb, if_neg hf, if_neg hn, if_neg hr, if_neg ht, if_neg hv, if_neg]
      rintro (he | he | he | he | he | he)
      · exact hhex (.inl he)
      · exact hhex (.inr he)
      · exact hcr he
      · exact hlf he
      · exact hdigit he
      · exact h80 he
    · cases h
      exact hspec.2 c rest hread

/-- What a turn takes. -/
theorem stringTurn_put {p rest : Bytes} {us : List Unit16} (h : stringTurn p = .put us rest) :
    ∃ q, Piece q us ∧ p = q ++ rest := by
  rcases p with - | ⟨b, p⟩
  · cases h
  rw [stringTurn] at h
  split_ifs at h with h20 hquote hslash h80
  · obtain ⟨q, hq, rfl⟩ := escapeTurn_spec h
    subst hslash
    exact ⟨_, hq, rfl⟩
  · rcases hread : Cutils.unicodeFromUtf8 (b :: p) 6 with - | ⟨c, rest'⟩ <;> rw [hread] at h
    · cases h
    dsimp only at h
    split_ifs at h with hmax
    cases h
    obtain ⟨hc, hp⟩ := eq_of_unicodeFromUtf8 h80 hread (by omega)
    rw [putc_eq]
    exact ⟨_, .char (by omega) (by omega) (by omega) (by omega), hp⟩
  · cases h
    have hb : charBytes b.toNat = [b] := by
      rw [Utf16.charBytes_of_lt (by omega), BitVec.ofNat_toNat, BitVec.setWidth_eq]
    have hne : ∀ b' : Byte, b ≠ b' → b.toNat ≠ b'.toNat := fun b' hb' h =>
      hb' (BitVec.eq_of_toNat_eq h)
    rw [putc_eq]
    exact ⟨_, .char (by omega) (hne (byte '"') hquote) (hne (byte '\\') hslash) (by omega), by
      rw [hb, List.singleton_append]⟩

/-- A turn ends the string at a quote. -/
theorem stringTurn_close {p rest : Bytes} :
    stringTurn p = .close rest ↔ p = byte '"' :: rest := by
  constructor
  · intro h
    rcases p with - | ⟨b, p⟩
    · cases h
    rw [stringTurn] at h
    split_ifs at h with h20 hquote hslash h80
    · cases h
      rw [hquote]
    · unfold escapeTurn at h
      repeat' split at h
      all_goals cases h
    · repeat' split at h
      all_goals cases h
  · rintro rfl
    rfl

theorem escapeTurn_hex {e : Byte} (he : e = byte 'x' ∨ e = byte 'u') {p rest : Bytes} {c : ℕ}
    (h : (if p.head? = some (byte '{') then hexBraces 0 p.tail
      else hexDigits (if e = byte 'x' then 2 else 4) 0 p) = some (c, rest)) :
    escapeTurn (e :: p) = .put (charUnits c) rest := by
  have hturn : escapeTurn (e :: p) =
      match lreParseEscape (e :: p) with
      | .malformed => .fail (ascii "malformed escape sequence in string literal")
      | .other => .put (putc e.toNat) p
      | .char c rest => .put (putc c) rest := by
    rcases he with rfl | rfl <;> rfl
  rw [hturn, lreParseEscape_hex he, h, ← putc_eq]

/-- A character that is not ASCII after a backslash is itself, unless it ends a line. -/
theorem escapeTurn_charBytes {c : ℕ} (h80 : 0x80 ≤ c) (hc : c < 0x110000) (rest : Bytes) :
    escapeTurn (charBytes c ++ rest) =
      if c = 0x2028 ∨ c = 0x2029 then .put [] rest else .put (charUnits c) rest := by
  obtain ⟨b, q, hq, hb⟩ := charBytes_eq_cons h80 hc
  have hread := unicodeFromUtf8_charBytes hc rest
  have hne : ∀ b' : Byte, b'.toNat < 0x80 → b ≠ b' := by
    rintro b' hb' rfl
    omega
  have hquote : ¬(b = byte '\'' ∨ b = byte '"' ∨ b = byte '\\') := by
    rintro (h | h | h) <;> exact absurd h (hne _ (by decide))
  have hdigit : ¬(byte '0' ≤ b ∧ b ≤ byte '9') := fun h =>
    absurd (show b.toNat ≤ 0x39 from h.2) (by omega)
  rw [hq, List.cons_append] at hread ⊢
  rw [escapeTurn, if_neg (hne _ (by decide)), if_neg hquote, if_neg (hne _ (by decide)),
    if_neg (hne _ (by decide)), if_neg hdigit, if_pos hb, hread]
  dsimp only
  rw [if_neg (by omega), putc_eq]

/-- An escape of one byte is taken. -/
theorem escapeTurn_escape {e : Byte} {u : Unit16} (he : looseEscaped e = some u) (rest : Bytes) :
    escapeTurn (e :: rest) = .put [u] rest := by
  unfold looseEscaped at he
  split_ifs at he with hb hf hn hr ht hv hrest
  · cases he
    subst hb
    rfl
  · cases he
    subst hf
    rfl
  · cases he
    subst hn
    rfl
  · cases he
    subst hr
    rfl
  · cases he
    subst ht
    rfl
  · cases he
    subst hv
    rfl
  · cases he
    simp only [not_or] at hrest
    obtain ⟨hx, hu, hcr, hlf, hdigit, h80⟩ := hrest
    have hother := lreParseEscape_of_unknown
      ⟨hb, hf, hn, hr, ht, hv, fun h => h.elim hx hu⟩ hdigit rest
    rw [← putc_toNat]
    by_cases hzero : e = 0
    · rw [escapeTurn, if_pos hzero, hzero]
      rfl
    by_cases hquote : e = byte '\'' ∨ e = byte '"' ∨ e = byte '\\'
    · rw [escapeTurn, if_neg hzero, if_pos hquote]
    · rw [escapeTurn, if_neg hzero, if_neg hquote, if_neg hcr, if_neg hlf,
        if_neg ((isDigit_iff e).not.1 hdigit), if_neg h80, hother]

/-- A turn takes a part of a string, unless it is half of a line terminator. -/
theorem stringTurn_of_piece {q rest : Bytes} {us : List Unit16} (h : Piece q us)
    (hrest : rest.head? ≠ some (byte '\n')) : stringTurn (q ++ rest) = .put us rest := by
  cases h with
  | char h20 hquote hslash hc => exact stringTurn_char h20 hquote hslash hc rest
  | escape he => exact escapeTurn_escape he rest
  | @escapedChar c h80 hls hps hc =>
    change escapeTurn (charBytes c ++ rest) = _
    rw [escapeTurn_charBytes h80 hc, if_neg (not_or.2 ⟨hls, hps⟩)]
  | terminator ht =>
    rcases ht with rfl | rfl | rfl | rfl | rfl
    · rfl
    · change Turn.put [] (if rest.head? = some (byte '\n') then rest.tail else rest) = _
      rw [if_neg hrest]
    · rfl
    · exact escapeTurn_charBytes (c := 0x2028) (by decide) (by decide) rest
    · exact escapeTurn_charBytes (c := 0x2029) (by decide) (by decide) rest
  | @hex e ds c he hds =>
    change escapeTurn (e :: (ds ++ rest)) = _
    have he' : e = byte 'x' ∨ e = byte 'u' := he.imp And.left And.left
    have hlen : ds.length = if e = byte 'x' then 2 else 4 := by
      rcases he with ⟨rfl, hlen⟩ | ⟨rfl, hlen⟩ <;> exact hlen
    have hhead : (ds ++ rest).head? ≠ some (byte '{') := by
      rcases ds with - | ⟨d, ds⟩
      · rcases he with ⟨-, hlen⟩ | ⟨-, hlen⟩ <;> cases hlen
      · obtain ⟨v, hd, -⟩ := Option.bind_eq_some_iff.1 hds
        intro h
        obtain rfl := Option.some.inj h
        cases hd
    apply escapeTurn_hex he'
    rw [if_neg hhead]
    exact hexDigits_iff.2 ⟨ds, rfl, hlen, hds⟩
  | @braces e ds c he hne hds hc =>
    change escapeTurn (e :: byte '{' :: (ds ++ [byte '}'] ++ rest)) = _
    apply escapeTurn_hex he
    rw [List.head?_cons, if_pos rfl, List.tail_cons, List.append_assoc]
    exact hexBraces_iff.2 ⟨ds, hne, rfl, hds, hc⟩

/-- A part of a string begins with no control character. -/
theorem head?_ne_of_piece {q : Bytes} {us : List Unit16} (h : Piece q us) :
    ∃ b p, q = b :: p ∧ 0x20 ≤ b.toNat := by
  cases h with
  | @char c h20 hquote hslash hc =>
    by_cases h80 : c < 0x80
    · refine ⟨_, _, Utf16.charBytes_of_lt h80, ?_⟩
      rw [BitVec.toNat_ofNat]
      omega
    · obtain ⟨b, p, hq, hb⟩ := charBytes_eq_cons (not_lt.1 h80) hc
      exact ⟨b, p, hq, by omega⟩
  | escape => exact ⟨_, _, rfl, by decide⟩
  | escapedChar => exact ⟨_, _, rfl, by decide⟩
  | terminator => exact ⟨_, _, rfl, by decide⟩
  | hex => exact ⟨_, _, rfl, by decide⟩
  | braces => exact ⟨_, _, rfl, by decide⟩

/-! ## The reader -/

theorem length_stringTurn_lt {p rest : Bytes} {us : List Unit16}
    (h : stringTurn p = .put us rest) : rest.length < p.length := by
  obtain ⟨q, hq, rfl⟩ := stringTurn_put h
  obtain ⟨b, q, rfl, -⟩ := head?_ne_of_piece hq
  rw [List.length_append, List.length_cons]
  omega

/-- `js_parse_string` in a JSON text, with what the buffer has so far. The string and what follows
its last quote. -/
def jsParseString (b : List Unit16) (p : Bytes) : Except JsonError (List Unit16 × Bytes) :=
  match _h : stringTurn p with
  | .close rest => .ok (b, rest)
  | .put units rest => jsParseString (b ++ units) rest
  | .fail message => .error (jsParseError message)
termination_by p.length
decreasing_by exact length_stringTurn_lt _h

theorem jsParseString_of_close {p rest : Bytes} (h : stringTurn p = .close rest)
    (b : List Unit16) : jsParseString b p = .ok (b, rest) := by
  rw [jsParseString]
  split
  · next h' =>
    cases h.symm.trans h'
    rfl
  · next h' => cases h.symm.trans h'
  · next h' => cases h.symm.trans h'

theorem jsParseString_of_put {p rest : Bytes} {us : List Unit16}
    (h : stringTurn p = .put us rest) (b : List Unit16) :
    jsParseString b p = jsParseString (b ++ us) rest := by
  rw [jsParseString]
  split
  · next h' => cases h.symm.trans h'
  · next h' =>
    cases h.symm.trans h'
    rfl
  · next h' => cases h.symm.trans h'

theorem jsParseString_of_fail {p message : Bytes} (h : stringTurn p = .fail message)
    (b : List Unit16) : jsParseString b p = .error (jsParseError message) := by
  rw [jsParseString]
  split
  · next h' => cases h.symm.trans h'
  · next h' => cases h.symm.trans h'
  · next h' =>
    cases h.symm.trans h'
    rfl

/-- A text begins with no line feed, also up to its quote. -/
theorem head?_ne_of_looseChars {p : Bytes} {s : List Unit16} (h : LooseChars p s)
    (rest : Bytes) : (p ++ byte '"' :: rest).head? ≠ some (byte '\n') := by
  intro hhead
  cases h with
  | nil => exact absurd (Option.some.inj hhead) (by decide)
  | cons hq h =>
    obtain ⟨b, q, rfl, hb⟩ := head?_ne_of_piece hq
    obtain rfl := Option.some.inj hhead
    exact absurd hb (by decide)

theorem jsParseString_of_looseChars {p : Bytes} {s : List Unit16} (h : LooseChars p s)
    (b : List Unit16) (rest : Bytes) :
    jsParseString b (p ++ byte '"' :: rest) = .ok (b ++ s, rest) := by
  induction h generalizing b with
  | nil =>
    rw [List.append_nil]
    exact jsParseString_of_close rfl b
  | cons hq h ih =>
    rw [List.append_assoc,
      jsParseString_of_put (stringTurn_of_piece hq (head?_ne_of_looseChars h rest)), ih,
      List.append_assoc]

theorem looseChars_of_jsParseString {b s : List Unit16} {p rest : Bytes}
    (h : jsParseString b p = .ok (s, rest)) :
    ∃ q us, LooseChars q us ∧ s = b ++ us ∧ p = q ++ byte '"' :: rest := by
  rcases hturn : stringTurn p with rest' | ⟨us, rest'⟩ | message
  · rw [jsParseString_of_close hturn] at h
    cases h
    exact ⟨[], [], .nil, (List.append_nil b).symm, stringTurn_close.1 hturn⟩
  · rw [jsParseString_of_put hturn] at h
    have hlt := length_stringTurn_lt hturn
    obtain ⟨q, us', hq, rfl, rfl⟩ := looseChars_of_jsParseString h
    obtain ⟨q', hq', rfl⟩ := stringTurn_put hturn
    exact ⟨q' ++ q, us ++ us', .cons hq' hq, List.append_assoc .., by rw [List.append_assoc]⟩
  · rw [jsParseString_of_fail hturn] at h
    cases h
termination_by p.length

/-- The reader takes the texts that it allows between quotes, and nothing else. -/
theorem jsParseString_iff {p rest : Bytes} {s : List Unit16} :
    jsParseString [] p = .ok (s, rest) ↔
      ∃ q, LooseChars q s ∧ p = q ++ byte '"' :: rest := by
  constructor
  · intro h
    obtain ⟨q, us, hq, rfl, rfl⟩ := looseChars_of_jsParseString h
    exact ⟨q, hq, rfl⟩
  · rintro ⟨q, hq, rfl⟩
    exact jsParseString_of_looseChars hq [] rest

theorem not_unfinished_jsParseString {b : List Unit16} {p : Bytes} :
    jsParseString b p ≠ .error .unfinished := by
  rcases hturn : stringTurn p with rest' | ⟨us, rest'⟩ | message
  · rw [jsParseString_of_close hturn]
    nofun
  · have hlt := length_stringTurn_lt hturn
    rw [jsParseString_of_put hturn]
    exact not_unfinished_jsParseString
  · rw [jsParseString_of_fail hturn]
    nofun
termination_by p.length

/-! ## JSON strings -/

theorem charUnits_of_lt {c : ℕ} (h : c < 0x10000) : charUnits c = [BitVec.ofNat 16 c] :=
  if_pos h

/-- An escape of JSON is one of the reader's. -/
theorem piece_of_escaped {e : Byte} {u : Unit16} (he : JsonText.escaped e = some u) :
    looseEscaped e = some u := by
  unfold JsonText.escaped at he
  split_ifs at he <;> cases he <;> subst_vars <;> rfl

/-- Every text that JSON allows between quotes is one the reader takes as it is meant. -/
theorem looseChars_of_chars {p : Bytes} {s : List Unit16} (h : Chars p s) : LooseChars p s := by
  induction h with
  | nil => exact .nil
  | char h20 hquote hslash hc _ ih => exact .cons (.char h20 hquote hslash hc) ih
  | escape he _ ih => exact .cons (.escape (piece_of_escaped he)) ih
  | @hex d₁ d₂ d₃ d₄ h₁ h₂ h₃ h₄ p s hd₁ hd₂ hd₃ hd₄ _ ih =>
    have hnumber : hexNumber 0 [d₁, d₂, d₃, d₄] =
        some (((h₁ * 16 + h₂) * 16 + h₃) * 16 + h₄) := by
      simp only [hexNumber, hd₁, hd₂, hd₃, hd₄, Option.bind_some, Nat.zero_mul, Nat.zero_add]
    have hlt₁ := hexValue_lt hd₁
    have hlt₂ := hexValue_lt hd₂
    have hlt₃ := hexValue_lt hd₃
    have hlt₄ := hexValue_lt hd₄
    have hpiece := Piece.hex (.inr ⟨rfl, rfl⟩) hnumber
    rw [charUnits_of_lt (by omega)] at hpiece
    exact .cons hpiece ih

end QuickJs

end TinyKvm
