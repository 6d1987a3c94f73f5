import TinyKvm.Api
import Mathlib.Algebra.Group.Nat.Defs
import Mathlib.Data.List.TakeWhile

/-!
# UTF-16 strings in UTF-8

A string of 16-bit units as the bytes of its characters. A high unit that a low
one follows is one character with it, and any other unit a character of its own,
so every list of units has an encoding and is what its encoding decodes to
(`ofUtf8_toUtf8`). The zero unit is the zero byte, and the bytes before the first
zero byte are those of the units before the first zero unit (`cString_toUtf8`).

The bytes are as many as the units exactly for ASCII strings
(`length_toUtf8_le_iff`). `toWellFormed` replaces the units that are half a pair,
and leaves ASCII strings as they are (`toWellFormed_of_isAscii`). Bytes that need
not be UTF-8 are read with replacement characters (`ofUtf8Lossy`).
-/

namespace TinyKvm

namespace Utf16

/-- A 16-bit unit. -/
abbrev Unit16 := BitVec 16

/-- The units of an ASCII literal. -/
def ofAscii (s : String) : List Unit16 :=
  s.toList.map fun c => BitVec.ofNat 16 c.toNat

/-! ## Characters -/

/-- The UTF-8 bytes of a character. -/
def charBytes (c : ℕ) : Bytes :=
  if c < 0x80 then [BitVec.ofNat 8 c]
  else if c < 0x800 then [BitVec.ofNat 8 (0xC0 + c / 64), BitVec.ofNat 8 (0x80 + c % 64)]
  else if c < 0x10000 then
    [BitVec.ofNat 8 (0xE0 + c / 4096), BitVec.ofNat 8 (0x80 + c / 64 % 64),
      BitVec.ofNat 8 (0x80 + c % 64)]
  else
    [BitVec.ofNat 8 (0xF0 + c / 262144), BitVec.ofNat 8 (0x80 + c / 4096 % 64),
      BitVec.ofNat 8 (0x80 + c / 64 % 64), BitVec.ofNat 8 (0x80 + c % 64)]

/-- The UTF-16 units of a character. -/
def charUnits (c : ℕ) : List Unit16 :=
  if c < 0x10000 then [BitVec.ofNat 16 c]
  else
    [BitVec.ofNat 16 (0xD800 + (c - 0x10000) / 1024),
      BitVec.ofNat 16 (0xDC00 + (c - 0x10000) % 1024)]

/-- Whether two units are the halves of one character. -/
def IsPair (u v : Unit16) : Prop :=
  (0xD800 ≤ u.toNat ∧ u.toNat < 0xDC00) ∧ 0xDC00 ≤ v.toNat ∧ v.toNat < 0xE000

instance (u v : Unit16) : Decidable (IsPair u v) :=
  inferInstanceAs (Decidable (_ ∧ _))

/-- The character of a pair. -/
def pairChar (u v : Unit16) : ℕ :=
  0x10000 + (u.toNat - 0xD800) * 1024 + (v.toNat - 0xDC00)

theorem charUnits_toNat (u : Unit16) : charUnits u.toNat = [u] := by
  rw [charUnits, if_pos (by omega), BitVec.ofNat_toNat, BitVec.setWidth_eq]

theorem charUnits_pairChar {u v : Unit16} (h : IsPair u v) : charUnits (pairChar u v) = [u, v] := by
  have ⟨⟨hu, hu'⟩, hv, hv'⟩ := h
  have hsub : pairChar u v - 0x10000 = (u.toNat - 0xD800) * 1024 + (v.toNat - 0xDC00) := by
    unfold pairChar
    omega
  have hhigh : BitVec.ofNat 16 (0xD800 + (pairChar u v - 0x10000) / 1024) = u := by
    apply BitVec.eq_of_toNat_eq
    rw [hsub, BitVec.toNat_ofNat]
    omega
  have hlow : BitVec.ofNat 16 (0xDC00 + (pairChar u v - 0x10000) % 1024) = v := by
    apply BitVec.eq_of_toNat_eq
    rw [hsub, BitVec.toNat_ofNat]
    omega
  rw [charUnits, if_neg (by unfold pairChar; omega), hhigh, hlow]

theorem pairChar_lt {u v : Unit16} (h : IsPair u v) : pairChar u v < 0x110000 := by
  have ⟨⟨hu, hu'⟩, hv, hv'⟩ := h
  unfold pairChar
  omega

/-! ## Strings -/

/-- The UTF-8 bytes of a string. -/
def toUtf8 : List Unit16 → Bytes
  | [] => []
  | [u] => charBytes u.toNat
  | u :: v :: s =>
    if IsPair u v then charBytes (pairChar u v) ++ toUtf8 s
    else charBytes u.toNat ++ toUtf8 (v :: s)

/-- The decoder, with the number of bytes it still needs for a character and what it has of
that character. -/
def decode : ℕ → ℕ → Bytes → List Unit16
  | _, _, [] => []
  | 0, _, b :: bytes =>
    if b.toNat < 0x80 then charUnits b.toNat ++ decode 0 0 bytes
    else if b.toNat < 0xE0 then decode 1 (b.toNat - 0xC0) bytes
    else if b.toNat < 0xF0 then decode 2 (b.toNat - 0xE0) bytes
    else decode 3 (b.toNat - 0xF0) bytes
  | 1, c, b :: bytes => charUnits (c * 64 + (b.toNat - 0x80)) ++ decode 0 0 bytes
  | n + 2, c, b :: bytes => decode (n + 1) (c * 64 + (b.toNat - 0x80)) bytes

/-- The string that has these UTF-8 bytes. -/
def ofUtf8 (bytes : Bytes) : List Unit16 :=
  decode 0 0 bytes

theorem decode_charBytes {c : ℕ} (hc : c < 0x110000) (rest : Bytes) :
    decode 0 0 (charBytes c ++ rest) = charUnits c ++ decode 0 0 rest := by
  have hbyte : ∀ n < 256, (BitVec.ofNat 8 n).toNat = n := fun n hn => by
    rw [BitVec.toNat_ofNat, Nat.mod_eq_of_lt hn]
  rw [charBytes]
  split_ifs with h1 h2 h3
  · rw [List.singleton_append, decode, hbyte _ (by omega), if_pos h1]
  · rw [List.cons_append, List.singleton_append, decode, hbyte _ (by omega), if_neg (by omega),
      if_pos (by omega), decode, hbyte _ (by omega),
      show (0xC0 + c / 64 - 0xC0) * 64 + (0x80 + c % 64 - 0x80) = c by omega]
  · rw [List.cons_append, List.cons_append, List.singleton_append, decode, hbyte _ (by omega),
      if_neg (by omega), if_neg (by omega), if_pos (by omega), decode, hbyte _ (by omega), decode,
      hbyte _ (by omega),
      show ((0xE0 + c / 4096 - 0xE0) * 64 + (0x80 + c / 64 % 64 - 0x80)) * 64 +
        (0x80 + c % 64 - 0x80) = c by omega]
  · rw [List.cons_append, List.cons_append, List.cons_append, List.singleton_append, decode,
      hbyte _ (by omega), if_neg (by omega), if_neg (by omega), if_neg (by omega), decode,
      hbyte _ (by omega), decode, hbyte _ (by omega), decode, hbyte _ (by omega),
      show (((0xF0 + c / 262144 - 0xF0) * 64 + (0x80 + c / 4096 % 64 - 0x80)) * 64 +
        (0x80 + c / 64 % 64 - 0x80)) * 64 + (0x80 + c % 64 - 0x80) = c by omega]

/-- Every string is what its bytes decode to. -/
theorem ofUtf8_toUtf8 (s : List Unit16) : ofUtf8 (toUtf8 s) = s := by
  rw [ofUtf8]
  induction s using toUtf8.induct with
  | case1 => rfl
  | case2 u =>
    have h := decode_charBytes (c := u.toNat) (by omega) []
    rwa [List.append_nil, charUnits_toNat] at h
  | case3 u v s hpair ih =>
    rw [toUtf8, if_pos hpair, decode_charBytes (pairChar_lt hpair), charUnits_pairChar hpair, ih]
    rfl
  | case4 u v s hpair ih =>
    rw [toUtf8, if_neg hpair, decode_charBytes (by omega), charUnits_toNat, ih]
    rfl

theorem toUtf8_injective : Function.Injective toUtf8 :=
  Function.LeftInverse.injective ofUtf8_toUtf8

/-- Strings are encoded one after the other, unless the last unit of the first is a pair with the
first unit of the second. -/
theorem toUtf8_append (s t : List Unit16) (h : ∀ u ∈ s.getLast?, ∀ v ∈ t.head?, ¬IsPair u v) :
    toUtf8 (s ++ t) = toUtf8 s ++ toUtf8 t := by
  induction s using toUtf8.induct with
  | case1 => rfl
  | case2 u =>
    rcases t with - | ⟨v, t⟩
    · exact (List.append_nil _).symm
    · rw [List.singleton_append, toUtf8, toUtf8, if_neg (h u rfl v rfl)]
  | case3 u v s hpair ih =>
    have hrest : ∀ w ∈ s.getLast?, ∀ x ∈ t.head?, ¬IsPair w x := fun w hw => by
      rcases s with - | ⟨w', s⟩
      · cases hw
      · exact h w hw
    rw [List.cons_append, List.cons_append, toUtf8, if_pos hpair, toUtf8, if_pos hpair, ih hrest,
      List.append_assoc]
  | case4 u v s hpair ih =>
    rw [List.cons_append, List.cons_append, toUtf8, if_neg hpair, toUtf8, if_neg hpair,
      ← List.cons_append, ih h, List.append_assoc]

/-- A string whose bytes are the same in front of any other : it does not end in the first half of
a pair. -/
def Closed (s : List Unit16) : Prop :=
  ∀ t, toUtf8 (s ++ t) = toUtf8 s ++ toUtf8 t

theorem closed_nil : Closed [] :=
  fun _ => rfl

theorem Closed.append {s t : List Unit16} (hs : Closed s) (ht : Closed t) : Closed (s ++ t) :=
  fun r => by rw [List.append_assoc, hs, ht, hs, List.append_assoc]

theorem closed_of_getLast? {s : List Unit16}
    (h : ∀ u ∈ s.getLast?, ¬(0xD800 ≤ u.toNat ∧ u.toNat < 0xDC00)) : Closed s :=
  fun t => toUtf8_append s t fun u hu _ _ hpair => h u hu hpair.1

/-- The units of a character that is no half of a pair. -/
theorem closed_charUnits {c : ℕ} (hc : c < 0x110000) (hhalf : ¬(0xD800 ≤ c ∧ c < 0xE000)) :
    Closed (charUnits c) ∧ toUtf8 (charUnits c) = charBytes c := by
  by_cases h : c < 0x10000
  · have hu : (BitVec.ofNat 16 c).toNat = c := by
      rw [BitVec.toNat_ofNat]
      omega
    rw [charUnits, if_pos h, toUtf8, hu]
    refine ⟨closed_of_getLast? ?_, rfl⟩
    rintro u ⟨⟩
    rw [List.getLast_singleton, hu]
    omega
  · have hhigh : (BitVec.ofNat 16 (0xD800 + (c - 0x10000) / 1024)).toNat =
        0xD800 + (c - 0x10000) / 1024 := by
      rw [BitVec.toNat_ofNat]
      omega
    have hlow : (BitVec.ofNat 16 (0xDC00 + (c - 0x10000) % 1024)).toNat =
        0xDC00 + (c - 0x10000) % 1024 := by
      rw [BitVec.toNat_ofNat]
      omega
    rw [charUnits, if_neg h]
    generalize BitVec.ofNat 16 (0xD800 + (c - 0x10000) / 1024) = u at hhigh ⊢
    generalize BitVec.ofNat 16 (0xDC00 + (c - 0x10000) % 1024) = v at hlow ⊢
    have hpair : IsPair u v := ⟨⟨by omega, by omega⟩, by omega, by omega⟩
    have hchar : pairChar u v = c := by
      unfold pairChar
      omega
    refine ⟨closed_of_getLast? ?_, ?_⟩
    · rintro w ⟨⟩
      change ¬(0xD800 ≤ v.toNat ∧ v.toNat < 0xDC00)
      omega
    · rw [toUtf8, if_pos hpair, hchar]
      exact List.append_nil _

/-! ## Lengths and ASCII -/

/-- Every unit is an ASCII character. -/
def IsAscii (s : List Unit16) : Prop :=
  ∀ u ∈ s, u.toNat < 0x80

instance (s : List Unit16) : Decidable (IsAscii s) :=
  inferInstanceAs (Decidable (∀ u ∈ s, _))

theorem isAscii_cons {u : Unit16} {s : List Unit16} :
    IsAscii (u :: s) ↔ u.toNat < 0x80 ∧ IsAscii s :=
  List.forall_mem_cons

theorem isAscii_append {s t : List Unit16} : IsAscii (s ++ t) ↔ IsAscii s ∧ IsAscii t :=
  List.forall_mem_append

theorem charBytes_of_lt {c : ℕ} (h : c < 0x80) : charBytes c = [BitVec.ofNat 8 c] :=
  if_pos h

theorem two_le_length_charBytes {c : ℕ} (h : 0x80 ≤ c) : 2 ≤ (charBytes c).length := by
  rw [charBytes, if_neg (not_lt.2 h)]
  split_ifs <;> simp

theorem length_charBytes_pairChar (u v : Unit16) : (charBytes (pairChar u v)).length = 4 := by
  have hge : 0x10000 ≤ pairChar u v := by
    unfold pairChar
    omega
  rw [charBytes, if_neg (by omega), if_neg (by omega), if_neg (by omega)]
  rfl

/-- The bytes of an ASCII string are its units. -/
theorem toUtf8_of_isAscii (s : List Unit16) (h : IsAscii s) : toUtf8 s = s.map (·.setWidth 8) := by
  induction s using toUtf8.induct with
  | case1 => rfl
  | case2 u =>
    rw [toUtf8, charBytes_of_lt (isAscii_cons.1 h).1, BitVec.ofNat_toNat]
    rfl
  | case3 u v s hpair ih =>
    have hu := (isAscii_cons.1 h).1
    have hge := hpair.1.1
    omega
  | case4 u v s hpair ih =>
    obtain ⟨hu, hrest⟩ := isAscii_cons.1 h
    rw [toUtf8, if_neg hpair, charBytes_of_lt hu, ih hrest, BitVec.ofNat_toNat]
    rfl

/-- There are no fewer bytes than units, and as many only if the string is ASCII. -/
theorem length_toUtf8 (s : List Unit16) :
    s.length ≤ (toUtf8 s).length ∧ ((toUtf8 s).length ≤ s.length → IsAscii s) := by
  have hone : ∀ u : Unit16, (charBytes u.toNat).length = 1 ∧ u.toNat < 0x80 ∨
      2 ≤ (charBytes u.toNat).length := fun u => by
    rcases lt_or_ge u.toNat 0x80 with hu | hu
    · exact .inl ⟨by rw [charBytes_of_lt hu]; rfl, hu⟩
    · exact .inr (two_le_length_charBytes hu)
  induction s using toUtf8.induct with
  | case1 => exact ⟨le_rfl, fun _ => by simp [IsAscii]⟩
  | case2 u =>
    rw [toUtf8, isAscii_cons, List.length_singleton]
    rcases hone u with ⟨hlen, hu⟩ | hlen
    · exact ⟨hlen.ge, fun _ => ⟨hu, by simp [IsAscii]⟩⟩
    · exact ⟨by omega, by omega⟩
  | case3 u v s hpair ih =>
    have hlen := length_charBytes_pairChar u v
    rw [toUtf8, if_pos hpair, List.length_append, List.length_cons, List.length_cons]
    exact ⟨by omega, by omega⟩
  | case4 u v s hpair ih =>
    rw [toUtf8, if_neg hpair, isAscii_cons, List.length_append, List.length_cons (a := u)]
    rcases hone u with ⟨hlen, hu⟩ | hlen
    · exact ⟨by omega, fun h => ⟨hu, ih.2 (by omega)⟩⟩
    · exact ⟨by omega, by omega⟩

theorem length_toUtf8_le_iff (s : List Unit16) : (toUtf8 s).length ≤ s.length ↔ IsAscii s := by
  refine ⟨(length_toUtf8 s).2, fun h => ?_⟩
  rw [toUtf8_of_isAscii s h, List.length_map]

/-- ASCII characters belong to no pair. -/
theorem IsAscii.closed {s : List Unit16} (h : IsAscii s) : Closed s :=
  closed_of_getLast? fun u hu => by
    have hlt := h u (List.mem_of_getLast? hu)
    omega

theorem closed_of_all {s : List Unit16} (h : (s.all fun u => decide (u.toNat < 0x80)) = true) :
    Closed s :=
  IsAscii.closed fun u hu => of_decide_eq_true (List.all_eq_true.1 h u hu)

/-- An ASCII character in front of a string is a byte in front of its bytes. -/
theorem toUtf8_cons {u : Unit16} (hu : u.toNat < 0x80) (s : List Unit16) :
    toUtf8 (u :: s) = u.setWidth 8 :: toUtf8 s := by
  have hascii : IsAscii [u] := isAscii_cons.2 ⟨hu, nofun⟩
  rw [← List.singleton_append, hascii.closed, toUtf8_of_isAscii _ hascii]
  rfl

theorem Closed.cons {u : Unit16} (hu : u.toNat < 0x80) {s : List Unit16} (hs : Closed s) :
    Closed (u :: s) := by
  have hascii : IsAscii [u] := isAscii_cons.2 ⟨hu, nofun⟩
  exact hascii.closed.append hs

/-- ASCII bytes are the UTF-8 of themselves. -/
theorem toUtf8_map_setWidth {p : Bytes} (hp : ∀ b ∈ p, b.toNat < 0x80) :
    toUtf8 (p.map (·.setWidth 16)) = p ∧ Closed (p.map (·.setWidth 16)) := by
  have hascii : IsAscii (p.map (·.setWidth 16)) := by
    intro u hu
    obtain ⟨b, hb, rfl⟩ := List.mem_map.1 hu
    have hlt := hp b hb
    rw [BitVec.toNat_setWidth]
    omega
  refine ⟨?_, hascii.closed⟩
  rw [toUtf8_of_isAscii _ hascii, List.map_map]
  refine (List.map_congr_left fun b _ => ?_).trans (List.map_id p)
  apply BitVec.eq_of_toNat_eq
  rw [Function.comp_apply, BitVec.toNat_setWidth, BitVec.toNat_setWidth, id]
  omega

/-! ## Well-formed strings -/

/-- A unit on its own, where half a pair becomes the replacement character. -/
def lone (u : Unit16) : Unit16 :=
  if 0xD800 ≤ u.toNat ∧ u.toNat < 0xE000 then 0xFFFD else u

/-- The string with a replacement character for every unit that is half a pair without the other
half. -/
def toWellFormed : List Unit16 → List Unit16
  | [] => []
  | [u] => [lone u]
  | u :: v :: s =>
    if IsPair u v then u :: v :: toWellFormed s else lone u :: toWellFormed (v :: s)

theorem length_toWellFormed (s : List Unit16) : (toWellFormed s).length = s.length := by
  induction s using toWellFormed.induct with
  | case1 => rfl
  | case2 u => rfl
  | case3 u v s hpair ih => rw [toWellFormed, if_pos hpair]; simp [ih]
  | case4 u v s hpair ih => rw [toWellFormed, if_neg hpair]; simp [ih]

theorem lone_lt_iff {u : Unit16} : (lone u).toNat < 0x80 ↔ u.toNat < 0x80 := by
  rw [lone]
  split_ifs with h
  · exact iff_of_false (by decide) (by omega)
  · rfl

theorem lone_of_lt {u : Unit16} (h : u.toNat < 0x80) : lone u = u :=
  if_neg (by omega)

theorem isAscii_toWellFormed (s : List Unit16) : IsAscii (toWellFormed s) ↔ IsAscii s := by
  induction s using toWellFormed.induct with
  | case1 => rfl
  | case2 u => rw [toWellFormed, isAscii_cons, isAscii_cons, lone_lt_iff]
  | case3 u v s hpair ih =>
    have hu : ¬u.toNat < 0x80 := by have := hpair.1.1; omega
    rw [toWellFormed, if_pos hpair]
    exact iff_of_false (fun h => hu (isAscii_cons.1 h).1) fun h => hu (isAscii_cons.1 h).1
  | case4 u v s hpair ih =>
    rw [toWellFormed, if_neg hpair, isAscii_cons, isAscii_cons, lone_lt_iff, ih]

theorem toWellFormed_of_isAscii (s : List Unit16) (h : IsAscii s) : toWellFormed s = s := by
  induction s using toWellFormed.induct with
  | case1 => rfl
  | case2 u => rw [toWellFormed, lone_of_lt (isAscii_cons.1 h).1]
  | case3 u v s hpair ih =>
    have hu := (isAscii_cons.1 h).1
    have hge := hpair.1.1
    omega
  | case4 u v s hpair ih =>
    obtain ⟨hu, hrest⟩ := isAscii_cons.1 h
    rw [toWellFormed, if_neg hpair, lone_of_lt hu, ih hrest]

/-! ## Zero-terminated strings -/

/-- What is read of a buffer as a zero-terminated string. -/
def cString {w : ℕ} (buffer : List (BitVec w)) : List (BitVec w) :=
  buffer.takeWhile (· ≠ 0)

theorem cString_zero_cons {w : ℕ} (buffer : List (BitVec w)) : cString (0 :: buffer) = [] :=
  List.takeWhile_cons_of_neg (by simp)

theorem cString_cons {w : ℕ} {b : BitVec w} (hb : b ≠ 0) (buffer : List (BitVec w)) :
    cString (b :: buffer) = b :: cString buffer :=
  List.takeWhile_cons_of_pos (decide_eq_true hb)

theorem cString_eq_self {w : ℕ} {buffer : List (BitVec w)} (h : 0 ∉ buffer) :
    cString buffer = buffer :=
  List.takeWhile_eq_self_iff.2 fun _ hb => decide_eq_true fun h0 => h (h0 ▸ hb)

/-- What follows a terminator is not read. -/
theorem cString_append_zero {w : ℕ} : ∀ (bytes rest : List (BitVec w)),
    cString (bytes ++ 0 :: rest) = cString bytes
  | [], rest => cString_zero_cons rest
  | b :: bytes, rest => by
    by_cases hb : b = 0
    · rw [hb, List.cons_append, cString_zero_cons, cString_zero_cons]
    · rw [List.cons_append, cString_cons hb, cString_cons hb, cString_append_zero bytes rest]

/-- Bytes without zeros are read up to the terminator. -/
theorem cString_terminated {w : ℕ} {bytes : List (BitVec w)} (h : 0 ∉ bytes)
    (rest : List (BitVec w)) : cString (bytes ++ 0 :: rest) = bytes := by
  rw [cString_append_zero, cString_eq_self h]

theorem length_cString_le {w : ℕ} (buffer : List (BitVec w)) :
    (cString buffer).length ≤ buffer.length :=
  (List.takeWhile_sublist _).length_le

theorem zero_notMem_cString {w : ℕ} (buffer : List (BitVec w)) : 0 ∉ cString buffer := by
  intro h
  rw [cString] at h
  have hne := List.mem_takeWhile_imp h
  simp at hne

theorem zero_notMem_charBytes {c : ℕ} (h0 : c ≠ 0) (hc : c < 0x110000) :
    (0 : Byte) ∉ charBytes c := by
  have hbyte : ∀ n, 0 < n → n < 256 → ¬(0 : Byte) = BitVec.ofNat 8 n := fun n hn hn' h => by
    have h0 : 0 = n % 2 ^ 8 := congrArg BitVec.toNat h
    omega
  rw [charBytes]
  split_ifs
  · rw [List.mem_singleton]
    exact hbyte _ (by omega) (by omega)
  · rw [List.mem_pair, not_or]
    exact ⟨hbyte _ (by omega) (by omega), hbyte _ (by omega) (by omega)⟩
  · rw [List.mem_cons, List.mem_pair, not_or, not_or]
    exact ⟨hbyte _ (by omega) (by omega), hbyte _ (by omega) (by omega),
      hbyte _ (by omega) (by omega)⟩
  · rw [List.mem_cons, List.mem_cons, List.mem_pair, not_or, not_or, not_or]
    exact ⟨hbyte _ (by omega) (by omega), hbyte _ (by omega) (by omega),
      hbyte _ (by omega) (by omega), hbyte _ (by omega) (by omega)⟩

/-- Characters other than zero have no zero byte. -/
theorem cString_charBytes_append {c : ℕ} (h0 : c ≠ 0) (hc : c < 0x110000) (rest : Bytes) :
    cString (charBytes c ++ rest) = charBytes c ++ cString rest :=
  List.takeWhile_append_of_pos fun b hb => by
    rw [decide_eq_true_iff]
    rintro rfl
    exact zero_notMem_charBytes h0 hc hb

/-- The bytes before the first zero byte are those of the units before the first zero unit. -/
theorem cString_toUtf8 (s : List Unit16) : cString (toUtf8 s) = toUtf8 (cString s) := by
  have hne : ∀ {u : Unit16}, u ≠ 0 → u.toNat ≠ 0 := fun hu h => hu (BitVec.eq_of_toNat_eq h)
  have hpos : ∀ u : Unit16, 0xD800 ≤ u.toNat → u ≠ 0 := fun u hu h => by
    have h0 : u.toNat = 0 := congrArg BitVec.toNat h
    omega
  induction s using toUtf8.induct with
  | case1 => rfl
  | case2 u =>
    by_cases hu : u = 0
    · rw [hu]
      rfl
    · have h := cString_charBytes_append (hne hu) (by omega) []
      rw [List.append_nil] at h
      rw [toUtf8, h, cString_cons hu]
      exact List.append_nil _
  | case3 u v s hpair ih =>
    have hu : u ≠ 0 := hpos u hpair.1.1
    have hv : v ≠ 0 := hpos v (by have := hpair.2.1; omega)
    rw [cString_cons hu, cString_cons hv, toUtf8, if_pos hpair, toUtf8, if_pos hpair,
      cString_charBytes_append (by unfold pairChar; omega) (pairChar_lt hpair), ih]
  | case4 u v s hpair ih =>
    by_cases hu : u = 0
    · rw [toUtf8, if_neg hpair, hu, cString_zero_cons]
      rfl
    · rw [toUtf8, if_neg hpair, cString_charBytes_append (hne hu) (by omega), ih, cString_cons hu]
      by_cases hv : v = 0
      · rw [hv, cString_zero_cons]
        exact List.append_nil _
      · rw [cString_cons hv, toUtf8, if_neg hpair]

/-- A string has the zero unit exactly if its bytes have the zero byte. -/
theorem zero_mem_toUtf8_iff {s : List Unit16} : 0 ∈ toUtf8 s ↔ 0 ∈ s := by
  rw [← not_iff_not]
  constructor
  · intro h
    have hcut := cString_toUtf8 s
    rw [cString_eq_self h] at hcut
    rw [toUtf8_injective hcut]
    exact zero_notMem_cString s
  · intro h
    have hcut := cString_toUtf8 s
    rw [cString_eq_self h] at hcut
    rw [← hcut]
    exact zero_notMem_cString (toUtf8 s)

/-! ## Bytes that are no UTF-8 -/

/-- What has been read of a character : the bytes that are missing, the range of the next of them,
and the bits so far. -/
structure Begun where
  missing : ℕ
  lower : ℕ
  upper : ℕ
  bits : ℕ

/-- A byte where a character begins. -/
def beginChar (b : Byte) : List Unit16 × Option Begun :=
  let n := b.toNat
  if n < 0x80 then (charUnits n, none)
  else if 0xC2 ≤ n ∧ n ≤ 0xDF then ([], some ⟨1, 0x80, 0xBF, n - 0xC0⟩)
  else if 0xE0 ≤ n ∧ n ≤ 0xEF then
    ([], some ⟨2, if n = 0xE0 then 0xA0 else 0x80, if n = 0xED then 0x9F else 0xBF, n - 0xE0⟩)
  else if 0xF0 ≤ n ∧ n ≤ 0xF4 then
    ([], some ⟨3, if n = 0xF0 then 0x90 else 0x80, if n = 0xF4 then 0x8F else 0xBF, n - 0xF0⟩)
  else ([0xFFFD], none)

/-- A byte after others of a character. One that does not belong to it begins the next. -/
def continueChar (p : Begun) (b : Byte) : List Unit16 × Option Begun :=
  if p.lower ≤ b.toNat ∧ b.toNat ≤ p.upper then
    let c := p.bits * 64 + (b.toNat - 0x80)
    if p.missing = 1 then (charUnits c, none) else ([], some ⟨p.missing - 1, 0x80, 0xBF, c⟩)
  else (0xFFFD :: (beginChar b).1, (beginChar b).2)

/-- The decoder that replaces what is no character, with what it has of one. -/
def decodeLossy : Option Begun → Bytes → List Unit16
  | none, [] => []
  | some _, [] => [0xFFFD]
  | none, b :: bytes => (beginChar b).1 ++ decodeLossy (beginChar b).2 bytes
  | some p, b :: bytes => (continueChar p b).1 ++ decodeLossy (continueChar p b).2 bytes

/-- The string that bytes are read as, with replacement characters for what is no UTF-8. -/
def ofUtf8Lossy (bytes : Bytes) : List Unit16 :=
  decodeLossy none bytes

/-- An ASCII string is what its bytes are read as. -/
theorem ofUtf8Lossy_toUtf8 {s : List Unit16} (h : IsAscii s) : ofUtf8Lossy (toUtf8 s) = s := by
  induction s with
  | nil => rfl
  | cons u s ih =>
    obtain ⟨hu, hs⟩ := isAscii_cons.1 h
    have hbyte : (u.setWidth 8 : Byte).toNat = u.toNat := by
      rw [BitVec.toNat_setWidth]
      omega
    have hbegin : beginChar (u.setWidth 8) = ([u], none) := by
      rw [beginChar, hbyte, if_pos hu, charUnits_toNat]
    rw [toUtf8_cons hu, ofUtf8Lossy, decodeLossy, hbegin]
    exact congrArg (u :: ·) (ih hs)

/-- What has been read is the beginning of a character, which is not zero. -/
structure Begun.Nonzero (p : Begun) : Prop where
  missing_le : 1 ≤ p.missing ∧ p.missing ≤ 3
  range : 0x80 ≤ p.lower ∧ p.upper ≤ 0xBF
  pos : 0x80 < p.bits * 64 + p.lower
  lt : (p.bits * 64 + (p.upper - 0x80) + 1) * 64 ^ (p.missing - 1) ≤ 0x110000

theorem zero_notMem_charUnits {c : ℕ} (h0 : 0 < c) (hc : c < 0x110000) : 0 ∉ charUnits c := by
  have hunit : ∀ n, 0 < n → n < 0x10000 → ¬(0 : Unit16) = BitVec.ofNat 16 n := fun n hn hn' h => by
    have h0 : 0 = n % 2 ^ 16 := congrArg BitVec.toNat h
    omega
  rw [charUnits]
  split_ifs with hbmp
  · rw [List.mem_singleton]
    exact hunit _ h0 hbmp
  · rw [List.mem_pair, not_or]
    exact ⟨hunit _ (by omega) (by omega), hunit _ (by omega) (by omega)⟩

theorem nonzero_ended {s : List Unit16} (h : 0 ∉ s) :
    0 ∉ s ∧ ∀ p ∈ (none : Option Begun), p.Nonzero :=
  ⟨h, nofun⟩

/-- A byte that begins a longer character. -/
theorem nonzero_begun {missing lower upper bits : ℕ} (hmissing : 1 ≤ missing ∧ missing ≤ 3)
    (hrange : 0x80 ≤ lower ∧ upper ≤ 0xBF) (hpos : 0x80 < bits * 64 + lower)
    (hlt : (bits * 64 + (upper - 0x80) + 1) * 64 ^ (missing - 1) ≤ 0x110000) :
    (0 : Unit16) ∉ [] ∧ ∀ p ∈ some (Begun.mk missing lower upper bits), p.Nonzero := by
  refine ⟨List.not_mem_nil, ?_⟩
  rintro p ⟨⟩
  exact ⟨hmissing, hrange, hpos, hlt⟩

theorem beginChar_nonzero {b : Byte} (hb : b ≠ 0) :
    0 ∉ (beginChar b).1 ∧ ∀ p ∈ (beginChar b).2, p.Nonzero := by
  have hpos : 0 < b.toNat := Nat.pos_of_ne_zero fun h => hb (BitVec.eq_of_toNat_eq h)
  rw [beginChar]
  generalize b.toNat = n at hpos
  by_cases h1 : n < 0x80
  · rw [if_pos h1]
    exact nonzero_ended (zero_notMem_charUnits hpos (by omega))
  rw [if_neg h1]
  by_cases h2 : 0xC2 ≤ n ∧ n ≤ 0xDF
  · rw [if_pos h2]
    exact nonzero_begun (by decide) (by decide) (by omega) (by omega)
  rw [if_neg h2]
  by_cases h3 : 0xE0 ≤ n ∧ n ≤ 0xEF
  · rw [if_pos h3]
    refine nonzero_begun (by decide) ?_ ?_ ?_ <;> split_ifs <;> omega
  rw [if_neg h3]
  by_cases h4 : 0xF0 ≤ n ∧ n ≤ 0xF4
  · rw [if_pos h4]
    refine nonzero_begun (by decide) ?_ ?_ ?_ <;> split_ifs <;> omega
  rw [if_neg h4]
  exact nonzero_ended (by decide)

theorem continueChar_nonzero {b : Byte} (hb : b ≠ 0) {p : Begun} (hp : p.Nonzero) :
    0 ∉ (continueChar p b).1 ∧ ∀ p' ∈ (continueChar p b).2, p'.Nonzero := by
  obtain ⟨missing, lower, upper, bits⟩ := p
  obtain ⟨hmissing, hrange, hpos, hlt⟩ := hp
  dsimp only at hmissing hrange hpos hlt
  unfold continueChar
  dsimp only
  split_ifs with hbyte hone
  · subst hone
    rw [Nat.sub_self, Nat.pow_zero, Nat.mul_one] at hlt
    have hc : bits * 64 + (b.toNat - 0x80) < 0x110000 := by omega
    dsimp only
    exact nonzero_ended (zero_notMem_charUnits (by omega) hc)
  · obtain ⟨k, rfl⟩ : ∃ k, missing = k + 2 := ⟨missing - 2, by omega⟩
    refine nonzero_begun (by omega) (by decide) (by omega) ?_
    have hbits : (bits * 64 + (b.toNat - 0x80)) * 64 + (0xBF - 0x80) + 1 =
        (bits * 64 + (b.toNat - 0x80) + 1) * 64 := by omega
    calc ((bits * 64 + (b.toNat - 0x80)) * 64 + (0xBF - 0x80) + 1) * 64 ^ (k + 2 - 1 - 1)
        = (bits * 64 + (b.toNat - 0x80) + 1) * 64 ^ (k + 1) := by
          rw [hbits, Nat.mul_assoc, ← Nat.pow_succ']
          rfl
      _ ≤ (bits * 64 + (upper - 0x80) + 1) * 64 ^ (k + 1) :=
          Nat.mul_le_mul_right _ (by omega)
      _ ≤ 0x110000 := hlt
  · obtain ⟨hnone, hbegun⟩ := beginChar_nonzero hb
    exact ⟨List.not_mem_cons_of_ne_of_not_mem (by decide) hnone, hbegun⟩

/-- Bytes that are not zero are not read as zeros. -/
theorem zero_notMem_ofUtf8Lossy {bytes : Bytes} (h : 0 ∉ bytes) : 0 ∉ ofUtf8Lossy bytes := by
  have hdecode : ∀ (bytes : Bytes) (s : Option Begun), 0 ∉ bytes → (∀ p ∈ s, p.Nonzero) →
      0 ∉ decodeLossy s bytes := by
    intro bytes
    induction bytes with
    | nil =>
      intro s _ _
      cases s <;> rw [decodeLossy] <;> decide
    | cons b bytes ih =>
      intro s h hs
      rw [List.mem_cons, not_or] at h
      have hb : b ≠ 0 := Ne.symm h.1
      cases s with
      | none =>
        obtain ⟨hnone, hbegun⟩ := beginChar_nonzero hb
        rw [decodeLossy, List.mem_append, not_or]
        exact ⟨hnone, ih _ h.2 hbegun⟩
      | some p =>
        obtain ⟨hnone, hbegun⟩ := continueChar_nonzero hb (hs p rfl)
        rw [decodeLossy, List.mem_append, not_or]
        exact ⟨hnone, ih _ h.2 hbegun⟩
  exact hdecode bytes none h nofun

end Utf16

end TinyKvm
