import TinyKvm.Cutils
import TinyKvm.QuickJs
import TinyKvm.StringBuffer
import Mathlib.Algebra.GroupWithZero.Nat

/-!
# Strings of QuickJS from UTF-8 and to it

`JS_NewStringLen` reads UTF-8 into a string buffer. A character above 16 bits
becomes a pair of units, half a pair is read like any other character, and what is
no character becomes a replacement character. `JS_ToCStringLen2` writes a string of
8-bit or of 16-bit characters as UTF-8, in a block whose size it computes before.

Both stay inside their blocks (`toCStringLen2_eq`, `newStringLen_eq_of`), and a
string that is written and read again is the same, with half pairs and zeros
(`newStringLen_toCStringLen2`). So the laws of an engine hold for this one
(`Js.Engine.quickJs`).
-/

namespace TinyKvm

namespace QuickJs

open Utf16 (Unit16 charBytes charUnits IsPair pairChar toUtf8)

open StringBuffer (Op Slack contents)

/-! ## From UTF-8 -/

/-- A byte that cannot begin a character. -/
def isContinuation (b : Byte) : Bool :=
  b.toNat ≥ 0x80 && b.toNat < 0xc0

/-- What is left after the bytes that are skipped for an invalid character. -/
def skipInvalid (p : Bytes) : Bytes :=
  (p.dropWhile isContinuation).tail.dropWhile isContinuation

/-- A pass over bytes that begin with no ASCII character : what it appends, and what is left. -/
def decodeChar (p : Bytes) : List Op × Bytes :=
  match Cutils.unicodeFromUtf8 p (BitVec.ofNat 32 p.length).toInt with
  | none => ([.putc16 0xfffd], skipInvalid p)
  | some (c, next) =>
    if c < 0x10000 then ([.putc16 (BitVec.ofNat 16 c)], next)
    else if c ≤ 0x10FFFF then
      ([.putc16 (BitVec.ofNat 16 ((c - 0x10000) >>> 10 + 0xd800)),
        .putc16 (BitVec.ofNat 16 ((c - 0x10000 &&& 0x3ff) + 0xdc00))], next)
    else ([.putc16 0xfffd], skipInvalid p)

theorem length_skipInvalid_lt (b : Byte) (p : Bytes) :
    (skipInvalid (b :: p)).length < (b :: p).length := by
  have hdrop : ∀ q : Bytes, (q.dropWhile isContinuation).length ≤ q.length := fun q =>
    (List.dropWhile_sublist _).length_le
  unfold skipInvalid
  refine (hdrop _).trans_lt ?_
  by_cases hb : isContinuation b = true
  · rw [List.dropWhile_cons_of_pos hb, List.length_tail, List.length_cons]
    have hp := hdrop p
    omega
  · rw [List.dropWhile_cons_of_neg hb, List.tail_cons]
    exact Nat.lt_succ_self _

theorem length_decodeChar_lt (b : Byte) (p : Bytes) :
    (decodeChar (b :: p)).2.length < (b :: p).length := by
  unfold decodeChar
  split
  · exact length_skipInvalid_lt b p
  · rename_i c next h
    have hnext := Cutils.length_unicodeFromUtf8_lt h
    split_ifs
    · exact hnext
    · exact hnext
    · exact length_skipInvalid_lt b p

/-- The loop of `JS_NewStringLen` : what it appends. -/
def decodeLoop : Bytes → List Op
  | [] => []
  | b :: p =>
    if b.toNat < 128 then .putc8 b :: decodeLoop p
    else (decodeChar (b :: p)).1 ++ decodeLoop (decodeChar (b :: p)).2
termination_by p => p.length
decreasing_by
  · exact Nat.lt_succ_self _
  · exact length_decodeChar_lt b p

/-- `js_new_string8`. -/
def newString8 (buf : Bytes) (granted : Bool) : Except Fault JSString :=
  if buf = [] then .ok (.str8 [])
  else if granted then .ok (.str8 buf)
  else .error .exception

/-- `JS_NewStringLen`. -/
def newStringLen (buf : Bytes) (granted : Bool) (slack : ℕ → Slack) (shrink : Slack) :
    Except Fault JSString :=
  let start := buf.takeWhile (·.toNat < 128)
  let rest := buf.dropWhile (·.toNat < 128)
  if start.length > lenMax then .error .exception
  else if rest = [] then newString8 buf granted
  else
    let ops := .write8 start :: decodeLoop rest
    StringBuffer.build (int buf.length) false granted (ops.mapIdx fun i op => (op, slack i)) shrink

/-! ## To UTF-8 -/

/-- The bytes of an 8-bit character. -/
def narrowChar (c : Byte) : Bytes :=
  if c.toNat < 0x80 then [c]
  else [BitVec.ofNat 8 (c.toNat >>> 6 ||| 0xc0), BitVec.ofNat 8 (c.toNat &&& 0x3f ||| 0x80)]

/-- The loop over 16-bit characters. -/
def wideBytes (cesu8 : Bool) : List Unit16 → Bytes
  | [] => []
  | [c] => if c.toNat < 0x80 then [c.setWidth 8] else Cutils.unicodeToUtf8 c.toNat
  | c :: c1 :: src =>
    if c.toNat < 0x80 then c.setWidth 8 :: wideBytes cesu8 (c1 :: src)
    else if (c.toNat ≥ 0xd800 ∧ c.toNat < 0xdc00) ∧ cesu8 = false ∧
        c1.toNat ≥ 0xdc00 ∧ c1.toNat < 0xe000 then
      Cutils.unicodeToUtf8 (((c.toNat &&& 0x3ff) <<< 10 ||| (c1.toNat &&& 0x3ff)) + 0x10000) ++
        wideBytes cesu8 src
    else Cutils.unicodeToUtf8 c.toNat ++ wideBytes cesu8 (c1 :: src)

/-- Bytes and the zero after them, in a block for `size` bytes and the zero. A block of a negative
size is never granted. -/
def writeString (bytes : Bytes) (size : ℤ) (granted : Bool) : Except Fault Bytes :=
  if granted = false ∨ size < 0 then .error .exception
  else if (bytes.length : ℤ) + 1 ≤ size + 1 then .ok bytes
  else .error .outside

/-- `JS_ToCStringLen2` of a string : its bytes before the zero. -/
def toCStringLen2 (s : JSString) (cesu8 granted : Bool) : Except Fault Bytes :=
  match s with
  | .str8 src =>
    let count := (src.map (·.toNat >>> 7)).sum
    if count = 0 then .ok src
    else writeString (src.flatMap narrowChar) (BitVec.ofNat 32 (src.length + count)).toInt granted
  | .str16 src =>
    writeString (wideBytes cesu8 src) (BitVec.ofNat 32 (src.length * 3)).toInt granted

/-! ## Characters -/

theorem tail_eq (c shift : ℕ) :
    Cutils.tail c shift = BitVec.ofNat 8 (0x80 + c / 2 ^ shift % 64) := by
  apply BitVec.eq_of_toNat_eq
  rw [Cutils.toNat_tail, BitVec.toNat_ofNat]
  omega

theorem lead_eq {l c shift mark n : ℕ} (h1 : 1 ≤ l) (h5 : l ≤ 5) (hmax : c < Cutils.codeBound l)
    (hshift : shift = 6 * l) (hmark : mark = Cutils.mark l) (hn : n = mark + c / 64 ^ l) :
    Cutils.lead c shift mark = BitVec.ofNat 8 n := by
  subst hn hmark hshift
  apply BitVec.eq_of_toNat_eq
  rw [BitVec.toNat_ofNat, ← Cutils.toNat_lead h1 h5 hmax, Nat.mod_eq_of_lt (BitVec.isLt _)]

/-- The characters of Unicode are written as in UTF-8. -/
theorem unicodeToUtf8_eq {c : ℕ} (hc : c < 0x110000) : Cutils.unicodeToUtf8 c = charBytes c := by
  unfold Cutils.unicodeToUtf8 charBytes
  by_cases h1 : c < 0x80
  · rw [if_pos h1, if_pos h1]
  rw [if_neg h1, if_neg h1]
  by_cases h2 : c < 0x800
  · rw [if_pos h2, if_pos h2, tail_eq, pow_zero, Nat.div_one]
    have hlead : Cutils.lead c 6 0xc0 = BitVec.ofNat 8 (0xC0 + c / 64) :=
      lead_eq (l := 1) (by decide) (by decide) h2 rfl rfl rfl
    rw [hlead]
  rw [if_neg h2, if_neg h2]
  by_cases h3 : c < 0x10000
  · rw [if_pos h3, if_pos h3, tail_eq, tail_eq, pow_zero, Nat.div_one]
    have hlead : Cutils.lead c 12 0xe0 = BitVec.ofNat 8 (0xE0 + c / 4096) :=
      lead_eq (l := 2) (by decide) (by decide) h3 rfl rfl rfl
    rw [hlead]
    rfl
  · have h4 : c < 0x200000 := hc.trans (by decide)
    rw [if_neg h3, if_neg h3, if_pos h4, tail_eq, tail_eq, tail_eq, pow_zero, Nat.div_one]
    have hlead : Cutils.lead c 18 0xf0 = BitVec.ofNat 8 (0xF0 + c / 262144) :=
      lead_eq (l := 3) (by decide) (by decide) h4 rfl rfl rfl
    rw [hlead]
    rfl

theorem and_3ff (x : ℕ) : x &&& 0x3ff = x % 1024 := by
  rw [show (0x3ff : ℕ) = 2 ^ 10 - 1 by norm_num, Nat.and_two_pow_sub_one_eq_mod]

/-- The bits of a pair. -/
theorem pairChar_eq {c c1 : Unit16} (h : IsPair c c1) :
    ((c.toNat &&& 0x3ff) <<< 10 ||| (c1.toNat &&& 0x3ff)) + 0x10000 = pairChar c c1 := by
  have ⟨⟨hc, hc'⟩, hc1, hc1'⟩ := h
  have hhigh : c.toNat &&& 0x3ff = c.toNat - 0xD800 := by
    rw [and_3ff]
    omega
  have hlow : c1.toNat &&& 0x3ff = c1.toNat - 0xDC00 := by
    rw [and_3ff]
    omega
  have hlt : c1.toNat - 0xDC00 < 2 ^ 10 := by omega
  rw [hhigh, hlow, Nat.shiftLeft_eq, Nat.mul_comm, ← Nat.two_pow_add_eq_or_of_lt hlt]
  unfold pairChar
  omega

/-! ## Reading -/

/-- The characters that bytes are read as. -/
def decodeUnits (p : Bytes) : List Unit16 :=
  ((decodeLoop p).map Op.units).flatten

theorem decodeUnits_nil : decodeUnits [] = [] := by
  rw [decodeUnits, decodeLoop]
  rfl

theorem decodeUnits_of_lt {b : Byte} (hb : b.toNat < 128) (p : Bytes) :
    decodeUnits (b :: p) = b.setWidth 16 :: decodeUnits p := by
  rw [decodeUnits, decodeLoop, if_pos hb]
  rfl

theorem decodeUnits_of_ge {b : Byte} (hb : ¬b.toNat < 128) (p : Bytes) :
    decodeUnits (b :: p) =
      ((decodeChar (b :: p)).1.map Op.units).flatten ++ decodeUnits (decodeChar (b :: p)).2 := by
  rw [decodeUnits, decodeLoop, if_neg hb, List.map_append, List.flatten_append]
  rfl

theorem decodeUnits_append {start : Bytes} (h : ∀ b ∈ start, b.toNat < 128) (rest : Bytes) :
    decodeUnits (start ++ rest) = start.map (·.setWidth 16) ++ decodeUnits rest := by
  induction start with
  | nil => rfl
  | cons b start ih =>
    rw [List.cons_append, decodeUnits_of_lt (h b List.mem_cons_self),
      ih fun b' hb' => h b' (List.mem_cons_of_mem _ hb'), List.map_cons, List.cons_append]

theorem toInt_ofNat {n : ℕ} (h : n < 2 ^ 31) : (BitVec.ofNat 32 n).toInt = n := by
  rw [BitVec.toInt_eq_toNat_cond, BitVec.toNat_ofNat]
  omega

/-- A character is read as its units. -/
theorem decodeUnits_charBytes {c : ℕ} (hc : c < 0x110000) (rest : Bytes)
    (hlen : (charBytes c ++ rest).length < 2 ^ 31) :
    decodeUnits (charBytes c ++ rest) = charUnits c ++ decodeUnits rest := by
  by_cases h80 : c < 0x80
  · have hb : (BitVec.ofNat 8 c).toNat = c := by
      rw [BitVec.toNat_ofNat]
      omega
    have hunit : (BitVec.ofNat 8 c).setWidth 16 = BitVec.ofNat 16 c := by
      apply BitVec.eq_of_toNat_eq
      rw [BitVec.toNat_setWidth, hb, BitVec.toNat_ofNat]
    rw [Utf16.charBytes_of_lt h80, List.singleton_append, decodeUnits_of_lt (by omega), hunit,
      charUnits, if_pos (by omega), List.singleton_append]
  have hread : Cutils.unicodeFromUtf8 (charBytes c ++ rest)
      (BitVec.ofNat 32 (charBytes c ++ rest).length).toInt = some (c, rest) := by
    rw [toInt_ofNat hlen, ← unicodeToUtf8_eq hc]
    refine Cutils.unicodeFromUtf8_unicodeToUtf8 (by omega) rest ?_
    rw [List.length_append]
    exact Int.ofNat_le.2 (Nat.le_add_right _ _)
  rcases hp : charBytes c ++ rest with - | ⟨b, p⟩
  · rw [hp] at hread
    cases hread
  rw [hp] at hread
  have hb : ¬b.toNat < 128 := fun hb => by
    rw [Cutils.unicodeFromUtf8, if_pos hb] at hread
    have hc := (Prod.mk.inj (Option.some.inj hread)).1
    omega
  rw [decodeUnits_of_ge hb, decodeChar, hread]
  dsimp only
  by_cases hbmp : c < 0x10000
  · rw [if_pos hbmp, charUnits, if_pos hbmp]
    rfl
  · have hhigh : (c - 0x10000) >>> 10 + 0xd800 = 0xD800 + (c - 0x10000) / 1024 := by
      rw [Nat.shiftRight_eq_div_pow, Nat.add_comm]
    have hlow : (c - 0x10000 &&& 0x3ff) + 0xdc00 = 0xDC00 + (c - 0x10000) % 1024 := by
      rw [and_3ff, Nat.add_comm]
    rw [if_neg hbmp, if_pos (by omega), charUnits, if_neg hbmp, hhigh, hlow]
    rfl

/-- Every string is read back, with half pairs and zeros. -/
theorem decodeUnits_toUtf8 (s : List Unit16) (hlen : (toUtf8 s).length < 2 ^ 31) :
    decodeUnits (toUtf8 s) = s := by
  induction s using Utf16.toUtf8.induct with
  | case1 => exact decodeUnits_nil
  | case2 u =>
    rw [toUtf8, ← List.append_nil (charBytes u.toNat)] at hlen ⊢
    rw [decodeUnits_charBytes (by omega) _ hlen, Utf16.charUnits_toNat, decodeUnits_nil]
    rfl
  | case3 u v s hpair ih =>
    rw [toUtf8, if_pos hpair] at hlen ⊢
    rw [decodeUnits_charBytes (Utf16.pairChar_lt hpair) _ hlen, Utf16.charUnits_pairChar hpair,
      ih (by rw [List.length_append] at hlen; omega)]
    rfl
  | case4 u v s hpair ih =>
    rw [toUtf8, if_neg hpair] at hlen ⊢
    rw [decodeUnits_charBytes (by omega) _ hlen, Utf16.charUnits_toNat,
      ih (by rw [List.length_append] at hlen; omega)]
    rfl

/-- A pass appends no more characters than it takes bytes. -/
theorem length_decodeChar_add_le {b : Byte} (hb : ¬b.toNat < 128) (p : Bytes) :
    ((decodeChar (b :: p)).1.map Op.units).flatten.length + (decodeChar (b :: p)).2.length ≤
      (b :: p).length := by
  have hskip := length_skipInvalid_lt b p
  rw [Nat.add_comm]
  unfold decodeChar
  split
  · exact hskip
  · rename_i c next h
    have hnext := Cutils.length_unicodeFromUtf8_lt_tail hb h
    rw [List.length_cons] at hskip ⊢
    split_ifs
    · exact hnext.le.trans_lt (Nat.lt_succ_self _)
    · exact Nat.succ_le_succ hnext
    · exact hskip

/-- A string has no more characters than it is read from bytes. -/
theorem length_decodeUnits_le (p : Bytes) : (decodeUnits p).length ≤ p.length := by
  induction p using decodeLoop.induct with
  | case1 => exact decodeUnits_nil.symm ▸ le_rfl
  | case2 b p hb ih =>
    rw [decodeUnits_of_lt hb, List.length_cons, List.length_cons]
    exact Nat.succ_le_succ ih
  | case3 b p hb ih =>
    rw [decodeUnits_of_ge hb, List.length_append]
    exact (Nat.add_le_add_left ih _).trans (length_decodeChar_add_le hb p)

theorem newString8_spec {buf : Bytes} (h : ∀ b ∈ buf, b.toNat < 128) (granted : Bool) :
    Yields (granted = false) (· = JSString.of (decodeUnits buf)) (newString8 buf granted) := by
  have hunits : decodeUnits buf = buf.map (·.setWidth 16) := by
    have happend := decodeUnits_append h []
    rwa [List.append_nil, decodeUnits_nil, List.append_nil] at happend
  have hof : JSString.str8 buf = JSString.of (decodeUnits buf) := by
    refine JSString.eq_of_units hunits.symm (iff_of_false Bool.false_ne_true ?_)
    rintro ⟨u, hu, hwide⟩
    rw [hunits] at hu
    obtain ⟨b, -, rfl⟩ := List.mem_map.1 hu
    exact JSString.not_isWide_setWidth b hwide
  unfold newString8
  split_ifs with hnil hgranted
  · rw [← hof, hnil]
    exact .ok rfl
  · exact .ok hof
  · exact .exception (Bool.eq_false_iff.2 hgranted)

theorem contents_mapIdx (ops : List Op) (slack : ℕ → Slack) :
    contents (ops.mapIdx fun i op => (op, slack i)) = (ops.map Op.units).flatten := by
  have hfst : ops.zipIdx.map (Op.units ∘ Prod.fst) = ops.map Op.units := by
    rw [← List.map_map, List.zipIdx_map_fst]
  rw [contents, List.mapIdx_eq_zipIdx_map, List.map_map, ← hfst]
  rfl

theorem newStringLen_spec {buf : Bytes} (hbuf : buf.length ≤ lenMax) (granted : Bool)
    (slack : ℕ → Slack) (shrink : Slack) :
    Yields (granted = false ∨ ∃ i, slack i = none) (· = JSString.of (decodeUnits buf))
      (newStringLen buf granted slack shrink) := by
  have hascii : ∀ b ∈ buf.takeWhile (·.toNat < 128), b.toNat < 128 := fun b hb => by
    simpa only [decide_eq_true_eq] using List.mem_takeWhile_imp hb
  have hcontents := decodeUnits_append hascii (buf.dropWhile (·.toNat < 128))
  rw [List.takeWhile_append_dropWhile] at hcontents
  have hstart : ¬(buf.takeWhile (·.toNat < 128)).length > lenMax :=
    not_lt.2 ((List.takeWhile_sublist _).length_le.trans hbuf)
  unfold newStringLen
  dsimp only
  rw [if_neg hstart]
  split_ifs with hrest
  · have hall : ∀ b ∈ buf, b.toNat < 128 := by
      rw [← List.takeWhile_append_dropWhile (p := (·.toNat < 128)) (l := buf), hrest,
        List.append_nil]
      exact hascii
    exact (newString8_spec hall granted).imp .inl fun _ h => h
  · have hops : contents ((.write8 (buf.takeWhile (·.toNat < 128)) ::
        decodeLoop (buf.dropWhile (·.toNat < 128))).mapIdx fun i op => (op, slack i)) =
          decodeUnits buf := by
      rw [contents_mapIdx, hcontents]
      rfl
    have hlen : (decodeUnits buf).length ≤ lenMax := (length_decodeUnits_le buf).trans hbuf
    have hint : (decodeUnits buf).length < 2 ^ 31 := hlen.trans_lt (by decide)
    rw [int_eq (by omega) (by exact_mod_cast hbuf.trans_lt (by decide : lenMax < 2 ^ 31))]
    refine (StringBuffer.build_spec hbuf _ _ (hops ▸ hint) _).imp ?_ fun s hs => ?_
    · rintro (hgranted | ⟨o, ho, hslack⟩ | hlong)
      · exact .inl hgranted
      · obtain ⟨i, hi, rfl⟩ := List.mem_mapIdx.1 ho
        exact .inr ⟨i, hslack⟩
      · rw [hops] at hlong
        exact absurd hlen (not_le.2 hlong)
    · rw [hs.eq_of, hops]

/-! ## Writing -/

/-- The bytes of a string : UTF-8, or CESU-8, where a pair is two characters. -/
def encode (cesu8 : Bool) (s : List Unit16) : Bytes :=
  if cesu8 then s.flatMap fun u => charBytes u.toNat else toUtf8 s

theorem narrowChar_eq (c : Byte) : narrowChar c = charBytes c.toNat := by
  rw [← unicodeToUtf8_eq (by omega), narrowChar, Cutils.unicodeToUtf8]
  by_cases hc : c.toNat < 0x80
  · rw [if_pos hc, if_pos hc, BitVec.ofNat_toNat, BitVec.setWidth_eq]
  · rw [if_neg hc, if_neg hc, if_pos (by omega)]
    rfl

/-- Without pairs the characters are the units. -/
theorem toUtf8_eq_flatMap (s : List Unit16) (h : ∀ u ∈ s, u.toNat < 0xD800) :
    toUtf8 s = s.flatMap fun u => charBytes u.toNat := by
  induction s using Utf16.toUtf8.induct with
  | case1 => rfl
  | case2 u => exact (List.append_nil _).symm
  | case3 u v s hpair ih => exact absurd (h u List.mem_cons_self) (not_lt.2 hpair.1.1)
  | case4 u v s hpair ih =>
    rw [toUtf8, if_neg hpair, ih fun w hw => h w (List.mem_cons_of_mem _ hw)]
    rfl

theorem flatMap_narrowChar (src : Bytes) (cesu8 : Bool) :
    src.flatMap narrowChar = encode cesu8 (src.map (·.setWidth 16)) := by
  have hflat : src.flatMap narrowChar =
      (src.map (·.setWidth 16)).flatMap fun u : Unit16 => charBytes u.toNat := by
    rw [List.flatMap_map]
    refine List.flatMap_congr fun c _ => ?_
    rw [narrowChar_eq, BitVec.toNat_setWidth, Nat.mod_eq_of_lt (by omega)]
  unfold encode
  split_ifs
  · exact hflat
  · rw [hflat, toUtf8_eq_flatMap]
    intro u hu
    obtain ⟨c, -, rfl⟩ := List.mem_map.1 hu
    rw [BitVec.toNat_setWidth]
    omega

/-- The bytes of an 8-bit string are as many as were counted. -/
theorem length_flatMap_narrowChar (src : Bytes) :
    (src.flatMap narrowChar).length = src.length + (src.map (·.toNat >>> 7)).sum := by
  induction src with
  | nil => rfl
  | cons c src ih =>
    have hchar : (narrowChar c).length = 1 + c.toNat >>> 7 := by
      rw [narrowChar, Nat.shiftRight_eq_div_pow]
      split_ifs
      · rw [List.length_singleton]
        omega
      · rw [List.length_cons, List.length_singleton]
        omega
    rw [List.flatMap_cons, List.length_append, ih, hchar, List.length_cons, List.map_cons,
      List.sum_cons]
    omega

theorem wideBytes_singleton (cesu8 : Bool) (c : Unit16) :
    wideBytes cesu8 [c] = charBytes c.toNat := by
  rw [wideBytes]
  split_ifs with hc
  · rw [Utf16.charBytes_of_lt hc, BitVec.ofNat_toNat]
  · exact unicodeToUtf8_eq (by omega)

theorem wideBytes_cons (cesu8 : Bool) (c c1 : Unit16) (src : List Unit16) :
    wideBytes cesu8 (c :: c1 :: src) =
      if IsPair c c1 ∧ cesu8 = false then charBytes (pairChar c c1) ++ wideBytes cesu8 src
      else charBytes c.toNat ++ wideBytes cesu8 (c1 :: src) := by
  rw [wideBytes]
  by_cases hpair : IsPair c c1 ∧ cesu8 = false
  · have ⟨⟨hc, hc'⟩, hc1, hc1'⟩ := hpair.1
    rw [if_pos hpair, if_neg (by omega), if_pos ⟨⟨hc, hc'⟩, hpair.2, hc1, hc1'⟩,
      pairChar_eq hpair.1, unicodeToUtf8_eq (Utf16.pairChar_lt hpair.1)]
  rw [if_neg hpair]
  split_ifs with hc hpair'
  · rw [Utf16.charBytes_of_lt hc, BitVec.ofNat_toNat]
    rfl
  · exact absurd ⟨⟨hpair'.1, hpair'.2.2⟩, hpair'.2.1⟩ hpair
  · rw [unicodeToUtf8_eq (by omega)]

theorem wideBytes_eq (cesu8 : Bool) (src : List Unit16) :
    wideBytes cesu8 src = encode cesu8 src := by
  cases cesu8 with
  | false =>
    change wideBytes false src = toUtf8 src
    induction src using Utf16.toUtf8.induct with
    | case1 => rfl
    | case2 c => exact wideBytes_singleton false c
    | case3 c c1 src hpair ih => rw [wideBytes_cons, if_pos ⟨hpair, rfl⟩, toUtf8, if_pos hpair, ih]
    | case4 c c1 src hpair ih =>
      rw [wideBytes_cons, if_neg fun h => hpair h.1, toUtf8, if_neg hpair, ih]
  | true =>
    change wideBytes true src = src.flatMap fun u => charBytes u.toNat
    induction src with
    | nil => rfl
    | cons c src ih =>
      rcases src with - | ⟨c1, src⟩
      · rw [wideBytes_singleton]
        exact (List.append_nil _).symm
      · rw [wideBytes_cons, if_neg fun h => Bool.false_ne_true h.2.symm, ih]
        rfl

/-- Three bytes for a unit are enough. -/
theorem length_encode_le (cesu8 : Bool) (s : List Unit16) :
    (encode cesu8 s).length ≤ s.length * 3 := by
  have hchar : ∀ u : Unit16, (charBytes u.toNat).length ≤ 3 := fun u => by
    rw [charBytes, if_pos (show u.toNat < 0x10000 by omega)]
    split_ifs <;> simp
  cases cesu8 with
  | false =>
    change (toUtf8 s).length ≤ s.length * 3
    induction s using Utf16.toUtf8.induct with
    | case1 => exact le_rfl
    | case2 u => exact hchar u
    | case3 u v s hpair ih =>
      have hpairChar := Utf16.length_charBytes_pairChar u v
      rw [toUtf8, if_pos hpair, List.length_append, List.length_cons, List.length_cons]
      omega
    | case4 u v s hpair ih =>
      have hu := hchar u
      rw [toUtf8, if_neg hpair, List.length_append, List.length_cons]
      omega
  | true =>
    change (s.flatMap fun u => charBytes u.toNat).length ≤ s.length * 3
    induction s with
    | nil => exact le_rfl
    | cons u s ih =>
      have hu := hchar u
      rw [List.flatMap_cons, List.length_append, List.length_cons]
      omega

/-- Bytes for which the block is made are written into it. -/
theorem writeString_spec {bytes : Bytes} {size : ℤ} (granted : Bool)
    (h : 0 ≤ size → bytes.length ≤ size) :
    Yields (granted = false ∨ size < 0) (· = bytes) (writeString bytes size granted) := by
  unfold writeString
  split_ifs with hdenied hroom
  · exact .exception hdenied
  · exact .ok rfl
  · exact absurd (add_le_add_left (h (not_lt.1 fun hsize => hdenied (.inr hsize))) 1) hroom

theorem toInt_neg {n : ℕ} (h : n < 2 ^ 32) (hn : (BitVec.ofNat 32 n).toInt < 0) : 2 ^ 31 ≤ n := by
  by_contra hlt
  rw [toInt_ofNat (not_le.1 hlt)] at hn
  omega

theorem toInt_nonneg {n : ℕ} (h : n < 2 ^ 32) (hn : 0 ≤ (BitVec.ofNat 32 n).toInt) :
    (BitVec.ofNat 32 n).toInt = n := by
  rw [BitVec.toInt_eq_toNat_cond, BitVec.toNat_ofNat] at *
  omega

/-- Where no character was counted, the bytes are the characters. -/
theorem flatMap_narrowChar_eq_self {src : Bytes} (h : (src.map (·.toNat >>> 7)).sum = 0) :
    src.flatMap narrowChar = src := by
  induction src with
  | nil => rfl
  | cons c src ih =>
    rw [List.map_cons, List.sum_cons, Nat.add_eq_zero_iff, Nat.shiftRight_eq_div_pow] at h
    rw [List.flatMap_cons, ih h.2, narrowChar, if_pos (by omega), List.singleton_append]

theorem toCStringLen2_spec {s : JSString} (hs : s.len ≤ lenMax) (cesu8 granted : Bool) :
    Yields (granted = false ∨ 2 ^ 31 ≤ s.len * 3) (· = encode cesu8 s.units)
      (toCStringLen2 s cesu8 granted) := by
  have hmax : s.len * 3 < 2 ^ 32 := by
    unfold lenMax at hs
    omega
  have hbound := length_encode_le cesu8 s.units
  cases s with
  | str8 src =>
    have hunits := flatMap_narrowChar src cesu8
    have hlen := length_flatMap_narrowChar src
    have hsrc : (JSString.str8 src).len = src.length := JSString.len_str8 src
    rw [← JSString.len, JSString.units, ← hunits, hlen] at hbound
    rw [JSString.units, ← hunits]
    unfold toCStringLen2
    dsimp only
    split_ifs with hcount
    · exact .ok (flatMap_narrowChar_eq_self hcount).symm
    · have hlt : src.length + (src.map (·.toNat >>> 7)).sum < 2 ^ 32 := hbound.trans_lt hmax
      refine (writeString_spec granted fun hsize => ?_).imp (Or.imp_right ?_) fun _ h => h
      · rw [toInt_nonneg hlt hsize, hlen]
      · exact fun hsize => (toInt_neg hlt hsize).trans hbound
  | str16 src =>
    have hbytes := wideBytes_eq cesu8 src
    rw [JSString.units, ← hbytes] at hbound ⊢
    rw [JSString.len_str16] at hmax
    refine (writeString_spec granted fun hsize => ?_).imp (Or.imp_right ?_) fun _ h => h
    · rw [toInt_nonneg hmax hsize]
      exact Int.ofNat_le.2 hbound
    · exact toInt_neg hmax

theorem eq_of_writeString {bytes out : Bytes} {size : ℤ} {granted : Bool}
    (h : writeString bytes size granted = .ok out) : out = bytes := by
  unfold writeString at h
  split_ifs at h
  exact (Except.ok.inj h).symm

/-- What is written is the encoding of the string. -/
theorem eq_of_toCStringLen2 {s : JSString} {cesu8 granted : Bool} {bytes : Bytes}
    (h : toCStringLen2 s cesu8 granted = .ok bytes) : bytes = encode cesu8 s.units := by
  cases s with
  | str8 src =>
    rw [JSString.units, ← flatMap_narrowChar]
    unfold toCStringLen2 at h
    dsimp only at h
    split_ifs at h with hcount
    · rw [← Except.ok.inj h, flatMap_narrowChar_eq_self hcount]
    · exact eq_of_writeString h
  | str16 src =>
    rw [JSString.units, ← wideBytes_eq]
    exact eq_of_writeString h

/-- A string becomes its UTF-8 or CESU-8 bytes, whatever the bits of its characters, or there is
an exception : the block is denied, or three bytes for each character are more than an int. No byte
is written outside of the block. -/
theorem toCStringLen2_eq {s : JSString} (hs : s.len ≤ lenMax) (cesu8 granted : Bool) :
    toCStringLen2 s cesu8 granted = .ok (encode cesu8 s.units) ∨
      toCStringLen2 s cesu8 granted = .error .exception ∧
        (granted = false ∨ 2 ^ 31 ≤ s.len * 3) := by
  obtain ⟨bytes, hbytes, rfl⟩ | hfails := (toCStringLen2_spec hs cesu8 granted).cases
  · exact .inl hbytes
  · exact .inr hfails

/-- A pair and half a pair. -/
theorem toCStringLen2_eq_pair :
    JSString.len (.str16 [0xd83d, 0xde00, 0xd83d]) ≤ lenMax ∧
      (toCStringLen2 (.str16 [0xd83d, 0xde00, 0xd83d]) false true =
          .ok [0xf0, 0x9f, 0x98, 0x80, 0xed, 0xa0, 0xbd] ∨
        toCStringLen2 (.str16 [0xd83d, 0xde00, 0xd83d]) false true = .error .exception ∧
          (true = false ∨ 2 ^ 31 ≤ JSString.len (.str16 [0xd83d, 0xde00, 0xd83d]) * 3)) :=
  ⟨by decide, toCStringLen2_eq (s := .str16 [0xd83d, 0xde00, 0xd83d]) (by decide) false true⟩

/-! ## The engine -/

/-- The string a buffer is read as, and for one whose length is no int its UTF-16 units. -/
def readUnits (buf : Bytes) : List Unit16 :=
  if buf.length < 2 ^ 31 then decodeUnits buf else Utf16.ofUtf8 buf

theorem readUnits_of_lt {buf : Bytes} (hbuf : buf.length < 2 ^ 31) :
    readUnits buf = decodeUnits buf :=
  if_pos hbuf

theorem toUtf8_nil : toUtf8 [] = [] :=
  rfl

theorem readUnits_toUtf8 (s : List Unit16) : readUnits (toUtf8 s) = s := by
  by_cases hlen : (toUtf8 s).length < 2 ^ 31
  · rw [readUnits_of_lt hlen, decodeUnits_toUtf8 s hlen]
  · rw [readUnits, if_neg hlen, Utf16.ofUtf8_toUtf8]

end QuickJs

/-- The string conversions of QuickJS, continued to the texts that no int is the length of. -/
def Js.Engine.quickJs : Js.Engine where
  toCString := Utf16.toUtf8
  newString := QuickJs.readUnits
  toCString_nil := QuickJs.toUtf8_nil
  newString_toCString := QuickJs.readUnits_toUtf8
  cString_toCString := Utf16.cString_toUtf8

namespace QuickJs

open StringBuffer (Slack)

/-- The string of a buffer is the one the engine reads, with 16-bit characters exactly if some
character needs them, or there is an exception, as an allocation is denied. Nothing is written
outside of a block. -/
theorem newStringLen_eq_of {buf : Bytes} (hbuf : buf.length ≤ lenMax) (granted : Bool)
    (slack : ℕ → Slack) (shrink : Slack) :
    newStringLen buf granted slack shrink = .ok (JSString.of (Js.Engine.quickJs.newString buf)) ∨
      newStringLen buf granted slack shrink = .error .exception ∧
        (granted = false ∨ ∃ i, slack i = none) := by
  have hread : Js.Engine.quickJs.newString buf = decodeUnits buf :=
    readUnits_of_lt (hbuf.trans_lt (by decide))
  rw [hread]
  obtain ⟨s, hs, rfl⟩ | hfails := (newStringLen_spec hbuf granted slack shrink).cases
  · exact .inl hs
  · exact .inr hfails

/-- Two bytes that are a character, and one that is none. -/
theorem newStringLen_eq_of_invalid :
    ([0xc3, 0xa9, 0xff] : Bytes).length ≤ lenMax ∧
      newStringLen [0xc3, 0xa9, 0xff] true (fun _ => some 0) none =
        .ok (JSString.of (Js.Engine.quickJs.newString [0xc3, 0xa9, 0xff])) := by
  have hbuf : ([0xc3, 0xa9, 0xff] : Bytes).length ≤ lenMax := by decide
  refine ⟨hbuf, (newStringLen_eq_of hbuf true (fun _ => some 0) none).resolve_right ?_⟩
  rintro ⟨-, hgranted | ⟨i, hslack⟩⟩
  · cases hgranted
  · cases hslack

/-- A string that is written as UTF-8, in no more bytes than a string can have characters, and read
again has the same characters, in the narrowest form, unless an allocation is denied. -/
theorem newStringLen_toCStringLen2 {s : JSString} {granted : Bool} {bytes : Bytes}
    (hbytes : toCStringLen2 s false granted = .ok bytes) (hlen : bytes.length ≤ lenMax)
    (granted' : Bool) (slack : ℕ → Slack) (shrink : Slack) :
    newStringLen bytes granted' slack shrink = .ok (JSString.of s.units) ∨
      newStringLen bytes granted' slack shrink = .error .exception ∧
        (granted' = false ∨ ∃ i, slack i = none) := by
  have hunits : decodeUnits bytes = s.units := by
    rw [eq_of_toCStringLen2 hbytes] at hlen ⊢
    exact decodeUnits_toUtf8 s.units (hlen.trans_lt (by decide))
  obtain ⟨s', hs', rfl⟩ | hfails := (newStringLen_spec hlen granted' slack shrink).cases
  · rw [hs', hunits]
    exact .inl rfl
  · exact .inr hfails

/-- Half a pair and a zero, written and read again. -/
theorem newStringLen_toCStringLen2_half :
    toCStringLen2 (.str16 [0xd83d, 0]) false true = .ok [0xed, 0xa0, 0xbd, 0] ∧
      ([0xed, 0xa0, 0xbd, 0] : Bytes).length ≤ lenMax ∧
      newStringLen [0xed, 0xa0, 0xbd, 0] true (fun _ => some 0) none =
        .ok (JSString.of [0xd83d, 0]) := by
  have hbytes : toCStringLen2 (.str16 [0xd83d, 0]) false true = .ok [0xed, 0xa0, 0xbd, 0] := rfl
  have hlen : ([0xed, 0xa0, 0xbd, 0] : Bytes).length ≤ lenMax := by decide
  refine ⟨hbytes, hlen, ?_⟩
  refine (newStringLen_toCStringLen2 hbytes hlen true (fun _ => some 0) none).resolve_right ?_
  rintro ⟨-, hgranted | ⟨i, hslack⟩⟩
  · cases hgranted
  · cases hslack

end QuickJs

end TinyKvm
