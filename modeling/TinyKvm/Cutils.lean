import TinyKvm.Api
import Mathlib.Tactic.IntervalCases
import Mathlib.Tactic.NormNum
import Mathlib.Tactic.Ring

/-!
# The UTF-8 code of cutils

`cutils.c` comes with the JavaScript engine. `unicode_to_utf8` writes a number of
up to 31 bits as a first byte, which says how many follow, and up to five bytes of
six bits each. `unicode_from_utf8` reads one number and rejects what is cut off,
what is not continued, and what has a shorter code.

The bytes after the first are the digits of the number in base 64 (`tails`), which
the loop of the reader puts together again (`continuation_tails`) and nothing else
(`continuation_eq_some`). So the reader accepts exactly what the writer writes, in
front of anything (`unicodeFromUtf8_iff`).
-/

namespace TinyKvm

namespace Cutils

/-! ## Writing -/

/-- A byte after the first, with the six bits of `c` from `shift` on. -/
def tail (c shift : ℕ) : Byte :=
  BitVec.ofNat 8 (c >>> shift &&& 0x3f ||| 0x80)

/-- A first byte : its bits of `c`, with the mark of its length. -/
def lead (c shift mark : ℕ) : Byte :=
  BitVec.ofNat 8 (c >>> shift ||| mark)

/-- `unicode_to_utf8` : the bytes it writes. -/
def unicodeToUtf8 (c : ℕ) : Bytes :=
  if c < 0x80 then [BitVec.ofNat 8 c]
  else if c < 0x800 then [lead c 6 0xc0, tail c 0]
  else if c < 0x10000 then [lead c 12 0xe0, tail c 6, tail c 0]
  else if c < 0x200000 then [lead c 18 0xf0, tail c 12, tail c 6, tail c 0]
  else if c < 0x4000000 then [lead c 24 0xf8, tail c 18, tail c 12, tail c 6, tail c 0]
  else if c < 0x80000000 then
    [lead c 30 0xfc, tail c 24, tail c 18, tail c 12, tail c 6, tail c 0]
  else []

/-! ## Reading -/

/-- The `switch` : how many bytes follow a first byte. -/
def following (c : ℕ) : Option ℕ :=
  if 0xc0 ≤ c ∧ c ≤ 0xdf then some 1
  else if 0xe0 ≤ c ∧ c ≤ 0xef then some 2
  else if 0xf0 ≤ c ∧ c ≤ 0xf7 then some 3
  else if 0xf8 ≤ c ∧ c ≤ 0xfb then some 4
  else if 0xfc ≤ c ∧ c ≤ 0xfd then some 5
  else none

/-- `utf8_first_code_mask`, at `l - 1`. -/
def firstCodeMask : ℕ → ℕ
  | 1 => 0x1f
  | 2 => 0xf
  | 3 => 0x7
  | 4 => 0x3
  | _ => 0x1

/-- `utf8_min_code`, at `l - 1`. -/
def minCode : ℕ → ℕ
  | 1 => 0x80
  | 2 => 0x800
  | 3 => 0x10000
  | 4 => 0x200000
  | _ => 0x4000000

/-- The loop over the bytes that follow, with what is read of the number. -/
def continuation : ℕ → ℕ → Bytes → Option (ℕ × Bytes)
  | 0, c, p => some (c, p)
  | _ + 1, _, [] => none
  | l + 1, c, b :: p =>
    if b.toNat < 0x80 ∨ b.toNat ≥ 0xc0 then none
    else continuation l (c <<< 6 ||| (b.toNat &&& 0x3f)) p

/-- `unicode_from_utf8` : the number and what follows it, or `none` for -1. -/
def unicodeFromUtf8 (p : Bytes) (maxLen : ℤ) : Option (ℕ × Bytes) :=
  match p with
  | [] => none
  | b :: p =>
    if b.toNat < 0x80 then some (b.toNat, p)
    else do
      let l ← following b.toNat
      if (l : ℤ) > maxLen - 1 then none
      else
        let r ← continuation l (b.toNat &&& firstCodeMask l) p
        if r.1 < minCode l then none else some r

/-! ## Digits in base 64 -/

/-- The last `l` digits of a number in base 64, as bytes. -/
def tails : ℕ → ℕ → Bytes
  | 0, _ => []
  | l + 1, c => tail c (6 * l) :: tails l c

theorem toNat_tail (c shift : ℕ) : (tail c shift).toNat = 0x80 + c / 2 ^ shift % 64 := by
  have hmod : c >>> shift &&& 0x3f = c / 2 ^ shift % 64 := by
    rw [Nat.shiftRight_eq_div_pow]
    exact Nat.and_two_pow_sub_one_eq_mod _ 6
  have hlt : c / 2 ^ shift % 64 < 2 ^ 7 := by omega
  have hor : c / 2 ^ shift % 64 ||| 0x80 = 0x80 + c / 2 ^ shift % 64 := by
    rw [Nat.or_comm]
    exact (Nat.two_pow_add_eq_or_of_lt hlt 1).symm
  rw [tail, hmod, hor, BitVec.toNat_ofNat]
  omega

/-- A number shifted by six bits, with a digit in front. -/
theorem shiftLeft_or (c d : ℕ) (hd : d < 64) : c <<< 6 ||| d = c * 64 + d := by
  rw [Nat.shiftLeft_eq, Nat.mul_comm]
  exact (Nat.two_pow_add_eq_or_of_lt (i := 6) hd c).symm

theorem continuation_cons {b : Byte} (h1 : 0x80 ≤ b.toNat) (h2 : b.toNat < 0xc0) (l c : ℕ)
    (p : Bytes) :
    continuation (l + 1) c (b :: p) = continuation l (c * 64 + (b.toNat - 0x80)) p := by
  have hdigit : b.toNat &&& 0x3f = b.toNat - 0x80 := by
    rw [Nat.and_two_pow_sub_one_eq_mod b.toNat 6]
    omega
  rw [continuation, if_neg (by omega), hdigit, shiftLeft_or _ _ (by omega)]

/-- The digits of a number are read back. -/
theorem continuation_tails (rest : Bytes) :
    ∀ l a c, continuation l a (tails l c ++ rest) = some (a * 64 ^ l + c % 64 ^ l, rest)
  | 0, a, c => by simp [continuation, tails, Nat.mod_one]
  | l + 1, a, c => by
    have htail := toNat_tail c (6 * l)
    have hpow : 2 ^ (6 * l) = 64 ^ l := by rw [pow_mul]; norm_num
    have hmod : c % 64 ^ (l + 1) = c % 64 ^ l + 64 ^ l * (c / 64 ^ l % 64) := by
      rw [pow_succ, Nat.mod_mul]
    rw [tails, List.cons_append, continuation_cons (by omega) (by omega), htail, hpow,
      Nat.add_sub_cancel_left, continuation_tails rest l, hmod, pow_succ]
    congr 2
    ring

/-- What is read ends in the digits of a number that begins with what was read before. -/
theorem continuation_eq_some {rest : Bytes} {c : ℕ} :
    ∀ {l a : ℕ} {p : Bytes}, continuation l a p = some (c, rest) →
      p = tails l c ++ rest ∧ c / 64 ^ l = a
  | 0, a, p, h => by
    obtain ⟨rfl, rfl⟩ := Prod.mk.inj (Option.some.inj h)
    exact ⟨rfl, by simp⟩
  | l + 1, a, [], h => by cases h
  | l + 1, a, b :: p, h => by
    have hb : 0x80 ≤ b.toNat ∧ b.toNat < 0xc0 := by
      by_contra hb
      rw [continuation, if_pos (by omega)] at h
      cases h
    rw [continuation_cons hb.1 hb.2] at h
    obtain ⟨rfl, hdiv⟩ := continuation_eq_some h
    have hpow : 2 ^ (6 * l) = 64 ^ l := by rw [pow_mul]; norm_num
    have htail : tail c (6 * l) = b := by
      apply BitVec.eq_of_toNat_eq
      rw [toNat_tail, hpow, hdiv]
      omega
    refine ⟨by rw [tails, htail, List.cons_append], ?_⟩
    rw [pow_succ, ← Nat.div_div_eq_div_mul, hdiv]
    omega

/-! ## The first byte -/

/-- The mark of a first byte that `l` bytes follow. -/
def mark : ℕ → ℕ
  | 1 => 0xc0
  | 2 => 0xe0
  | 3 => 0xf0
  | 4 => 0xf8
  | _ => 0xfc

/-- The numbers from this one on do not fit in a first byte and `l` more. -/
def codeBound (l : ℕ) : ℕ :=
  2 ^ (6 - l) * 64 ^ l

/-- The numbers that `l` bytes follow the first byte of. -/
theorem unicodeToUtf8_of_le {l c : ℕ} (h1 : 1 ≤ l) (h5 : l ≤ 5) (hmin : minCode l ≤ c)
    (hmax : c < codeBound l) : unicodeToUtf8 c = lead c (6 * l) (mark l) :: tails l c := by
  interval_cases l <;>
    simp only [minCode, codeBound, Nat.reduceSub, Nat.reducePow, Nat.reduceMul] at hmin hmax
  · rw [unicodeToUtf8, if_neg (by omega), if_pos hmax]
    rfl
  · rw [unicodeToUtf8, if_neg (by omega), if_neg (by omega), if_pos hmax]
    rfl
  · rw [unicodeToUtf8, if_neg (by omega), if_neg (by omega), if_neg (by omega), if_pos hmax]
    rfl
  · rw [unicodeToUtf8, if_neg (by omega), if_neg (by omega), if_neg (by omega), if_neg (by omega),
      if_pos hmax]
    rfl
  · rw [unicodeToUtf8, if_neg (by omega), if_neg (by omega), if_neg (by omega), if_neg (by omega),
      if_neg (by omega), if_pos hmax]
    rfl

theorem exists_length {c : ℕ} (h80 : 0x80 ≤ c) (hc : c < 2 ^ 31) :
    ∃ l, 1 ≤ l ∧ l ≤ 5 ∧ minCode l ≤ c ∧ c < codeBound l := by
  by_cases h1 : c < 0x800
  · exact ⟨1, by decide, by decide, h80, h1⟩
  by_cases h2 : c < 0x10000
  · exact ⟨2, by decide, by decide, not_lt.1 h1, h2⟩
  by_cases h3 : c < 0x200000
  · exact ⟨3, by decide, by decide, not_lt.1 h2, h3⟩
  by_cases h4 : c < 0x4000000
  · exact ⟨4, by decide, by decide, not_lt.1 h3, h4⟩
  · exact ⟨5, by decide, by decide, not_lt.1 h4, hc⟩

theorem codeBound_le {l : ℕ} (h5 : l ≤ 5) : codeBound l ≤ 2 ^ 31 := by
  interval_cases l <;> decide

/-- A mark leaves the bits below it to the number. -/
theorem exists_mark_eq {l : ℕ} (h1 : 1 ≤ l) (h5 : l ≤ 5) : ∃ k, mark l = 2 ^ (6 - l) * k := by
  interval_cases l
  exacts [⟨6, rfl⟩, ⟨14, rfl⟩, ⟨30, rfl⟩, ⟨62, rfl⟩, ⟨126, rfl⟩]

/-- A first byte is the mark and the first bits of the number. -/
theorem toNat_lead {l c : ℕ} (h1 : 1 ≤ l) (h5 : l ≤ 5) (hmax : c < codeBound l) :
    (lead c (6 * l) (mark l)).toNat = mark l + c / 64 ^ l := by
  have hdiv : c >>> (6 * l) = c / 64 ^ l := by
    rw [Nat.shiftRight_eq_div_pow, pow_mul]
    norm_num
  have hlt : c / 64 ^ l < 2 ^ (6 - l) :=
    Nat.div_lt_of_lt_mul (by rwa [codeBound, Nat.mul_comm] at hmax)
  have hbyte : mark l + 2 ^ (6 - l) ≤ 2 ^ 8 := by interval_cases l <;> decide
  obtain ⟨k, hk⟩ := exists_mark_eq h1 h5
  have hor : c / 64 ^ l ||| mark l = mark l + c / 64 ^ l := by
    rw [Nat.or_comm, hk]
    exact (Nat.two_pow_add_eq_or_of_lt hlt k).symm
  rw [lead, hdiv, hor, BitVec.toNat_ofNat, Nat.mod_eq_of_lt (by omega)]

/-- The first bytes that `l` bytes follow are the mark and a number below it. -/
theorem following_eq_some {b l : ℕ} :
    following b = some l ↔ 1 ≤ l ∧ l ≤ 5 ∧ mark l ≤ b ∧ b < mark l + 2 ^ (6 - l) := by
  unfold following
  constructor
  · intro h
    split_ifs at h <;> obtain rfl := Option.some.inj h <;> simp only [mark] <;> omega
  · rintro ⟨h1, h5, hle, hlt⟩
    interval_cases l <;> simp only [mark, Nat.reduceSub, Nat.reducePow] at hle hlt <;>
      split_ifs <;> first | rfl | omega

theorem and_firstCodeMask {l x : ℕ} (h1 : 1 ≤ l) (h5 : l ≤ 5) (hx : x < 2 ^ (6 - l)) :
    mark l + x &&& firstCodeMask l = x := by
  have hmask : firstCodeMask l = 2 ^ (6 - l) - 1 := by interval_cases l <;> rfl
  obtain ⟨k, hk⟩ := exists_mark_eq h1 h5
  rw [hmask, Nat.and_two_pow_sub_one_eq_mod, hk, Nat.mul_add_mod, Nat.mod_eq_of_lt hx]

/-! ## The code -/

theorem length_tails (l c : ℕ) : (tails l c).length = l := by
  induction l with
  | zero => rfl
  | succ l ih => rw [tails, List.length_cons, ih]

theorem length_unicodeToUtf8 {l c : ℕ} (h1 : 1 ≤ l) (h5 : l ≤ 5) (hmin : minCode l ≤ c)
    (hmax : c < codeBound l) : (unicodeToUtf8 c).length = l + 1 := by
  rw [unicodeToUtf8_of_le h1 h5 hmin hmax, List.length_cons, length_tails]

theorem unicodeToUtf8_of_lt {c : ℕ} (h : c < 0x80) : unicodeToUtf8 c = [BitVec.ofNat 8 c] :=
  if_pos h

/-- Every byte that is to follow is read. -/
theorem length_continuation {rest : Bytes} {c : ℕ} :
    ∀ {l a : ℕ} {p : Bytes}, continuation l a p = some (c, rest) → rest.length + l = p.length
  | 0, a, p, h => by
    obtain ⟨-, rfl⟩ := Prod.mk.inj (Option.some.inj h)
    rfl
  | l + 1, a, [], h => by cases h
  | l + 1, a, b :: p, h => by
    rw [continuation] at h
    split_ifs at h
    rw [List.length_cons, ← length_continuation h]
    rfl

/-- A number that does not begin as ASCII takes two bytes. -/
theorem length_unicodeFromUtf8_lt_tail {b : Byte} {p rest : Bytes} {c : ℕ} {maxLen : ℤ}
    (hb : ¬b.toNat < 0x80) (h : unicodeFromUtf8 (b :: p) maxLen = some (c, rest)) :
    rest.length < p.length := by
  rw [unicodeFromUtf8, if_neg hb] at h
  obtain ⟨l, hl, h⟩ := Option.bind_eq_some_iff.1 h
  split_ifs at h
  obtain ⟨r, hr, h⟩ := Option.bind_eq_some_iff.1 h
  split_ifs at h
  obtain rfl := Option.some.inj h
  have hpos := (following_eq_some.1 hl).1
  have hlen := length_continuation hr
  omega

/-- A number that is read takes a byte. -/
theorem length_unicodeFromUtf8_lt {p rest : Bytes} {c : ℕ} {maxLen : ℤ}
    (h : unicodeFromUtf8 p maxLen = some (c, rest)) : rest.length < p.length := by
  rcases p with - | ⟨b, p⟩
  · cases h
  by_cases hb : b.toNat < 0x80
  · rw [unicodeFromUtf8, if_pos hb] at h
    obtain ⟨-, rfl⟩ := Prod.mk.inj (Option.some.inj h)
    exact Nat.lt_succ_self _
  · exact (length_unicodeFromUtf8_lt_tail hb h).trans (Nat.lt_succ_self _)

/-- The reader after a first byte that others follow. -/
theorem unicodeFromUtf8_of_following {b : Byte} {l : ℕ} (hge : ¬b.toNat < 0x80)
    (hl : following b.toNat = some l) (p : Bytes) {maxLen : ℤ} (hlen : ¬(l : ℤ) > maxLen - 1) :
    unicodeFromUtf8 (b :: p) maxLen =
      (continuation l (b.toNat &&& firstCodeMask l) p).bind fun r =>
        if r.1 < minCode l then none else some r := by
  rw [unicodeFromUtf8, if_neg hge, hl]
  exact if_neg hlen

/-- What the writer writes is read back, in front of anything. -/
theorem unicodeFromUtf8_unicodeToUtf8 {c : ℕ} (hc : c < 2 ^ 31) (rest : Bytes) {maxLen : ℤ}
    (hlen : (unicodeToUtf8 c).length ≤ maxLen) :
    unicodeFromUtf8 (unicodeToUtf8 c ++ rest) maxLen = some (c, rest) := by
  by_cases h80 : c < 0x80
  · have hb : (BitVec.ofNat 8 c).toNat = c := by
      rw [BitVec.toNat_ofNat]
      omega
    rw [unicodeToUtf8_of_lt h80, List.singleton_append, unicodeFromUtf8, hb, if_pos h80]
  · obtain ⟨l, h1, h5, hmin, hmax⟩ := exists_length (not_lt.1 h80) hc
    have hlead := toNat_lead h1 h5 hmax
    have hlt : c / 64 ^ l < 2 ^ (6 - l) :=
      Nat.div_lt_of_lt_mul (by rwa [codeBound, Nat.mul_comm] at hmax)
    have hfollowing : following (mark l + c / 64 ^ l) = some l :=
      following_eq_some.2 ⟨h1, h5, Nat.le_add_right _ _, Nat.add_lt_add_left hlt _⟩
    have hge : ¬mark l + c / 64 ^ l < 0x80 := by
      have hmark : 0x80 ≤ mark l := by interval_cases l <;> decide
      exact not_lt.2 (hmark.trans (Nat.le_add_right _ _))
    rw [length_unicodeToUtf8 h1 h5 hmin hmax] at hlen
    have hdigits : c / 64 ^ l * 64 ^ l + c % 64 ^ l = c := Nat.div_add_mod' c _
    rw [← hlead] at hge hfollowing
    rw [unicodeToUtf8_of_le h1 h5 hmin hmax, List.cons_append,
      unicodeFromUtf8_of_following hge hfollowing _ (by omega), hlead,
      and_firstCodeMask h1 h5 hlt, continuation_tails, hdigits]
    exact if_neg (not_lt.2 hmin)

/-- What the reader accepts is what the writer writes. -/
theorem eq_of_unicodeFromUtf8 {p rest : Bytes} {c : ℕ} {maxLen : ℤ} (hmaxLen : 1 ≤ maxLen)
    (h : unicodeFromUtf8 p maxLen = some (c, rest)) :
    c < 2 ^ 31 ∧ p = unicodeToUtf8 c ++ rest ∧ (unicodeToUtf8 c).length ≤ maxLen := by
  rcases p with - | ⟨b, p⟩
  · cases h
  rw [unicodeFromUtf8] at h
  split_ifs at h with h80
  · obtain ⟨rfl, rfl⟩ := Prod.mk.inj (Option.some.inj h)
    rw [unicodeToUtf8_of_lt h80, BitVec.ofNat_toNat, BitVec.setWidth_eq]
    exact ⟨by omega, rfl, hmaxLen⟩
  · obtain ⟨l, hl, h⟩ := Option.bind_eq_some_iff.1 h
    obtain ⟨h1, h5, hle, hlt⟩ := following_eq_some.1 hl
    split_ifs at h with hlen
    obtain ⟨r, hr, h⟩ := Option.bind_eq_some_iff.1 h
    split_ifs at h with hmin
    obtain rfl := Option.some.inj h
    obtain ⟨x, hx⟩ := Nat.exists_eq_add_of_le hle
    have hxlt : x < 2 ^ (6 - l) := by omega
    rw [hx, and_firstCodeMask h1 h5 hxlt] at hr
    obtain ⟨rfl, hdiv⟩ := continuation_eq_some hr
    have hmax : c < codeBound l :=
      (Nat.div_lt_iff_lt_mul (by positivity)).1 (by rwa [hdiv])
    have hlead : lead c (6 * l) (mark l) = b := by
      apply BitVec.eq_of_toNat_eq
      rw [toNat_lead h1 h5 hmax, hdiv, hx]
    rw [length_unicodeToUtf8 h1 h5 (not_lt.1 hmin) hmax,
      unicodeToUtf8_of_le h1 h5 (not_lt.1 hmin) hmax, hlead]
    exact ⟨hmax.trans_le (codeBound_le h5), rfl, by push_cast; omega⟩

/-- The reader accepts exactly the numbers below 2^31 as the writer writes them, when these have
no more than `maxLen` bytes. -/
theorem unicodeFromUtf8_iff {p rest : Bytes} {c : ℕ} {maxLen : ℤ} (hmaxLen : 1 ≤ maxLen) :
    unicodeFromUtf8 p maxLen = some (c, rest) ↔
      c < 2 ^ 31 ∧ p = unicodeToUtf8 c ++ rest ∧ (unicodeToUtf8 c).length ≤ maxLen := by
  refine ⟨eq_of_unicodeFromUtf8 hmaxLen, ?_⟩
  rintro ⟨hc, rfl, hlen⟩
  exact unicodeFromUtf8_unicodeToUtf8 hc rest hlen

/-- A euro sign with a byte after it. -/
theorem unicodeFromUtf8_iff_euro : (1 : ℤ) ≤ 4 ∧
    (unicodeFromUtf8 [0xe2, 0x82, 0xac, 0x41] 4 = some (0x20ac, [0x41]) ↔
      0x20ac < 2 ^ 31 ∧ [0xe2, 0x82, 0xac, 0x41] = unicodeToUtf8 0x20ac ++ [0x41] ∧
        (unicodeToUtf8 0x20ac).length ≤ (4 : ℤ)) :=
  ⟨by decide, unicodeFromUtf8_iff (by decide)⟩

end Cutils

end TinyKvm
