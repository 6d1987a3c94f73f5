import TinyKvm.DenoRequest
import TinyKvm.Machine
import TinyKvm.Xoshiro
import Mathlib.Algebra.Field.Rat
import Mathlib.Data.Int.Cast.Lemmas
import Mathlib.Data.Int.ModEq
import Mathlib.Tactic.NormNum

/-!
# Random numbers of a request

For each request `serve` replaces `Math.random` by a closure over the view of the
request, which takes the generator's state from the request and passes its four
words to `xoshiro128ss`. The function computes the drawn word and the successor
of the state as it should (`xoshiro128ss_value`, `xoshiro128ss_params`), in numbers
that stay exact (`xoshiro128ss_numbers`). But it leaves the successor in its
parameters, and nothing writes it back to the view.

Every call of a request so uses the state the host supplied (`draw_eq`), and
the calls advance exactly if that state is zero, its own successor
(`random_advances_iff`).
-/

namespace TinyKvm

namespace Deno

/-! ## The program -/

/-- `ToInt32` and `ToUint32` of a number, as a word. -/
def toWord (x : ℤ) : BitVec 32 :=
  BitVec.ofInt 32 x

/-- The operator `<<`. -/
def shl (x : ℤ) (n : ℕ) : ℤ :=
  (toWord x <<< n).toInt

/-- The operator `>>>`. -/
def ushr (x : ℤ) (n : ℕ) : ℤ :=
  (toWord x >>> n).toNat

/-- The operator `|`. -/
def bitOr (x y : ℤ) : ℤ :=
  (toWord x ||| toWord y).toInt

/-- The operator `^`. -/
def bitXor (x y : ℤ) : ℤ :=
  (toWord x ^^^ toWord y).toInt

/-- `get_prng_state`. -/
def getPrngState (dv : Bytes) : Option (ℤ × ℤ × ℤ × ℤ) := do
  let .bigint p1 ← getRaw kvmRequest.spec "prng1" dv | none
  let .bigint p2 ← getRaw kvmRequest.spec "prng2" dv | none
  let a := p1 % 2 ^ 32
  let b := p1 / 2 ^ 32
  let c := p2 % 2 ^ 32
  let d := p2 / 2 ^ 32
  some (a, b, c, d)

/-- What a call of `xoshiro128ss` comes to : the value it returns, and its parameters as the body
leaves them, which the caller does not see. -/
structure Xoshiro128ss where
  value : ℚ
  a : ℤ
  b : ℤ
  c : ℤ
  d : ℤ

/-- `xoshiro128ss`. The numbers stay below `2 ^ 53`, where they are exact. -/
def xoshiro128ss (a b c d : ℤ) : Xoshiro128ss :=
  let t := shl b 9
  let r := b * 5
  let r := bitOr (shl r 7) (ushr r 25) * 9
  let c := bitXor c a
  let d := bitXor d b
  let b := bitXor b c
  let a := bitXor a d
  let c := bitXor c t
  let d := bitOr (shl d 11) (ushr d 21)
  ⟨ushr r 0 / 4294967296, a, b, c, d⟩

/-- A draw : the state it was computed from, and its value. -/
structure Draw where
  state : ℤ × ℤ × ℤ × ℤ
  value : ℚ
  deriving DecidableEq

/-- `Math.random`, on the view of the request, which it only reads. -/
def random (reqView : Bytes) : Bytes × Option Draw :=
  (reqView, do
    let (a, b, c, d) ← getPrngState reqView
    some ⟨(a, b, c, d), (xoshiro128ss a b c d).value⟩)

/-- The calls of `Math.random` while a request is handled. -/
def randomMachine (r : KvmRequest) : Machine Bytes Unit (Option Draw) where
  init := waitForRequestsPaused r
  step reqView _ := random reqView

/-- The draw of the call after `k` calls. -/
def draw (r : KvmRequest) (k : ℕ) : Option Draw :=
  (randomMachine r).answer (List.replicate k ()) ()

/-! ## The property -/

/-- The four words of a state as numbers. -/
def numbers (s : Xoshiro.State) : ℤ × ℤ × ℤ × ℤ :=
  (s.a.toNat, s.b.toNat, s.c.toNat, s.d.toNat)

/-- The state the host supplies, two words in each half. -/
def hostState (r : KvmRequest) : Xoshiro.State :=
  ⟨r.prng1.setWidth 32, (r.prng1 >>> 32).setWidth 32, r.prng2.setWidth 32,
    (r.prng2 >>> 32).setWidth 32⟩

/-- The draws of a request advance : each is computed from the successor of the state before, so
that they are the sequence from the host's state on. -/
structure RandomAdvances (r : KvmRequest) : Prop where
  next : ∀ k, ∃ s, (draw r k).map Draw.state = some (numbers s) ∧
    (draw r (k + 1)).map Draw.state = some (numbers (Xoshiro.next s))
  sequence : ∀ k, (draw r k).map Draw.value =
    some (((Xoshiro.output (Xoshiro.state (hostState r) k)).toNat : ℚ) / 4294967296)

/-! ## One call -/

@[simp] theorem toWord_toInt (x : BitVec 32) : toWord x.toInt = x :=
  BitVec.ofInt_toInt

@[simp] theorem toWord_toNat (x : BitVec 32) : toWord x.toNat = x := by
  rw [toWord, BitVec.ofInt_natCast, BitVec.ofNat_toNat, BitVec.setWidth_eq]

@[simp] theorem toWord_bitXor (x y : ℤ) : toWord (bitXor x y) = toWord x ^^^ toWord y :=
  toWord_toInt _

@[simp] theorem toWord_shl (x : ℤ) (n : ℕ) : toWord (shl x n) = toWord x <<< n :=
  toWord_toInt _

theorem ushr_zero (x : ℤ) : ushr x 0 = (toWord x).toNat := by
  rw [ushr, BitVec.ushiftRight_zero]

theorem toWord_mul (x y : ℤ) : toWord (x * y) = toWord x * toWord y :=
  BitVec.ofInt_mul x y

/-- The shifts by `n` and by the rest make the rotation by `n`. -/
theorem toWord_rotate (x : ℤ) {n m : ℕ} (h : n + m = 32) (hm : m ≠ 0) :
    toWord (bitOr (shl x n) (ushr x m)) = (toWord x).rotateLeft n := by
  have hn : n % 32 = n := Nat.mod_eq_of_lt (by omega)
  have hrest : 32 - n = m := by omega
  rw [bitOr, shl, ushr, toWord_toInt, toWord_toInt, toWord_toNat, BitVec.rotateLeft_def, hn, hrest]

/-- `xoshiro128ss` returns the word drawn in the state, scaled. -/
theorem xoshiro128ss_value (s : Xoshiro.State) :
    (xoshiro128ss s.a.toNat s.b.toNat s.c.toNat s.d.toNat).value =
      (Xoshiro.output s).toNat / 4294967296 := by
  have hword : toWord (bitOr (shl (s.b.toNat * 5) 7) (ushr (s.b.toNat * 5) 25) * 9) =
      Xoshiro.output s := by
    rw [toWord_mul, toWord_rotate _ rfl (by decide), toWord_mul, toWord_toNat]
    rfl
  have hvalue : (xoshiro128ss s.a.toNat s.b.toNat s.c.toNat s.d.toNat).value =
      ushr (bitOr (shl (s.b.toNat * 5) 7) (ushr (s.b.toNat * 5) 25) * 9) 0 / 4294967296 :=
    rfl
  rw [hvalue, ushr_zero, hword, Int.cast_natCast]

/-- `xoshiro128ss` leaves the successor of the state in its parameters. -/
theorem xoshiro128ss_params (s : Xoshiro.State) {x : Xoshiro128ss}
    (hx : xoshiro128ss s.a.toNat s.b.toNat s.c.toNat s.d.toNat = x) :
    (⟨toWord x.a, toWord x.b, toWord x.c, toWord x.d⟩ : Xoshiro.State) = Xoshiro.next s := by
  subst hx
  simp only [xoshiro128ss, toWord_bitXor, toWord_shl, toWord_toNat,
    toWord_rotate _ (show 11 + 21 = 32 from rfl) (by decide)]
  rfl

/-! ## The calls of a request -/

theorem low_half (x : BitVec 64) : (x.toNat : ℤ) % 2 ^ 32 = (x.setWidth 32).toNat := by
  rw [BitVec.toNat_setWidth]
  rfl

theorem high_half (x : BitVec 64) :
    (x.toNat : ℤ) / (2 : ℤ) ^ 32 = (((x >>> 32).setWidth 32).toNat : ℤ) := by
  have hlt : x.toNat / 2 ^ 32 < 2 ^ 32 := by
    have h := x.isLt
    omega
  rw [BitVec.toNat_setWidth, BitVec.toNat_ushiftRight, Nat.shiftRight_eq_div_pow,
    Nat.mod_eq_of_lt hlt]
  rfl

/-- `get_prng_state` splits the host's state into its words. -/
theorem getPrngState_request (r : KvmRequest) :
    getPrngState (waitForRequestsPaused r) = some (numbers (hostState r)) := by
  have h1 : getRaw kvmRequest.spec "prng1" (waitForRequestsPaused r) =
      some (.bigint r.prng1.toNat) :=
    getRaw_request r (f := ⟨"prng1", .u64, r.prng1⟩) (by simp [KvmRequest.fields])
  have h2 : getRaw kvmRequest.spec "prng2" (waitForRequestsPaused r) =
      some (.bigint r.prng2.toNat) :=
    getRaw_request r (f := ⟨"prng2", .u64, r.prng2⟩) (by simp [KvmRequest.fields])
  rw [getPrngState, h1, h2]
  simp only [Option.bind_eq_bind, Option.bind_some, low_half, high_half]
  rfl

/-! ## Products of doubles -/

/-- The product of two integers as the language computes it : exact up to `2 ^ 53`, and rounded
beyond. -/
def doubleMul (round : ℤ → ℤ) (x y : ℤ) : ℤ :=
  if |x * y| ≤ 2 ^ 53 then x * y else round (x * y)

/-- `xoshiro128ss` with a multiplication of its own. -/
def xoshiro128ssOver (mul : ℤ → ℤ → ℤ) (a b c d : ℤ) : Xoshiro128ss :=
  let t := shl b 9
  let r := mul b 5
  let r := mul (bitOr (shl r 7) (ushr r 25)) 9
  let c := bitXor c a
  let d := bitXor d b
  let b := bitXor b c
  let a := bitXor a d
  let c := bitXor c t
  let d := bitOr (shl d 11) (ushr d 21)
  ⟨ushr r 0 / 4294967296, a, b, c, d⟩

/-- The two products of `xoshiro128ss`, of what it has computed before each. -/
def products (mul : ℤ → ℤ → ℤ) (b : ℤ) : List ℤ :=
  let r := mul b 5
  [b * 5, bitOr (shl r 7) (ushr r 25) * 9]

/-- The function computes in the state `s` what the generator draws and moves on to : the scaled
word, without a product that is not exact, and words congruent to the next ones. -/
structure Computes (round : ℤ → ℤ) (s : Xoshiro.State) (x : Xoshiro128ss) : Prop where
  products : ∀ p ∈ products (doubleMul round) s.b.toNat, |p| ≤ 2 ^ 53
  value : ∃ v : ℕ, v = ((BitVec.ofNat 32 (5 * s.b.toNat)).rotateLeft 7).toNat * 9 % 2 ^ 32 ∧
    v < 2 ^ 32 ∧ x.value = v / 2 ^ 32
  a : x.a ≡ (Xoshiro.next s).a.toNat [ZMOD 2 ^ 32]
  b : x.b ≡ (Xoshiro.next s).b.toNat [ZMOD 2 ^ 32]
  c : x.c ≡ (Xoshiro.next s).c.toNat [ZMOD 2 ^ 32]
  d : x.d ≡ (Xoshiro.next s).d.toNat [ZMOD 2 ^ 32]

theorem doubleMul_exact {round : ℤ → ℤ} {x y : ℤ} (h : |x * y| ≤ 2 ^ 53) :
    doubleMul round x y = x * y :=
  if_pos h

/-- A word times five is exact. -/
theorem abs_word_mul_le (x : BitVec 32) : |(x.toNat : ℤ) * 5| ≤ 2 ^ 53 := by
  have hlt := x.isLt
  rw [abs_le]
  omega

/-- The result of a bit operator times nine is exact. -/
theorem abs_bitOr_mul_le (x y : ℤ) : |bitOr x y * 9| ≤ 2 ^ 53 := by
  have hlow := BitVec.le_toInt (toWord x ||| toWord y)
  have hhigh := BitVec.toInt_lt (x := toWord x ||| toWord y)
  rw [abs_le, bitOr]
  omega

theorem products_exact (mul : ℤ → ℤ → ℤ) (x : BitVec 32) :
    ∀ p ∈ products mul x.toNat, |p| ≤ 2 ^ 53 := by
  simp only [products, List.mem_cons, List.not_mem_nil, or_false, forall_eq_or_imp, forall_eq]
  exact ⟨abs_word_mul_le x, abs_bitOr_mul_le _ _⟩

/-- With doubles, the function computes what it does with integers. -/
theorem xoshiro128ssOver_double (round : ℤ → ℤ) (s : Xoshiro.State) :
    xoshiro128ssOver (doubleMul round) s.a.toNat s.b.toNat s.c.toNat s.d.toNat =
      xoshiro128ss s.a.toNat s.b.toNat s.c.toNat s.d.toNat := by
  simp only [xoshiro128ssOver, doubleMul_exact (abs_word_mul_le s.b),
    doubleMul_exact (abs_bitOr_mul_le _ _)]
  rfl

theorem modEq_of_toWord {x : ℤ} {w : BitVec 32} (h : toWord x = w) :
    x ≡ w.toNat [ZMOD 2 ^ 32] := by
  have hnonneg : 0 ≤ x % ((2 ^ 32 : ℕ) : ℤ) := Int.emod_nonneg x (by decide)
  rw [← h, toWord, BitVec.toNat_ofInt, Int.toNat_of_nonneg hnonneg]
  exact (Int.mod_modEq x _).symm

/-- The word drawn, in arithmetic modulo `2 ^ 32`. -/
theorem toNat_output (s : Xoshiro.State) :
    (Xoshiro.output s).toNat =
      ((BitVec.ofNat 32 (5 * s.b.toNat)).rotateLeft 7).toNat * 9 % 2 ^ 32 := by
  have hfive : s.b * 5 = BitVec.ofNat 32 (5 * s.b.toNat) := by
    apply BitVec.eq_of_toNat_eq
    rw [BitVec.toNat_mul, BitVec.toNat_ofNat, Nat.mul_comm]
    rfl
  rw [Xoshiro.output, hfive, BitVec.toNat_mul]
  rfl

/-- The words of any request's state are numbers on which the function computes the draw and the
successor of the state, in doubles. -/
theorem xoshiro128ss_numbers (round : ℤ → ℤ) (r : KvmRequest) (s : Xoshiro.State) :
    getPrngState (waitForRequestsPaused r) = some (numbers (hostState r)) ∧
      Computes round s
        (xoshiro128ssOver (doubleMul round) s.a.toNat s.b.toNat s.c.toNat s.d.toNat) := by
  have hnext := xoshiro128ss_params s rfl
  obtain ⟨ha, hb, hc, hd⟩ := Xoshiro.State.mk.inj hnext
  rw [xoshiro128ssOver_double]
  refine ⟨getPrngState_request r, products_exact _ s.b, ?_, modEq_of_toWord ha,
    modEq_of_toWord hb, modEq_of_toWord hc, modEq_of_toWord hd⟩
  refine ⟨(Xoshiro.output s).toNat, ?_, (Xoshiro.output s).isLt, ?_⟩
  · exact toNat_output s
  · rw [xoshiro128ss_value]
    norm_num

/-! ## Draws -/

/-- No call writes to the view. -/
theorem after_random (r : KvmRequest) (calls : List Unit) :
    (randomMachine r).after calls = waitForRequestsPaused r :=
  (randomMachine r).run_induction' (I := fun _ reqView => reqView = waitForRequestsPaused r) rfl
    (fun is i ih => by rw [Machine.after_snoc]; exact ih) calls

/-- Every call draws from the host's state. -/
theorem draw_eq (r : KvmRequest) (k : ℕ) :
    draw r k = some ⟨numbers (hostState r), (Xoshiro.output (hostState r)).toNat / 4294967296⟩ := by
  rw [draw, Machine.answer, after_random]
  show (random (waitForRequestsPaused r)).2 = _
  rw [random, getPrngState_request, ← xoshiro128ss_value]
  rfl

theorem numbers_injective {s t : Xoshiro.State} (h : numbers s = numbers t) : s = t := by
  obtain ⟨a, b, c, d⟩ := s
  obtain ⟨a', b', c', d'⟩ := t
  simp only [numbers, Prod.mk.injEq, Nat.cast_inj, BitVec.toNat_inj] at h
  obtain ⟨rfl, rfl, rfl, rfl⟩ := h
  rfl

theorem halves_eq_zero_iff (x : BitVec 64) :
    x.setWidth 32 = 0#32 ∧ (x >>> 32).setWidth 32 = 0#32 ↔ x = 0 := by
  refine ⟨fun ⟨hlow, hhigh⟩ => ?_, fun h => by rw [h]; decide⟩
  have hmod : (x.toNat : ℤ) % 2 ^ 32 = 0 := by rw [low_half, hlow]; rfl
  have hdiv : (x.toNat : ℤ) / 2 ^ 32 = 0 := by rw [high_half, hhigh]; rfl
  have hzero : x.toNat = 0 := by omega
  exact BitVec.eq_of_toNat_eq hzero

theorem hostState_eq_zero_iff (r : KvmRequest) :
    hostState r = Xoshiro.zero ↔ r.prng1 = 0 ∧ r.prng2 = 0 := by
  rw [hostState, Xoshiro.zero, Xoshiro.State.mk.injEq, ← halves_eq_zero_iff, ← halves_eq_zero_iff]
  exact and_assoc.symm

/-- The draws of a request advance exactly if the state the host supplies is zero. -/
theorem random_advances_iff (r : KvmRequest) :
    RandomAdvances r ↔ r.prng1 = 0 ∧ r.prng2 = 0 := by
  rw [← hostState_eq_zero_iff, ← Xoshiro.next_eq_self_iff]
  constructor
  · intro h
    obtain ⟨s, hs, hnext⟩ := h.next 0
    rw [draw_eq] at hs hnext
    obtain rfl := numbers_injective (Option.some.inj hs)
    exact (numbers_injective (Option.some.inj hnext)).symm
  · intro h
    refine ⟨fun k => ⟨hostState r, ?_, ?_⟩, fun k => ?_⟩
    · rw [draw_eq, Option.map_some]
    · rw [draw_eq, Option.map_some, h]
    · rw [draw_eq, Option.map_some, Xoshiro.state_of_fixed h]

/-- A request with a state of ones and no headers. -/
def onesRequest : KvmRequest :=
  ⟨0x1000, 0x2000, 0x3000, 0, 3, 1, 0, 0, 0, 0, 0, 0, 0, 0, 0x100000001, 0x100000001, 0, 0⟩

/-- Its second draw repeats the first. -/
theorem random_not_advances : ¬RandomAdvances onesRequest := by
  intro h
  obtain ⟨s, hs, hnext⟩ := h.next 0
  rw [draw_eq] at hs hnext
  obtain rfl := numbers_injective (Option.some.inj hs)
  exact absurd (numbers_injective (Option.some.inj hnext)) (by decide)

end Deno

end TinyKvm
