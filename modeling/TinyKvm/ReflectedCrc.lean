import Mathlib.Logic.Function.Iterate

/-!
# Reflected cyclic redundancy checks

A reflected check keeps a `w`-bit remainder and shifts it right one bit at a
time, adding the polynomial whenever a set bit falls out (`bitStep`). A symbol
of `k` bits is added to the low end and shifted through in `k` steps
(`symbolStep`).

One bit step is linear in exclusive or, so are `k` of them (`bitSteps_xor`), and
on a remainder whose low `k` bits are clear they only shift (`bitSteps_of_low`).
The `k` steps of any remainder are then the steps of its low `k` bits, added to
the remainder shifted by `k` (`bitSteps_eq_low`), which is what a table with one
entry for each `k`-bit index computes (`symbolStep_eq_table`).

A window of symbols no longer than the remainder moves it as one word, the
symbols side by side, would in as many steps (`foldl_symbolStep_eq`). If the
polynomial has its top bit no step loses anything, so strings that differ inside
one such window have different remainders (`foldl_window_ne`).
-/

namespace TinyKvm

namespace ReflectedCrc

variable {w : ℕ} (poly : BitVec w)

/-- Shift one bit out of the remainder, adding `poly` if the bit was set. -/
def bitStep (x : BitVec w) : BitVec w :=
  if x.getLsbD 0 then (x >>> 1) ^^^ poly else x >>> 1

/-- `n` bit steps. -/
def bitSteps (n : ℕ) (x : BitVec w) : BitVec w :=
  (bitStep poly)^[n] x

/-- Add a `k`-bit symbol to the low end and shift it through. -/
def symbolStep {k : ℕ} (x : BitVec w) (b : BitVec k) : BitVec w :=
  bitSteps poly k (x ^^^ b.setWidth w)

theorem bitSteps_succ (n : ℕ) (x : BitVec w) :
    bitSteps poly (n + 1) x = bitStep poly (bitSteps poly n x) :=
  Function.iterate_succ_apply' _ _ _

theorem bitStep_xor (x y : BitVec w) :
    bitStep poly (x ^^^ y) = bitStep poly x ^^^ bitStep poly y := by
  have hcancel : ∀ a b : BitVec w, a ^^^ poly ^^^ (b ^^^ poly) = a ^^^ b := by
    intro a b
    rw [BitVec.xor_assoc, BitVec.xor_comm b, ← BitVec.xor_assoc poly, BitVec.xor_self,
      BitVec.zero_xor]
  unfold bitStep
  simp only [BitVec.getLsbD_xor, BitVec.ushiftRight_xor_distrib]
  cases x.getLsbD 0 <;> cases y.getLsbD 0
  · simp
  · simp [BitVec.xor_assoc]
  · simp only [Bool.xor_false, if_true, Bool.false_eq_true, if_false]
    rw [BitVec.xor_assoc, BitVec.xor_comm (y >>> 1), ← BitVec.xor_assoc]
  · simp [hcancel]

theorem bitSteps_xor (n : ℕ) (x y : BitVec w) :
    bitSteps poly n (x ^^^ y) = bitSteps poly n x ^^^ bitSteps poly n y := by
  induction n with
  | zero => rfl
  | succ n ih => simp only [bitSteps_succ, ih, bitStep_xor]

/-- A remainder whose low `k` bits are clear is only shifted by `k` steps. -/
theorem bitSteps_of_low {k : ℕ} {x : BitVec w} (hx : ∀ i < k, x.getLsbD i = false) :
    ∀ n ≤ k, bitSteps poly n x = x >>> n
  | 0, _ => by simp [bitSteps]
  | n + 1, hn => by
    have hlow : (x >>> n).getLsbD 0 = false := by simpa using hx n hn
    rw [bitSteps_succ, bitSteps_of_low hx n (by omega), bitStep, hlow, BitVec.shiftRight_add]
    simp

/-- Removing the low `k` bits of a remainder clears them. -/
theorem xor_low_getLsbD (k : ℕ) (x : BitVec w) {i : ℕ} (hi : i < k) :
    (x ^^^ (x.setWidth k).setWidth w).getLsbD i = false := by
  by_cases hw : i < w
  · simp [hi, hw]
  · simp [BitVec.getLsbD_of_ge _ i (Nat.le_of_not_lt hw)]

theorem xor_low_shift (k : ℕ) (x : BitVec w) :
    (x ^^^ (x.setWidth k).setWidth w) >>> k = x >>> k := by
  apply BitVec.eq_of_getLsbD_eq
  intro i _
  simp [BitVec.getLsbD_setWidth]

/-- `k` steps of a remainder are the steps of its low `k` bits, added to the remainder
shifted by `k`. -/
theorem bitSteps_eq_low (k : ℕ) (x : BitVec w) :
    bitSteps poly k x = bitSteps poly k ((x.setWidth k).setWidth w) ^^^ (x >>> k) := by
  have hsplit : x = (x.setWidth k).setWidth w ^^^ (x ^^^ (x.setWidth k).setWidth w) := by
    rw [BitVec.xor_comm x, ← BitVec.xor_assoc, BitVec.xor_self, BitVec.zero_xor]
  conv => lhs; rw [hsplit]
  rw [bitSteps_xor, bitSteps_of_low poly (fun i hi => xor_low_getLsbD k x hi) k (Nat.le_refl k),
    xor_low_shift]

/-- Shifting a symbol through is one lookup at the low bits of the remainder plus the
symbol, added to the remainder shifted by the symbol's width. -/
theorem symbolStep_eq_table {k : ℕ} (hk : k ≤ w) {table : BitVec k → BitVec w}
    (htable : ∀ i, table i = bitSteps poly k (i.setWidth w)) (x : BitVec w) (b : BitVec k) :
    symbolStep poly x b = table (x.setWidth k ^^^ b) ^^^ (x >>> k) := by
  have hlow : (x ^^^ b.setWidth w).setWidth k = x.setWidth k ^^^ b := by
    apply BitVec.eq_of_getLsbD_eq
    intro i hi
    simp [hi, show i < w by omega]
  have hhigh : b.setWidth w >>> k = 0#w := by
    apply BitVec.eq_of_getLsbD_eq
    intro i _
    simp [BitVec.getLsbD_setWidth]
  rw [symbolStep, bitSteps_eq_low, hlow, htable, BitVec.ushiftRight_xor_distrib, hhigh,
    BitVec.xor_zero]

/-! ## Windows -/

/-- The symbols of a window in one word, the first at the low end. -/
def pack {k : ℕ} : List (BitVec k) → BitVec w
  | [] => 0
  | b :: bs => b.setWidth w ^^^ (pack bs <<< k)

section Pack

variable {k : ℕ}

/-- A packed window has no bit above its symbols. -/
theorem getLsbD_pack_of_le : ∀ (bs : List (BitVec k)) {i : ℕ}, k * bs.length ≤ i →
    (pack bs : BitVec w).getLsbD i = false
  | [], i, _ => by simp [pack]
  | b :: bs, i, h => by
    rw [List.length_cons, Nat.mul_succ] at h
    have hrest := getLsbD_pack_of_le bs (i := i - k) (by omega)
    have hk : k ≤ i := by omega
    simp [pack, hrest, hk]

/-- A window that fits in the word is not cut when it moves up by one symbol. -/
theorem pack_shift {bs : List (BitVec k)} (h : k * (bs.length + 1) ≤ w) :
    ((pack bs : BitVec w) <<< k) >>> k = pack bs := by
  rw [Nat.mul_succ] at h
  apply BitVec.eq_of_getLsbD_eq
  intro i hi
  rw [BitVec.getLsbD_ushiftRight, BitVec.getLsbD_shiftLeft]
  by_cases hik : k + i < w
  · simp [hik]
  · have hhigh : (pack bs : BitVec w).getLsbD i = false := getLsbD_pack_of_le bs (by omega)
    simp [hik, hhigh]

/-- Above the first symbol stands the rest of the window. -/
theorem pack_cons_shift {b : BitVec k} {bs : List (BitVec k)} (h : k * (bs.length + 1) ≤ w) :
    (pack (b :: bs) : BitVec w) >>> k = pack bs := by
  have hb : (b.setWidth w) >>> k = 0#w := by
    apply BitVec.eq_of_getLsbD_eq
    intro i _
    simp [BitVec.getLsbD_setWidth]
  rw [pack, BitVec.ushiftRight_xor_distrib, hb, pack_shift h, BitVec.zero_xor]

/-- At the low end of a window stands its first symbol. -/
theorem pack_cons_low (hk : k ≤ w) (b : BitVec k) (bs : List (BitVec k)) :
    (pack (b :: bs) : BitVec w).setWidth k = b := by
  apply BitVec.eq_of_getLsbD_eq
  intro i hi
  simp [pack, hi, show i < w by omega]

/-- Windows of the same length that fit in the word are told apart by it. -/
theorem pack_injective : ∀ {bs cs : List (BitVec k)}, k * bs.length ≤ w →
    bs.length = cs.length → (pack bs : BitVec w) = pack cs → bs = cs
  | [], [], _, _, _ => rfl
  | b :: bs, c :: cs, h, hlen, heq => by
    have hlen' : bs.length = cs.length := Nat.succ.inj hlen
    rw [List.length_cons] at h
    have hmul : k * (bs.length + 1) = k * bs.length + k := Nat.mul_succ _ _
    have hk : k ≤ w := by omega
    have hb : b = c := by
      rw [← pack_cons_low hk b bs, heq, pack_cons_low hk]
    have hbs : (pack bs : BitVec w) = pack cs := by
      rw [← pack_cons_shift h, heq, pack_cons_shift (hlen' ▸ h)]
    rw [hb, pack_injective (by omega) hlen' hbs]

/-- A window that fits in the word moves the remainder as its one word does. -/
theorem foldl_symbolStep_eq : ∀ {bs : List (BitVec k)}, k * bs.length ≤ w → ∀ x : BitVec w,
    bs.foldl (symbolStep poly) x = bitSteps poly (k * bs.length) (x ^^^ pack bs)
  | [], _, x => by simp [pack, bitSteps]
  | b :: bs, h, x => by
    rw [List.length_cons] at h
    have hmul : k * (bs.length + 1) = k * bs.length + k := Nat.mul_succ _ _
    have hlow : ∀ i < k, ((pack bs : BitVec w) <<< k).getLsbD i = false := by
      intro i hi
      simp [hi]
    have hstep : symbolStep poly x b ^^^ pack bs = bitSteps poly k (x ^^^ pack (b :: bs)) := by
      rw [pack, ← BitVec.xor_assoc, bitSteps_xor, bitSteps_of_low poly hlow k (Nat.le_refl k),
        pack_shift h, symbolStep]
    rw [List.foldl_cons, foldl_symbolStep_eq (by omega), hstep, List.length_cons, hmul]
    exact (Function.iterate_add_apply _ _ _ _).symm

end Pack

/-! ## Different remainders stay different -/

section Injective

variable {poly} (hpoly : poly.getLsbD (w - 1) = true)

include hpoly

/-- A bit step loses nothing : the bit that falls out is seen at the top, where the polynomial
has one. -/
theorem bitStep_injective : Function.Injective (bitStep poly) := by
  have hzero : ∀ x, bitStep poly x = 0#w → x = 0#w := by
    intro x hx
    have hbit := fun i => congrArg (fun y : BitVec w => y.getLsbD i) hx
    unfold bitStep at hbit
    cases h0 : x.getLsbD 0 with
    | true =>
      have htop := hbit (w - 1)
      have hw : w ≤ 1 + (w - 1) := by omega
      simp [h0, hpoly, BitVec.getLsbD_of_ge x _ hw] at htop
    | false =>
      apply BitVec.eq_of_getLsbD_eq
      intro i hi
      cases i with
      | zero => simpa using h0
      | succ i => simpa [h0, Nat.add_comm] using hbit i
  intro x y h
  have hx : x ^^^ y = 0#w := hzero _ (by rw [bitStep_xor, h, BitVec.xor_self])
  rwa [BitVec.xor_eq_zero_iff] at hx

theorem bitSteps_injective (n : ℕ) : Function.Injective (bitSteps poly n) :=
  (bitStep_injective hpoly).iterate n

theorem symbolStep_injective {k : ℕ} (b : BitVec k) :
    Function.Injective fun x => symbolStep poly x b := by
  intro x y h
  exact (BitVec.xor_left_inj _).1 (bitSteps_injective hpoly k h)

/-- Different remainders stay different through any symbols. -/
theorem foldl_symbolStep_injective {k : ℕ} : ∀ bs : List (BitVec k),
    Function.Injective fun x => bs.foldl (symbolStep poly) x
  | [] => Function.injective_id
  | b :: bs => fun _ _ h =>
    symbolStep_injective hpoly b (foldl_symbolStep_injective bs h)

/-- Strings that differ inside one window no longer than the remainder have different
remainders. -/
theorem foldl_window_ne {k : ℕ} {bs cs : List (BitVec k)} (hlen : bs.length = cs.length)
    (hle : k * bs.length ≤ w) (hne : bs ≠ cs) (pre post : List (BitVec k)) (x : BitVec w) :
    (pre ++ bs ++ post).foldl (symbolStep poly) x ≠
      (pre ++ cs ++ post).foldl (symbolStep poly) x := by
  intro h
  simp only [List.foldl_append] at h
  have hwin := foldl_symbolStep_injective hpoly post h
  have hle' : k * cs.length ≤ w := hlen ▸ hle
  rw [foldl_symbolStep_eq poly hle, foldl_symbolStep_eq poly hle', hlen] at hwin
  have hpack := (BitVec.xor_right_inj _).1 (bitSteps_injective hpoly _ hwin)
  exact hne (pack_injective hle hlen hpack)

end Injective

end ReflectedCrc

end TinyKvm
