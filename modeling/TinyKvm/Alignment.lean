import Mathlib.Algebra.Order.Group.Nat

/-!
# Rounding up to an alignment

`alignUp a x` is the least multiple of `a` from `x` on. For a power of two the
usual mask, `(x + (a - 1)) & ~(a - 1)` in `w`-bit arithmetic, computes it modulo
`2 ^ w` (`toNat_mask`), so it wraps to a small value exactly when the rounded
address does not fit.
-/

namespace TinyKvm

/-- The least multiple of `a` from `x` on. -/
def alignUp (a x : ℕ) : ℕ :=
  (x + (a - 1)) / a * a

theorem dvd_alignUp (a x : ℕ) : a ∣ alignUp a x :=
  Nat.dvd_mul_left a _

theorem le_alignUp {a : ℕ} (ha : 0 < a) (x : ℕ) : x ≤ alignUp a x := by
  have hdiv := Nat.div_add_mod (x + (a - 1)) a
  have hmod := Nat.mod_lt (x + (a - 1)) ha
  rw [Nat.mul_comm] at hdiv
  unfold alignUp
  omega

theorem alignUp_mono (a : ℕ) {x y : ℕ} (h : x ≤ y) : alignUp a x ≤ alignUp a y :=
  Nat.mul_le_mul_right a (Nat.div_le_div_right (Nat.add_le_add_right h _))

/-- Adding what is missing to a multiple rounds up. -/
theorem add_misaligned {a : ℕ} (ha : 0 < a) (x : ℕ) :
    (if x % a ≠ 0 then x + (a - x % a) else x) = alignUp a x := by
  have hmod := Nat.mod_lt x ha
  have hx := Nat.mod_add_div x a
  have hdiv : (x + (a - 1)) / a = (x % a + (a - 1)) / a + x / a := by
    conv_lhs => rw [← hx, Nat.add_right_comm]
    exact Nat.add_mul_div_left _ _ ha
  rw [alignUp, hdiv, Nat.add_mul, Nat.mul_comm (x / a) a]
  by_cases h : x % a = 0
  · rw [if_neg (not_not.2 h), h, Nat.zero_add, Nat.div_eq_of_lt (by omega)]
    omega
  · have hone : (x % a + (a - 1)) / a = 1 := Nat.div_eq_of_lt_le (by omega) (by omega)
    rw [if_pos h, hone]
    omega

theorem alignUp_eq_self_iff {a : ℕ} (ha : 0 < a) {x : ℕ} : alignUp a x = x ↔ a ∣ x := by
  rw [← add_misaligned ha]
  have hmod := Nat.mod_lt x ha
  rw [Nat.dvd_iff_mod_eq_zero]
  by_cases h : x % a = 0
  · simp [h]
  · rw [if_pos h]
    omega

/-- Rounding up ignores what is a multiple already. -/
theorem alignUp_add {a m : ℕ} (ha : 0 < a) (h : a ∣ m) (x : ℕ) :
    alignUp a (m + x) = m + alignUp a x := by
  obtain ⟨c, rfl⟩ := h
  rw [alignUp, alignUp, Nat.add_assoc, Nat.mul_add_div ha, Nat.add_mul, Nat.mul_comm c a]

/-- Rounding down and reducing modulo a multiple of the step commute. -/
theorem div_mul_mod_of_dvd {a m : ℕ} (h : a ∣ m) (n : ℕ) :
    n % m / a * a = n / a * a % m := by
  obtain ⟨c, rfl⟩ := h
  rw [Nat.mod_mul_right_div_self, Nat.mul_comm (n / a) a, Nat.mul_mod_mul_left, Nat.mul_comm]

section Mask

variable {w k : ℕ}

theorem toNat_twoPow_sub_one (hk : k < w) : (BitVec.twoPow w k - 1).toNat = 2 ^ k - 1 := by
  have hone : (1 : BitVec w).toNat = 1 := by
    simp [Nat.mod_eq_of_lt (Nat.one_lt_two_pow (show w ≠ 0 by omega))]
  have hle : (1 : BitVec w) ≤ BitVec.twoPow w k := by
    rw [BitVec.le_def, hone, BitVec.toNat_twoPow_of_lt hk]
    exact Nat.one_le_two_pow
  rw [BitVec.toNat_sub_of_le hle, hone, BitVec.toNat_twoPow_of_lt hk]

/-- Clearing the low `k` bits rounds down to a multiple of `2 ^ k`. -/
theorem toNat_clear_low (hk : k < w) (y : BitVec w) :
    (y &&& ~~~(BitVec.twoPow w k - 1)).toNat = y.toNat / 2 ^ k * 2 ^ k := by
  have hclear : y &&& ~~~(BitVec.twoPow w k - 1) = (y >>> k) <<< k := by
    apply BitVec.eq_of_getLsbD_eq
    intro i hi
    have hbit : (BitVec.twoPow w k - 1).getLsbD i = decide (i < k) := by
      rw [BitVec.getLsbD, toNat_twoPow_sub_one hk, Nat.testBit_two_pow_sub_one]
    rw [BitVec.getLsbD_and, BitVec.getLsbD_not, hbit, BitVec.getLsbD_shiftLeft,
      BitVec.getLsbD_ushiftRight]
    by_cases hik : i < k
    · simp [hik]
    · simp [hi, hik, show k + (i - k) = i by omega]
  rw [hclear, BitVec.toNat_shiftLeft, BitVec.toNat_ushiftRight, Nat.shiftRight_eq_div_pow,
    Nat.shiftLeft_eq, Nat.mod_eq_of_lt]
  exact (Nat.div_mul_le_self _ _).trans_lt y.isLt

/-- The mask computes the rounded address modulo the word size. -/
theorem toNat_mask (hk : k < w) (x : BitVec w) :
    ((x + (BitVec.twoPow w k - 1)) &&& ~~~(BitVec.twoPow w k - 1)).toNat =
      alignUp (2 ^ k) x.toNat % 2 ^ w := by
  rw [toNat_clear_low hk, BitVec.toNat_add, toNat_twoPow_sub_one hk,
    div_mul_mod_of_dvd (Nat.pow_dvd_pow 2 hk.le), alignUp]

end Mask

end TinyKvm
