import Mathlib.Algebra.Order.Group.Nat
import Mathlib.Data.List.Flatten
import Mathlib.Data.Nat.ModEq

/-!
# Little-endian words

`leBytes n v` are the `n` bytes of a number, least significant first, and
`leNat` reads bytes back as a number. Reading gives the number written modulo
`256 ^ n` (`leNat_leBytes`), so the word written if that has `8 * n` bits
(`ofNat_leNat_leBytes`).

`loadLe bs off n` reads `n` bytes of a byte string from an offset on. Of blocks
of one length written one after the other each is found at its multiple of that
length (`take_drop_flatMap`), so of words each is read (`loadLe_flatMap`).
-/

namespace TinyKvm

/-- The `n` little-endian bytes of a number. -/
def leBytes : ℕ → ℕ → List (BitVec 8)
  | 0, _ => []
  | n + 1, v => BitVec.ofNat 8 v :: leBytes n (v / 256)

/-- The number little-endian bytes are. -/
def leNat : List (BitVec 8) → ℕ
  | [] => 0
  | b :: bs => b.toNat + 256 * leNat bs

@[simp] theorem length_leBytes : ∀ n v : ℕ, (leBytes n v).length = n
  | 0, _ => rfl
  | n + 1, v => by rw [leBytes, List.length_cons, length_leBytes n]

theorem leNat_leBytes : ∀ n v : ℕ, leNat (leBytes n v) = v % 256 ^ n
  | 0, v => by rw [pow_zero, Nat.mod_one]; rfl
  | n + 1, v => by
    have hbyte : (BitVec.ofNat 8 v).toNat = v % 256 := BitVec.toNat_ofNat v 8
    rw [leBytes, leNat, leNat_leBytes n, hbyte, Nat.pow_succ', Nat.mod_mul]

/-- The word written is the word read. -/
theorem ofNat_leNat_leBytes {w n : ℕ} (hw : w = 8 * n) (x : BitVec w) :
    BitVec.ofNat w (leNat (leBytes n x.toNat)) = x := by
  have hpow : 2 ^ w = 256 ^ n := by
    rw [hw, pow_mul]
    rfl
  rw [leNat_leBytes, ← hpow, Nat.mod_eq_of_lt x.isLt, BitVec.ofNat_toNat, BitVec.setWidth_eq]

/-! ## Reading at an offset -/

/-- The `n` bytes from an offset on, as a number. -/
def loadLe (bs : List (BitVec 8)) (off n : ℕ) : ℕ :=
  leNat ((bs.drop off).take n)

theorem loadLe_append_left {bs : List (BitVec 8)} {off n : ℕ} (h : off + n ≤ bs.length)
    (cs : List (BitVec 8)) : loadLe (bs ++ cs) off n = loadLe bs off n := by
  have hdrop : off ≤ bs.length := by omega
  have htake : n ≤ (bs.drop off).length := by
    rw [List.length_drop]
    omega
  rw [loadLe, loadLe, List.drop_append_of_le_length hdrop, List.take_append_of_le_length htake]

theorem loadLe_append_right (bs cs : List (BitVec 8)) (off n : ℕ) :
    loadLe (bs ++ cs) (bs.length + off) n = loadLe cs off n := by
  rw [loadLe, loadLe, List.drop_append, List.drop_eq_nil_of_le (Nat.le_add_right _ _),
    List.nil_append, Nat.add_sub_cancel_left]

/-- Past the first bytes an offset counts in the ones that follow. -/
theorem loadLe_skip {bs : List (BitVec 8)} {m off : ℕ} (hbs : bs.length = m) (hm : m ≤ off)
    (cs : List (BitVec 8)) (n : ℕ) : loadLe (bs ++ cs) off n = loadLe cs (off - m) n := by
  obtain ⟨d, rfl⟩ := Nat.exists_eq_add_of_le hm
  rw [← hbs, loadLe_append_right, Nat.add_sub_cancel_left]

theorem loadLe_one {bs : List (BitVec 8)} {i : ℕ} (hi : i < bs.length) :
    loadLe bs i 1 = bs[i].toNat := by
  rw [loadLe, List.drop_eq_getElem_cons hi, List.take_succ_cons, List.take_zero]
  rfl

theorem loadLe_self (bs : List (BitVec 8)) : loadLe bs 0 bs.length = leNat bs := by
  rw [loadLe, List.drop_zero, List.take_length]

theorem length_flatMap_eq {α : Type*} {n : ℕ} {f : α → List (BitVec 8)}
    (hf : ∀ a, (f a).length = n) (as : List α) : (as.flatMap f).length = n * as.length := by
  rw [List.length_flatMap, funext hf, List.map_const', List.sum_replicate_nat, Nat.mul_comm]

/-- Of blocks of `n` elements each one after the other, the `i`-th is at `n * i`. -/
theorem take_drop_flatMap {α β : Type*} {n : ℕ} {f : α → List β} (hf : ∀ a, (f a).length = n) :
    ∀ (as : List α) {i : ℕ} (hi : i < as.length),
      ((as.flatMap f).drop (n * i)).take n = f as[i]
  | a :: as, 0, _ => by
    rw [List.flatMap_cons, Nat.mul_zero, List.drop_zero]
    exact List.take_left' (hf a)
  | a :: as, i + 1, hi => by
    have hoff : n * (i + 1) = (f a).length + n * i := by
      rw [hf a, Nat.mul_succ, Nat.add_comm]
    rw [List.flatMap_cons, hoff, List.drop_length_add_append]
    exact take_drop_flatMap hf as (Nat.lt_of_succ_lt_succ hi)

/-- Of words of `n` bytes each one after the other, the `i`-th is at `n * i`. -/
theorem loadLe_flatMap {α : Type*} {n : ℕ} {f : α → List (BitVec 8)}
    (hf : ∀ a, (f a).length = n) (as : List α) {i : ℕ} (hi : i < as.length) :
    loadLe (as.flatMap f) (n * i) n = leNat (f as[i]) := by
  rw [loadLe, take_drop_flatMap hf as hi]

end TinyKvm
