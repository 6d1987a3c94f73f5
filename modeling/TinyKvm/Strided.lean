import Mathlib.Algebra.Order.Group.Nat

/-!
# Rows at a stride

A plane is written row by row : byte `c` of row `r` goes to offset
`r * stride + c`. In a plane of `rows` rows of the stride, at least as many of
which are written, every offset is inside exactly when no further row is written
and no row is wider than the stride (`inside_iff`).
-/

namespace TinyKvm

/-- The offsets of `height` rows of `width` bytes at a stride. -/
def Strided (stride width height off : ℕ) : Prop :=
  ∃ r < height, ∃ c < width, off = r * stride + c

namespace Strided

variable {stride width height rows : ℕ}

theorem lt_of_le (hw : width ≤ stride) (hh : height ≤ rows) {off : ℕ}
    (h : Strided stride width height off) : off < rows * stride := by
  obtain ⟨r, hr, c, hc, rfl⟩ := h
  have hrow : (r + 1) * stride ≤ rows * stride := Nat.mul_le_mul_right stride (by omega)
  rw [Nat.succ_mul] at hrow
  omega

/-- A row past the end starts outside. -/
theorem height_le_of_inside (hw : 0 < width)
    (h : ∀ off, Strided stride width height off → off < rows * stride) : height ≤ rows := by
  by_contra hlt
  have := h (rows * stride) ⟨rows, by omega, 0, hw, rfl⟩
  omega

/-- The last row of the plane ends inside. -/
theorem width_le_of_inside (hrows : 0 < rows) (hle : rows ≤ height)
    (h : ∀ off, Strided stride width height off → off < rows * stride) : width ≤ stride := by
  by_contra hlt
  have hlast := h ((rows - 1) * stride + stride) ⟨rows - 1, by omega, stride, by omega, rfl⟩
  rw [← Nat.succ_mul, Nat.succ_eq_add_one, Nat.sub_add_cancel hrows] at hlast
  omega

theorem inside_iff (hw : 0 < width) (hrows : 0 < rows) (hle : rows ≤ height) :
    (∀ off, Strided stride width height off → off < rows * stride) ↔
      height = rows ∧ width ≤ stride := by
  constructor
  · intro h
    exact ⟨le_antisymm (height_le_of_inside hw h) hle, width_le_of_inside hrows hle h⟩
  · rintro ⟨hh, hws⟩ off hoff
    exact hoff.lt_of_le hws hh.le

end Strided

end TinyKvm
