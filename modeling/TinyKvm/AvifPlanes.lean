import TinyKvm.Avif
import TinyKvm.Alignment
import TinyKvm.Strided

/-!
# The planes of an AVIF conversion

`avif.cpp` allocates the planes of a 4:2:0 image whatever the JPEG's chroma
subsampling is, and `tjDecompressToYUVPlanes` writes the planes of the
subsampling the JPEG has, each dimension rounded up to a multiple of its
sampling factor. What is allocated (`yuvRowBytes`, `yuvRows`) and what is written
(`tjPlaneWidth`, `tjPlaneHeight`) is as the two libraries document it, which are not
part of the program. Rows are written at the allocated strides, so a plane is
written inside exactly when it has as many rows as are written and none is wider
than the stride. Which sizes this leaves for each subsampling is `FitsYuv420`
(`planesInside_iff`) : any size in grayscale, even sizes in 4:2:0, and next to
none in the other four.
-/

namespace TinyKvm

namespace Avif

/-- The chroma subsamplings of a JPEG, `TJSAMP`. -/
inductive Subsamp where
  | tjsamp444
  | tjsamp422
  | tjsamp420
  | tjsampGray
  | tjsamp440
  | tjsamp411
  deriving DecidableEq

/-- The width of a block of samples, in the table `tjMCUWidth` of TurboJPEG. -/
def tjMCUWidth : Subsamp → ℕ
  | .tjsamp444 => 8
  | .tjsamp422 => 16
  | .tjsamp420 => 16
  | .tjsampGray => 8
  | .tjsamp440 => 8
  | .tjsamp411 => 32

/-- The height of a block of samples, in the table `tjMCUHeight` of TurboJPEG. -/
def tjMCUHeight : Subsamp → ℕ
  | .tjsamp444 => 8
  | .tjsamp422 => 8
  | .tjsamp420 => 16
  | .tjsampGray => 8
  | .tjsamp440 => 16
  | .tjsamp411 => 8

/-- The planes a JPEG is decoded to : a grayscale one has no chroma. -/
def components : Subsamp → ℕ
  | .tjsampGray => 1
  | _ => 3

/-- `tjPlaneWidth` : plane `0` is luma. -/
def tjPlaneWidth (componentID width : ℕ) (subsamp : Subsamp) : ℕ :=
  let pw := alignUp (tjMCUWidth subsamp / 8) width
  if componentID = 0 then pw else pw * 8 / tjMCUWidth subsamp

/-- `tjPlaneHeight`. -/
def tjPlaneHeight (componentID height : ℕ) (subsamp : Subsamp) : ℕ :=
  let ph := alignUp (tjMCUHeight subsamp / 8) height
  if componentID = 0 then ph else ph * 8 / tjMCUHeight subsamp

/-- How often a side of the chroma planes of a format is halved, across and down, or nothing if it
has none. -/
def chromaShift : PixelFormat → Option (ℕ × ℕ)
  | .yuv444 => some (0, 0)
  | .yuv422 => some (1, 0)
  | .yuv420 => some (1, 1)
  | .yuv400 => none

/-- The row stride that `avifImageAllocatePlanes` gives a plane. -/
def yuvRowBytes (image : AvifImage) (plane : ℕ) : ℕ :=
  if plane = 0 then image.width.toNat
  else
    match chromaShift image.yuvFormat with
    | some (x, _) => (image.width.toNat + x) / 2 ^ x
    | none => 0

/-- The rows that `avifImageAllocatePlanes` gives a plane. -/
def yuvRows (image : AvifImage) (plane : ℕ) : ℕ :=
  if plane = 0 then image.height.toNat
  else
    match chromaShift image.yuvFormat with
    | some (_, y) => (image.height.toNat + y) / 2 ^ y
    | none => 0

/-- The image `produceImage` creates for a JPEG of this size. -/
def createdImage (W H : ℕ) : AvifImage :=
  avifImageCreate W H 8 .yuv420

/-- `tjDecompressToYUVPlanes` writes byte `off` of a plane of the created image. -/
def Writes (subsamp : Subsamp) (W H plane off : ℕ) : Prop :=
  plane < components subsamp ∧
    Strided (yuvRowBytes (createdImage W H) plane) (tjPlaneWidth plane W subsamp)
      (tjPlaneHeight plane H subsamp) off

/-- Every byte written is inside its plane. -/
def PlanesInside (subsamp : Subsamp) (W H : ℕ) : Prop :=
  ∀ plane off, Writes subsamp W H plane off →
    off < yuvRows (createdImage W H) plane * yuvRowBytes (createdImage W H) plane

/-- The sizes whose planes a 4:2:0 image holds. -/
def FitsYuv420 (W H : ℕ) : Subsamp → Prop
  | .tjsamp444 => W = 1 ∧ H = 1
  | .tjsamp422 => 2 ∣ W ∧ H = 1
  | .tjsamp420 => 2 ∣ W ∧ 2 ∣ H
  | .tjsampGray => True
  | .tjsamp440 => W = 1 ∧ 2 ∣ H
  | .tjsamp411 => 4 ∣ W ∧ H = 1

/-- At least as many rows are written as are allocated. -/
theorem yuvRows_le (subsamp : Subsamp) (W H plane : ℕ) :
    yuvRows (createdImage W H) plane ≤ tjPlaneHeight plane H subsamp := by
  by_cases hp : plane = 0 <;> cases subsamp <;>
    simp only [yuvRows, createdImage, avifImageCreate, chromaShift, tjPlaneHeight, tjMCUHeight,
      alignUp, hp, if_true, if_false, Int.toNat_natCast, Nat.reduceDiv, Nat.reduceSub] <;>
    omega

theorem yuvRows_pos {H : ℕ} (hH : 0 < H) (W plane : ℕ) : 0 < yuvRows (createdImage W H) plane := by
  by_cases hp : plane = 0 <;>
    simp only [yuvRows, createdImage, avifImageCreate, chromaShift, hp, if_true, if_false,
      Int.toNat_natCast] <;>
    omega

theorem tjPlaneWidth_pos {W : ℕ} (hW : 0 < W) (subsamp : Subsamp) (plane : ℕ) :
    0 < tjPlaneWidth plane W subsamp := by
  by_cases hp : plane = 0 <;> cases subsamp <;>
    simp only [tjPlaneWidth, tjMCUWidth, alignUp, hp, if_true, if_false, Nat.reduceDiv,
      Nat.reduceSub] <;>
    omega

/-- The planes are written inside when each has the written rows, none of them too wide. -/
theorem planesInside_iff_forall {W H : ℕ} (hW : 0 < W) (hH : 0 < H) (subsamp : Subsamp) :
    PlanesInside subsamp W H ↔
      ∀ plane < components subsamp,
        tjPlaneHeight plane H subsamp = yuvRows (createdImage W H) plane ∧
          tjPlaneWidth plane W subsamp ≤ yuvRowBytes (createdImage W H) plane := by
  unfold PlanesInside Writes
  refine forall_congr' fun plane => ?_
  rw [← Strided.inside_iff (tjPlaneWidth_pos hW subsamp plane) (yuvRows_pos hH W plane)
    (yuvRows_le subsamp W H plane)]
  exact ⟨fun h hp off hoff => h off ⟨hp, hoff⟩, fun h off hoff => h hoff.1 off hoff.2⟩

/-- For every size and subsampling, the planes are written inside exactly when the size is
one that a 4:2:0 image holds. -/
theorem planesInside_iff {W H : ℕ} (hW : 0 < W) (hH : 0 < H) (subsamp : Subsamp) :
    PlanesInside subsamp W H ↔ FitsYuv420 W H subsamp := by
  rw [planesInside_iff_forall hW hH]
  cases subsamp <;>
    simp only [components, Nat.forall_lt_succ_right, Nat.not_lt_zero, false_imp_iff, forall_const,
      true_and, FitsYuv420, tjPlaneHeight, tjPlaneWidth, tjMCUHeight, tjMCUWidth, alignUp, yuvRows,
      yuvRowBytes, createdImage, avifImageCreate, chromaShift, Int.toNat_natCast, Nat.one_ne_zero,
      Nat.reduceEqDiff, if_true, if_false, Nat.reduceDiv, Nat.reduceSub, iff_true] <;>
    omega

/-- The planes of a 4:2:0 JPEG of even size are written inside. -/
theorem planesInside_even :
    0 < 640 ∧ 0 < 480 ∧ (PlanesInside .tjsamp420 640 480 ↔ FitsYuv420 640 480 .tjsamp420) :=
  ⟨by decide, by decide, planesInside_iff (by decide) (by decide) .tjsamp420⟩

/-- In a 4:4:4 JPEG of two by two pixels, the second chroma row is written outside. -/
theorem not_planesInside :
    ¬∀ (subsamp : Subsamp) (W H : ℕ), 0 < W → 0 < H → PlanesInside subsamp W H := by
  intro h
  have hrow : Writes .tjsamp444 2 2 1 1 :=
    ⟨by decide, 1, by decide, 0, by decide, rfl⟩
  exact absurd (h .tjsamp444 2 2 (by decide) (by decide) 1 1 hrow) (by decide)

end Avif

end TinyKvm
