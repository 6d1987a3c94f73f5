import TinyKvm.Api
import TinyKvm.Pipeline
import Mathlib.Data.Int.Notation

/-!
# The AVIF converter

`produce_image` of `avif.cpp` decodes a JPEG straight into the planes of an AVIF
image and encodes them. Each library call works on what the calls before it
left : the dimensions the header decoder wrote, the planes, the encoder.
`bail` delivers the source image instead, under status 500.

Of the five calls that report errors, only the allocation of the planes and the
adding of the image are tested. A header or a plane decoder that fails leaves
its outputs to the next call, and an encoder that fails delivers what it left. So
a conversion fails safe exactly when one of the tested calls fails or none of the
untested ones does (`avif_fails_safe_iff`).

The two libraries are not part of the repository : a `Library` is what their
functions do. An exception of the machine is left out here, for its handler
delivers the source image as well.
-/

namespace TinyKvm

namespace Avif

open Stage

/-- The plane layouts of an AVIF image. -/
inductive PixelFormat where
  | yuv444
  | yuv422
  | yuv420
  | yuv400
  deriving DecidableEq

/-- `avifImage` : the planes are empty until they are allocated. -/
structure AvifImage where
  width : ℤ
  height : ℤ
  depth : ℕ
  yuvFormat : PixelFormat
  yuvPlanes : List Bytes
  yuvRowBytes : List ℕ
  alphaPlane : Bytes
  alphaRowBytes : ℕ
  deriving DecidableEq

/-- `avifEncoder`. -/
structure AvifEncoder where
  maxThreads : ℤ
  speed : ℤ
  quality : ℤ
  minQuantizer : ℤ
  maxQuantizer : ℤ

/-- What `tjDecompressHeader3` returned, and the dimensions it left. -/
structure Header where
  ret : ℤ
  W : ℤ
  H : ℤ

/-- The functions of the two libraries. A result of libavif is `0` for success. -/
structure Library where
  /-- The dimensions are zero before the call. -/
  tjDecompressHeader3 : Bytes → Header
  avifImageAllocatePlanes : AvifImage → ℤ × AvifImage
  /-- The planes of the image are written, with its row strides. -/
  tjDecompressToYUVPlanes : Bytes → ℤ → ℤ → AvifImage → ℤ × AvifImage
  avifEncoderAddImage : AvifEncoder → AvifImage → ℤ
  /-- What it returns, with the bytes it left in an empty output. -/
  avifEncoderFinish : AvifEncoder → AvifImage → ℤ × Bytes
  avifResultToString : ℤ → String

/-- `avifImageCreate`. -/
def avifImageCreate (width height : ℤ) (depth : ℕ) (yuvFormat : PixelFormat) : AvifImage :=
  ⟨width, height, depth, yuvFormat, [], [], [], 0⟩

/-- Every byte of the alpha plane is set to 255. -/
def AvifImage.fillAlpha (image : AvifImage) : AvifImage :=
  let size := image.alphaRowBytes * image.height.toNat
  { image with alphaPlane := List.replicate size 255 ++ image.alphaPlane.drop size }

/-- The encoder of `produce_image`. -/
def createEncoder (quality speed : ℤ) : AvifEncoder where
  maxThreads := 1
  speed := speed
  quality := quality
  minQuantizer := 0
  maxQuantizer := 63

/-- What the request is answered with, and the reason a fallback gives. -/
structure Answer where
  failed : Option String
  response : Response
  deriving DecidableEq

/-- `bail`. -/
def bail (src : Bytes) (reason : String) : Answer :=
  ⟨some reason, ⟨500, ascii "image/jpeg", src⟩⟩

/-- `produce_image`. -/
def produceImage (lib : Library) (sourceImage : Bytes) (quality speed : ℤ) : Answer :=
  let ⟨_, W, H⟩ := lib.tjDecompressHeader3 sourceImage
  let image := avifImageCreate W H 8 .yuv420
  let (allocateResult, image) := lib.avifImageAllocatePlanes image
  if allocateResult ≠ 0 then bail sourceImage (lib.avifResultToString allocateResult)
  else
    let (_, image) := lib.tjDecompressToYUVPlanes sourceImage W H image
    let image := image.fillAlpha
    let encoder := createEncoder quality speed
    let imgres := lib.avifEncoderAddImage encoder image
    if imgres ≠ 0 then bail sourceImage (lib.avifResultToString imgres)
    else
      let (_, avifOutput) := lib.avifEncoderFinish encoder image
      ⟨none, ⟨200, ascii "image/avif", avifOutput⟩⟩

/-! ## What the library calls report -/

/-- What the five calls of a conversion return, each on what those before it left. -/
structure Reports where
  header : ℤ
  allocate : ℤ
  decode : ℤ
  addImage : ℤ
  finish : ℤ × Bytes

/-- The reports of the calls of `produceImage`. -/
def reports (lib : Library) (sourceImage : Bytes) (quality speed : ℤ) : Reports :=
  let header := lib.tjDecompressHeader3 sourceImage
  let planes := lib.avifImageAllocatePlanes (avifImageCreate header.W header.H 8 .yuv420)
  let decoded := lib.tjDecompressToYUVPlanes sourceImage header.W header.H planes.2
  let encoder := createEncoder quality speed
  { header := header.ret
    allocate := planes.1
    decode := decoded.1
    addImage := lib.avifEncoderAddImage encoder decoded.2.fillAlpha
    finish := lib.avifEncoderFinish encoder decoded.2.fillAlpha }

/-- The calls as stages, with the tests `produceImage` makes of what they return. -/
def stages (lib : Library) (sourceImage : Bytes) (quality speed : ℤ) : List (Stage String) :=
  let r := reports lib sourceImage quality speed
  [⟨r.header < 0, none⟩,
    step (r.allocate ≠ 0) (r.allocate ≠ 0) (lib.avifResultToString r.allocate),
    ⟨r.decode < 0, none⟩,
    step (r.addImage ≠ 0) (r.addImage ≠ 0) (lib.avifResultToString r.addImage),
    ⟨r.finish.1 ≠ 0, none⟩]

variable (lib : Library) (sourceImage : Bytes) (quality speed : ℤ)

/-- A conversion, by what its calls report. -/
theorem produceImage_reports :
    produceImage lib sourceImage quality speed =
      let r := reports lib sourceImage quality speed
      if r.allocate ≠ 0 then bail sourceImage (lib.avifResultToString r.allocate)
      else if r.addImage ≠ 0 then bail sourceImage (lib.avifResultToString r.addImage)
      else ⟨none, ⟨200, ascii "image/avif", r.finish.2⟩⟩ :=
  rfl

/-- A conversion is the run of its calls : it bails where one of them ends it, and delivers
the encoder's output otherwise. -/
theorem produceImage_eq :
    produceImage lib sourceImage quality speed =
      match ending (stages lib sourceImage quality speed) with
      | some reason => bail sourceImage reason
      | none =>
        ⟨none, ⟨200, ascii "image/avif", (reports lib sourceImage quality speed).finish.2⟩⟩ := by
  rw [produceImage_reports, stages]
  by_cases ha : (reports lib sourceImage quality speed).allocate = 0 <;>
    by_cases hi : (reports lib sourceImage quality speed).addImage = 0 <;>
      simp [ending, step, ha, hi]

/-- If a call of the conversion failed, the source image is delivered, and an AVIF only if
none did. -/
structure FailsSafe : Prop where
  fallback : (∃ s ∈ executed (stages lib sourceImage quality speed), s.failed) →
    (produceImage lib sourceImage quality speed).response.content = sourceImage
  success : (produceImage lib sourceImage quality speed).response.status = 200 →
    (produceImage lib sourceImage quality speed).response.ctype = ascii "image/avif" →
    ∀ s ∈ stages lib sourceImage quality speed, ¬s.failed

/-- A tested call fails, or no untested one does. -/
def Reports.Watched (r : Reports) : Prop :=
  r.allocate ≠ 0 ∨ r.addImage ≠ 0 ∨ 0 ≤ r.header ∧ 0 ≤ r.decode ∧ r.finish.1 = 0

/-- A conversion none of whose tested calls fails delivers an AVIF. -/
theorem ending_stages_eq_none :
    ending (stages lib sourceImage quality speed) = none ↔
      (reports lib sourceImage quality speed).allocate = 0 ∧
        (reports lib sourceImage quality speed).addImage = 0 := by
  simp [stages, ending_cons, step]

theorem forall_stages_not_failed :
    (∀ s ∈ stages lib sourceImage quality speed, ¬s.failed) ↔
      0 ≤ (reports lib sourceImage quality speed).header ∧
        (reports lib sourceImage quality speed).allocate = 0 ∧
        0 ≤ (reports lib sourceImage quality speed).decode ∧
        (reports lib sourceImage quality speed).addImage = 0 ∧
        (reports lib sourceImage quality speed).finish.1 = 0 := by
  simp [stages, step]

/-- A conversion fails safe exactly when one of its tested calls fails or none of the
untested ones does. -/
theorem avif_fails_safe_iff :
    FailsSafe lib sourceImage quality speed ↔
      (reports lib sourceImage quality speed).Watched := by
  unfold Reports.Watched
  cases h : ending (stages lib sourceImage quality speed) with
  | some reason =>
    have hbail : produceImage lib sourceImage quality speed = bail sourceImage reason := by
      rw [produceImage_eq, h]
    have htested := (ending_stages_eq_none lib sourceImage quality speed).not.1 (by simp [h])
    refine iff_of_true ⟨fun _ => by rw [hbail]; rfl, fun hs => ?_⟩ (by omega)
    simp [hbail, bail] at hs
  | none =>
    have havif := produceImage_eq lib sourceImage quality speed
    rw [h] at havif
    obtain ⟨ha, hi⟩ := (ending_stages_eq_none lib sourceImage quality speed).1 h
    have hnone := forall_stages_not_failed lib sourceImage quality speed
    constructor
    · intro hsafe
      have := hnone.1 (hsafe.success (by rw [havif]) (by rw [havif]))
      omega
    · intro hw
      have hall := hnone.2 (by omega)
      refine ⟨fun ⟨s, hs, hf⟩ => absurd hf (hall s ?_), fun _ _ => hall⟩
      rwa [executed_of_ending_none h] at hs

/-! ## An encoder that does not finish -/

/-- Every call succeeds but the last, which leaves its output empty. -/
def libraryUnfinished : Library where
  tjDecompressHeader3 _ := ⟨0, 1, 1⟩
  avifImageAllocatePlanes image := (0, image)
  tjDecompressToYUVPlanes _ _ _ image := (0, image)
  avifEncoderAddImage _ _ := 0
  avifEncoderFinish _ _ := (1, [])
  avifResultToString _ := "Unknown Error"

/-- An encoder that does not finish is answered with an AVIF that is no image. -/
theorem avif_not_fails_safe :
    ¬∀ (lib : Library) (sourceImage : Bytes) (quality speed : ℤ),
      FailsSafe lib sourceImage quality speed := by
  intro h
  have hsource := (h libraryUnfinished [0xFF, 0xD8] 75 6).fallback
    ⟨⟨true, none⟩, by decide, rfl⟩
  revert hsource
  decide

end Avif

end TinyKvm
