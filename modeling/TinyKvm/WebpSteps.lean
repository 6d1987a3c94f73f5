import TinyKvm.Webp
import TinyKvm.Pipeline

/-!
# The steps of a WebP conversion

`produce_image` and the two decoders as pipelines : each call of a library is a
stage that failed or not by the library's own convention, and that ends the
conversion or not by the test the source makes of what the call returned.
`produceImage` is the run of these stages (`produceImage_eq`).

TurboJPEG reports an error by a negative value, the WebP decoder by a null
pointer, and the WebP picture functions by `0`. `decode_jpeg` tests its import
for `0`. The import of `decode_webp`, the crop and the rescale are tested for a
negative value, which they never return : a failure of theirs goes on to the
encoder. A conversion fails safe exactly when whatever follows such a failure
bails (`webp_fails_safe_iff`).
-/

namespace TinyKvm

namespace Webp

open Stage

/-! ## The stages -/

/-- The settings of the encoder are read. -/
def settingStages (j : Json) : List (Stage Failure) :=
  [check (j.contains "quality" && (j.get "quality").getNumber.isNone) .exception,
    check (j.contains "method" && (j.get "method").getInt.isNone) .exception]

/-- The steps of `decode_jpeg`. -/
def jpegStages (r : Replies) : List (Stage Failure) :=
  [step (r.tjDecompressHeader3 < 0) (r.tjDecompressHeader3 < 0) (.bail "tjDecompressHeader3"),
    check (r.allocated = false) .exception,
    step (r.tjDecompress2 < 0) (r.tjDecompress2 < 0) (.bail "tjDecompress"),
    step (r.webPPictureImportRGB = 0) (r.webPPictureImportRGB = 0) (.bail "WebPPictureImportRGB")]

/-- The steps of `decode_webp`. -/
def webpStages (r : Replies) : List (Stage Failure) :=
  step (r.webPGetFeatures = none) (r.webPGetFeatures = none) (.bail "WebP: invalid input image") ::
  check (r.allocated = false) .exception ::
  if r.webPGetFeatures = some true then
    [step (r.webPDecodeRGBAInto = false) (r.webPDecodeRGBAInto = false)
        (.bail "WebP: WebPDecodeRGBAInto failed"),
      step (r.webPPictureImportRGBA = 0) (r.webPPictureImportRGBA < 0)
        (.bail "WebP: WebPPictureImportRGBA failed")]
  else
    [step (r.webPDecodeRGBInto = false) (r.webPDecodeRGBInto = false)
        (.bail "WebP: WebPDecodeRGBInto failed"),
      step (r.webPPictureImportRGB = 0) (r.webPPictureImportRGB < 0)
        (.bail "WebP: WebPPictureImportRGB failed")]

/-- The source image is decoded by its magic signature. -/
def decodeStages (r : Replies) (sourceImage : Bytes) : List (Stage Failure) :=
  match magic r sourceImage with
  | none => [check true .exception]
  | some m =>
    if m = 0xD8FF then jpegStages r
    else if m = 0x5089 then [check true (.bail "Unimplemented image format: PNG")]
    else if m = 0x4952 then webpStages r
    else [check true (.bail "Unrecognized image format")]

/-- The requested crop. -/
def cropStages (r : Replies) (j : Json) : List (Stage Failure) :=
  if j.contains "crop" then
    match (j.get "crop").getVector Json.getInt with
    | none => [check true .exception]
    | some crop =>
      [check (crop.length ≠ 2 ∧ crop.length ≠ 4)
          (.bail ("WebP: Invalid crop array count: " ++ toString crop.length)),
        step (r.webPPictureCrop = 0) (r.webPPictureCrop < 0) (.bail "WebP: Failed to crop image")]
  else []

/-- The requested resize. -/
def resizeStages (r : Replies) (j : Json) : List (Stage Failure) :=
  if j.contains "resize" then
    match (j.get "resize").getVector Json.getSizeT with
    | some (w :: rest) =>
      [step (r.webPPictureRescale = 0) (r.webPPictureRescale < 0)
        (.bail ("WebP: Failed to resize image to w=" ++ toString (w.setWidth 32).toInt ++
          ", h=" ++ toString ((rest[0]?.getD 0).setWidth 32).toInt))]
    | _ => [check true .exception]
  else []

/-- The final encoding. -/
def encodeStage (r : Replies) : Stage Failure :=
  step (r.webPEncode = 0) (r.webPEncode = 0)
    (.bail ("WebPEncode failed: " ++ toString r.errorCode))

/-- The stages after the source image is decoded. -/
def transformStages (r : Replies) (j : Json) : List (Stage Failure) :=
  check (r.webPValidateConfig = 0) (.bail "WebP configuration failed validation") ::
    (cropStages r j ++ (resizeStages r j ++ [encodeStage r]))

/-- The stages of `produce_image`. -/
def stages (r : Replies) (j : Json) (sourceImage : Bytes) : List (Stage Failure) :=
  settingStages j ++ (decodeStages r sourceImage ++ transformStages r j)

/-! ## A conversion is the run of its stages -/

theorem error_bind {α β : Type} (e : Failure) (f : α → Except Failure β) :
    (Except.error e >>= f) = .error e :=
  rfl

theorem ok_bind {α β : Type} (a : α) (f : α → Except Failure β) : (Except.ok a >>= f) = f a :=
  rfl

theorem decodeJpeg_eq (r : Replies) : decodeJpeg r = run (jpegStages r) := by
  simp only [decodeJpeg, jpegStages, bail, error_bind, run_step, run_check, run_nil,
    decide_eq_true_eq]
  rfl

theorem decodeWebp_eq (r : Replies) : decodeWebp r = run (webpStages r) := by
  unfold decodeWebp webpStages
  cases r.webPGetFeatures with
  | none => rfl
  | some hasAlpha =>
    cases hasAlpha <;>
      simp only [bail, error_bind, run_step, run_check, decide_eq_true_eq] <;> simp <;> rfl

theorem crop_eq (r : Replies) (j : Json) :
    (if j.contains "crop" then crop r j else pure ()) = run (cropStages r j) := by
  unfold cropStages
  split_ifs
  · unfold crop
    cases (j.get "crop").getVector Json.getInt with
    | none => rfl
    | some crop =>
      simp only [orThrow, bail, error_bind, run_step, run_check, decide_eq_true_eq]
      rfl
  · rfl

theorem resize_eq (r : Replies) (j : Json) :
    (if j.contains "resize" then resize r j else pure ()) = run (resizeStages r j) := by
  unfold resizeStages
  split_ifs
  · unfold resize
    rcases (j.get "resize").getVector Json.getSizeT with _ | _ | ⟨w, rest⟩
    · rfl
    · rfl
    · simp only [bail, run_step, decide_eq_true_eq]
      cases rest <;> rfl
  · rfl

theorem settings_eq (j : Json) (k : Except Failure Bytes) :
    (do
      if j.contains "quality" then
        let _ ← orThrow (j.get "quality").getNumber
      if j.contains "method" then
        let _ ← orThrow (j.get "method").getInt
      k) = run (settingStages j) >>= fun _ => k := by
  simp only [settingStages, run_check]
  cases j.contains "quality" <;> cases j.contains "method" <;>
    cases (j.get "quality").getNumber <;> cases (j.get "method").getInt <;> rfl

theorem decode_eq (r : Replies) (sourceImage : Bytes) (k : Except Failure Bytes) :
    (do
      let magic ← orThrow (magic r sourceImage)
      if magic = 0xD8FF then decodeJpeg r
      else if magic = 0x5089 then bail "Unimplemented image format: PNG"
      else if magic = 0x4952 then decodeWebp r
      else bail "Unrecognized image format"
      k) = run (decodeStages r sourceImage) >>= fun _ => k := by
  unfold decodeStages
  cases magic r sourceImage with
  | none => rfl
  | some m =>
    simp only [orThrow, ok_bind, decodeJpeg_eq, decodeWebp_eq]
    split_ifs <;> rfl

theorem transform_eq (r : Replies) (j : Json) :
    (do
      if r.webPValidateConfig = 0 then bail "WebP configuration failed validation"
      if j.contains "crop" then crop r j
      if j.contains "resize" then resize r j
      if r.webPEncode = 0 then bail ("WebPEncode failed: " ++ toString r.errorCode)
      return r.buffer) = (run (transformStages r j)).map fun _ => r.buffer := by
  simp only [transformStages, run_check, run_append, ← crop_eq, ← resize_eq, encodeStage, run_step,
    decide_eq_true_eq]
  cases crop r j <;> cases resize r j <;> split_ifs <;> rfl

/-- `produce_image` runs its stages and returns the buffer if none ends it. -/
theorem produceImage_eq (r : Replies) (j : Json) (sourceImage : Bytes) :
    produceImage r j sourceImage = (run (stages r j sourceImage)).map fun _ => r.buffer := by
  rw [stages, run_append, run_append]
  refine (settings_eq j _).trans ?_
  rw [decode_eq, transform_eq]
  cases run (settingStages j) <;> cases run (decodeStages r sourceImage) <;> rfl

/-! ## Failures that no test sees -/

/-- What `produce_image` works on. -/
structure Conversion where
  replies : Replies
  j : Json
  sourceImage : Bytes

/-- The settings are absent or can be read. -/
def SettingsRead (j : Json) : Prop :=
  (j.contains "quality" → (j.get "quality").getNumber.isSome) ∧
    (j.contains "method" → (j.get "method").getInt.isSome)

/-- `decode_webp` reaches the import, which returns `ret`. -/
def WebpImport (r : Replies) (ret : ℤ) : Prop :=
  r.allocated ∧
    (r.webPGetFeatures = some true ∧ r.webPDecodeRGBAInto ∧ ret = r.webPPictureImportRGBA ∨
      r.webPGetFeatures = some false ∧ r.webPDecodeRGBInto ∧ ret = r.webPPictureImportRGB)

/-- `decode_jpeg` returns. -/
def JpegRead (r : Replies) : Prop :=
  0 ≤ r.tjDecompressHeader3 ∧ r.allocated ∧ 0 ≤ r.tjDecompress2 ∧ r.webPPictureImportRGB ≠ 0

/-- The crop is requested and made. -/
def CropMade (j : Json) : Prop :=
  j.contains "crop" ∧ ∃ crop, (j.get "crop").getVector Json.getInt = some crop ∧
    (crop.length = 2 ∨ crop.length = 4)

/-- The crop is requested with an array of another length. -/
def CropMiscounted (j : Json) : Prop :=
  j.contains "crop" ∧ ∃ crop, (j.get "crop").getVector Json.getInt = some crop ∧
    crop.length ≠ 2 ∧ crop.length ≠ 4

/-- The rescale is requested and made. -/
def RescaleMade (j : Json) : Prop :=
  j.contains "resize" ∧ ∃ w rest,
    (j.get "resize").getVector Json.getSizeT = some (w :: rest)

/-- What follows the crop bails. -/
def BailsAfterCrop (r : Replies) (j : Json) : Prop :=
  RescaleMade j ∧ r.webPPictureRescale < 0 ∨
    (RescaleMade j ∨ j.contains "resize" = false) ∧ r.webPEncode = 0

/-- What follows the import bails. -/
def BailsAfterImport (r : Replies) (j : Json) : Prop :=
  r.webPValidateConfig = 0 ∨ CropMiscounted j ∨ CropMade j ∧ r.webPPictureCrop < 0 ∨
    (CropMade j ∨ j.contains "crop" = false) ∧ BailsAfterCrop r j

/-- The conversion ended through `bail`. -/
def Failure.IsBail : Failure → Prop
  | bail _ => True
  | exception => False

@[simp] theorem Failure.isBail_bail (reason : String) : (bail reason).IsBail :=
  trivial

@[simp] theorem Failure.not_isBail_exception : ¬exception.IsBail :=
  id

theorem endsWell_resize (r : Replies) (j : Json) :
    EndsWell Failure.IsBail (resizeStages r j ++ [encodeStage r]) ↔ BailsAfterCrop r j := by
  unfold resizeStages BailsAfterCrop RescaleMade encodeStage
  cases j.contains "resize" with
  | false => simp
  | true =>
    rcases (j.get "resize").getVector Json.getSizeT with _ | _ | ⟨w, rest⟩ <;> simp
    omega

theorem safe_resize (r : Replies) (j : Json) :
    Safe Failure.IsBail (resizeStages r j ++ [encodeStage r]) ↔
      (RescaleMade j ∧ r.webPPictureRescale = 0 → r.webPEncode = 0) := by
  unfold resizeStages RescaleMade encodeStage
  cases j.contains "resize" with
  | false => simp
  | true =>
    rcases (j.get "resize").getVector Json.getSizeT with _ | _ | ⟨w, rest⟩ <;> simp
    omega

theorem endsWell_transform (r : Replies) (j : Json) :
    EndsWell Failure.IsBail (transformStages r j) ↔ BailsAfterImport r j := by
  unfold transformStages cropStages BailsAfterImport CropMiscounted CropMade
  cases j.contains "crop" with
  | false => simp [endsWell_resize, or_iff_not_imp_left]
  | true =>
    cases (j.get "crop").getVector Json.getInt with
    | none => simp [or_iff_not_imp_left]
    | some crop =>
      simp [endsWell_resize]
      grind

/-- The crop and the rescale of a valid configuration, by what their failures need. -/
def TransformWatched (r : Replies) (j : Json) : Prop :=
  (CropMade j ∧ r.webPPictureCrop = 0 → BailsAfterCrop r j) ∧
    ((CropMade j ∧ 0 ≤ r.webPPictureCrop ∨ j.contains "crop" = false) →
      RescaleMade j ∧ r.webPPictureRescale = 0 → r.webPEncode = 0)

theorem safe_transform (r : Replies) (j : Json) :
    Safe Failure.IsBail (transformStages r j) ↔
      (r.webPValidateConfig ≠ 0 → TransformWatched r j) := by
  unfold transformStages cropStages TransformWatched CropMade
  cases j.contains "crop" with
  | false => simp [safe_resize]
  | true =>
    cases (j.get "crop").getVector Json.getInt with
    | none => simp
    | some crop =>
      simp [safe_resize, endsWell_resize]
      grind

theorem checked_jpegStages (r : Replies) : Checked Failure.IsBail (jpegStages r) := by
  simp [Checked, jpegStages, step, check]

theorem ending_jpegStages (r : Replies) : ending (jpegStages r) = none ↔ JpegRead r := by
  simp [jpegStages, JpegRead, ending_cons, step, check]

/-- The import of `decode_webp` is the step whose failure the decoder lets through. -/
theorem safe_webpStages (r : Replies) (l : List (Stage Failure)) :
    Safe Failure.IsBail (webpStages r ++ l) ↔
      (WebpImport r 0 → EndsWell Failure.IsBail l) ∧
        ((∃ ret, WebpImport r ret ∧ 0 ≤ ret) → Safe Failure.IsBail l) := by
  unfold webpStages WebpImport
  cases r.webPGetFeatures with
  | none => simp
  | some hasAlpha => cases hasAlpha <;> simp <;> grind

/-- The source image is decoded into the picture. -/
def Conversion.SourceRead (c : Conversion) : Prop :=
  magic c.replies c.sourceImage = some 0xD8FF ∧ JpegRead c.replies ∨
    magic c.replies c.sourceImage = some 0x4952 ∧ ∃ ret, WebpImport c.replies ret ∧ 0 ≤ ret

/-- Where the import of a WebP source, the crop or the rescale returns `0`, a later step
bails, and nothing throws before it. -/
def Conversion.Watched (c : Conversion) : Prop :=
  SettingsRead c.j →
    (magic c.replies c.sourceImage = some 0x4952 ∧ WebpImport c.replies 0 →
      BailsAfterImport c.replies c.j) ∧
    (c.SourceRead ∧ c.replies.webPValidateConfig ≠ 0 → TransformWatched c.replies c.j)

theorem safe_decode (c : Conversion) (l : List (Stage Failure)) :
    Safe Failure.IsBail (decodeStages c.replies c.sourceImage ++ l) ↔
      (magic c.replies c.sourceImage = some 0x4952 ∧ WebpImport c.replies 0 →
        EndsWell Failure.IsBail l) ∧ (c.SourceRead → Safe Failure.IsBail l) := by
  unfold decodeStages Conversion.SourceRead
  cases magic c.replies c.sourceImage with
  | none => simp
  | some m =>
    by_cases hj : m = 0xD8FF
    · simp [hj, safe_append_checked (checked_jpegStages c.replies), ending_jpegStages]
    · by_cases hp : m = 0x5089
      · simp [hp]
      · by_cases hw : m = 0x4952
        · simp [hw, safe_webpStages]
        · dsimp only
          rw [if_neg hj, if_neg hp, if_neg hw]
          simp at hj hw
          simp [hj, hw]

theorem safe_settings (j : Json) (l : List (Stage Failure)) :
    Safe Failure.IsBail (settingStages j ++ l) ↔ (SettingsRead j → Safe Failure.IsBail l) := by
  simp [settingStages, SettingsRead]

theorem safe_stages (c : Conversion) :
    Safe Failure.IsBail (stages c.replies c.j c.sourceImage) ↔ c.Watched := by
  rw [stages, safe_settings, safe_decode, endsWell_transform, safe_transform, Conversion.Watched]
  simp only [and_imp]

/-! ## Requests -/

variable (parse : Bytes → Option Json)

/-- The conversion a request comes to. -/
def Request.conversion : Request → Option Conversion
  | .post arg _ src replies => (parse arg).map fun j => ⟨replies, j, src⟩
  | .get arg image replies =>
    match getHeaders parse arg, image with
    | some (j, _), some image =>
      if image.status = 200 then some ⟨replies, j, image.content⟩ else none
    | _, _ => none

/-- If a step of the request's conversion failed, the request is answered by `bail`, with
the original image. -/
def FailsSafe (rs : List Request) (r : Request) : Prop :=
  ∀ c ∈ r.conversion parse, (∃ s ∈ executed (stages c.replies c.j c.sourceImage), s.failed) →
    ∃ reason ctype, (webpMachine parse).answer rs r = .bail reason ⟨200, ctype, c.sourceImage⟩

/-- A request that comes to a conversion delivers it, with its own image to fall back on. -/
theorem answer_of_conversion (rs : List Request) {r : Request} {c : Conversion}
    (h : c ∈ r.conversion parse) :
    ∃ ctype, (webpMachine parse).answer rs r =
      deliver ⟨c.sourceImage, ctype⟩ (produceImage c.replies c.j c.sourceImage) := by
  cases r with
  | post arg ctype src replies =>
    obtain ⟨j, hj, rfl⟩ := Option.map_eq_some_iff.1 h
    refine ⟨ctype, ?_⟩
    simp only [Machine.answer, webpMachine, onPost, hj]
  | get arg image replies =>
    simp only [Request.conversion] at h
    cases hj : getHeaders parse arg with
    | none => simp [hj] at h
    | some j =>
      cases image with
      | none => simp [hj] at h
      | some image =>
        by_cases hs : image.status = 200
        · simp [hj, hs] at h
          subst h
          refine ⟨((webpMachine parse).after rs).originalContentType, ?_⟩
          simp only [Machine.answer, webpMachine, onGet, hj, hs, if_true]
        · simp [hj, hs] at h

/-- A conversion is answered by `bail` exactly when its pipeline ends that way. -/
theorem deliver_bail_iff (c : Conversion) (ctype : Bytes) :
    (∃ reason ctype', deliver ⟨c.sourceImage, ctype⟩ (produceImage c.replies c.j c.sourceImage) =
        .bail reason ⟨200, ctype', c.sourceImage⟩) ↔
      EndsWell Failure.IsBail (stages c.replies c.j c.sourceImage) := by
  rw [produceImage_eq, EndsWell, run]
  rcases ending (stages c.replies c.j c.sourceImage) with _ | _ | _
  · simp [deliver, Except.map]
  · simp [deliver, Except.map, fallbackResponse]
  · simp [deliver, Except.map]

/-- After any run, a request fails safe exactly when the failures its conversion does not
see are followed by one that it does. -/
theorem webp_fails_safe_iff (rs : List Request) (r : Request) :
    FailsSafe parse rs r ↔ ∀ c ∈ r.conversion parse, c.Watched := by
  refine forall₂_congr fun c hc => ?_
  obtain ⟨ctype, hd⟩ := answer_of_conversion parse rs hc
  rw [hd, deliver_bail_iff, ← safe_stages]
  rfl

/-! ## A rescale that fails -/

/-- The argument that asks for a width of one pixel. -/
def resizeArg : Bytes := ascii "\x7b\"resize\":[1]\x7d"

/-- The parser on this argument. -/
def parseResize (arg : Bytes) : Option Json :=
  if arg = resizeArg then some (.object [(ascii "resize", .array [.number 1])]) else none

/-- The POST of a JPEG whose rescale fails. -/
def postResize : Request :=
  .post resizeArg (ascii "image/jpeg") [0xFF, 0xD8, 0x01] { repliesOk with webPPictureRescale := 0 }

/-- The POST of a JPEG that could not be rescaled is answered with a WebP. -/
theorem webp_not_fails_safe :
    ¬∀ (parse : Bytes → Option Json) (rs : List Request) (r : Request), FailsSafe parse rs r := by
  intro h
  obtain ⟨reason, ctype, hbail⟩ := h parseResize [] postResize _ rfl (by decide)
  have hwebp : (webpMachine parseResize).answer [] postResize =
      .webp ⟨200, ascii "image/webp", ascii "RIFF"⟩ := by decide
  rw [hwebp] at hbail
  cases hbail

end Webp

end TinyKvm
