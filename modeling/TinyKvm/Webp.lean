import TinyKvm.Json
import TinyKvm.Machine

/-!
# The WebP converter and its fallback

`webp.cpp` answers a request with the WebP it made of the request's image, or,
when something fails, with the image itself : `bail` and `on_error` deliver
`original_img` under `original_content_type`. The program is not ephemeral, so
these globals keep what earlier requests left in them.

A POST sets both before anything can fail. A GET sets only the image, and only
once it is fetched; the content type is never set on that path. A fallback of a
GET therefore delivers the content type of the last POST, and before its image
is fetched also the image of an earlier request. The state after a run is read
off its requests (`after_eq`), and a fallback belongs to the request that
failed under exactly the conditions this leaves (`fallback_isolated_iff`).

The image and WebP libraries are not part of the repository. A request carries
what their functions returned while it was handled.
-/

namespace TinyKvm

namespace Webp

/-- How `produce_image` ends early : through `bail`, or through an exception of the
language or of the machine, which `on_error` answers. -/
inductive Failure where
  | bail (reason : String)
  | exception
  deriving DecidableEq

/-- What the libraries returned while one request was handled. -/
structure Replies where
  /-- The word at the image's first byte when the image is shorter than a word, if it can be
  read at all. -/
  beyond : Option (BitVec 16)
  /-- Whether the pixel buffer could be allocated. -/
  allocated : Bool
  tjDecompressHeader3 : ℤ
  tjDecompress2 : ℤ
  /-- Whether the image has an alpha channel, if its header could be decoded. -/
  webPGetFeatures : Option Bool
  /-- Whether the decoder returned its buffer. -/
  webPDecodeRGBAInto : Bool
  webPDecodeRGBInto : Bool
  webPPictureImportRGBA : ℤ
  webPPictureImportRGB : ℤ
  webPValidateConfig : ℤ
  webPPictureCrop : ℤ
  webPPictureRescale : ℤ
  webPEncode : ℤ
  errorCode : ℤ
  /-- The bytes the encoder wrote. -/
  buffer : Bytes
  deriving DecidableEq

/-- `bail` concludes the request. -/
def bail (reason : String) : Except Failure Unit :=
  .error (.bail reason)

/-- A conversion that throws. -/
def orThrow {α : Type} : Option α → Except Failure α
  | some a => .ok a
  | none => .error .exception

/-- `decode_jpeg`. -/
def decodeJpeg (r : Replies) : Except Failure Unit := do
  if r.tjDecompressHeader3 < 0 then bail "tjDecompressHeader3"
  if r.allocated = false then .error .exception
  if r.tjDecompress2 < 0 then bail "tjDecompress"
  if r.webPPictureImportRGB = 0 then bail "WebPPictureImportRGB"

/-- `decode_webp`. -/
def decodeWebp (r : Replies) : Except Failure Unit := do
  match r.webPGetFeatures with
  | none => bail "WebP: invalid input image"
  | some hasAlpha =>
    if r.allocated = false then .error .exception
    if hasAlpha then
      if r.webPDecodeRGBAInto = false then bail "WebP: WebPDecodeRGBAInto failed"
      if r.webPPictureImportRGBA < 0 then bail "WebP: WebPPictureImportRGBA failed"
    else
      if r.webPDecodeRGBInto = false then bail "WebP: WebPDecodeRGBInto failed"
      if r.webPPictureImportRGB < 0 then bail "WebP: WebPPictureImportRGB failed"

/-- The partial magic signature, a word read at the image's first byte. -/
def magic (r : Replies) : Bytes → Option (BitVec 16)
  | a :: b :: _ => some (b ++ a)
  | _ => r.beyond

/-- The crop of `produce_image`. -/
def crop (r : Replies) (j : Json) : Except Failure Unit := do
  let crop ← orThrow ((j.get "crop").getVector Json.getInt)
  if crop.length ≠ 2 ∧ crop.length ≠ 4 then
    bail ("WebP: Invalid crop array count: " ++ toString crop.length)
  if r.webPPictureCrop < 0 then bail "WebP: Failed to crop image"

/-- The resize of `produce_image`. Width and height are read as `size_t` and kept as `int`. -/
def resize (r : Replies) (j : Json) : Except Failure Unit := do
  let resize ← orThrow ((j.get "resize").getVector Json.getSizeT)
  let w := (← orThrow resize[0]?).setWidth 32
  let h := (resize[1]?.getD 0).setWidth 32
  if r.webPPictureRescale < 0 then
    bail ("WebP: Failed to resize image to w=" ++ toString w.toInt ++ ", h=" ++ toString h.toInt)

/-- `produce_image` : the encoded WebP, or how it ended early. -/
def produceImage (r : Replies) (j : Json) (sourceImage : Bytes) : Except Failure Bytes := do
  if j.contains "quality" then
    let _ ← orThrow (j.get "quality").getNumber
  if j.contains "method" then
    let _ ← orThrow (j.get "method").getInt
  let magic ← orThrow (magic r sourceImage)
  if magic = 0xD8FF then decodeJpeg r
  else if magic = 0x5089 then bail "Unimplemented image format: PNG"
  else if magic = 0x4952 then decodeWebp r
  else bail "Unrecognized image format"
  if r.webPValidateConfig = 0 then bail "WebP configuration failed validation"
  if j.contains "crop" then crop r j
  if j.contains "resize" then resize r j
  if r.webPEncode = 0 then bail ("WebPEncode failed: " ++ toString r.errorCode)
  return r.buffer

/-! ## Requests -/

/-- The globals the fallback delivers. They hold the bytes the source points at. -/
structure Globals where
  originalImg : Bytes
  originalContentType : Bytes
  deriving DecidableEq

/-- What `Curl::fetch` returned. -/
structure CurlResult where
  status : ℕ
  contentType : Bytes
  content : Bytes
  deriving DecidableEq

/-- A request. The fetch of a GET is `none` if the machine was stopped in it. -/
inductive Request where
  | get (arg : Bytes) (image : Option CurlResult) (replies : Replies)
  | post (arg ctype src : Bytes) (replies : Replies)

/-- The response of a request, by the place it was made. -/
inductive Delivery where
  | webp (r : Response)
  | unavailable (r : Response)
  | bail (reason : String) (r : Response)
  | onError (r : Response)
  deriving DecidableEq

/-- The response of `on_error` or `bail`. -/
def Delivery.fallback : Delivery → Option Response
  | webp _ => none
  | unavailable _ => none
  | bail _ r => some r
  | onError r => some r

/-- The source image under its content type. -/
def fallbackResponse (g : Globals) : Response :=
  ⟨200, g.originalContentType, g.originalImg⟩

/-- The delivery of what `produce_image` did. -/
def deliver (g : Globals) : Except Failure Bytes → Delivery
  | .ok buffer => .webp ⟨200, ascii "image/webp", buffer⟩
  | .error (.bail reason) => .bail reason (fallbackResponse g)
  | .error .exception => .onError (fallbackResponse g)

variable (parse : Bytes → Option Json)

/-- The header list of a GET's argument, `none` when the argument does not parse or its
"headers" are not strings. -/
def getHeaders (arg : Bytes) : Option (Json × List Bytes) := do
  let j ← parse arg
  if j.contains "headers" then
    return (j, ← (j.get "headers").getVector Json.getString)
  else return (j, [])

/-- `on_get`. -/
def onGet (g : Globals) (arg : Bytes) (image : Option CurlResult) (replies : Replies) :
    Globals × Delivery :=
  match getHeaders parse arg, image with
  | some (j, _), some image =>
    if image.status = 200 then
      let g := { g with originalImg := image.content }
      (g, deliver g (produceImage replies j image.content))
    else (g, .unavailable ⟨503, ascii "text/plain", ascii "Failed to retrieve image asset"⟩)
  | _, _ => (g, .onError (fallbackResponse g))

/-- `on_post`. -/
def onPost (_ : Globals) (arg ctype src : Bytes) (replies : Replies) : Globals × Delivery :=
  let g : Globals := ⟨src, ctype⟩
  match parse arg with
  | some j => (g, deliver g (produceImage replies j src))
  | none => (g, .onError (fallbackResponse g))

/-- The program in one virtual machine. -/
def webpMachine : Machine Globals Request Delivery where
  init := ⟨[], []⟩
  step g
    | .get arg image replies => onGet parse g arg image replies
    | .post arg ctype src replies => onPost parse g arg ctype src replies

/-! ## What a fallback delivers -/

/-- The image a request has brought, under its content type, by the time it can fail. A GET
whose argument is rejected or whose fetch does not succeed has none. -/
def Request.source : Request → Option (Bytes × Bytes)
  | .post _ ctype src _ => some (src, ctype)
  | .get arg image _ =>
    match getHeaders parse arg, image with
    | some _, some image =>
      if image.status = 200 then some (image.content, image.contentType) else none
    | _, _ => none

/-- The content type of a POST. -/
def Request.postType : Request → Option Bytes
  | .post _ ctype _ _ => some ctype
  | .get _ _ _ => none

/-- The image of the last request of the run that brought one, empty if none did. -/
def lastImage (rs : List Request) : Bytes :=
  ((lastOf (Request.source parse) rs).map Prod.fst).getD []

/-- The content type of the last POST of the run, empty if there was none. -/
def lastContentType (rs : List Request) : Bytes :=
  (lastOf Request.postType rs).getD []

theorem lastImage_snoc (rs : List Request) (r : Request) :
    lastImage parse (rs ++ [r]) = ((r.source parse).map Prod.fst).getD (lastImage parse rs) := by
  rw [lastImage, lastOf_snoc]
  cases r.source parse <;> rfl

theorem lastContentType_snoc (rs : List Request) (r : Request) :
    lastContentType (rs ++ [r]) = r.postType.getD (lastContentType rs) := by
  rw [lastContentType, lastOf_snoc]
  cases r.postType <;> rfl

/-- A request sets the image if it brings one, and the content type if it is a POST. -/
theorem step_globals (g : Globals) (r : Request) :
    ((webpMachine parse).step g r).1 =
      ⟨((r.source parse).map Prod.fst).getD g.originalImg,
        r.postType.getD g.originalContentType⟩ := by
  cases r with
  | post arg ctype src replies =>
    simp only [webpMachine, onPost, Request.source, Request.postType]
    cases parse arg <;> rfl
  | get arg image replies =>
    simp only [webpMachine, onGet, Request.source, Request.postType]
    cases getHeaders parse arg with
    | none => rfl
    | some j =>
      cases image with
      | none => rfl
      | some image => by_cases h : image.status = 200 <;> simp [h]

theorem fallback_deliver {g : Globals} {result : Except Failure Bytes} {d : Response}
    (h : (deliver g result).fallback = some d) : d = fallbackResponse g := by
  match result with
  | .ok _ => simp [deliver, Delivery.fallback] at h
  | .error (.bail _) => exact (Option.some.inj h).symm
  | .error .exception => exact (Option.some.inj h).symm

/-- A fallback delivers the globals as the failing request leaves them. -/
theorem step_fallback {g : Globals} {r : Request} {d : Response}
    (h : ((webpMachine parse).step g r).2.fallback = some d) :
    d = fallbackResponse ((webpMachine parse).step g r).1 := by
  cases r with
  | post arg ctype src replies =>
    simp only [webpMachine, onPost] at h ⊢
    cases hp : parse arg with
    | none =>
      rw [hp] at h
      exact (Option.some.inj h).symm
    | some j =>
      rw [hp] at h
      exact fallback_deliver h
  | get arg image replies =>
    simp only [webpMachine, onGet] at h ⊢
    cases hj : getHeaders parse arg with
    | none =>
      rw [hj] at h
      exact (Option.some.inj h).symm
    | some j =>
      cases image with
      | none =>
        rw [hj] at h
        exact (Option.some.inj h).symm
      | some image =>
        simp only [hj] at h ⊢
        by_cases hs : image.status = 200
        · rw [if_pos hs] at h ⊢
          exact fallback_deliver h
        · rw [if_neg hs] at h
          exact absurd h (by simp [Delivery.fallback])

/-- The globals after a run, read off its requests. -/
theorem after_eq (rs : List Request) :
    (webpMachine parse).after rs = ⟨lastImage parse rs, lastContentType rs⟩ := by
  refine (webpMachine parse).run_induction'
    (I := fun rs g => g = ⟨lastImage parse rs, lastContentType rs⟩) rfl (fun rs r ih => ?_) rs
  rw [Machine.after_snoc, step_globals, ih, lastImage_snoc, lastContentType_snoc]

/-- When a fallback of `r` after `rs` can only deliver what `r` brought : `r` is a POST; or
its image is fetched and has the content type of the last POST; or it has no image yet and
none is left, nor a content type. -/
def Isolated (rs : List Request) (r : Request) : Prop :=
  match r with
  | .post _ _ _ _ => True
  | .get _ _ _ =>
    match r.source parse with
    | some (_, contentType) => lastContentType rs = contentType
    | none => lastImage parse rs = [] ∧ lastContentType rs = []

/-- After any run, the fallback of a failing request delivers its own image and content type
exactly when it is isolated. -/
theorem fallback_isolated_iff (rs : List Request) (r : Request) (d : Response)
    (h : ((webpMachine parse).answer rs r).fallback = some d) :
    (d.content, d.ctype) = (r.source parse).getD ([], []) ↔ Isolated parse rs r := by
  have hd := step_fallback parse h
  rw [← Machine.after_snoc, after_eq, lastImage_snoc, lastContentType_snoc] at hd
  subst hd
  cases r with
  | post arg ctype src replies =>
    simp [Isolated, Request.source, Request.postType, fallbackResponse]
  | get arg image replies =>
    unfold Isolated
    cases hs : Request.source parse (.get arg image replies) <;>
      simp [Request.postType, fallbackResponse, Prod.ext_iff]

/-! ## A POST, then failing GETs -/

/-- The text `{}`. -/
def emptyObject : Bytes := [0x7B, 0x7D]

/-- The parser on the two arguments used here : `{}` is the empty object, `{` does not
parse. -/
def parseBraces (arg : Bytes) : Option Json :=
  if arg = emptyObject then some (.object []) else none

/-- Every library function succeeds. -/
def repliesOk : Replies where
  beyond := none
  allocated := true
  tjDecompressHeader3 := 0
  tjDecompress2 := 0
  webPGetFeatures := some false
  webPDecodeRGBAInto := true
  webPDecodeRGBInto := true
  webPPictureImportRGBA := 1
  webPPictureImportRGB := 1
  webPValidateConfig := 1
  webPPictureCrop := 1
  webPPictureRescale := 1
  webPEncode := 1
  errorCode := 0
  buffer := ascii "RIFF"

/-- A POST of a JPEG, answered with its WebP. -/
def postJpeg : Request :=
  .post emptyObject (ascii "image/jpeg") [0xFF, 0xD8, 0x01] repliesOk

/-- A GET of a PNG, which the converter does not support. -/
def getPng : Request :=
  .get emptyObject (some ⟨200, ascii "image/png", [0x89, 0x50, 0x02]⟩) repliesOk

/-- A GET of a JPEG whose header cannot be decoded. -/
def getBroken : Request :=
  .get emptyObject (some ⟨200, ascii "image/jpeg", [0xFF, 0xD8, 0x03]⟩)
    { repliesOk with tjDecompressHeader3 := -1 }

/-- After the POST of a JPEG, the GET of a broken one falls back to that one. -/
theorem fallback_isolated_jpegs :
    ([0xFF, 0xD8, 0x03], ascii "image/jpeg") = (getBroken.source parseBraces).getD ([], []) ↔
      Isolated parseBraces [postJpeg] getBroken :=
  fallback_isolated_iff parseBraces [postJpeg] getBroken
    ⟨200, ascii "image/jpeg", [0xFF, 0xD8, 0x03]⟩ (by decide)

/-- A fallback need not be the failing request's own : after the POST of a JPEG, a GET whose
argument does not parse is answered with that JPEG. -/
theorem fallback_not_isolated :
    ¬∀ (parse : Bytes → Option Json) (rs : List Request) (r : Request) (d : Response),
      ((webpMachine parse).answer rs r).fallback = some d →
        (d.content, d.ctype) = (r.source parse).getD ([], []) := by
  intro h
  have := h parseBraces [postJpeg] (.get [0x7B] none repliesOk)
    ⟨200, ascii "image/jpeg", [0xFF, 0xD8, 0x01]⟩ (by decide)
  revert this
  decide

/-- A GET that reaches its image has the image, under the content type of the POST. -/
example : ((webpMachine parseBraces).answer [postJpeg] getPng).fallback =
    some ⟨200, ascii "image/jpeg", [0x89, 0x50, 0x02]⟩ := by decide

end Webp

end TinyKvm
