import TinyKvm.Api
import Mathlib.Algebra.Group.Nat.Defs
import Mathlib.Data.Int.Notation
import Mathlib.Data.List.Basic

/-!
# Formatted output

Three helpers of `kvm_api.h` format into a buffer on the stack and hand it to a
system call with a length. The formatter keeps what fits and terminates it, but
returns the length the whole text would have, or `-1`. `http_appendf` and
`http_setf` pass this on as a `size_t`, while `vlogf` compares it with the size
of its buffer first and has a constant text to send instead.

A call is `Inside` when all the bytes it announces were written. Bytes are
written from the front of a buffer, so this is a matter of lengths
(`inside_iff`). `vlogf` is inside on every outcome (`vlogf_inside`), the other
two exactly when there is a text no longer than the buffer, whose last byte is
then the terminator (`announced_inside`).
-/

namespace TinyKvm

namespace FormattedOutput

/-- What formatting comes to : the whole text, or an error. -/
inductive Formatting where
  | text (chars : Bytes)
  | error

/-- `vsnprintf` on a fresh buffer of `size` bytes : what it returns, and the buffer with `none`
for a byte that was not written. A length that is no `int` is returned as an error. -/
def vsnprintf (size : ℕ) : Formatting → ℤ × List (Option Byte)
  | .text chars =>
    let stored := chars.take (size - 1) ++ [0]
    (if chars.length < 2 ^ 31 then chars.length else -1,
      stored.map some ++ List.replicate (size - stored.length) none)
  | .error => (-1, List.replicate size none)

/-- The conversion of an `int` to `size_t`. -/
def sizeT (len : ℤ) : ℕ :=
  (BitVec.ofInt 64 len).toNat

/-- What a system call is handed : the object its pointer is to, and a length. -/
structure Announced where
  object : List (Option Byte)
  len : ℕ

/-- The system calls of the three helpers. -/
inductive SysCall where
  | httpAppend (place : ℤ) (field : Announced)
  | httpSet (place : ℤ) (field : Announced)
  | log (text : Announced)

/-- The bytes a system call is handed. -/
def SysCall.announced : SysCall → Announced
  | httpAppend _ field => field
  | httpSet _ field => field
  | log text => text

/-- `HTTP_FMT_SIZE`. -/
def httpFmtSize : ℕ := 4096

/-- A formatted buffer of `size` bytes, with the length the formatter returned. -/
def formatted (size : ℕ) (f : Formatting) : Announced :=
  let (len, buffer) := vsnprintf size f
  ⟨buffer, sizeT len⟩

/-- `http_appendf`. -/
def httpAppendf (place : ℤ) (f : Formatting) : SysCall :=
  .httpAppend place (formatted httpFmtSize f)

/-- `http_setf`. -/
def httpSetf (place : ℤ) (f : Formatting) : SysCall :=
  .httpSet place (formatted httpFmtSize f)

/-- The text `vlogf` sends when its buffer does not do. -/
def errorString : Bytes := ascii "(ERROR: Log buffer overflowed)"

/-- `vlogf`. -/
def vlogf (f : Formatting) : SysCall :=
  let (len, buffer) := vsnprintf 2048 f
  if 0 ≤ len ∧ sizeT len < 2048 then .log ⟨buffer, sizeT len⟩
  else .log ⟨(errorString ++ [0]).map some, errorString.length⟩

/-! ## What is announced is written -/

/-- The length does not exceed the object, and every byte in it was written. -/
structure Announced.Inside (a : Announced) : Prop where
  le : a.len ≤ a.object.length
  written : ∀ b ∈ a.object.take a.len, b ≠ none

/-- Of an object written from the front, the written bytes can be announced. -/
theorem inside_iff (bytes : Bytes) (rest len : ℕ) :
    (Announced.mk (bytes.map some ++ List.replicate rest none) len).Inside ↔
      len ≤ bytes.length := by
  constructor
  · rintro ⟨hle, hwritten⟩
    by_contra hlt
    simp only [List.length_append, List.length_map, List.length_replicate] at hle
    refine hwritten none ?_ rfl
    simp [List.take_append, List.take_replicate]
    omega
  · intro hle
    refine ⟨by simp; omega, fun b hb => ?_⟩
    rw [List.take_append_of_le_length (by simpa using hle), ← List.map_take] at hb
    obtain ⟨byte, -, rfl⟩ := List.mem_map.1 hb
    exact Option.some_ne_none byte

theorem sizeT_natCast {n : ℕ} (h : n < 2 ^ 31) : sizeT n = n := by
  simp [sizeT]
  omega

theorem sizeT_error : sizeT (-1) = 2 ^ 64 - 1 := by
  decide

/-- There is a text, at most as long as the buffer. -/
def Fits (size : ℕ) : Formatting → Prop
  | .text chars => chars.length ≤ size
  | .error => False

/-- The formatted bytes of a text, behind which nothing is written. -/
theorem formatted_text (size : ℕ) (chars : Bytes) :
    formatted size (.text chars) =
      ⟨(chars.take (size - 1) ++ [0]).map some ++
          List.replicate (size - (chars.take (size - 1) ++ [0]).length) none,
        sizeT (if chars.length < 2 ^ 31 then chars.length else -1)⟩ :=
  rfl

theorem not_inside_error (size : ℕ) : ¬(formatted size .error).Inside := by
  intro h
  have hle := (inside_iff [] size (sizeT (-1))).1 h
  rw [sizeT_error] at hle
  exact absurd hle (by decide)

/-- A buffer announced with the length the formatter returned. -/
theorem formatted_inside_iff {size : ℕ} (hpos : 0 < size) (hint : size < 2 ^ 31) (f : Formatting) :
    (formatted size f).Inside ↔ Fits size f := by
  cases f with
  | error => exact iff_of_false (not_inside_error size) id
  | text chars =>
    rw [formatted_text, inside_iff, Fits, List.length_append, List.length_take,
      List.length_singleton]
    by_cases hlt : chars.length < 2 ^ 31
    · rw [if_pos hlt, sizeT_natCast hlt]
      omega
    · rw [if_neg hlt, sizeT_error]
      omega

theorem vlogf_eq (f : Formatting) :
    vlogf f =
      if 0 ≤ (vsnprintf 2048 f).1 ∧ sizeT (vsnprintf 2048 f).1 < 2048 then .log (formatted 2048 f)
      else .log ⟨(errorString ++ [0]).map some, errorString.length⟩ :=
  rfl

/-- `vlogf` announces what it has written, whatever formatting comes to. -/
theorem vlogf_inside (f : Formatting) : (vlogf f).announced.Inside := by
  have herror : (Announced.mk ((errorString ++ [0]).map some) errorString.length).Inside := by
    have := (inside_iff (errorString ++ [0]) 0 errorString.length).2 (by simp)
    rwa [List.replicate_zero, List.append_nil] at this
  rw [vlogf_eq]
  split_ifs with h
  · obtain ⟨hlen, hlt⟩ := h
    refine (formatted_inside_iff (show 0 < 2048 by decide) (by decide) f).2 ?_
    cases f with
    | error => exact absurd hlen (by decide)
    | text chars =>
      simp only [vsnprintf] at hlen hlt
      split_ifs at hlen hlt with hint
      · rw [sizeT_natCast hint] at hlt
        exact Nat.le_of_lt hlt
      · exact absurd hlen (by decide)
  · exact herror

/-- The header functions announce what they have written exactly when there is a text that fits
their buffer; `vlogf` always does. -/
theorem announced_inside (place : ℤ) (f : Formatting) :
    ((httpAppendf place f).announced.Inside ↔ Fits httpFmtSize f) ∧
      ((httpSetf place f).announced.Inside ↔ Fits httpFmtSize f) ∧
      (vlogf f).announced.Inside :=
  ⟨formatted_inside_iff (by decide) (by decide) f, formatted_inside_iff (by decide) (by decide) f,
    vlogf_inside f⟩

/-- A field one byte longer than the buffer is announced beyond it. -/
theorem not_announced_inside :
    ¬∀ (place : ℤ) (f : Formatting), (httpAppendf place f).announced.Inside := by
  intro h
  have hfits : Fits httpFmtSize (.text (List.replicate (httpFmtSize + 1) 0x61)) :=
    (formatted_inside_iff (by decide) (by decide) _).1 (h 1 (.text _))
  rw [Fits, List.length_replicate] at hfits
  omega

end FormattedOutput

end TinyKvm
