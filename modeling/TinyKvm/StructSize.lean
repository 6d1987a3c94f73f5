import TinyKvm.DenoStruct

/-!
# Sizes of C structs in Deno

`struct()` returns a `byteLength` beside its accessors. `get_headers` takes it
for the distance of two elements of a C array, and `serve` for the size of the
request that the host fills in. It is where the last field ends, without the
padding that C adds behind it.

So it is the size of the struct exactly if there is no such padding : the fields
after the last one of the largest alignment fill a multiple of that alignment
(`struct_size_iff`). The two structs that are used so have none.
-/

namespace TinyKvm

namespace Deno

/-- A name a field of a C struct can have. -/
def isIdentifier (name : String) : Bool :=
  match name.toList with
  | [] => false
  | c :: cs => (c.isAlpha || c == '_') && cs.all fun d => d.isAlphanum || d == '_'

/-- The specification of a C struct. -/
structure StructSpec where
  spec : Spec
  nonempty : spec ≠ []
  identifiers : ∀ e ∈ spec, isIdentifier e.1

theorem isAlpha_eq (c : Char) :
    c.isAlpha = (decide ('A'.val ≤ c.val ∧ c.val ≤ 'Z'.val) ||
      decide ('a'.val ≤ c.val) && decide (c.val ≤ 'z'.val)) :=
  rfl

theorem isDigit_eq_false {c : Char} (h : c.isAlpha || c == '_') : c.isDigit = false := by
  have hupper : '9'.val.toNat < 'A'.val.toNat := by decide
  have hlower : '9'.val.toNat < 'a'.val.toNat := by decide
  rw [Bool.eq_false_iff]
  intro hd
  simp only [Char.isDigit, Bool.and_eq_true, decide_eq_true_eq, ge_iff_le] at hd
  simp only [isAlpha_eq, Bool.or_eq_true, Bool.and_eq_true, decide_eq_true_eq, beq_iff_eq,
    UInt32.le_iff_toNat_le] at h hd
  rcases h with (h | h) | rfl
  · omega
  · omega
  · simp at hd

/-- No field name of C is an index. -/
theorem arrayIndex_of_isIdentifier {name : String} (h : isIdentifier name) :
    arrayIndex name = none := by
  unfold isIdentifier at h
  unfold arrayIndex
  refine if_neg fun hdigits => ?_
  obtain ⟨-, hall, -⟩ := hdigits
  cases hname : name.toList with
  | nil => simp [hname] at h
  | cons c cs =>
    simp only [hname, List.all_cons, Bool.and_eq_true] at h hall
    rw [isDigit_eq_false h.1] at hall
    exact Bool.false_ne_true hall.1

namespace StructSpec

variable (s : StructSpec)

/-- The sizes of the fields in C. -/
def cSizes : List ℕ :=
  s.spec.map fun e => cSize e.2

/-- `sizeof` in C. -/
def cSizeof : ℕ :=
  layoutSize s.cSizes

/-- Where an element of a C array of the struct starts. -/
def cElement (i : ℕ) : ℕ :=
  i * s.cSizeof

/-- `byteLength` is the size of the struct, and the distance of the elements of an array. -/
structure Sized : Prop where
  size : (struct s.spec).byteLength = s.cSizeof
  element : ∀ i, s.cElement i = i * (struct s.spec).byteLength

/-- The fields after the last one of the largest alignment fill a multiple of it. -/
def Unpadded : Prop :=
  maxWidth s.cSizes ∣ layoutEnd 0 (trailing s.cSizes)

instance : Decidable s.Unpadded :=
  inferInstanceAs (Decidable (_ ∣ _))

/-- `byteLength` is where the last field ends. -/
theorem byteLength_eq : (struct s.spec).byteLength = layoutEnd 0 s.cSizes := by
  have hindex : ∀ e ∈ s.spec, arrayIndex e.1 = none := fun e he =>
    arrayIndex_of_isIdentifier (s.identifiers e he)
  have hwidths : s.spec.map (fun e => width e.2) = s.cSizes :=
    List.map_congr_left fun e _ => width_eq_cSize e.2
  rw [struct, structOffsets_eq hindex, hwidths]

theorem sized_iff : s.Sized ↔ layoutEnd 0 s.cSizes = layoutSize s.cSizes := by
  constructor
  · intro h
    rw [← s.byteLength_eq, h.size, cSizeof]
  · intro h
    have hsize : (struct s.spec).byteLength = s.cSizeof := s.byteLength_eq.trans h
    exact ⟨hsize, fun i => by rw [cElement, hsize]⟩

end StructSpec

/-- The sizes of C types are powers of two. -/
theorem exists_cSize_eq_two_pow (type : NativeType) : ∃ k, cSize type = 2 ^ k := by
  cases type with
  | bool | i8 | u8 => exact ⟨0, rfl⟩
  | i16 | u16 => exact ⟨1, rfl⟩
  | i32 | u32 | f32 => exact ⟨2, rfl⟩
  | i64 | u64 | f64 | isize | usize | pointer | buffer | function => exact ⟨3, rfl⟩

/-- `byteLength` is the size of the struct, so that it steps through an array, exactly if the
struct has no padding at its end. -/
theorem struct_size_iff (s : StructSpec) : s.Sized ↔ s.Unpadded := by
  have hpow : ∀ w ∈ s.cSizes, ∃ k, w = 2 ^ k := by
    intro w hw
    obtain ⟨e, -, rfl⟩ := List.mem_map.1 hw
    exact exists_cSize_eq_two_pow e.2
  have hwidths : ∀ w ∈ s.cSizes, 0 < w ∧ w ∣ maxWidth s.cSizes := by
    intro w hw
    obtain ⟨k, hk⟩ := hpow w hw
    exact ⟨hk ▸ Nat.two_pow_pos k, dvd_maxWidth hpow w hw⟩
  exact s.sized_iff.trans (layoutEnd_eq_size_iff hwidths)

/-- `kvm_request_header`, of which `get_headers` reads an array. -/
def kvmRequestHeader : StructSpec where
  spec := [("field", .pointer), ("field_colon", .u32), ("field_len", .u32)]
  nonempty := by decide
  identifiers := by decide

/-- `kvm_request`, for which `serve` makes room. -/
def kvmRequest : StructSpec where
  spec := [("method", .pointer), ("url", .pointer), ("arg", .pointer), ("content_type", .pointer),
    ("method_len", .u16), ("url_len", .u16), ("arg_len", .u16), ("content_type_len", .u16),
    ("content", .pointer), ("content_len", .usize), ("headers", .pointer), ("num_headers", .u16),
    ("info_flags", .u16), ("reserved0", .u32), ("prng1", .u64), ("prng2", .u64),
    ("reserved1", .u64), ("reserved2", .u64)]
  nonempty := by decide
  identifiers := by decide

example : kvmRequestHeader.Sized ∧ kvmRequest.Sized :=
  ⟨kvmRequestHeader.sized_iff.2 (by decide), kvmRequest.sized_iff.2 (by decide)⟩

/-- A pointer and a length of 32 bits. -/
def pointerAndLength : StructSpec where
  spec := [("field", .pointer), ("field_len", .u32)]
  nonempty := by decide
  identifiers := by decide

/-- It takes 16 bytes in C, and `byteLength` is 12. -/
theorem struct_size_fails : ¬pointerAndLength.Sized := by
  rw [StructSpec.sized_iff]
  decide

end Deno

end TinyKvm
