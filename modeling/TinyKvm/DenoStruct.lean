import TinyKvm.Api
import TinyKvm.Keyed
import TinyKvm.Layout
import Mathlib.Data.List.Sort

/-!
# Decoding C structs in Deno

`server.ts` reads the structs of the C API through accessors that `struct()`
builds from a specification, a list of field names with native types. The offset
of a field is the running length rounded up to the field's width, and its
accessor reads the type's `DataView` getter there, little-endian.

The offsets are those of the natural layout (`structOffsets_eq`), which are
aligned, increasing and disjoint. A C program that stores in-range values at the
fields of the struct is read back exactly (`struct_reads_back`) : the table of
widths, the table of getters and the sizes of the C types agree for every native
type (`accessor_stored`).
-/

namespace TinyKvm

namespace Deno

/-! ## The program -/

/-- `NativePrimitive`, the names of the native types. -/
inductive NativeType where
  | bool
  | i8
  | u8
  | i16
  | u16
  | i32
  | u32
  | f32
  | i64
  | u64
  | f64
  | isize
  | usize
  | pointer
  | buffer
  | function
  deriving DecidableEq

/-- The table `WIDTH`. -/
def width : NativeType → ℕ
  | .bool => 1
  | .i8 => 1
  | .u8 => 1
  | .i16 => 2
  | .u16 => 2
  | .i32 => 4
  | .u32 => 4
  | .f32 => 4
  | .i64 => 8
  | .u64 => 8
  | .f64 => 8
  | .isize => 8
  | .usize => 8
  | .pointer => 8
  | .buffer => 8
  | .function => 8

/-- What an accessor returns : a boolean, a number that is an integer or a float by its bits, or
a big integer. -/
inductive JsValue where
  | boolean (b : Bool)
  | number (n : ℤ)
  | float32 (bits : BitVec 32)
  | float64 (bits : BitVec 64)
  | bigint (n : ℤ)
  deriving DecidableEq

/-- The word a `DataView` has at an offset, unless it is out of range. -/
def getWord (w : ℕ) (dv : Bytes) (byteOffset : ℕ) (littleEndian : Bool) : Option (BitVec w) :=
  if byteOffset + w / 8 ≤ dv.length then
    let bytes := (dv.drop byteOffset).take (w / 8)
    some (BitVec.ofNat w (leNat (if littleEndian then bytes else bytes.reverse)))
  else none

/-- The table `ACCESSOR`, of getters of a `DataView`. -/
def accessor (type : NativeType) (dv : Bytes) (byteOffset : ℕ) (littleEndian : Bool) :
    Option JsValue :=
  match type with
  | .bool => (getWord 8 dv byteOffset littleEndian).map fun x => .boolean (x != 0)
  | .i8 => (getWord 8 dv byteOffset littleEndian).map fun x => .number x.toInt
  | .u8 => (getWord 8 dv byteOffset littleEndian).map fun x => .number x.toNat
  | .i16 => (getWord 16 dv byteOffset littleEndian).map fun x => .number x.toInt
  | .u16 => (getWord 16 dv byteOffset littleEndian).map fun x => .number x.toNat
  | .i32 => (getWord 32 dv byteOffset littleEndian).map fun x => .number x.toInt
  | .u32 => (getWord 32 dv byteOffset littleEndian).map fun x => .number x.toNat
  | .f32 => (getWord 32 dv byteOffset littleEndian).map fun x => .float32 x
  | .i64 => (getWord 64 dv byteOffset littleEndian).map fun x => .bigint x.toInt
  | .u64 => (getWord 64 dv byteOffset littleEndian).map fun x => .bigint x.toNat
  | .f64 => (getWord 64 dv byteOffset littleEndian).map fun x => .float64 x
  | .isize => (getWord 64 dv byteOffset littleEndian).map fun x => .bigint x.toInt
  | .usize => (getWord 64 dv byteOffset littleEndian).map fun x => .bigint x.toNat
  | .pointer => (getWord 64 dv byteOffset littleEndian).map fun x => .bigint x.toNat
  | .buffer => (getWord 64 dv byteOffset littleEndian).map fun x => .bigint x.toNat
  | .function => (getWord 64 dv byteOffset littleEndian).map fun x => .bigint x.toNat

/-- A specification : the properties of an object, in the order they were created. -/
abbrev Spec := List (String × NativeType)

/-- The index a property name is if it is an integer written in decimal. -/
def arrayIndex (name : String) : Option ℕ :=
  let digits := name.toList
  let n := digits.foldl (fun n c => 10 * n + (c.toNat - '0'.toNat)) 0
  if digits ≠ [] ∧ digits.all Char.isDigit ∧ (digits.head? = some '0' → digits.length = 1) ∧
      n < 2 ^ 32 - 1 then
    some n
  else none

/-- `Object.entries` : the names that are indices first, by index, then the others as created. -/
def entries (spec : Spec) : Spec :=
  let indexed := spec.filterMap fun e => (arrayIndex e.1).map fun i => (i, e)
  (indexed.mergeSort fun a b => a.1 ≤ b.1).map Prod.snd ++
    spec.filter fun e => arrayIndex e.1 = none

/-- The round of `structOffsets` for an entry, on `byteLength` and the offsets so far. -/
def offsetStep (acc : ℕ × List (String × ℕ)) (entry : String × NativeType) :
    ℕ × List (String × ℕ) :=
  let (byteLength, offsets) := acc
  let fieldWidth := width entry.2
  let misalignment := byteLength % fieldWidth
  let byteLength :=
    if misalignment ≠ 0 then byteLength + (fieldWidth - misalignment) else byteLength
  let offset := byteLength
  (byteLength + fieldWidth, offsets ++ [(entry.1, offset)])

/-- `structOffsets` : `byteLength` and the offsets. -/
def structOffsets (spec : Spec) : ℕ × List (String × ℕ) :=
  (entries spec).foldl offsetStep (0, [])

/-- What `struct` returns : `byteLength` and the accessors. -/
structure Struct where
  byteLength : ℕ
  accessors : List (String × (Bytes → Option JsValue))

/-- `struct`. An offset that is not there is `undefined`, which `DataView` takes for 0. -/
def struct (spec : Spec) : Struct :=
  let (byteLength, offsets) := structOffsets spec
  ⟨byteLength, (entries spec).map fun entry =>
    let offset := (property offsets entry.1).getD 0
    ("get_raw_" ++ entry.1, fun dv => accessor entry.2 dv offset true)⟩

/-- The computed ranges of the fields : offset and width. -/
def fieldRanges (spec : Spec) : List (ℕ × ℕ) :=
  List.zipWith (fun offset entry => (offset.2, width entry.2)) (structOffsets spec).2 (entries spec)

/-! ## The C side -/

/-- The in-range values of a native type : truth values, and the words of integers, floats and
pointers. -/
@[reducible] def Value : NativeType → Type
  | .bool => Bool
  | .i8 | .u8 => BitVec 8
  | .i16 | .u16 => BitVec 16
  | .i32 | .u32 | .f32 => BitVec 32
  | .i64 | .u64 | .f64 | .isize | .usize | .pointer | .buffer | .function => BitVec 64

/-- The size of a C type, which is also its natural alignment. -/
def cSize : NativeType → ℕ
  | .bool | .i8 | .u8 => 1
  | .i16 | .u16 => 2
  | .i32 | .u32 | .f32 => 4
  | .i64 | .u64 | .f64 | .isize | .usize | .pointer | .buffer | .function => 8

/-- The bytes C stores for a value, little-endian. -/
def cBytes : (type : NativeType) → Value type → Bytes
  | .bool, b => leBytes 1 b.toNat
  | .i8, x | .u8, x => leBytes 1 x.toNat
  | .i16, x | .u16, x => leBytes 2 x.toNat
  | .i32, x | .u32, x | .f32, x => leBytes 4 x.toNat
  | .i64, x | .u64, x | .f64, x | .isize, x | .usize, x | .pointer, x | .buffer, x
  | .function, x => leBytes 8 x.toNat

/-- The JavaScript value of a C value : signed types by their sign, 64-bit integers as big
integers, floats by their bits. -/
def toJs : (type : NativeType) → Value type → JsValue
  | .bool, b => .boolean b
  | .i8, x | .i16, x | .i32, x => .number x.toInt
  | .u8, x | .u16, x | .u32, x => .number x.toNat
  | .f32, x => .float32 x
  | .f64, x => .float64 x
  | .i64, x | .isize, x => .bigint x.toInt
  | .u64, x | .usize, x | .pointer, x | .buffer, x | .function, x => .bigint x.toNat

/-- A field of a C struct with the value it is given. -/
structure Field where
  name : String
  type : NativeType
  value : Value type

/-- The specification of the fields of a struct. -/
def specOf (fields : List Field) : Spec :=
  fields.map fun f => (f.name, f.type)

/-- The ranges of the fields of a struct with natural alignment. -/
def cRanges (fields : List Field) : List (ℕ × ℕ) :=
  layout 0 (fields.map fun f => cSize f.type)

/-- What a C program writes to store the fields, and where. -/
def cWrites (fields : List Field) : List (ℕ × Bytes) :=
  List.zipWith (fun r f => (r.1, cBytes f.type f.value)) (cRanges fields) fields

/-- The memory of a struct whose fields a C program has stored. -/
def cStore (fields : List Field) (mem : Bytes) : Bytes :=
  writeAll mem (cWrites fields)

/-! ## Offsets -/

theorem width_eq_cSize (type : NativeType) : width type = cSize type := by
  cases type <;> rfl

theorem cSize_pos (type : NativeType) : 0 < cSize type := by
  cases type <;> decide

theorem length_cBytes (type : NativeType) (value : Value type) :
    (cBytes type value).length = cSize type := by
  cases type <;> exact length_leBytes _ _

/-- Names none of which is an index are enumerated as created. -/
theorem entries_eq {spec : Spec} (h : ∀ e ∈ spec, arrayIndex e.1 = none) : entries spec = spec := by
  have hindexed : (spec.filterMap fun e => (arrayIndex e.1).map fun i => (i, e)) = [] := by
    refine List.filterMap_eq_nil_iff.2 fun e he => ?_
    rw [h e he]
    rfl
  have hrest : (spec.filter fun e => arrayIndex e.1 = none) = spec :=
    List.filter_eq_self.2 fun e he => by simp [h e he]
  rw [entries, hindexed, hrest, List.mergeSort_nil]
  rfl

theorem foldl_offsetStep (spec : Spec) (cur : ℕ) (offsets : List (String × ℕ)) :
    spec.foldl offsetStep (cur, offsets) =
      (layoutEnd cur (spec.map fun e => width e.2),
        offsets ++ List.zipWith (fun e r => (e.1, r.1)) spec
          (layout cur (spec.map fun e => width e.2))) := by
  induction spec generalizing cur offsets with
  | nil => simp [layout, layoutEnd]
  | cons e spec ih =>
    have hpos : 0 < width e.2 := by
      rw [width_eq_cSize]
      exact cSize_pos e.2
    have hstep : offsetStep (cur, offsets) e =
        (alignUp (width e.2) cur + width e.2, offsets ++ [(e.1, alignUp (width e.2) cur)]) := by
      simp only [offsetStep, add_misaligned hpos]
    rw [List.foldl_cons, hstep, ih]
    simp [layout, layoutEnd]

/-- The offsets `structOffsets` computes are those of the natural layout. -/
theorem structOffsets_eq {spec : Spec} (h : ∀ e ∈ spec, arrayIndex e.1 = none) :
    structOffsets spec =
      (layoutEnd 0 (spec.map fun e => width e.2),
        List.zipWith (fun e r => (e.1, r.1)) spec (layout 0 (spec.map fun e => width e.2))) := by
  rw [structOffsets, entries_eq h, foldl_offsetStep, List.nil_append]

/-! ## Reading back -/

section Read

variable {dv : Bytes} {off : ℕ}

theorem getWord_stored {w n : ℕ} (hw : w = 8 * n) (x : BitVec w) (hin : off + n ≤ dv.length)
    (hread : loadLe dv off n = leNat (leBytes n x.toNat)) : getWord w dv off true = some x := by
  have hdiv : w / 8 = n := by omega
  have hword : leNat ((dv.drop off).take n) = leNat (leBytes n x.toNat) := hread
  rw [getWord, hdiv, if_pos hin]
  simp only [if_true, hword, ofNat_leNat_leBytes hw]

/-- Where memory has what C stores for a value, the accessor of the type reads that value. -/
theorem accessor_stored (type : NativeType) (value : Value type)
    (hin : off + cSize type ≤ dv.length)
    (hread : loadLe dv off (cSize type) = leNat (cBytes type value)) :
    accessor type dv off true = some (toJs type value) := by
  cases type with
  | bool =>
    have hbyte : (BitVec.ofNat 8 value.toNat).toNat = value.toNat := by
      cases value <;> rfl
    have hword := getWord_stored (show 8 = 8 * 1 from rfl) (BitVec.ofNat 8 value.toNat) hin
      (by rw [hbyte]; exact hread)
    rw [accessor, hword]
    cases value <;> rfl
  | i8 | u8 =>
    have hword := getWord_stored (show 8 = 8 * 1 from rfl) value hin hread
    rw [accessor, hword]
    rfl
  | i16 | u16 =>
    have hword := getWord_stored (show 16 = 8 * 2 from rfl) value hin hread
    rw [accessor, hword]
    rfl
  | i32 | u32 | f32 =>
    have hword := getWord_stored (show 32 = 8 * 4 from rfl) value hin hread
    rw [accessor, hword]
    rfl
  | i64 | u64 | f64 | isize | usize | pointer | buffer | function =>
    have hword := getWord_stored (show 64 = 8 * 8 from rfl) value hin hread
    rw [accessor, hword]
    rfl

end Read

section Struct

variable {fields : List Field}

theorem widths_specOf (fields : List Field) :
    (specOf fields).map (fun e => width e.2) = fields.map fun f => cSize f.type := by
  rw [specOf, List.map_map]
  exact List.map_congr_left fun f _ => width_eq_cSize f.type

theorem entries_specOf (hindex : ∀ f ∈ fields, arrayIndex f.name = none) :
    entries (specOf fields) = specOf fields := by
  refine entries_eq fun e he => ?_
  obtain ⟨f, hf, rfl⟩ := List.mem_map.1 he
  exact hindex f hf

theorem structOffsets_specOf (hindex : ∀ f ∈ fields, arrayIndex f.name = none) :
    structOffsets (specOf fields) =
      (layoutEnd 0 (fields.map fun f => cSize f.type),
        List.zipWith (fun r f => (f.name, r.1)) (cRanges fields) fields) := by
  have hspec : ∀ e ∈ specOf fields, arrayIndex e.1 = none := by
    intro e he
    obtain ⟨f, hf, rfl⟩ := List.mem_map.1 he
    exact hindex f hf
  rw [structOffsets_eq hspec, widths_specOf, cRanges, specOf, List.zipWith_map_left,
    List.zipWith_comm]

theorem length_cRanges (fields : List Field) : (cRanges fields).length = fields.length := by
  have h := congrArg List.length (map_snd_layout 0 (fields.map fun f => cSize f.type))
  rwa [List.length_map, List.length_map] at h

/-- Every field has its range. -/
theorem exists_range {f : Field} (hf : f ∈ fields) : ∃ r, (r, f) ∈ (cRanges fields).zip fields := by
  have hsnd : ((cRanges fields).zip fields).map Prod.snd = fields :=
    List.map_snd_zip (length_cRanges fields).ge
  rw [← hsnd] at hf
  obtain ⟨⟨r, _⟩, hr, rfl⟩ := List.mem_map.1 hf
  exact ⟨r, hr⟩

theorem cSize_pos_of_mem : ∀ w ∈ fields.map (fun f => cSize f.type), 0 < w := by
  intro w hw
  obtain ⟨f, -, rfl⟩ := List.mem_map.1 hw
  exact cSize_pos f.type

theorem map_zipWith_layout (cur : ℕ) (fields : List Field) :
    (List.zipWith (fun r f => (r.1, cBytes f.type f.value))
      (layout cur (fields.map fun f => cSize f.type)) fields).map (fun w => (w.1, w.2.length)) =
      layout cur (fields.map fun f => cSize f.type) := by
  induction fields generalizing cur with
  | nil => rfl
  | cons f fields ih => simp [layout, length_cBytes, ih]

/-- A C program writes the ranges of the fields. -/
theorem map_cWrites (fields : List Field) :
    (cWrites fields).map (fun w => (w.1, w.2.length)) = cRanges fields :=
  map_zipWith_layout 0 fields

section Store

variable {mem : Bytes} (hmem : layoutEnd 0 (fields.map fun f => cSize f.type) ≤ mem.length)

include hmem

theorem cWrites_in : ∀ w ∈ cWrites fields, w.1 + w.2.length ≤ mem.length := by
  intro w hw
  have hr : (w.1, w.2.length) ∈ cRanges fields := by
    rw [← map_cWrites]
    exact List.mem_map_of_mem hw
  exact (bounds_layout cSize_pos_of_mem _ hr).2.trans hmem

theorem length_cStore : (cStore fields mem).length = mem.length :=
  length_writeAll (cWrites_in hmem)

/-- What a C program stores in a field is there. -/
theorem loadLe_cStore {f : Field} {r : ℕ × ℕ} (hr : (r, f) ∈ (cRanges fields).zip fields) :
    r.1 + cSize f.type ≤ (cStore fields mem).length ∧
      loadLe (cStore fields mem) r.1 (cSize f.type) = leNat (cBytes f.type f.value) := by
  have hwrite : (r.1, cBytes f.type f.value) ∈ cWrites fields := by
    rw [cWrites, ← List.map_uncurry_zip_eq_zipWith]
    exact List.mem_map.2 ⟨(r, f), hr, rfl⟩
  have hpair : (cWrites fields).Pairwise fun v w => v.1 + v.2.length ≤ w.1 := by
    have hbefore : (cRanges fields).Pairwise Before := layout_pairwise cSize_pos_of_mem
    rw [← map_cWrites] at hbefore
    exact List.pairwise_map.1 hbefore
  have hin := cWrites_in hmem _ hwrite
  have hread := loadLe_writeAll (cWrites_in hmem) hpair _ hwrite
  rw [length_cBytes] at hin hread
  exact ⟨(length_cStore hmem).symm ▸ hin, hread⟩

end Store

theorem zipWith_offsets_layout (cur : ℕ) (fields : List Field) :
    List.zipWith (fun offset entry => (offset.2, width entry.2))
      (List.zipWith (fun r f => (f.name, r.1)) (layout cur (fields.map fun f => cSize f.type))
        fields)
      (specOf fields) = layout cur (fields.map fun f => cSize f.type) := by
  induction fields generalizing cur with
  | nil => rfl
  | cons f fields ih =>
    simp only [specOf, width_eq_cSize] at ih ⊢
    simp [layout, ih]

/-- The computed ranges are those of the C struct. -/
theorem fieldRanges_specOf (hindex : ∀ f ∈ fields, arrayIndex f.name = none) :
    fieldRanges (specOf fields) = cRanges fields := by
  rw [fieldRanges, structOffsets_specOf hindex, entries_specOf hindex]
  exact zipWith_offsets_layout 0 fields

/-- The offset of a field is found by its name. -/
theorem property_offsets (hnames : (fields.map Field.name).Nodup) {f : Field} {r : ℕ × ℕ}
    (hr : (r, f) ∈ (cRanges fields).zip fields) :
    property (List.zipWith (fun r f => (f.name, r.1)) (cRanges fields) fields) f.name =
      some r.1 := by
  have hkeys : (List.zipWith (fun r f => (f.name, r.1)) (cRanges fields) fields).map Prod.fst =
      fields.map Field.name := by
    have hsnd : ((cRanges fields).zip fields).map Prod.snd = fields :=
      List.map_snd_zip (length_cRanges fields).ge
    rw [← List.map_uncurry_zip_eq_zipWith, List.map_map]
    calc _ = (((cRanges fields).zip fields).map Prod.snd).map Field.name := by
          rw [List.map_map]
          rfl
      _ = fields.map Field.name := by rw [hsnd]
  refine property_eq (hkeys ▸ hnames) ?_
  rw [← List.map_uncurry_zip_eq_zipWith]
  exact List.mem_map.2 ⟨(r, f), hr, rfl⟩

/-- The accessor of a field, at the field's offset. -/
theorem property_accessors (hnames : (fields.map Field.name).Nodup)
    (hindex : ∀ f ∈ fields, arrayIndex f.name = none) {f : Field} {r : ℕ × ℕ} (hf : f ∈ fields)
    (hr : (r, f) ∈ (cRanges fields).zip fields) :
    property (struct (specOf fields)).accessors ("get_raw_" ++ f.name) =
      some fun dv => accessor f.type dv r.1 true := by
  have haccessors : (struct (specOf fields)).accessors = fields.map fun f =>
      ("get_raw_" ++ f.name, fun dv => accessor f.type dv ((property
        (List.zipWith (fun r f => (f.name, r.1)) (cRanges fields) fields) f.name).getD 0)
          true) := by
    simp only [struct, structOffsets_specOf hindex, entries_specOf hindex]
    rw [specOf, List.map_map]
    rfl
  have hkeys : ((struct (specOf fields)).accessors.map Prod.fst).Nodup := by
    have hmap : (struct (specOf fields)).accessors.map Prod.fst =
        (fields.map Field.name).map ("get_raw_" ++ ·) := by
      rw [haccessors, List.map_map, List.map_map]
      rfl
    rw [hmap]
    exact hnames.map fun _ _ h => String.append_right_inj "get_raw_" |>.1 h
  refine property_eq hkeys ?_
  rw [haccessors]
  refine List.mem_map.2 ⟨f, hf, ?_⟩
  rw [property_offsets hnames hr]
  rfl

/-- The accessor that `struct` builds for a field reads what a C program stored in it. -/
theorem getter_cStore (hnames : (fields.map Field.name).Nodup)
    (hindex : ∀ f ∈ fields, arrayIndex f.name = none) {mem : Bytes}
    (hmem : layoutEnd 0 (fields.map fun f => cSize f.type) ≤ mem.length) {f : Field}
    (hf : f ∈ fields) : ∃ getter,
      property (struct (specOf fields)).accessors ("get_raw_" ++ f.name) = some getter ∧
      getter (cStore fields mem) = some (toJs f.type f.value) := by
  obtain ⟨r, hr⟩ := exists_range hf
  obtain ⟨hin, hread⟩ := loadLe_cStore hmem hr
  exact ⟨_, property_accessors hnames hindex hf hr, accessor_stored f.type f.value hin hread⟩

/-- The accessors that `struct` builds read back what a C program stored in the fields of the same
names, and the ranges they read are aligned, increasing and disjoint. -/
theorem struct_reads_back (fields : List Field) (hnames : (fields.map Field.name).Nodup)
    (hindex : ∀ f ∈ fields, arrayIndex f.name = none) (mem : Bytes)
    (hmem : layoutEnd 0 (fields.map fun f => cSize f.type) ≤ mem.length) :
    (∀ f ∈ fields, ∃ getter,
      property (struct (specOf fields)).accessors ("get_raw_" ++ f.name) = some getter ∧
      getter (cStore fields mem) = some (toJs f.type f.value)) ∧
    (∀ r ∈ fieldRanges (specOf fields), r.2 ∣ r.1) ∧
    (fieldRanges (specOf fields)).Pairwise Before := by
  rw [fieldRanges_specOf hindex]
  exact ⟨fun f hf => getter_cStore hnames hindex hmem hf, aligned_layout 0 _,
    layout_pairwise cSize_pos_of_mem⟩

/-- The fields of a request header, with values. -/
def requestHeader : List Field :=
  [⟨"field", .pointer, 0x1000⟩, ⟨"field_colon", .u32, 4⟩, ⟨"field_len", .u32, 18⟩]

/-- The request header is read back, whatever its memory held. -/
theorem struct_reads_back_header :
    (∀ f ∈ requestHeader, ∃ getter,
      property (struct (specOf requestHeader)).accessors ("get_raw_" ++ f.name) = some getter ∧
      getter (cStore requestHeader (List.replicate 16 0xAA)) = some (toJs f.type f.value)) ∧
    (∀ r ∈ fieldRanges (specOf requestHeader), r.2 ∣ r.1) ∧
    (fieldRanges (specOf requestHeader)).Pairwise Before :=
  struct_reads_back requestHeader (by decide) (by decide) (List.replicate 16 0xAA) (by decide)

end Struct

end Deno

end TinyKvm
