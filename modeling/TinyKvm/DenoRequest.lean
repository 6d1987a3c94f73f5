import TinyKvm.StructSize

/-!
# Requests in Deno

For each request `serve` allocates a buffer of the `byteLength` of `kvm_request`
and has `wait_for_requests_paused` fill it in. What the getters of the request
read from that buffer is what the host stored (`getRaw_request`), and likewise
for the elements of the array of headers (`getRaw_header`).
-/

namespace TinyKvm

namespace Deno

/-- Calls an accessor of a struct on a view, which throws where the view is too short. -/
def getRaw (spec : Spec) (name : String) (dv : Bytes) : Option JsValue :=
  (property (struct spec).accessors ("get_raw_" ++ name)).bind fun getter => getter dv

/-- `struct kvm_request`, as the host fills it in. -/
structure KvmRequest where
  method : BitVec 64
  url : BitVec 64
  arg : BitVec 64
  contentType : BitVec 64
  methodLen : BitVec 16
  urlLen : BitVec 16
  argLen : BitVec 16
  contentTypeLen : BitVec 16
  content : BitVec 64
  contentLen : BitVec 64
  headers : BitVec 64
  numHeaders : BitVec 16
  infoFlags : BitVec 16
  reserved0 : BitVec 32
  prng1 : BitVec 64
  prng2 : BitVec 64
  reserved1 : BitVec 64
  reserved2 : BitVec 64

/-- The fields of the request with their values. -/
def KvmRequest.fields (r : KvmRequest) : List Field :=
  [⟨"method", .pointer, r.method⟩, ⟨"url", .pointer, r.url⟩, ⟨"arg", .pointer, r.arg⟩,
    ⟨"content_type", .pointer, r.contentType⟩, ⟨"method_len", .u16, r.methodLen⟩,
    ⟨"url_len", .u16, r.urlLen⟩, ⟨"arg_len", .u16, r.argLen⟩,
    ⟨"content_type_len", .u16, r.contentTypeLen⟩, ⟨"content", .pointer, r.content⟩,
    ⟨"content_len", .usize, r.contentLen⟩, ⟨"headers", .pointer, r.headers⟩,
    ⟨"num_headers", .u16, r.numHeaders⟩, ⟨"info_flags", .u16, r.infoFlags⟩,
    ⟨"reserved0", .u32, r.reserved0⟩, ⟨"prng1", .u64, r.prng1⟩, ⟨"prng2", .u64, r.prng2⟩,
    ⟨"reserved1", .u64, r.reserved1⟩, ⟨"reserved2", .u64, r.reserved2⟩]

/-- `struct kvm_request_header`. -/
structure KvmRequestHeader where
  field : BitVec 64
  fieldColon : BitVec 32
  fieldLen : BitVec 32

/-- The fields of a request header with their values. -/
def KvmRequestHeader.fields (h : KvmRequestHeader) : List Field :=
  [⟨"field", .pointer, h.field⟩, ⟨"field_colon", .u32, h.fieldColon⟩,
    ⟨"field_len", .u32, h.fieldLen⟩]

/-- The buffer of a request, of zeros until `wait_for_requests_paused` stores the request. -/
def waitForRequestsPaused (r : KvmRequest) : Bytes :=
  cStore r.fields (List.replicate (struct kvmRequest.spec).byteLength 0)

/-- The memory of a request header. -/
def KvmRequestHeader.bytes (h : KvmRequestHeader) : Bytes :=
  cStore h.fields (List.replicate kvmRequestHeader.cSizeof 0)

/-! ## What the getters read -/

/-- A field that was stored in a buffer with room for the struct is read back. -/
theorem getRaw_cStore (s : StructSpec) {fields : List Field} (hspec : specOf fields = s.spec)
    (hnames : (fields.map Field.name).Nodup) {mem : Bytes}
    (hmem : (struct s.spec).byteLength ≤ mem.length) {f : Field} (hf : f ∈ fields) :
    getRaw s.spec f.name (cStore fields mem) = some (toJs f.type f.value) := by
  have hindex : ∀ g ∈ fields, arrayIndex g.name = none := by
    intro g hg
    have hmem : (g.name, g.type) ∈ s.spec := hspec ▸ List.mem_map_of_mem hg
    exact arrayIndex_of_isIdentifier (s.identifiers _ hmem)
  have hsizes : fields.map (fun g => cSize g.type) = s.cSizes := by
    rw [StructSpec.cSizes, ← hspec, specOf, List.map_map]
    rfl
  have hroom : layoutEnd 0 (fields.map fun g => cSize g.type) ≤ mem.length := by
    rw [hsizes, ← s.byteLength_eq]
    exact hmem
  obtain ⟨getter, hgetter, hread⟩ := getter_cStore hnames hindex hroom hf
  rw [getRaw, ← hspec, hgetter]
  exact hread

theorem getRaw_request (r : KvmRequest) {f : Field} (hf : f ∈ r.fields) :
    getRaw kvmRequest.spec f.name (waitForRequestsPaused r) = some (toJs f.type f.value) := by
  have hnames : (r.fields.map Field.name).Nodup := by
    simp only [KvmRequest.fields, List.map_cons, List.map_nil]
    decide
  exact getRaw_cStore kvmRequest rfl hnames (List.length_replicate ..).ge hf

theorem getRaw_header (h : KvmRequestHeader) {f : Field} (hf : f ∈ h.fields) :
    getRaw kvmRequestHeader.spec f.name h.bytes = some (toJs f.type f.value) := by
  have hnames : (h.fields.map Field.name).Nodup := by
    simp only [KvmRequestHeader.fields, List.map_cons, List.map_nil]
    decide
  have hsize : (struct kvmRequestHeader.spec).byteLength = kvmRequestHeader.cSizeof :=
    (kvmRequestHeader.sized_iff.2 (by decide)).size
  have hroom : (struct kvmRequestHeader.spec).byteLength ≤
      (List.replicate kvmRequestHeader.cSizeof (0 : Byte)).length := by
    rw [List.length_replicate, hsize]
  exact getRaw_cStore kvmRequestHeader rfl hnames hroom hf

end Deno

end TinyKvm
