import TinyKvm.Utf16

/-!
# JSON texts

The grammar of JSON over UTF-8 bytes, as a relation between a text and the value it
denotes. Numbers are whatever their texts are read as, and strings are lists of
UTF-16 units, where an escape may denote half a pair. An object keeps the members
its text lists, with repeated names.

`Value n`, `Elements n` and `Members n` are the texts in which no more than `n`
values lie inside each other. A text of elements or members is at least as long as
their number (`Elements.length_le`, `Members.length_le`), and is put together from
the texts of single ones (`elements_of_forall`, `members_of_forall`).
-/

namespace TinyKvm

namespace JsonText

open Utf16 (Unit16 charBytes charUnits)

/-! ## Values -/

/-- A JSON value, with numbers in `ν`. -/
inductive JsonTree (ν : Type) where
  | null
  | bool (b : Bool)
  | number (n : ν)
  | string (s : List Unit16)
  | array (elements : List (JsonTree ν))
  | object (members : List (List Unit16 × JsonTree ν))

variable {ν : Type}

namespace JsonTree

mutual

/-- How many values lie inside each other. -/
def depth : JsonTree ν → ℕ
  | array elements => depthElements elements + 1
  | object members => depthMembers members + 1
  | _ => 1

def depthElements : List (JsonTree ν) → ℕ
  | [] => 0
  | v :: elements => max v.depth (depthElements elements)

def depthMembers : List (List Unit16 × JsonTree ν) → ℕ
  | [] => 0
  | (_, v) :: members => max v.depth (depthMembers members)

end

theorem depth_le_depthElements {v : JsonTree ν} :
    ∀ {elements : List (JsonTree ν)}, v ∈ elements → v.depth ≤ depthElements elements
  | w :: elements, h => by
    rw [depthElements]
    rcases List.mem_cons.1 h with rfl | h
    · exact le_max_left _ _
    · exact (depth_le_depthElements h).trans (le_max_right _ _)

theorem depth_le_depthMembers {m : List Unit16 × JsonTree ν} :
    ∀ {members : List (List Unit16 × JsonTree ν)}, m ∈ members → m.2.depth ≤ depthMembers members
  | (k, w) :: members, h => by
    rw [depthMembers]
    rcases List.mem_cons.1 h with rfl | h
    · exact le_max_left _ _
    · exact (depth_le_depthMembers h).trans (le_max_right _ _)

/-- Induction on a value, with what holds of all elements or of the values of all members. -/
theorem induction {P : JsonTree ν → Prop} (null : P null) (bool : ∀ b, P (bool b))
    (number : ∀ n, P (number n)) (string : ∀ s, P (string s))
    (array : ∀ elements, (∀ v ∈ elements, P v) → P (array elements))
    (object : ∀ members, (∀ m ∈ members, P m.2) → P (object members)) (v : JsonTree ν) : P v :=
  @JsonTree.rec ν P (fun elements => ∀ v ∈ elements, P v) (fun members => ∀ m ∈ members, P m.2)
    (fun m => P m.2) null bool number string array object (fun _ h => nomatch h)
    (fun _ _ ih ihs => List.forall_mem_cons.2 ⟨ih, ihs⟩) (fun _ h => nomatch h)
    (fun _ _ ih ihs => List.forall_mem_cons.2 ⟨ih, ihs⟩) (fun _ _ ih => ih) v

/-- The values that lie inside another, and that value itself. -/
inductive Part : JsonTree ν → JsonTree ν → Prop
  | self {v} : Part v v
  | element {w v elements} (h : v ∈ elements) (hw : Part w v) : Part w (array elements)
  | member {w m members} (h : m ∈ members) (hw : Part w m.2) : Part w (object members)

/-- In every object the names are different. -/
def Distinct (v : JsonTree ν) : Prop :=
  ∀ members, Part (object members) v → (members.map Prod.fst).Nodup

end JsonTree

/-! ## Bytes -/

/-- The byte of an ASCII character. -/
def byte (c : Char) : Byte :=
  BitVec.ofNat 8 c.toNat

/-- A byte of whitespace. -/
def IsSpace (b : Byte) : Prop :=
  b = byte ' ' ∨ b = byte '\t' ∨ b = byte '\n' ∨ b = byte '\r'

instance (b : Byte) : Decidable (IsSpace b) :=
  inferInstanceAs (Decidable (_ ∨ _))

/-- Whitespace. -/
def Space (w : Bytes) : Prop :=
  ∀ b ∈ w, IsSpace b

/-- A decimal digit. -/
def IsDigit (b : Byte) : Prop :=
  0x30 ≤ b.toNat ∧ b.toNat ≤ 0x39

instance (b : Byte) : Decidable (IsDigit b) :=
  inferInstanceAs (Decidable (_ ∧ _))

/-- What may follow a value : nothing, whitespace, or the end of an element or a member. -/
def Follow : Bytes → Prop
  | [] => True
  | b :: _ => IsSpace b ∨ b = byte ',' ∨ b = byte ']' ∨ b = byte '}'

/-! ## Numbers -/

/-- A number without a sign, up to the point : zero, or digits that do not begin with zero. -/
def IsInt (p : Bytes) : Prop :=
  p = [byte '0'] ∨
    ∃ d ds, p = d :: ds ∧ IsDigit d ∧ d ≠ byte '0' ∧ ∀ b ∈ ds, IsDigit b

/-- A point with digits, or nothing. -/
def IsFrac (p : Bytes) : Prop :=
  p = [] ∨ ∃ ds, p = byte '.' :: ds ∧ ds ≠ [] ∧ ∀ b ∈ ds, IsDigit b

/-- An exponent, or nothing. -/
def IsExp (p : Bytes) : Prop :=
  p = [] ∨ ∃ e sign ds, p = e :: (sign ++ ds) ∧ (e = byte 'e' ∨ e = byte 'E') ∧
    (sign = [] ∨ sign = [byte '+'] ∨ sign = [byte '-']) ∧ ds ≠ [] ∧ ∀ b ∈ ds, IsDigit b

/-- The text of a number. -/
def IsNumber (p : Bytes) : Prop :=
  ∃ sign int frac exp, p = sign ++ (int ++ (frac ++ exp)) ∧
    (sign = [] ∨ sign = [byte '-']) ∧ IsInt int ∧ IsFrac frac ∧ IsExp exp

/-! ## Strings -/

/-- The unit of an escape of one character. -/
def escaped (e : Byte) : Option Unit16 :=
  if e = byte '"' then some 0x22
  else if e = byte '\\' then some 0x5c
  else if e = byte '/' then some 0x2f
  else if e = byte 'b' then some 0x08
  else if e = byte 'f' then some 0x0c
  else if e = byte 'n' then some 0x0a
  else if e = byte 'r' then some 0x0d
  else if e = byte 't' then some 0x09
  else none

/-- The value of a hexadecimal digit. -/
def hexValue (b : Byte) : Option ℕ :=
  if 0x30 ≤ b.toNat ∧ b.toNat ≤ 0x39 then some (b.toNat - 0x30)
  else if 0x41 ≤ b.toNat ∧ b.toNat ≤ 0x46 then some (b.toNat - 0x41 + 10)
  else if 0x61 ≤ b.toNat ∧ b.toNat ≤ 0x66 then some (b.toNat - 0x61 + 10)
  else none

/-- A text between quotes, and its units. -/
inductive Chars : Bytes → List Unit16 → Prop
  | nil : Chars [] []
  | char {c p s} (h20 : 0x20 ≤ c) (hquote : c ≠ 0x22) (hslash : c ≠ 0x5c) (hc : c < 0x110000)
      (h : Chars p s) : Chars (charBytes c ++ p) (charUnits c ++ s)
  | escape {e u p s} (he : escaped e = some u) (h : Chars p s) :
      Chars (byte '\\' :: e :: p) (u :: s)
  | hex {d₁ d₂ d₃ d₄ h₁ h₂ h₃ h₄ p s} (hd₁ : hexValue d₁ = some h₁) (hd₂ : hexValue d₂ = some h₂)
      (hd₃ : hexValue d₃ = some h₃) (hd₄ : hexValue d₄ = some h₄) (h : Chars p s) :
      Chars (byte '\\' :: byte 'u' :: d₁ :: d₂ :: d₃ :: d₄ :: p)
        (BitVec.ofNat 16 (((h₁ * 16 + h₂) * 16 + h₃) * 16 + h₄) :: s)

theorem Chars.append {p q : Bytes} {s t : List Unit16} (hp : Chars p s) (hq : Chars q t) :
    Chars (p ++ q) (s ++ t) := by
  induction hp with
  | nil => exact hq
  | char h20 hquote hslash hc _ ih =>
    rw [List.append_assoc, List.append_assoc]
    exact .char h20 hquote hslash hc ih
  | escape he _ ih => exact .escape he ih
  | hex hd₁ hd₂ hd₃ hd₄ _ ih => exact .hex hd₁ hd₂ hd₃ hd₄ ih

/-! ## Texts -/

/-- What the literals of a language denote : the text between the quotes of a string, and the text
of a number. -/
structure Lexis (ν : Type) where
  Chars : Bytes → List Unit16 → Prop
  Number : Bytes → ν → Prop

/-- The literals of JSON, where a number is what its text is read as. -/
def standard (read : Bytes → ν) : Lexis ν where
  Chars := Chars
  Number p n := IsNumber p ∧ n = read p

/-- Every literal of one language is one of the other, with the same meaning. -/
structure Lexis.Le (L L' : Lexis ν) : Prop where
  chars : ∀ {p s}, L.Chars p s → L'.Chars p s
  number : ∀ {p n}, L.Number p n → L'.Number p n

section Texts

variable (L : Lexis ν)

mutual

/-- The text of a value. -/
inductive Value : ℕ → Bytes → JsonTree ν → Prop
  | null {n} : Value (n + 1) (ascii "null") .null
  | bool {n} (b : Bool) : Value (n + 1) (ascii (if b then "true" else "false")) (.bool b)
  | number {n p x} (h : L.Number p x) : Value (n + 1) p (.number x)
  | string {n p s} (h : L.Chars p s) : Value (n + 1) (byte '"' :: (p ++ [byte '"'])) (.string s)
  | emptyArray {n w} (hw : Space w) : Value (n + 1) (byte '[' :: (w ++ [byte ']'])) (.array [])
  | array {n p elements} (h : Elements n p elements) :
      Value (n + 1) (byte '[' :: (p ++ [byte ']'])) (.array elements)
  | emptyObject {n w} (hw : Space w) : Value (n + 1) (byte '{' :: (w ++ [byte '}'])) (.object [])
  | object {n p members} (h : Members n p members) :
      Value (n + 1) (byte '{' :: (p ++ [byte '}'])) (.object members)

/-- The text of one or more elements of an array. -/
inductive Elements : ℕ → Bytes → List (JsonTree ν) → Prop
  | one {n w p v w'} (hw : Space w) (h : Value n p v) (hw' : Space w') :
      Elements n (w ++ (p ++ w')) [v]
  | more {n w p v w' q elements} (hw : Space w) (h : Value n p v) (hw' : Space w')
      (hrest : Elements n q elements) :
      Elements n (w ++ (p ++ (w' ++ byte ',' :: q))) (v :: elements)

/-- The text of one or more members of an object. -/
inductive Members : ℕ → Bytes → List (List Unit16 × JsonTree ν) → Prop
  | one {n w k s w₁ w₂ p v w'} (hw : Space w) (hk : L.Chars k s) (hw₁ : Space w₁)
      (hw₂ : Space w₂) (h : Value n p v) (hw' : Space w') :
      Members n (w ++ byte '"' :: (k ++ byte '"' :: (w₁ ++ byte ':' :: (w₂ ++ (p ++ w')))))
        [(s, v)]
  | more {n w k s w₁ w₂ p v w' q members} (hw : Space w) (hk : L.Chars k s) (hw₁ : Space w₁)
      (hw₂ : Space w₂) (h : Value n p v) (hw' : Space w') (hrest : Members n q members) :
      Members n (w ++ byte '"' :: (k ++ byte '"' :: (w₁ ++ byte ':' ::
        (w₂ ++ (p ++ (w' ++ byte ',' :: q)))))) ((s, v) :: members)

end

/-- A JSON text : a value, with whitespace around it. -/
def Text (n : ℕ) (p : Bytes) (v : JsonTree ν) : Prop :=
  ∃ w q w', p = w ++ (q ++ w') ∧ Space w ∧ Value L n q v ∧ Space w'

variable {L L' : Lexis ν}

theorem Elements.length_le {n : ℕ} {p : Bytes} {elements : List (JsonTree ν)}
    (h : Elements L n p elements) : elements.length ≤ p.length + 1 := by
  induction elements generalizing p with
  | nil => exact Nat.zero_le _
  | cons v elements ih =>
    cases h with
    | one => simp
    | more hw hv hw' hrest =>
      have hlen := ih hrest
      simp only [List.length_cons, List.length_append]
      omega

theorem Members.length_le {n : ℕ} {p : Bytes} {members : List (List Unit16 × JsonTree ν)}
    (h : Members L n p members) : members.length ≤ p.length := by
  induction members generalizing p with
  | nil => exact Nat.zero_le _
  | cons m members ih =>
    cases h with
    | one =>
      simp only [List.length_cons, List.length_nil, List.length_append]
      omega
    | more hw hk hw₁ hw₂ hv hw' hrest =>
      have hlen := ih hrest
      simp only [List.length_cons, List.length_append]
      omega

mutual

/-- A text of one language is one of a larger one. -/
theorem Value.mono (hL : L.Le L') {n : ℕ} {p : Bytes} {v : JsonTree ν} :
    Value L n p v → Value L' n p v
  | .null => .null
  | .bool b => .bool b
  | .number h => .number (hL.number h)
  | .string h => .string (hL.chars h)
  | .emptyArray hw => .emptyArray hw
  | .array h => .array (h.mono hL)
  | .emptyObject hw => .emptyObject hw
  | .object h => .object (h.mono hL)

theorem Elements.mono (hL : L.Le L') {n : ℕ} {p : Bytes} {elements : List (JsonTree ν)} :
    Elements L n p elements → Elements L' n p elements
  | .one hw h hw' => .one hw (h.mono hL) hw'
  | .more hw h hw' hrest => .more hw (h.mono hL) hw' (hrest.mono hL)

theorem Members.mono (hL : L.Le L') {n : ℕ} {p : Bytes}
    {members : List (List Unit16 × JsonTree ν)} : Members L n p members → Members L' n p members
  | .one hw hk hw₁ hw₂ h hw' => .one hw (hL.chars hk) hw₁ hw₂ (h.mono hL) hw'
  | .more hw hk hw₁ hw₂ h hw' hrest =>
    .more hw (hL.chars hk) hw₁ hw₂ (h.mono hL) hw' (hrest.mono hL)

end

mutual

/-- A value has no more inside each other than its text. -/
theorem Value.depth_le {n : ℕ} {p : Bytes} {v : JsonTree ν} : Value L n p v → v.depth ≤ n
  | .null => Nat.le_add_left 1 _
  | .bool _ => Nat.le_add_left 1 _
  | .number _ => Nat.le_add_left 1 _
  | .string _ => Nat.le_add_left 1 _
  | .emptyArray _ => Nat.le_add_left 1 _
  | .array h => Nat.succ_le_succ h.depth_le
  | .emptyObject _ => Nat.le_add_left 1 _
  | .object h => Nat.succ_le_succ h.depth_le

theorem Elements.depth_le {n : ℕ} {p : Bytes} {elements : List (JsonTree ν)} :
    Elements L n p elements → JsonTree.depthElements elements ≤ n
  | .one _ h _ => max_le h.depth_le (Nat.zero_le _)
  | .more _ h _ hrest => max_le h.depth_le hrest.depth_le

theorem Members.depth_le {n : ℕ} {p : Bytes} {members : List (List Unit16 × JsonTree ν)} :
    Members L n p members → JsonTree.depthMembers members ≤ n
  | .one _ _ _ _ h _ => max_le h.depth_le (Nat.zero_le _)
  | .more _ _ _ _ h _ hrest => max_le h.depth_le hrest.depth_le

end

/-! ## Putting texts together -/

theorem space_nil : Space [] :=
  fun _ h => nomatch h

/-- Texts of elements, each with the same space before it, make a text of all of them. -/
theorem elements_of_forall {α : Type} {n : ℕ} {w w' : Bytes} (hw : Space w) (hw' : Space w')
    {text : α → Bytes} {value : α → JsonTree ν} {a : α} {els : List α}
    (h : ∀ b ∈ a :: els, Value L n (text b) (value b)) :
    Elements L n (w ++ (text a ++ ((els.flatMap fun b => byte ',' :: (w ++ text b)) ++ w')))
      ((a :: els).map value) := by
  obtain ⟨ha, hels⟩ := List.forall_mem_cons.1 h
  induction els generalizing a with
  | nil => exact .one hw ha hw'
  | cons b els ih =>
    have hmore := Elements.more hw ha space_nil (ih hels (hels b List.mem_cons_self)
      (List.forall_mem_cons.1 hels).2)
    simpa only [List.nil_append, List.append_assoc, List.cons_append, List.flatMap_cons,
      List.map_cons] using hmore

/-- Texts of members, each with the same space before its name and before its value, make a text
of all of them. -/
theorem members_of_forall {α : Type} {n : ℕ} {w w₂ w' : Bytes} (hw : Space w) (hw₂ : Space w₂)
    (hw' : Space w') {name text : α → Bytes} {units : α → List Unit16} {value : α → JsonTree ν}
    {a : α} {els : List α} (hname : ∀ b ∈ a :: els, L.Chars (name b) (units b))
    (h : ∀ b ∈ a :: els, Value L n (text b) (value b)) :
    Members L n (w ++ (byte '"' :: (name a ++ byte '"' :: byte ':' :: (w₂ ++ text a)) ++
        ((els.flatMap fun b => byte ',' :: (w ++
          (byte '"' :: (name b ++ byte '"' :: byte ':' :: (w₂ ++ text b))))) ++ w')))
      ((a :: els).map fun b => (units b, value b)) := by
  obtain ⟨ha, hels⟩ := List.forall_mem_cons.1 h
  obtain ⟨hka, hkels⟩ := List.forall_mem_cons.1 hname
  induction els generalizing a with
  | nil =>
    have hone := Members.one hw hka space_nil hw₂ ha hw'
    simpa only [List.nil_append, List.append_assoc, List.cons_append, List.flatMap_nil,
      List.map_singleton] using hone
  | cons b els ih =>
    have hmore := Members.more hw hka space_nil hw₂ ha space_nil (ih hkels hels
      (hels b List.mem_cons_self) (List.forall_mem_cons.1 hels).2 (hkels b List.mem_cons_self)
      (List.forall_mem_cons.1 hkels).2)
    simpa only [List.nil_append, List.append_assoc, List.cons_append, List.flatMap_cons,
      List.map_cons] using hmore

end Texts

end JsonText

end TinyKvm
