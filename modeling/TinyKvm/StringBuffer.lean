import TinyKvm.Utf16
import Mathlib.Algebra.Order.Ring.Int

/-!
# The string buffers of QuickJS

A string of the engine has 8-bit characters or 16-bit ones, and a `StringBuffer`
collects one : it begins with characters of either kind, becomes wide at the first one that
needs 16 bits, and is reallocated when it is full. Every operation may have to
allocate, and whether that is granted, and how much more than asked for, is an
argument. A failed allocation is an exception, after which a buffer ignores every
operation. A write outside of the block of a buffer is `outside`.

An operation on a buffer with room for what it holds leaves one, with what it
appends in place (`apply_spec`). So any sequence of operations writes inside its
block, and makes the one string that has these characters, with 16-bit ones exactly
where they are needed, unless an allocation fails or the string is too long
(`build_eq_of`).
-/

namespace TinyKvm

namespace QuickJs

open Utf16 (Unit16)

/-- `JS_STRING_LEN_MAX`. -/
def lenMax : ℕ := 2 ^ 30 - 1

/-! ## Strings -/

/-- A `JSString`, by its characters. -/
inductive JSString where
  | str8 (chars : Bytes)
  | str16 (chars : List Unit16)
  deriving DecidableEq

namespace JSString

/-- `is_wide_char`. -/
def isWideChar : JSString → Bool
  | str8 _ => false
  | str16 _ => true

/-- The bytes of a character. -/
def width : JSString → ℕ
  | str8 _ => 1
  | str16 _ => 2

/-- The bytes of the zero that ends 8-bit characters. -/
def zero : JSString → ℕ
  | str8 _ => 1
  | str16 _ => 0

/-- The characters, as the script sees them. -/
def units : JSString → List Unit16
  | str8 chars => chars.map (·.setWidth 16)
  | str16 chars => chars

/-- `len`. -/
def len (s : JSString) : ℕ :=
  s.units.length

/-- The string with more characters, of as many bits as it has. -/
def push (p : List Unit16) : JSString → JSString
  | str8 chars => str8 (chars ++ p.map (·.setWidth 8))
  | str16 chars => str16 (chars ++ p)

end JSString

/-- Whether a character needs 16 bits. -/
def IsWide (u : Unit16) : Prop :=
  0x100 ≤ u.toNat

instance (u : Unit16) : Decidable (IsWide u) :=
  inferInstanceAs (Decidable (_ ≤ _))

/-- Why an operation ends : `error_status`, or a write outside of the block. -/
inductive Fault where
  | exception
  | outside
  deriving DecidableEq

/-- The int with the bits of a number. -/
def int (n : ℤ) : ℤ :=
  n.bmod (2 ^ 32)

/-- A `StringBuffer` without `error_status` : the string so far, the bytes of its block after the
header, and the characters it is said to have room for. -/
structure StringBuffer where
  str : JSString
  block : ℕ
  size : ℤ
  deriving DecidableEq

/-- The string that has these characters, wide if one of them has to be. -/
def JSString.of (p : List Unit16) : JSString :=
  if ∃ u ∈ p, IsWide u then .str16 p else .str8 (p.map (·.setWidth 8))

namespace StringBuffer

/-- What an allocation gives beyond what was asked for, or nothing if it fails. -/
abbrev Slack := Option (Fin (2 ^ 30))

/-- A block with `room` bytes after the 16 of the header : what it has, and what is beyond that. As
a `size_t` a size below zero is more than there is, and a block without room ends in the header. -/
def alloc (room : ℤ) : Slack → Except Fault (ℕ × ℕ)
  | none => .error .exception
  | some slack =>
    if room < -16 then .error .exception
    else if room < 0 then .error .outside
    else .ok (room.toNat + slack, slack)

/-- `string_buffer_init2`. -/
def init (size : ℤ) (isWide granted : Bool) : Except Fault StringBuffer :=
  let str := if isWide then .str16 [] else .str8 []
  (alloc (int (size * str.width) + str.zero) (if granted then some 0 else none)).bind fun r =>
    .ok ⟨str, r.1, size⟩

/-- Characters stored after the last one. -/
def store (p : List Unit16) (b : StringBuffer) : Except Fault StringBuffer :=
  if (b.str.len + p.length) * b.str.width ≤ b.block then .ok { b with str := b.str.push p }
  else .error .outside

/-- `string_buffer_widen`. -/
def widen (b : StringBuffer) (size : ℤ) (slack : Slack) : Except Fault StringBuffer :=
  (alloc (int (size * 2)) slack).bind fun r =>
    if b.str.len * 2 ≤ r.1 then .ok ⟨.str16 b.str.units, r.1, int (size + (r.2 / 2 : ℕ))⟩
    else .error .outside

/-- The new size of `string_buffer_realloc`. -/
def newSize (size newLen : ℤ) : ℤ :=
  min (max newLen ((int (size * 3)).tdiv 2)) lenMax

/-- `string_buffer_realloc`. -/
def realloc (b : StringBuffer) (newLen : ℤ) (c : ℕ) (slack : Slack) : Except Fault StringBuffer :=
  if newLen > lenMax then .error .exception
  else
    let size := newSize b.size newLen
    if b.str.isWideChar = false ∧ c ≥ 0x100 then b.widen size slack
    else
      (alloc (int (size * b.str.width) + b.str.zero) slack).bind fun r =>
        .ok ⟨b.str, r.1, min (int (size + (r.2 / b.str.width : ℕ))) lenMax⟩

/-- `string_buffer_putc_slow`. -/
def putcSlow (b : StringBuffer) (c : Unit16) (slack : Slack) : Except Fault StringBuffer :=
  (if b.str.len ≥ b.size then b.realloc (int (b.str.len + 1)) c.toNat slack else .ok b).bind
    fun b =>
      if b.str.isWideChar then b.store [c]
      else if c.toNat < 0x100 then b.store [c]
      else (b.widen b.size slack).bind (store [c])

/-- `string_buffer_putc8`. -/
def putc8 (b : StringBuffer) (c : Byte) (slack : Slack) : Except Fault StringBuffer :=
  (if b.str.len ≥ b.size then b.realloc (int (b.str.len + 1)) c.toNat slack else .ok b).bind
    (store [c.setWidth 16])

/-- `string_buffer_putc16`. -/
def putc16 (b : StringBuffer) (c : Unit16) (slack : Slack) : Except Fault StringBuffer :=
  if b.str.len < b.size ∧ (b.str.isWideChar ∨ c.toNat < 0x100) then b.store [c]
  else b.putcSlow c slack

/-- `string_buffer_write8`. -/
def write8 (b : StringBuffer) (p : Bytes) (slack : Slack) : Except Fault StringBuffer :=
  let newLen := int (b.str.len + p.length)
  (if newLen > b.size then b.realloc newLen 0 slack else .ok b).bind
    (store (p.map (·.setWidth 16)))

/-- The bits that some character has. -/
def orAll (p : List Unit16) : ℕ :=
  p.foldl (fun c u => c ||| u.toNat) 0

/-- `string_buffer_write16`. -/
def write16 (b : StringBuffer) (p : List Unit16) (slack : Slack) : Except Fault StringBuffer :=
  let newLen := int (b.str.len + p.length)
  (if newLen > b.size then b.realloc newLen (orAll p) slack
    else if b.str.isWideChar = false ∧ orAll p ≥ 0x100 then b.widen b.size slack
    else .ok b).bind (store p)

/-- `string_buffer_concat`. -/
def concat (b : StringBuffer) (s : JSString) (start stop : ℕ) (slack : Slack) :
    Except Fault StringBuffer :=
  if stop ≤ start then .ok b
  else
    match s with
    | .str8 chars => b.write8 ((chars.drop start).take (stop - start)) slack
    | .str16 chars => b.write16 ((chars.drop start).take (stop - start)) slack

/-- The loop of `string_buffer_fill`. -/
def fillLoop (c : Unit16) (slack : Slack) : ℕ → StringBuffer → Except Fault StringBuffer
  | 0, b => .ok b
  | count + 1, b => (b.putc16 c slack).bind (fillLoop c slack count)

/-- `string_buffer_fill`. At most one of its allocations takes place. -/
def fill (b : StringBuffer) (c : Unit16) (count : ℕ) (slack : Slack) :
    Except Fault StringBuffer :=
  let newLen := int (b.str.len + count)
  (if newLen > b.size then b.realloc newLen c.toNat slack else .ok b).bind
    (fillLoop c slack count)

/-- The block at the end, made smaller if that is granted. -/
def shrink (b : StringBuffer) (slack : Slack) : Except Fault ℕ :=
  if b.str.len < b.size then
    match alloc (int (b.str.len * b.str.width) + b.str.zero) slack with
    | .ok r => .ok r.1
    | .error .exception => .ok b.block
    | .error .outside => .error .outside
  else .ok b.block

/-- `string_buffer_end`. -/
def finish (b : StringBuffer) (slack : Slack) : Except Fault JSString :=
  if b.str.len = 0 then .ok (.str8 [])
  else
    (b.shrink slack).bind fun block =>
      if b.str.len * b.str.width + b.str.zero ≤ block then .ok b.str else .error .outside

/-! ## Sequences of operations -/

/-- An operation that appends. A part of a string ends in it. -/
inductive Op where
  | putc8 (c : Byte)
  | putc16 (c : Unit16)
  | write8 (p : Bytes)
  | write16 (p : List Unit16)
  | concat (s : JSString) (start stop : ℕ) (h : stop ≤ s.len)
  | fill (c : Unit16) (count : ℕ)

/-- What an operation appends. -/
def Op.units : Op → List Unit16
  | putc8 c => [c.setWidth 16]
  | putc16 c => [c]
  | write8 p => p.map (·.setWidth 16)
  | write16 p => p
  | concat s start stop _ => (s.units.drop start).take (stop - start)
  | fill c count => List.replicate count c

/-- An operation on a buffer. -/
def Op.apply (b : StringBuffer) (slack : Slack) : Op → Except Fault StringBuffer
  | putc8 c => b.putc8 c slack
  | putc16 c => b.putc16 c slack
  | write8 p => b.write8 p slack
  | write16 p => b.write16 p slack
  | concat s start stop _ => b.concat s start stop slack
  | fill c count => b.fill c count slack

/-- Operations one after the other, each with the allocation it may make. -/
def run : List (Op × Slack) → StringBuffer → Except Fault StringBuffer
  | [], b => .ok b
  | (op, slack) :: rest, b => (op.apply b slack).bind (run rest)

/-- A string made by `string_buffer_init2`, operations, and `string_buffer_end`. -/
def build (size : ℤ) (isWide granted : Bool) (ops : List (Op × Slack)) (shrink : Slack) :
    Except Fault JSString :=
  ((init size isWide granted).bind (run ops)).bind (finish · shrink)

end StringBuffer

/-! ## Outcomes -/

/-- An outcome : an exception, for a reason, or a result with a property. -/
inductive Yields {α : Type} (why : Prop) (Q : α → Prop) : Except Fault α → Prop
  | ok {a : α} (h : Q a) : Yields why Q (.ok a)
  | exception (h : why) : Yields why Q (.error .exception)

theorem Yields.bind {α β : Type} {why : Prop} {Q : α → Prop} {R : β → Prop}
    {r : Except Fault α} {f : α → Except Fault β} (h : Yields why Q r)
    (hf : ∀ a, Q a → Yields why R (f a)) : Yields why R (r.bind f) := by
  cases h with
  | ok h => exact hf _ h
  | exception h => exact .exception h

theorem Yields.imp {α : Type} {why why' : Prop} {Q R : α → Prop} {r : Except Fault α}
    (h : Yields why Q r) (hwhy : why → why') (hQ : ∀ a, Q a → R a) : Yields why' R r := by
  cases h with
  | ok h => exact .ok (hQ _ h)
  | exception h => exact .exception (hwhy h)

theorem Yields.cases {α : Type} {why : Prop} {Q : α → Prop} {r : Except Fault α}
    (h : Yields why Q r) : (∃ a, r = .ok a ∧ Q a) ∨ r = .error .exception ∧ why := by
  cases h with
  | ok h => exact .inl ⟨_, rfl, h⟩
  | exception h => exact .inr ⟨rfl, h⟩

/-! ## Characters -/

namespace JSString

theorem len_str8 (chars : Bytes) : (str8 chars).len = chars.length := by
  simp [len, units]

theorem len_str16 (chars : List Unit16) : (str16 chars).len = chars.length :=
  rfl

theorem isWideChar_push (s : JSString) (p : List Unit16) :
    (s.push p).isWideChar = s.isWideChar := by
  cases s <;> rfl

theorem width_push (s : JSString) (p : List Unit16) : (s.push p).width = s.width := by
  cases s <;> rfl

theorem zero_push (s : JSString) (p : List Unit16) : (s.push p).zero = s.zero := by
  cases s <;> rfl

/-- Characters of 8 bits survive in 8 bits. -/
theorem setWidth_setWidth {u : Unit16} (h : ¬IsWide u) : (u.setWidth 8).setWidth 16 = u := by
  apply BitVec.eq_of_toNat_eq
  unfold IsWide at h
  rw [BitVec.toNat_setWidth, BitVec.toNat_setWidth]
  omega

theorem not_isWide_setWidth (c : Byte) : ¬IsWide (c.setWidth 16) := by
  unfold IsWide
  rw [BitVec.toNat_setWidth]
  omega

theorem units_push {s : JSString} {p : List Unit16}
    (h : s.isWideChar = true ∨ ∀ u ∈ p, ¬IsWide u) : (s.push p).units = s.units ++ p := by
  cases s with
  | str8 chars =>
    have hp : ∀ u ∈ p, ¬IsWide u := h.resolve_left (by simp [isWideChar])
    have hmap : (p.map (·.setWidth 8)).map (·.setWidth 16) = p := by
      rw [List.map_map]
      exact (List.map_congr_left fun u hu => setWidth_setWidth (hp u hu)).trans (List.map_id p)
    rw [push, units, List.map_append, hmap, units]
  | str16 chars => rfl

theorem eq_of_units {s : JSString} {p : List Unit16} (hunits : s.units = p)
    (hwide : s.isWideChar = true ↔ ∃ u ∈ p, IsWide u) : s = of p := by
  subst hunits
  unfold of
  cases s with
  | str8 chars =>
    rw [if_neg (hwide.not.1 Bool.false_ne_true), units, List.map_map]
    refine congrArg str8 ((List.map_id chars).symm.trans (List.map_congr_left fun c _ => ?_))
    apply BitVec.eq_of_toNat_eq
    rw [Function.comp_apply, BitVec.toNat_setWidth, BitVec.toNat_setWidth, id]
    omega
  | str16 chars => rw [if_pos (hwide.1 rfl), units]

theorem eq_str16 {s : JSString} (h : s.isWideChar = true) : s = .str16 s.units := by
  cases s with
  | str8 chars => cases h
  | str16 chars => rfl

/-- Where there is nothing to widen for, the string stays of its kind. -/
theorem isWideChar_or_iff {s : JSString} {wide : Prop} (h : ¬(s.isWideChar = false ∧ wide)) :
    s.isWideChar = true ∨ wide ↔ s.isWideChar = true := by
  rw [not_and_or, Bool.not_eq_false] at h
  exact or_iff_left_of_imp fun hwide => h.resolve_right (not_not_intro hwide)

end JSString

/-! ## Room -/

theorem int_eq {n : ℤ} (h : -2 ^ 31 ≤ n) (h' : n < 2 ^ 31) : int n = n :=
  Int.bmod_eq_of_le h h'

theorem int_of_ge {n : ℤ} (h : 2 ^ 31 ≤ n) (h' : n < 2 ^ 32) : int n = n - 2 ^ 32 := by
  have hword : ((2 ^ 32 : ℕ) : ℤ) = 2 ^ 32 := rfl
  rw [int, Int.bmod, hword, Int.emod_eq_of_lt (by omega) h', if_neg (by omega)]

/-- The bytes of a string that is not too long are an int. -/
theorem int_mul_width {size : ℤ} (h : 0 ≤ size) (hmax : size ≤ lenMax) {s : JSString} :
    int (size * s.width) = size * s.width := by
  have hbytes : 0 ≤ size * s.width ∧ size * s.width < 2 ^ 31 := by
    unfold lenMax at hmax
    cases s <;> dsimp only [JSString.width] <;> omega
  exact int_eq (by omega) hbytes.2

namespace StringBuffer

/-- A buffer has room for its characters and for as many as its size says. A narrow one can be
widened, and a wide one has grown by at most what an allocation gave beyond what was asked for. -/
structure Valid (b : StringBuffer) : Prop where
  len_le : b.str.len ≤ b.size
  block_le : b.size * b.str.width + b.str.zero ≤ b.block
  size_le : b.size ≤ lenMax + if b.str.isWideChar then 2 ^ 29 else 0

/-- The same characters, with room for `n`, and wide if it was or has to be. -/
structure Grown (b : StringBuffer) (n : ℤ) (wide : Prop) (b' : StringBuffer) : Prop where
  valid : b'.Valid
  units_eq : b'.str.units = b.str.units
  le_size : n ≤ b'.size
  wide_iff : b'.str.isWideChar = true ↔ b.str.isWideChar = true ∨ wide

/-- More characters, and wide if it was or has to be. -/
structure Appended (b : StringBuffer) (p : List Unit16) (b' : StringBuffer) : Prop where
  valid : b'.Valid
  units_eq : b'.str.units = b.str.units ++ p
  wide_iff : b'.str.isWideChar = true ↔ b.str.isWideChar = true ∨ ∃ u ∈ p, IsWide u

variable {b : StringBuffer} {slack : Slack}

theorem Valid.grown (h : b.Valid) {n : ℤ} (hn : n ≤ b.size) : b.Grown n False b :=
  ⟨h, rfl, hn, by simp⟩

theorem Valid.size_le_of_narrow (h : b.Valid) (hb : b.str.isWideChar = false) :
    b.size ≤ lenMax := by
  have hsize := h.size_le
  rwa [hb, if_neg Bool.false_ne_true, add_zero] at hsize

theorem Valid.size_lt (h : b.Valid) : b.size < 2 ^ 30 + 2 ^ 29 := by
  have hsize := h.size_le
  unfold lenMax at hsize
  split_ifs at hsize <;> omega

/-- A block that is granted has the room that was asked for. -/
theorem alloc_spec {room : ℤ} (h : 0 ≤ room) :
    Yields (slack = none) (fun r : ℕ × ℕ => (r.1 : ℤ) = room + r.2 ∧ r.2 < 2 ^ 30)
      (alloc room slack) := by
  cases slack with
  | none => exact .exception rfl
  | some slack =>
    rw [alloc, if_neg (by omega), if_neg (by omega)]
    refine .ok ⟨?_, slack.isLt⟩
    rw [Nat.cast_add, Int.toNat_of_nonneg h]

/-- A size below zero is never granted. -/
theorem alloc_of_lt {room : ℤ} (h : room < -16) : alloc room slack = .error .exception := by
  cases slack with
  | none => rfl
  | some slack => exact if_pos h

theorem newSize_spec (size : ℤ) {newLen : ℤ} (h : newLen ≤ lenMax) :
    newLen ≤ newSize size newLen ∧ newSize size newLen ≤ lenMax :=
  ⟨le_min (le_max_left _ _) h, min_le_right _ _⟩

theorem widen_spec {size : ℤ} (hlen : b.str.len ≤ size) (hsize : size ≤ lenMax) :
    Yields (slack = none) (b.Grown size True) (b.widen size slack) := by
  unfold widen
  have hroom : int (size * 2) = size * 2 := int_mul_width (by omega) hsize (s := .str16 [])
  unfold lenMax at hsize
  rw [hroom]
  refine (alloc_spec (by omega)).bind fun r hr => ?_
  obtain ⟨hblock, hslack⟩ := hr
  have hgrown : int (size + (r.2 / 2 : ℕ)) = size + (r.2 / 2 : ℕ) := int_eq (by omega) (by omega)
  rw [if_pos (by omega), hgrown]
  refine .ok ⟨⟨?_, ?_, ?_⟩, rfl, ?_, iff_of_true rfl (.inr trivial)⟩
  · rw [JSString.len_str16, ← JSString.len]
    dsimp only
    omega
  · dsimp only [JSString.width, JSString.zero]
    omega
  · rw [JSString.isWideChar, if_pos rfl, lenMax]
    dsimp only
    omega
  · dsimp only
    omega

theorem realloc_spec {newLen : ℤ} (hlen : b.str.len ≤ newLen) (c : ℕ) :
    Yields (slack = none ∨ lenMax < newLen) (b.Grown newLen (c ≥ 0x100))
      (b.realloc newLen c slack) := by
  unfold realloc
  by_cases hmax : newLen > lenMax
  · rw [if_pos hmax]
    exact .exception (.inr hmax)
  have ⟨hle, hle'⟩ := newSize_spec b.size (not_lt.1 hmax)
  rw [if_neg hmax]
  dsimp only
  generalize newSize b.size newLen = size at hle hle'
  split_ifs with hwide
  · refine (widen_spec (hlen.trans hle) hle').imp .inl fun b' h => ?_
    exact ⟨h.valid, h.units_eq, hle.trans h.le_size, by simp [h.wide_iff, hwide.2]⟩
  have hpos : 0 ≤ size * b.str.width := Int.mul_nonneg (by omega) (by omega)
  rw [int_mul_width (by omega) hle']
  refine ((alloc_spec (by omega)).imp .inl fun _ h => h).bind fun r hr => ?_
  obtain ⟨hblock, hslack⟩ := hr
  have hmore : r.2 / b.str.width * b.str.width ≤ r.2 := Nat.div_mul_le_self _ _
  have hmore' : r.2 / b.str.width ≤ r.2 := Nat.div_le_self _ _
  generalize r.2 / b.str.width = more at hmore hmore'
  have hgrown : int (size + more) = size + more := by
    unfold lenMax at hle'
    exact int_eq (by omega) (by omega)
  rw [hgrown]
  have hsize : newLen ≤ min (size + more) lenMax := le_min (by omega) (not_lt.1 hmax)
  refine .ok ⟨⟨hlen.trans hsize, ?_, ?_⟩, rfl, hsize, ?_⟩
  · have hmin : min (size + (more : ℤ)) lenMax ≤ size + more := min_le_left _ _
    dsimp only
    cases hstr : b.str <;> rw [hstr] at hblock hmore <;>
      dsimp only [JSString.width, JSString.zero] at hblock hmore ⊢ <;> omega
  · refine (min_le_right _ _).trans (le_add_of_nonneg_right ?_)
    split_ifs <;> omega
  · exact (JSString.isWideChar_or_iff hwide).symm

/-- The block has room for characters that the size has room for, and for the zero. -/
theorem Valid.room (h : b.Valid) {n : ℕ} (hn : n ≤ b.size) :
    n * b.str.width + b.str.zero ≤ b.block := by
  have hle := h.block_le
  cases hstr : b.str <;> rw [hstr] at hle <;>
    dsimp only [JSString.width, JSString.zero] at hle ⊢ <;> omega

theorem store_spec (h : b.Valid) {p : List Unit16} (hroom : b.str.len + p.length ≤ b.size)
    (hp : b.str.isWideChar = true ∨ ∀ u ∈ p, ¬IsWide u) :
    ∃ b', store p b = .ok b' ∧ b'.Valid ∧ b'.str.units = b.str.units ++ p ∧
      b'.str.isWideChar = b.str.isWideChar := by
  have hunits := JSString.units_push hp
  have hblock : (b.str.len + p.length) * b.str.width ≤ b.block :=
    (Nat.le_add_right _ _).trans (h.room (by rwa [Nat.cast_add]))
  have hlen : (b.str.push p).len = b.str.len + p.length := by
    rw [JSString.len, hunits, List.length_append, JSString.len]
  refine ⟨_, if_pos hblock, ⟨?_, ?_, ?_⟩, hunits, JSString.isWideChar_push ..⟩
  · rw [hlen, Nat.cast_add]
    exact hroom
  · dsimp only
    rw [JSString.width_push, JSString.zero_push]
    exact h.block_le
  · dsimp only
    rw [JSString.isWideChar_push]
    exact h.size_le

theorem Grown.len_eq {b' : StringBuffer} {n : ℤ} {wide : Prop} (h : b.Grown n wide b') :
    b'.str.len = b.str.len :=
  congrArg List.length h.units_eq

/-- Storing in a buffer that was grown for it. -/
theorem Grown.store {b' : StringBuffer} {n : ℤ} {wide : Prop} (h : b.Grown n wide b')
    {p : List Unit16} (hroom : b.str.len + p.length ≤ n)
    (hwide : b.str.isWideChar = true ∨ wide ↔ b.str.isWideChar = true ∨ ∃ u ∈ p, IsWide u)
    {why : Prop} : Yields why (b.Appended p) (b'.store p) := by
  have hp : b'.str.isWideChar = true ∨ ∀ u ∈ p, ¬IsWide u := by
    by_cases hany : ∃ u ∈ p, IsWide u
    · exact .inl (h.wide_iff.2 (hwide.2 (.inr hany)))
    · exact .inr fun u hu hw => hany ⟨u, hu, hw⟩
  have hroom' : b'.str.len + p.length ≤ b'.size := by
    rw [h.len_eq]
    exact hroom.trans h.le_size
  obtain ⟨b'', hstore, hvalid, hunits, hw⟩ := store_spec h.valid hroom' hp
  rw [hstore]
  refine .ok ⟨hvalid, by rw [hunits, h.units_eq], ?_⟩
  rw [hw, h.wide_iff, hwide]

/-- Storing characters of 8 bits in a buffer that was not widened for them. -/
theorem Grown.store8 {b' : StringBuffer} {n : ℤ} {wide : Prop} (h : b.Grown n wide b') {p : Bytes}
    (hroom : b.str.len + p.length ≤ n) (hwide : ¬wide) {why : Prop} :
    Yields why (b.Appended (p.map (·.setWidth 16))) (b'.store (p.map (·.setWidth 16))) := by
  refine h.store (by rwa [List.length_map]) ?_
  simp [hwide, JSString.not_isWide_setWidth]

/-! ## Operations -/

/-- Why appending `n` characters ends in an exception : an allocation is denied, or the string
gets too long. -/
def Fails (b : StringBuffer) (denied : Prop) (n : ℕ) : Prop :=
  denied ∨ lenMax < b.str.len + n

theorem int_len_add {n : ℕ} (hint : b.str.len + n < 2 ^ 31) :
    int (b.str.len + n) = b.str.len + n :=
  int_eq (by omega) (by omega)

/-- Growing for `n` more characters. -/
theorem realloc_append_spec {n : ℕ} (hint : b.str.len + n < 2 ^ 31) (c : ℕ) :
    Yields (b.Fails (slack = none) n) (b.Grown (b.str.len + n) (c ≥ 0x100))
      (b.realloc (int (b.str.len + n)) c slack) := by
  rw [int_len_add hint]
  refine (realloc_spec (by omega) c).imp (Or.imp_right fun hmax => ?_) fun _ h => h
  exact Int.ofNat_lt.1 hmax

/-- Becoming wide, with as much room as there is. -/
theorem Valid.widen (h : b.Valid) (hnarrow : b.str.isWideChar = false) (n : ℕ) :
    Yields (b.Fails (slack = none) n) (b.Grown b.size True) (b.widen b.size slack) :=
  (widen_spec h.len_le (h.size_le_of_narrow hnarrow)).imp .inl fun _ h => h

theorem Valid.appended_nil (h : b.Valid) : b.Appended [] b :=
  ⟨h, (List.append_nil _).symm, by simp⟩

theorem Appended.len_eq {b' : StringBuffer} {p : List Unit16} (h : b.Appended p b') :
    b'.str.len = b.str.len + p.length := by
  rw [JSString.len, h.units_eq, List.length_append, JSString.len]

theorem Appended.trans {b' b'' : StringBuffer} {p q : List Unit16} (h : b.Appended p b')
    (h' : b'.Appended q b'') : b.Appended (p ++ q) b'' := by
  refine ⟨h'.valid, by rw [h'.units_eq, h.units_eq, List.append_assoc], ?_⟩
  rw [h'.wide_iff, h.wide_iff, or_assoc]
  simp only [List.mem_append, or_and_right, exists_or]

/-- Appending to a buffer that was grown for it. -/
theorem Grown.append {b' b'' : StringBuffer} {n : ℤ} {wide : Prop} {p : List Unit16}
    (h : b.Grown n wide b') (h' : b'.Appended p b'') (hwide : wide → ∃ u ∈ p, IsWide u) :
    b.Appended p b'' := by
  refine ⟨h'.valid, by rw [h'.units_eq, h.units_eq], ?_⟩
  rw [h'.wide_iff, h.wide_iff, or_assoc, or_iff_right_of_imp hwide]

/-- Appending in two parts. -/
theorem append_spec {denied denied' : Prop} {p q : List Unit16} {r : Except Fault StringBuffer}
    {f : StringBuffer → Except Fault StringBuffer}
    (hint : b.str.len + (p ++ q).length < 2 ^ 31)
    (h : Yields (b.Fails denied p.length) (b.Appended p) r)
    (hf : ∀ b' : StringBuffer, b'.Valid → b'.str.len + q.length < 2 ^ 31 →
      Yields (b'.Fails denied' q.length) (b'.Appended q) (f b')) :
    Yields (b.Fails (denied ∨ denied') (p ++ q).length) (b.Appended (p ++ q)) (r.bind f) := by
  rw [List.length_append] at hint ⊢
  refine (h.imp ?_ fun _ h => h).bind fun b' hb' => ?_
  · rintro (hdenied | hmax)
    · exact .inl (.inl hdenied)
    · exact .inr (hmax.trans_le (Nat.add_le_add_left (Nat.le_add_right _ _) _))
  · have hint' : b'.str.len + q.length < 2 ^ 31 := by
      rwa [hb'.len_eq, Nat.add_assoc]
    refine (hf b' hb'.valid hint').imp ?_ fun b'' hb'' => hb'.trans hb''
    rintro (hdenied | hmax)
    · exact .inl (.inr hdenied)
    · rw [hb'.len_eq, Nat.add_assoc] at hmax
      exact .inr hmax

theorem putc8_spec (h : b.Valid) (c : Byte) (hint : b.str.len + 1 < 2 ^ 31) :
    Yields (b.Fails (slack = none) 1) (b.Appended [c.setWidth 16]) (b.putc8 c slack) := by
  unfold putc8
  split_ifs with hfull
  · refine (realloc_append_spec hint _).bind fun b' hb' => ?_
    exact hb'.store8 (p := [c]) le_rfl (by omega)
  · exact (h.grown (Int.add_one_le_iff.2 (not_le.1 hfull))).store8 (p := [c]) le_rfl not_false

theorem putcSlow_spec (h : b.Valid) (c : Unit16) (hint : b.str.len + 1 < 2 ^ 31) :
    Yields (b.Fails (slack = none) 1) (b.Appended [c]) (b.putcSlow c slack) := by
  unfold putcSlow
  by_cases hfull : b.str.len ≥ b.size
  · rw [if_pos hfull]
    refine (realloc_append_spec hint _).bind fun b' hb' => ?_
    have hstore : Yields (b.Fails (slack = none) 1) (b.Appended [c]) (b'.store [c]) :=
      hb'.store le_rfl (by simp [IsWide])
    split_ifs with hw hc
    · exact hstore
    · exact hstore
    · exact absurd (hb'.wide_iff.2 (.inr (not_lt.1 hc))) hw
  · rw [if_neg hfull]
    have hroom : b.str.len + 1 ≤ b.size := Int.add_one_le_iff.2 (not_le.1 hfull)
    simp only [Except.bind]
    split_ifs with hw hc
    · exact (h.grown hroom).store le_rfl (by simp [hw])
    · exact (h.grown hroom).store le_rfl (by simp [IsWide, not_le.2 hc])
    · refine (h.widen (Bool.eq_false_iff.2 hw) 1).bind fun b' hb' => ?_
      refine hb'.store ?_ (by simp [IsWide, not_lt.1 hc])
      exact hroom

theorem putc16_spec (h : b.Valid) (c : Unit16) (hint : b.str.len + 1 < 2 ^ 31) :
    Yields (b.Fails (slack = none) 1) (b.Appended [c]) (b.putc16 c slack) := by
  unfold putc16
  split_ifs with hfast
  · refine (h.grown (Int.add_one_le_iff.2 hfast.1)).store le_rfl ?_
    rcases hfast.2 with hw | hc
    · simp [hw]
    · simp [IsWide, not_le.2 hc]
  · exact putcSlow_spec h c hint

theorem write8_spec (h : b.Valid) (p : Bytes) (hint : b.str.len + p.length < 2 ^ 31) :
    Yields (b.Fails (slack = none) p.length) (b.Appended (p.map (·.setWidth 16)))
      (b.write8 p slack) := by
  unfold write8
  dsimp only
  split_ifs with hfull
  · refine (realloc_append_spec hint _).bind fun b' hb' => ?_
    exact hb'.store8 le_rfl (by omega)
  · rw [int_len_add hint] at hfull
    exact (h.grown (not_lt.1 hfull)).store8 le_rfl not_false

/-- A character that needs 16 bits shows in the bits of all. -/
theorem orAll_lt_iff (p : List Unit16) : orAll p < 0x100 ↔ ∀ u ∈ p, ¬IsWide u := by
  have hfold : ∀ (p : List Unit16) (c : ℕ), p.foldl (fun c u => c ||| u.toNat) c < 2 ^ 8 ↔
      c < 2 ^ 8 ∧ ∀ u ∈ p, ¬IsWide u := by
    intro p
    induction p with
    | nil => simp
    | cons u p ih =>
      intro c
      have hor : c ||| u.toNat < 2 ^ 8 ↔ c < 2 ^ 8 ∧ u.toNat < 2 ^ 8 :=
        ⟨fun h => ⟨Nat.left_le_or.trans_lt h, Nat.right_le_or.trans_lt h⟩,
          fun h => Nat.or_lt_two_pow h.1 h.2⟩
      rw [List.foldl_cons, ih, hor, List.forall_mem_cons, and_assoc]
      simp [IsWide]
  simpa [orAll] using hfold p 0

theorem orAll_ge_iff (p : List Unit16) : orAll p ≥ 0x100 ↔ ∃ u ∈ p, IsWide u := by
  rw [ge_iff_le, ← not_lt, orAll_lt_iff]
  simp

theorem write16_spec (h : b.Valid) (p : List Unit16) (hint : b.str.len + p.length < 2 ^ 31) :
    Yields (b.Fails (slack = none) p.length) (b.Appended p) (b.write16 p slack) := by
  unfold write16
  dsimp only
  split_ifs with hfull hwide
  · refine (realloc_append_spec hint _).bind fun b' hb' => ?_
    exact hb'.store le_rfl (by rw [orAll_ge_iff])
  · rw [int_len_add hint] at hfull
    refine (h.widen hwide.1 _).bind fun b' hb' => ?_
    refine hb'.store (not_lt.1 hfull) ?_
    exact iff_of_true (.inr trivial) (.inr ((orAll_ge_iff p).1 hwide.2))
  · rw [int_len_add hint] at hfull
    refine (h.grown (not_lt.1 hfull)).store le_rfl ?_
    rw [or_false, ← orAll_ge_iff]
    exact (JSString.isWideChar_or_iff hwide).symm

theorem concat_spec (h : b.Valid) (s : JSString) (start stop : ℕ)
    (hint : b.str.len + ((s.units.drop start).take (stop - start)).length < 2 ^ 31) :
    Yields (b.Fails (slack = none) ((s.units.drop start).take (stop - start)).length)
      (b.Appended ((s.units.drop start).take (stop - start))) (b.concat s start stop slack) := by
  unfold concat
  split_ifs with hlen
  · rw [Nat.sub_eq_zero_of_le hlen, List.take_zero]
    exact .ok h.appended_nil
  cases s with
  | str8 chars =>
    rw [JSString.units, ← List.map_drop, ← List.map_take, List.length_map] at hint ⊢
    exact write8_spec h _ hint
  | str16 chars => exact write16_spec h _ hint

theorem fillLoop_spec (c : Unit16) (count : ℕ) (h : b.Valid)
    (hint : b.str.len + (List.replicate count c).length < 2 ^ 31) :
    Yields (b.Fails (slack = none) (List.replicate count c).length)
      (b.Appended (List.replicate count c)) (fillLoop c slack count b) := by
  induction count generalizing b with
  | zero => exact .ok h.appended_nil
  | succ count ih =>
    rw [List.replicate_succ, ← List.singleton_append] at hint ⊢
    have hone : b.str.len + 1 < 2 ^ 31 := by
      rw [List.length_append, List.length_singleton] at hint
      omega
    refine (append_spec hint (putc16_spec h c hone) fun b' hb' => ih hb').imp ?_ fun _ h => h
    rw [or_self]
    exact id

theorem fill_spec (h : b.Valid) (c : Unit16) (count : ℕ)
    (hint : b.str.len + (List.replicate count c).length < 2 ^ 31) :
    Yields (b.Fails (slack = none) (List.replicate count c).length)
      (b.Appended (List.replicate count c)) (b.fill c count slack) := by
  have hlen : b.str.len + count < 2 ^ 31 := by
    rwa [List.length_replicate] at hint
  unfold fill
  dsimp only
  split_ifs with hfull
  · have hcount : 0 < count := by
      have hle := h.len_le
      rw [int_len_add hlen] at hfull
      omega
    refine ((realloc_append_spec hlen _).imp ?_ fun _ h => h).bind fun b' hb' => ?_
    · rw [List.length_replicate]
      exact id
    · rw [← hb'.len_eq] at hint
      refine (fillLoop_spec c count hb'.valid hint).imp ?_ fun b'' hb'' => ?_
      · unfold Fails
        rw [hb'.len_eq]
        exact id
      · exact hb'.append hb'' fun hc => ⟨c, List.mem_replicate.2 ⟨hcount.ne', rfl⟩, hc⟩
  · exact fillLoop_spec c count h hint

/-- Every operation keeps the room, and appends what it should unless an allocation fails or the
string gets too long. -/
theorem apply_spec (h : b.Valid) (op : Op) (hint : b.str.len + op.units.length < 2 ^ 31) :
    Yields (b.Fails (slack = none) op.units.length) (b.Appended op.units) (op.apply b slack) := by
  cases op with
  | putc8 c => exact putc8_spec h c hint
  | putc16 c => exact putc16_spec h c hint
  | write8 p =>
    rw [Op.units, List.length_map] at hint ⊢
    exact write8_spec h p hint
  | write16 p => exact write16_spec h p hint
  | concat s start stop hstop => exact concat_spec h s start stop hint
  | fill c count => exact fill_spec h c count hint

/-- What the end leaves of the block has room for the string and its zero. -/
theorem shrink_spec (h : b.Valid) (slack : Slack) :
    ∃ block, b.shrink slack = .ok block ∧ b.str.len * b.str.width + b.str.zero ≤ block := by
  have hlen := h.len_le
  have hblock := h.room hlen
  unfold shrink
  by_cases hless : b.str.len < b.size
  · rw [if_pos hless]
    by_cases hint : (b.str.len * b.str.width : ℤ) < 2 ^ 31
    · have hpos : 0 ≤ (b.str.len * b.str.width : ℤ) := Int.mul_nonneg (by omega) (by omega)
      rw [int_eq (by omega) hint]
      have hroom : 0 ≤ (b.str.len * b.str.width + b.str.zero : ℤ) := by omega
      obtain ⟨r, hr, hle, -⟩ | ⟨hr, -⟩ := (alloc_spec hroom).cases
      · rw [hr]
        exact ⟨_, rfl, by omega⟩
      · rw [hr]
        exact ⟨_, rfl, hblock⟩
    · -- A wide string this long is kept in its block : the size that is asked for is negative.
      have hlt : int (b.str.len * b.str.width) + b.str.zero < -16 := by
        have hsize := h.size_lt
        have hbytes : (b.str.len * b.str.width : ℤ) < 2 ^ 31 + 2 ^ 30 ∧ b.str.zero ≤ 1 := by
          cases hstr : b.str <;> rw [hstr] at hlen <;>
            dsimp only [JSString.width, JSString.zero] <;> omega
        rw [int_of_ge (not_lt.1 hint) (by omega)]
        omega
      rw [alloc_of_lt hlt]
      exact ⟨_, rfl, hblock⟩
  · rw [if_neg hless]
    exact ⟨_, rfl, hblock⟩

/-- The end of a buffer is the string in it. -/
theorem finish_spec (h : b.Valid) (slack : Slack) :
    ∃ s, b.finish slack = .ok s ∧ s.units = b.str.units ∧
      (s.isWideChar = true ↔ b.str.units ≠ [] ∧ b.str.isWideChar = true) := by
  obtain ⟨block, hshrink, hblock⟩ := shrink_spec h slack
  unfold finish
  by_cases hlen : b.str.len = 0
  · have hunits := List.eq_nil_of_length_eq_zero hlen
    exact ⟨_, if_pos hlen, hunits.symm, by simp [hunits, JSString.isWideChar]⟩
  have hunits : b.str.units ≠ [] := fun h => hlen (congrArg List.length h)
  refine ⟨b.str, ?_, rfl, by simp [hunits]⟩
  rw [if_neg hlen, hshrink]
  exact if_pos hblock

/-! ## Sequences of operations -/

/-- What operations append. -/
def contents (ops : List (Op × Slack)) : List Unit16 :=
  (ops.map (·.1.units)).flatten

theorem run_spec (ops : List (Op × Slack)) (h : b.Valid)
    (hint : b.str.len + (contents ops).length < 2 ^ 31) :
    Yields (b.Fails (∃ o ∈ ops, o.2 = none) (contents ops).length) (b.Appended (contents ops))
      (run ops b) := by
  induction ops generalizing b with
  | nil => exact .ok h.appended_nil
  | cons o ops ih =>
    obtain ⟨op, slack⟩ := o
    have hop : b.str.len + op.units.length < 2 ^ 31 := by
      refine (Nat.add_le_add_left ?_ _).trans_lt hint
      exact (List.length_append ▸ Nat.le_add_right _ _ :)
    refine (append_spec hint (apply_spec h op hop) fun b' hb' => ih hb').imp
      (Or.imp_left ?_) fun _ h => h
    rintro (hslack | ⟨o, ho, hslack⟩)
    · exact ⟨_, List.mem_cons_self, hslack⟩
    · exact ⟨o, List.mem_cons_of_mem _ ho, hslack⟩

theorem init_spec {size : ℕ} (hsize : size ≤ lenMax) (isWide granted : Bool) :
    Yields (granted = false) (fun b => b.Valid ∧ b.str.units = [] ∧ b.str.isWideChar = isWide)
      (init size isWide granted) := by
  obtain ⟨str, hstr, hunits, hwide⟩ : ∃ str : JSString,
      (if isWide then .str16 [] else .str8 []) = str ∧ str.units = [] ∧
        str.isWideChar = isWide := by
    cases isWide <;> exact ⟨_, rfl, rfl, rfl⟩
  have hpos : 0 ≤ (size : ℤ) * str.width := Int.mul_nonneg (by omega) (by omega)
  unfold init
  dsimp only
  rw [hstr, int_mul_width (by omega) (by exact_mod_cast hsize)]
  refine ((alloc_spec (by omega)).imp ?_ fun _ h => h).bind fun r hr => ?_
  · cases granted with
    | false => exact fun _ => rfl
    | true => exact nofun
  · have hlen : str.len = 0 := congrArg List.length hunits
    refine .ok ⟨⟨?_, ?_, ?_⟩, hunits, hwide⟩
    · rw [hlen]
      exact Int.natCast_nonneg size
    · dsimp only
      omega
    · dsimp only
      split_ifs <;> omega

/-- Why making a string ends in an exception. -/
def BuildFails (granted : Bool) (ops : List (Op × Slack)) : Prop :=
  granted = false ∨ (∃ o ∈ ops, o.2 = none) ∨ lenMax < (contents ops).length

/-- The string that operations should make : their characters, wide if the buffer was or if one
of them has to be. -/
structure Built (isWide : Bool) (ops : List (Op × Slack)) (s : JSString) : Prop where
  units_eq : s.units = contents ops
  wide_iff : s.isWideChar = true ↔
    contents ops ≠ [] ∧ (isWide = true ∨ ∃ u ∈ contents ops, IsWide u)

theorem Built.eq_of {ops : List (Op × Slack)} {s : JSString} (h : Built false ops s) :
    s = JSString.of (contents ops) := by
  refine JSString.eq_of_units h.units_eq (h.wide_iff.trans ?_)
  constructor
  · rintro ⟨-, hfalse | hwide⟩
    · cases hfalse
    · exact hwide
  · rintro ⟨u, hu, hwide⟩
    exact ⟨List.ne_nil_of_mem hu, .inr ⟨u, hu, hwide⟩⟩

theorem Built.eq {isWide : Bool} {ops : List (Op × Slack)} {s : JSString} (h : Built isWide ops s) :
    s = if isWide = true ∧ contents ops ≠ [] then .str16 (contents ops)
      else JSString.of (contents ops) := by
  split_ifs with hbegan
  · rw [JSString.eq_str16 (h.wide_iff.2 ⟨hbegan.2, .inl hbegan.1⟩), h.units_eq]
  · refine Built.eq_of ⟨h.units_eq, h.wide_iff.trans (and_congr_right fun hne => ?_)⟩
    rw [or_iff_right fun hwide => hbegan ⟨hwide, hne⟩, or_iff_right Bool.false_ne_true]

theorem build_spec {size : ℕ} (hsize : size ≤ lenMax) (isWide granted : Bool)
    {ops : List (Op × Slack)} (hint : (contents ops).length < 2 ^ 31) (shrink : Slack) :
    Yields (BuildFails granted ops) (Built isWide ops)
      (build size isWide granted ops shrink) := by
  refine Yields.bind (Q := fun b : StringBuffer => b.Valid ∧ b.str.units = contents ops ∧
    (b.str.isWideChar = true ↔ isWide = true ∨ ∃ u ∈ contents ops, IsWide u)) ?_ ?_
  · refine ((init_spec hsize isWide granted).imp .inl fun _ h => h).bind ?_
    rintro b ⟨hvalid, hnil, hwide⟩
    have hlen : b.str.len = 0 := congrArg List.length hnil
    refine (run_spec ops hvalid (by rwa [hlen, Nat.zero_add])).imp ?_ fun b' hb' => ?_
    · rw [Fails, hlen, Nat.zero_add]
      exact .inr
    refine ⟨hb'.valid, by rw [hb'.units_eq, hnil, List.nil_append], ?_⟩
    rw [hb'.wide_iff, hwide]
  · rintro b ⟨hvalid, hunits, hwide⟩
    obtain ⟨s, hs, hsunits, hswide⟩ := finish_spec hvalid shrink
    rw [hs]
    exact .ok ⟨by rw [hsunits, hunits], by rw [hswide, hunits, hwide]⟩

/-- A string is made of its characters alone, in whatever pieces they came, or there is an
exception : an allocation is denied, or the string is too long. Nothing is written outside of a
block. -/
theorem build_eq_of {size : ℕ} (hsize : size ≤ lenMax) (isWide granted : Bool)
    {ops : List (Op × Slack)} (hint : (contents ops).length < 2 ^ 31) (shrink : Slack) :
    build size isWide granted ops shrink =
        .ok (if isWide = true ∧ contents ops ≠ [] then .str16 (contents ops)
          else JSString.of (contents ops)) ∨
      build size isWide granted ops shrink = .error .exception ∧
        (granted = false ∨ (∃ o ∈ ops, o.2 = none) ∨ lenMax < (contents ops).length) := by
  obtain ⟨s, hs, hbuilt⟩ | hfails := (build_spec hsize isWide granted hint shrink).cases
  · rw [hs, hbuilt.eq]
    exact .inl rfl
  · exact .inr hfails

/-- A character that makes a buffer wide, and more of them than there is room for. -/
def euros : List (Op × Slack) :=
  [(.putc8 0x61, some 0), (.putc16 0x20ac, some 7), (.fill 0x20ac 3, some 1)]

theorem build_eq_of_euros :
    1 ≤ lenMax ∧ (contents euros).length < 2 ^ 31 ∧
      build (1 : ℕ) false true euros none =
        .ok (.str16 [0x61, 0x20ac, 0x20ac, 0x20ac, 0x20ac]) := by
  have hsize : 1 ≤ lenMax := by decide
  have hint : (contents euros).length < 2 ^ 31 := by decide
  have hwide : ∃ u ∈ contents euros, IsWide u := ⟨0x20ac, .tail _ (.head _), by decide⟩
  refine ⟨hsize, hint, ?_⟩
  obtain hbuild | ⟨-, hgranted | ⟨o, ho, hslack⟩ | hlong⟩ :=
    build_eq_of hsize false true hint none
  · rw [hbuild, if_neg (by simp), JSString.of, if_pos hwide]
    rfl
  · cases hgranted
  · simp only [euros, List.mem_cons, List.not_mem_nil, or_false] at ho
    rcases ho with rfl | rfl | rfl <;> cases hslack
  · exact absurd hlong (by decide)

end StringBuffer

end QuickJs

end TinyKvm
