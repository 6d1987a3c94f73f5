import TinyKvm.Storage
import Mathlib.Data.List.TakeWhile

/-!
# The stored content as a C string

`on_live_update` of `storage.c` takes the length of the content with `strlen`, so
it relies on a representation : `cont` has room for `cont_len` bytes and a
terminator, `cont_len` counts the bytes stored, and the terminator is there.

None of the three functions that allocate `cont` establishes it. `main` and
`on_resume_update` store bytes and leave `cont_len` zero, and `on_resume_update`
makes no room for a terminator. `modify_content` makes room, but stores the
terminator one byte behind the block. So no run is sound, and a state is
represented well only if the heap happened to hold a zero where the last
`modify_content` should have put one (`representation_iff`).
-/

namespace TinyKvm

namespace Storage

/-- What changes the content : a call of `modify_content`, or a live update, which runs
`on_live_update` here, then `main` and `on_resume_update` in a fresh instance. With what the
allocations find on the heap, and what `strlen` finds behind the block. -/
inductive Producer where
  | modify (data : Bytes) (heap : ℕ → Byte)
  | update (behind : Bytes) (heap heap' : ℕ → Byte)

/-- The globals, with the number of content bytes that were stored in `cont`. -/
structure Stored where
  content : Content
  count : ℕ

/-- A copy of `src` to the start of `dst` stays inside it. -/
def Inside (dst src : Bytes) : Bool :=
  decide (src.length ≤ dst.length)

/-- One change, and whether all its writes were inside the blocks it allocated. -/
def produce (s : Stored) : Producer → Stored × Bool
  | .modify data heap =>
    let (content, inside) := modifyContent heap data
    (⟨content, data.length⟩, Inside (malloc heap (data.length + 1)) data && inside)
  | .update behind heap heap' =>
    let bytes := onLiveUpdate s.content behind
    (⟨onResumeUpdate (main heap) heap' bytes, bytes.length⟩,
      Inside (malloc heap (hello.length + 1)) (hello ++ [0]) &&
        Inside (malloc heap' bytes.length) bytes)

/-- The storage of the program, started with `heap`. -/
def producerMachine (heap : ℕ → Byte) : Machine Stored Producer Bool where
  init := ⟨main heap, hello.length⟩
  step := produce

/-- `cont` represents what is stored. -/
structure Represents (s : Stored) : Prop where
  allocated : s.content.contLen + 1 ≤ s.content.cont.length
  counted : s.content.contLen = s.count
  terminated : s.content.cont[s.content.contLen]? = some 0

/-- The content is represented in every state of the run, and no write of it left its block. -/
def SoundRun (heap : ℕ → Byte) (ops : List Producer) : Prop :=
  (producerMachine heap).Always Represents ops ∧
    ∀ c ∈ (producerMachine heap).trace ops, c.2 = true

/-- `strlen(cont)` reads inside the block only. -/
def StrlenInside (s : Stored) : Prop :=
  0 ∈ s.content.cont

/-- The last change is a `modify_content`, with data and a heap of which `P` holds. -/
def LastModify (P : Bytes → (ℕ → Byte) → Prop) (ops : List Producer) : Prop :=
  ∃ data heap, ops.getLast? = some (.modify data heap) ∧ P data heap

/-! ## One change -/

/-- A block copied over whole is what was copied. -/
theorem memcpy_malloc (heap : ℕ → Byte) (bytes : Bytes) :
    memcpy (malloc heap bytes.length) bytes = bytes := by
  rw [memcpy, List.drop_eq_nil_of_le (length_malloc _ _).le, List.append_nil]

theorem main_eq (heap : ℕ → Byte) : main heap = ⟨hello ++ [0], 0⟩ := by
  simp only [main, memcpy_malloc]

/-- `modify_content` leaves behind the data what the heap held there, and stores the terminator
outside the block. -/
theorem modifyContent_eq (heap : ℕ → Byte) (data : Bytes) :
    modifyContent heap data = (⟨data ++ [heap data.length], data.length⟩, false) := by
  have hcopy : memcpy (malloc heap (data.length + 1)) data = data ++ [heap data.length] := by
    rw [memcpy, malloc, List.range_succ, List.map_append,
      List.drop_left' (by rw [List.length_map, List.length_range]), List.map_singleton]
  have hlen : (data ++ [heap data.length]).length = data.length + 1 := by simp
  simp only [modifyContent, hcopy, store]
  rw [List.set_eq_of_length_le hlen.le, hlen, decide_eq_false (Nat.lt_irrefl _)]

theorem produce_modify (s : Stored) (data : Bytes) (heap : ℕ → Byte) :
    produce s (.modify data heap) =
      (⟨⟨data ++ [heap data.length], data.length⟩, data.length⟩, false) := by
  simp only [produce, modifyContent_eq, Bool.and_false]

/-- A live update leaves a block of the bytes `strlen` counted, and the length `main` left. -/
theorem produce_update (s : Stored) (behind : Bytes) (heap heap' : ℕ → Byte) :
    produce s (.update behind heap heap') =
      (⟨⟨onLiveUpdate s.content behind, 0⟩, (onLiveUpdate s.content behind).length⟩, true) := by
  simp [produce, main_eq, onResumeUpdate, memcpy_malloc, Inside, length_malloc]

/-! ## Runs -/

section Run

variable (heap : ℕ → Byte)

theorem not_represents_start : ¬Represents (producerMachine heap).init := by
  intro h
  have hcount := h.counted
  rw [producerMachine, main_eq] at hcount
  exact absurd hcount (by decide)

theorem after_modify (ops : List Producer) (data : Bytes) (heap' : ℕ → Byte) :
    (producerMachine heap).after (ops ++ [.modify data heap']) =
      ⟨⟨data ++ [heap' data.length], data.length⟩, data.length⟩ := by
  have hstep := produce_modify ((producerMachine heap).after ops) data heap'
  rw [Machine.after_snoc]
  exact congrArg Prod.fst hstep

/-- After a live update the block has the bytes up to a zero, and no length. -/
theorem after_update (ops : List Producer) (behind : Bytes) (heap' heap'' : ℕ → Byte) :
    ∃ bytes : Bytes, (0 : Byte) ∉ bytes ∧
      (producerMachine heap).after (ops ++ [.update behind heap' heap'']) =
        ⟨⟨bytes, 0⟩, bytes.length⟩ := by
  have hstep := produce_update ((producerMachine heap).after ops) behind heap' heap''
  refine ⟨onLiveUpdate ((producerMachine heap).after ops).content behind, fun hzero => ?_, ?_⟩
  · simpa using List.mem_takeWhile_imp hzero
  · rw [Machine.after_snoc]
    exact congrArg Prod.fst hstep

/-- A state is represented well exactly if a `modify_content` left it, on a heap that held a
zero behind the data. -/
theorem represents_iff (ops : List Producer) :
    Represents ((producerMachine heap).after ops) ↔
      LastModify (fun data heap => heap data.length = 0) ops := by
  unfold LastModify
  induction ops using List.reverseRecOn with
  | nil => exact iff_of_false (not_represents_start heap) (by simp)
  | append_singleton ops op _ =>
    rw [List.getLast?_concat]
    cases op with
    | modify data heap' =>
      rw [after_modify]
      constructor
      · intro h
        exact ⟨data, heap', rfl, by simpa using h.terminated⟩
      · rintro ⟨data', heap'', hop, hzero⟩
        obtain ⟨rfl, rfl⟩ := Producer.modify.inj (Option.some.inj hop)
        exact ⟨by simp, rfl, by simp [hzero]⟩
    | update behind heap' heap'' =>
      obtain ⟨bytes, -, hafter⟩ := after_update heap ops behind heap' heap''
      rw [hafter]
      refine iff_of_false (fun h => ?_) (by simp)
      have hcount : 0 = bytes.length := h.counted
      have hroom : 1 ≤ bytes.length := h.allocated
      omega

/-- `strlen` stays inside the first block, and inside that of a `modify_content` whose data has
a zero or stands before one. -/
theorem strlenInside_iff (ops : List Producer) :
    StrlenInside ((producerMachine heap).after ops) ↔
      ops = [] ∨ LastModify (fun data heap => 0 ∈ data ∨ heap data.length = 0) ops := by
  unfold LastModify StrlenInside
  induction ops using List.reverseRecOn with
  | nil =>
    have hzero : (0 : Byte) ∈ (main heap).cont := by simp [main_eq]
    exact iff_of_true hzero (.inl rfl)
  | append_singleton ops op _ =>
    rw [List.getLast?_concat, or_iff_right (by simp)]
    cases op with
    | modify data heap' =>
      rw [after_modify]
      constructor
      · intro h
        exact ⟨data, heap', rfl, by simpa [eq_comm] using h⟩
      · rintro ⟨data', heap'', hop, hzero⟩
        obtain ⟨rfl, rfl⟩ := Producer.modify.inj (Option.some.inj hop)
        simpa [eq_comm] using hzero
    | update behind heap' heap'' =>
      obtain ⟨bytes, hzero, hafter⟩ := after_update heap ops behind heap' heap''
      rw [hafter]
      exact iff_of_false hzero (by simp)

end Run

/-- No run is sound. Of its last state, the content is represented and `strlen` stays inside
the block only as the heap happened to be, and a `modify_content` then writes outside its block. -/
theorem representation_iff (heap : ℕ → Byte) (ops : List Producer) :
    ¬SoundRun heap ops ∧
    (Represents ((producerMachine heap).after ops) ↔
      LastModify (fun data heap => heap data.length = 0) ops) ∧
    (StrlenInside ((producerMachine heap).after ops) ↔
      ops = [] ∨ LastModify (fun data heap => 0 ∈ data ∨ heap data.length = 0) ops) ∧
    ∀ data heap', (producerMachine heap).answer ops (.modify data heap') = false := by
  refine ⟨fun h => ?_, represents_iff heap ops, strlenInside_iff heap ops, fun data heap' => ?_⟩
  · exact not_represents_start heap (h.1 [] List.nil_prefix)
  · have hstep := produce_modify ((producerMachine heap).after ops) data heap'
    exact congrArg Prod.snd hstep

/-- A heap without a zero. -/
def ones : ℕ → Byte :=
  fun _ => 1

/-- A POST of three bytes writes outside its block, and leaves a content without its terminator,
of which `strlen` reads past the end. -/
theorem representation_fails :
    ¬SoundRun ones [.modify (ascii "abc") ones] ∧
      (producerMachine ones).answer [] (.modify (ascii "abc") ones) = false ∧
      ¬Represents ((producerMachine ones).after [.modify (ascii "abc") ones]) ∧
      ¬StrlenInside ((producerMachine ones).after [.modify (ascii "abc") ones]) := by
  refine ⟨fun h => ?_, by decide, fun h => ?_, by unfold StrlenInside; decide⟩
  · exact absurd (h.2 _ List.mem_cons_self) (by decide)
  · exact absurd h.terminated (by decide)

end Storage

end TinyKvm
