import TinyKvm.GameBoyInput
import TinyKvm.LittleEndian
import Mathlib.Data.Vector.Basic

/-!
# The Game Boy's saved state

The storage machine saves the state of the emulator, the palette and the frame
state one after the other, and restores them from such bytes, from a file an
interrupted `file_writer` may have left short. The palette and the frame state
are each restored if as many bytes are left as the struct has.

The two tests are independent, and the palette is the longer struct : if the
file ends inside the palette after at least as many bytes as a frame state has,
the frame state is read from the first bytes of the palette
(`restore_inside`). Each of the two is as saved or unchanged exactly if the
file does not end there, or those bytes happen to be one of the two frame states
(`restore_prefix_iff`).
-/

namespace TinyKvm

namespace GameBoy

/-! ## The structs -/

/-- `PixelState` : the palette, an `spng_plte` of 256 entries of 4 bytes. -/
structure PixelState where
  nEntries : BitVec 32
  entries : Vector (BitVec 32) 256
  deriving DecidableEq

/-- `FrameState`. The clock `ts` is a `double`, here the type `τ`. -/
structure FrameState (τ : Type*) where
  ts : τ
  inputs : InputState
  contribs : BitVec 16
  deriving DecidableEq

/-- The bytes no field of a `FrameState` covers : one in `inputs`, six at the end. -/
structure Padding where
  inner : Byte
  outer : BitVec 48

/-- `sizeof(PixelState)`. -/
def sizeofPixelState : ℕ := 1028

/-- `sizeof(FrameState)`. -/
def sizeofFrameState : ℕ := 24

/-- The bytes of a palette. -/
def PixelState.toBytes (p : PixelState) : Bytes :=
  leBytes 4 p.nEntries.toNat ++ p.entries.toList.flatMap fun e => leBytes 4 e.toNat

/-- The bytes of a frame state, with a double as its 64 bits. -/
def FrameState.toBytes (pad : Padding) (f : FrameState (BitVec 64)) : Bytes :=
  leBytes 8 f.ts.toNat ++ (f.inputs.keystate.toList ++ ([f.inputs.current, pad.inner] ++
    (leBytes 2 f.inputs.contribs.toNat ++ (leBytes 2 f.contribs.toNat ++
      leBytes 6 pad.outer.toNat))))

/-- The word of `w` bits at an offset. -/
def word (w : ℕ) (bs : Bytes) (off : ℕ) : BitVec w :=
  BitVec.ofNat w (loadLe bs off (w / 8))

/-- `*(PixelState*) &bs.at(0)`. -/
def PixelState.ofBytes (bs : Bytes) : PixelState :=
  ⟨word 32 bs 0, Vector.ofFn fun i => word 32 bs (4 + 4 * i)⟩

/-- `*(FrameState*) &bs.at(0)`. -/
def FrameState.ofBytes (bs : Bytes) : FrameState (BitVec 64) :=
  ⟨word 64 bs 0, ⟨Vector.ofFn fun i => word 8 bs (8 + i), word 8 bs 12, word 16 bs 14⟩,
    word 16 bs 16⟩

theorem PixelState.length_toBytes (p : PixelState) : p.toBytes.length = sizeofPixelState := by
  rw [PixelState.toBytes, List.length_append, length_leBytes,
    length_flatMap_eq fun e => length_leBytes 4 _, Vector.length_toList]
  rfl

theorem FrameState.length_toBytes (pad : Padding) (f : FrameState (BitVec 64)) :
    (f.toBytes pad).length = sizeofFrameState := by
  simp [FrameState.toBytes, sizeofFrameState]

theorem word_append {w n : ℕ} (hw : w = 8 * n) (x : BitVec w) (bs : Bytes) :
    word w (leBytes n x.toNat ++ bs) 0 = x := by
  have hdiv : w / 8 = n := by omega
  have hle : 0 + n ≤ (leBytes n x.toNat).length := by simp
  have hself := loadLe_self (leBytes n x.toNat)
  rw [length_leBytes] at hself
  rw [word, hdiv, loadLe_append_left hle, hself, ofNat_leNat_leBytes hw]

theorem word_skip {bs : Bytes} {m off : ℕ} (hbs : bs.length = m) (hm : m ≤ off) (cs : Bytes)
    (w : ℕ) : word w (bs ++ cs) off = word w cs (off - m) := by
  rw [word, word, loadLe_skip hbs hm]

theorem word_one {bs : Bytes} {i : ℕ} (hi : i < bs.length) (cs : Bytes) :
    word 8 (bs ++ cs) i = bs[i] := by
  rw [word, loadLe_append_left hi, loadLe_one hi, BitVec.ofNat_toNat, BitVec.setWidth_eq]

theorem PixelState.ofBytes_toBytes (p : PixelState) (rest : Bytes) :
    PixelState.ofBytes (p.toBytes ++ rest) = p := by
  obtain ⟨nEntries, entries⟩ := p
  have hentry : ∀ i (hi : i < 256),
      word 32 (entries.toList.flatMap (fun e => leBytes 4 e.toNat) ++ rest) (4 * i) =
        entries[i] := by
    intro i hi
    have hlen : i < entries.toList.length := by simpa using hi
    have hle : 4 * i + 4 ≤ (entries.toList.flatMap fun e => leBytes 4 e.toNat).length := by
      rw [length_flatMap_eq fun e => length_leBytes 4 _, Vector.length_toList]
      omega
    rw [word, loadLe_append_left hle, loadLe_flatMap (fun e => length_leBytes 4 _) _ hlen,
      ofNat_leNat_leBytes (show 32 = 8 * 4 from rfl)]
    rfl
  simp only [PixelState.ofBytes, PixelState.toBytes, List.append_assoc, PixelState.mk.injEq]
  refine ⟨word_append (show 32 = 8 * 4 from rfl) nEntries _, ?_⟩
  ext i hi
  rw [Vector.getElem_ofFn, word_skip (length_leBytes 4 _) (Nat.le_add_right 4 _),
    Nat.add_sub_cancel_left, hentry i hi]

theorem FrameState.ofBytes_toBytes (pad : Padding) (f : FrameState (BitVec 64)) (rest : Bytes) :
    FrameState.ofBytes (f.toBytes pad ++ rest) = f := by
  obtain ⟨ts, ⟨keystate, current, keyContribs⟩, contribs⟩ := f
  have hts : (leBytes 8 ts.toNat).length = 8 := length_leBytes 8 _
  have hkeys : keystate.toList.length = 4 := Vector.length_toList
  have hcurrent : [current, pad.inner].length = 2 := rfl
  have hkeyContribs : (leBytes 2 keyContribs.toNat).length = 2 := length_leBytes 2 _
  simp only [FrameState.ofBytes, FrameState.toBytes, List.append_assoc, FrameState.mk.injEq,
    InputState.mk.injEq]
  refine ⟨word_append (show 64 = 8 * 8 from rfl) ts _, ⟨?_, ?_, ?_⟩, ?_⟩
  · ext i hi
    have hlt : i < keystate.toList.length := hkeys.symm ▸ hi
    rw [Vector.getElem_ofFn, word_skip hts (Nat.le_add_right 8 _), Nat.add_sub_cancel_left,
      word_one hlt]
    rfl
  · rw [word_skip hts (by decide), word_skip hkeys (by decide)]
    exact word_one Nat.zero_lt_two _
  · rw [word_skip hts (by decide), word_skip hkeys (by decide), word_skip hcurrent (by decide)]
    exact word_append (show 16 = 8 * 2 from rfl) keyContribs _
  · rw [word_skip hts (by decide), word_skip hkeys (by decide), word_skip hcurrent (by decide),
      word_skip hkeyContribs (by decide)]
    exact word_append (show 16 = 8 * 2 from rfl) contribs _

/-- A frame state is read from the first 24 bytes. -/
theorem FrameState.ofBytes_append {bs : Bytes} (h : sizeofFrameState ≤ bs.length) (rest : Bytes) :
    FrameState.ofBytes (bs ++ rest) = FrameState.ofBytes bs := by
  have hword : ∀ w off, off + w / 8 ≤ sizeofFrameState → word w (bs ++ rest) off = word w bs off :=
    fun w off hoff => by rw [word, word, loadLe_append_left (hoff.trans h)]
  have hkeys : ∀ i : Fin 4, word 8 (bs ++ rest) (8 + i) = word 8 bs (8 + i) := fun i =>
    hword 8 _ (by rw [sizeofFrameState]; omega)
  rw [FrameState.ofBytes, FrameState.ofBytes, hword 64 0 (by decide), hword 8 12 (by decide),
    hword 16 14 (by decide), hword 16 16 (by decide), funext hkeys]

/-- The frame state the first bytes of a palette read as. -/
def PixelState.asFrame (p : PixelState) : FrameState (BitVec 64) :=
  FrameState.ofBytes p.toBytes

/-! ## Saving and restoring -/

/-- `gbc::Machine`, with what `libgbc` promises of saved states : restoring one gives back the
machine and the bytes it took, whatever follows them. -/
structure Libgbc (M : Type*) where
  newMachine : M
  setInputs : M → Byte → M
  simulateOneFrame : M → M × List (Byte × BitVec 16)
  color15ToRgba32 : BitVec 16 → BitVec 32
  pixels : M → Bytes
  frameCount : M → BitVec 64
  serializeState : M → Bytes
  restoreState : M → Bytes → M × ℕ
  restore_serialize : ∀ m old rest,
    restoreState old (serializeState m ++ rest) = (m, (serializeState m).length)

/-- `PngData` : a buffer of `libspng`, null or the number of its allocation, and its bytes. -/
structure PngData where
  first : Option ℕ
  content : Bytes

/-- The state of the storage machine. -/
structure Storage (M τ : Type*) where
  machine : M
  storageState : PixelState
  png : PngData
  currentState : FrameState τ

/-- What `restore_state_from` takes from a saved state. -/
structure Restored (M τ : Type*) where
  machine : M
  palette : Option PixelState
  frame : Option (FrameState τ)

/-- The state with what was restored. -/
def Storage.restore {M τ : Type*} (s : Storage M τ) (r : Restored M τ) : Storage M τ :=
  { s with
    machine := r.machine
    storageState := r.palette.getD s.storageState
    currentState := r.frame.getD s.currentState }

/-- What a state saved whole holds. -/
def Storage.saved {M τ : Type*} (s : Storage M τ) : Restored M τ :=
  ⟨s.machine, some s.storageState, some s.currentState⟩

variable {M : Type*} (gbc : Libgbc M)

/-- `create_serialized_state`. -/
def createSerializedState (pad : Padding) (s : Storage M (BitVec 64)) : Bytes :=
  gbc.serializeState s.machine ++ (s.storageState.toBytes ++ s.currentState.toBytes pad)

/-- What `restore_state_from` reads, from the running offset on. -/
def readState (machine : M) (state : Bytes) : Restored M (BitVec 64) :=
  let (machine, off) := gbc.restoreState machine state
  let palette :=
    if state.length ≥ off + sizeofPixelState then some (PixelState.ofBytes (state.drop off))
    else none
  let off := if palette.isSome then off + sizeofPixelState else off
  let frame :=
    if state.length ≥ off + sizeofFrameState then some (FrameState.ofBytes (state.drop off))
    else none
  ⟨machine, palette, frame⟩

/-- `restore_state_from`. -/
def restoreStateFrom (s : Storage M (BitVec 64)) (state : Bytes) : Storage M (BitVec 64) :=
  s.restore (readState gbc s.machine state)

section Prefix

variable (old : M) (saved : Storage M (BitVec 64)) (rest : Bytes)

/-- Bytes after the machine's too few for a palette are taken for a frame state if they suffice
for that. -/
theorem readState_short (h : rest.length < sizeofPixelState) :
    readState gbc old (gbc.serializeState saved.machine ++ rest) =
      ⟨saved.machine, none,
        if rest.length ≥ sizeofFrameState then some (FrameState.ofBytes rest) else none⟩ := by
  have hlt : ¬(gbc.serializeState saved.machine ++ rest).length ≥
      (gbc.serializeState saved.machine).length + sizeofPixelState := by
    rw [List.length_append]
    omega
  have hframe : (gbc.serializeState saved.machine ++ rest).length ≥
      (gbc.serializeState saved.machine).length + sizeofFrameState ↔
      rest.length ≥ sizeofFrameState := by
    rw [List.length_append]
    omega
  simp only [readState, gbc.restore_serialize, hlt, if_false, Option.isSome_none,
    Bool.false_eq_true, hframe, List.drop_left]

/-- A whole palette is restored, and what follows it is taken for a frame state if it is as
long. -/
theorem readState_palette :
    readState gbc old
        (gbc.serializeState saved.machine ++ (saved.storageState.toBytes ++ rest)) =
      ⟨saved.machine, some saved.storageState,
        if rest.length ≥ sizeofFrameState then some (FrameState.ofBytes rest) else none⟩ := by
  have hlen := saved.storageState.length_toBytes
  have hge : (gbc.serializeState saved.machine ++ (saved.storageState.toBytes ++ rest)).length ≥
      (gbc.serializeState saved.machine).length + sizeofPixelState := by
    rw [List.length_append, List.length_append]
    omega
  have hframe : (gbc.serializeState saved.machine ++
      (saved.storageState.toBytes ++ rest)).length ≥
      (gbc.serializeState saved.machine).length + sizeofPixelState + sizeofFrameState ↔
      rest.length ≥ sizeofFrameState := by
    rw [List.length_append, List.length_append]
    omega
  have hdrop : (gbc.serializeState saved.machine ++
      (saved.storageState.toBytes ++ rest)).drop
      ((gbc.serializeState saved.machine).length + sizeofPixelState) = rest := by
    rw [← hlen, ← List.append_assoc, ← List.length_append, List.drop_left]
  simp only [readState, gbc.restore_serialize, hge, if_true, Option.isSome_some, hframe,
    List.drop_left, PixelState.ofBytes_toBytes, hdrop]

end Prefix

/-! ## What an interrupted write leaves -/

/-- The first bytes of a saved state : the machine's and `n` more. -/
def savedPrefix (pad : Padding) (saved : Storage M (BitVec 64)) (n : ℕ) : Bytes :=
  (createSerializedState gbc pad saved).take ((gbc.serializeState saved.machine).length + n)

/-- The palette and the frame state are each as saved or as they were. -/
structure SavedOrKept {τ : Type*} (saved old new : Storage M τ) : Prop where
  palette : new.storageState = saved.storageState ∨ new.storageState = old.storageState
  frame : new.currentState = saved.currentState ∨ new.currentState = old.currentState

section Interrupted

variable (pad : Padding) (saved old : Storage M (BitVec 64)) {n : ℕ}

theorem savedPrefix_eq (n : ℕ) :
    savedPrefix gbc pad saved n = gbc.serializeState saved.machine ++
      (saved.storageState.toBytes ++ saved.currentState.toBytes pad).take n := by
  rw [savedPrefix, createSerializedState, List.take_length_add_append]

/-- A file that ends before a frame state would fit changes neither. -/
theorem restore_short (h : n < sizeofFrameState) :
    restoreStateFrom gbc old (savedPrefix gbc pad saved n) =
      { old with machine := saved.machine } := by
  have hlen : ((saved.storageState.toBytes ++ saved.currentState.toBytes pad).take n).length ≤ n :=
    List.length_take_le _ _
  have hshort : n < sizeofPixelState := h.trans (by decide)
  rw [restoreStateFrom, savedPrefix_eq, readState_short _ _ _ _ (hlen.trans_lt hshort),
    if_neg (by omega)]
  rfl

/-- A file that ends inside the palette, after at least a frame state, gives the frame state the
first bytes of the palette. -/
theorem restore_inside (h : sizeofFrameState ≤ n) (hn : n < sizeofPixelState) :
    restoreStateFrom gbc old (savedPrefix gbc pad saved n) =
      { old with machine := saved.machine, currentState := saved.storageState.asFrame } := by
  have hpalette := saved.storageState.length_toBytes
  have htake : (saved.storageState.toBytes ++ saved.currentState.toBytes pad).take n =
      saved.storageState.toBytes.take n :=
    List.take_append_of_le_length (by omega)
  have hlen : (saved.storageState.toBytes.take n).length = n := by
    rw [List.length_take]
    omega
  have hframe : FrameState.ofBytes (saved.storageState.toBytes.take n) =
      saved.storageState.asFrame := by
    have hsplit := List.take_append_drop n saved.storageState.toBytes
    rw [PixelState.asFrame, ← hsplit, FrameState.ofBytes_append (by omega), hsplit]
  rw [restoreStateFrom, savedPrefix_eq, htake, readState_short _ _ _ _ (by omega),
    if_pos (by omega), hframe]
  rfl

/-- A file with the whole palette gives the palette, and the frame state if it is there. -/
theorem restore_palette (h : sizeofPixelState ≤ n) :
    restoreStateFrom gbc old (savedPrefix gbc pad saved n) =
      { old with
        machine := saved.machine
        storageState := saved.storageState
        currentState :=
          if sizeofPixelState + sizeofFrameState ≤ n then saved.currentState
          else old.currentState } := by
  have hpalette := saved.storageState.length_toBytes
  have hframe := saved.currentState.length_toBytes pad
  obtain ⟨d, rfl⟩ := Nat.exists_eq_add_of_le h
  have htake : (saved.storageState.toBytes ++ saved.currentState.toBytes pad).take
      (sizeofPixelState + d) =
      saved.storageState.toBytes ++ (saved.currentState.toBytes pad).take d := by
    rw [← hpalette, List.take_length_add_append]
  rw [restoreStateFrom, savedPrefix_eq, htake, readState_palette]
  by_cases hd : sizeofFrameState ≤ d
  · have hall : (saved.currentState.toBytes pad).take d = saved.currentState.toBytes pad :=
      List.take_of_length_le (by omega)
    have hread := FrameState.ofBytes_toBytes pad saved.currentState []
    rw [List.append_nil] at hread
    rw [hall, hread, if_pos hframe.ge, if_pos (by omega)]
    rfl
  · rw [if_neg (by rw [List.length_take]; omega), if_neg (by omega)]
    rfl

/-- The palette and the frame state are each as saved or unchanged exactly if the file does not
end inside the palette after at least a frame state, or the palette's first bytes read as one of
the two frame states. The whole file gives both. -/
theorem restore_prefix_iff (n : ℕ) :
    (SavedOrKept saved old (restoreStateFrom gbc old (savedPrefix gbc pad saved n)) ↔
      n < sizeofFrameState ∨ sizeofPixelState ≤ n ∨
        saved.storageState.asFrame = saved.currentState ∨
        saved.storageState.asFrame = old.currentState) ∧
    restoreStateFrom gbc old (createSerializedState gbc pad saved) =
      { old with
        machine := saved.machine
        storageState := saved.storageState
        currentState := saved.currentState } := by
  constructor
  · rcases Nat.lt_or_ge n sizeofFrameState with hshort | hframe
    · rw [restore_short gbc pad saved old hshort]
      exact iff_of_true ⟨.inr rfl, .inr rfl⟩ (.inl hshort)
    rcases Nat.lt_or_ge n sizeofPixelState with hinside | hpalette
    · rw [restore_inside gbc pad saved old hframe hinside]
      refine ⟨fun h => .inr (.inr h.frame), fun h => ⟨.inr rfl, ?_⟩⟩
      exact (h.resolve_left hframe.not_gt).resolve_left hinside.not_ge
    · rw [restore_palette gbc pad saved old hpalette]
      refine iff_of_true ⟨.inl rfl, ?_⟩ (.inr (.inl hpalette))
      by_cases hall : sizeofPixelState + sizeofFrameState ≤ n
      · exact .inl (if_pos hall)
      · exact .inr (if_neg hall)
  · have hwhole : createSerializedState gbc pad saved =
        savedPrefix gbc pad saved (sizeofPixelState + sizeofFrameState) := by
      rw [savedPrefix_eq, List.take_of_length_le]
      · rfl
      · rw [List.length_append, PixelState.length_toBytes, FrameState.length_toBytes]
    rw [hwhole, restore_palette gbc pad saved old (Nat.le_add_right _ _), if_pos le_rfl]

end Interrupted

/-! ## A palette taken for a frame state -/

/-- A machine whose state is one byte. -/
def byteMachine : Libgbc Byte where
  newMachine := 0
  setInputs := fun m _ => m
  simulateOneFrame := fun m => (m + 1, [])
  color15ToRgba32 := fun color => color.setWidth 32
  pixels := fun _ => []
  frameCount := fun m => m.setWidth 64
  serializeState := fun m => [m]
  restoreState := fun old state =>
    match state with
    | [] => (old, 0)
    | m :: _ => (m, 1)
  restore_serialize := fun _ _ _ => rfl

/-- The state before anything is restored. -/
def startState : Storage Byte (BitVec 64) :=
  ⟨0, ⟨0, Vector.replicate 256 0⟩, ⟨none, []⟩, ⟨0, InputState.zero, 0⟩⟩

/-- A state to save : the first frame, all white. -/
def whiteState : Storage Byte (BitVec 64) :=
  ⟨1, ⟨64, Vector.replicate 256 0xFFFFFFFF⟩, ⟨none, []⟩, ⟨0, InputState.zero, 0⟩⟩

/-- The index of the ring is read from a white pixel. -/
theorem current_asFrame_white : whiteState.storageState.asFrame.inputs.current = 0xFF := by
  decide +kernel

/-- A file that ends 24 bytes into the palette gives a frame state that is neither. -/
theorem restore_not_savedOrKept :
    ¬SavedOrKept whiteState startState
      (restoreStateFrom byteMachine startState (savedPrefix byteMachine ⟨0, 0⟩ whiteState 24)) := by
  intro h
  rw [restore_inside byteMachine ⟨0, 0⟩ whiteState startState (by decide) (by decide)] at h
  rcases h.frame with hframe | hframe
  all_goals
    have hcurrent := congrArg (fun f : FrameState (BitVec 64) => f.inputs.current) hframe
    dsimp only at hcurrent
    rw [current_asFrame_white] at hcurrent
    cases hcurrent

end GameBoy

end TinyKvm
