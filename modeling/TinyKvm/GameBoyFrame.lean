import TinyKvm.Chase
import TinyKvm.GameBoyState
import TinyKvm.Machine
import Mathlib.Data.NNRat.Defs
import Mathlib.Tactic.Linarith
import Mathlib.Tactic.NormNum
import Mathlib.Tactic.Ring

/-!
# The Game Boy's frame clock

`get_frame` makes the emulator catch up with the clock : as long as the time
stamp of the frame state is more than a tick behind, it simulates a frame and
moves the time stamp on by a tick, or up to the clock if it is far behind. The
clock is the CPU time of the thread, so it starts anew with every process, while
the time stamp is part of the state that is saved and restored.

The loop ends after at most three frames (`chase_clockStep`). From a time stamp
that is not ahead of the clock it leaves one that is at most a tick behind.
Whether the time stamp ever gets ahead is decided by what is restored : in a run
it never does exactly if no restored time stamp is ahead of the clock at its
restore (`ts_le_clock_iff`), and then every frame requested more than a tick
later is simulated (`frames_advance`). A state saved by a process that ran longer
than the one that restores it breaks this.
-/

namespace TinyKvm

namespace GameBoy

/-- `TICKRATE`. -/
def tickRate : ℚ := 165 / 10000

/-- `SKIPRATE`. -/
def skipRate : ℚ := 50 / 1000

/-- `time_diff`. -/
def timeDiff (start stop : ℚ) : ℚ :=
  stop - start

/-- What happens to PNG buffers : `generate_png` returns one, it is freed, or `storage_return`
gets it. -/
inductive PngEvent where
  | generated (buffer : ℕ)
  | freed (buffer : Option ℕ)
  | returned (buffer : Option ℕ)
  deriving DecidableEq

/-- `get_frame` in its loop : the storage machine's state, the PNG buffers allocated so far, the
frames simulated by this call and its buffer events, and whether `get` threw. -/
structure Loop (M : Type*) where
  storage : Storage M ℚ
  allocated : ℕ
  frames : ℕ
  events : List PngEvent
  threw : Bool

section Loop

variable {M : Type*} (gbc : Libgbc M) (pad : Keypad) (encode : Bytes → PixelState → Bytes)

/-- The palette with a color `on_palchange` reports. -/
def paletteChange (palette : PixelState) (change : Byte × BitVec 16) : PixelState :=
  { palette with
    entries := palette.entries.set change.1.toNat (gbc.color15ToRgba32 change.2) change.1.isLt }

/-- `generate_png`, which also sets the size of the palette it is given. -/
def generatePng (pixels : Bytes) (palette : PixelState) (allocated : ℕ) : PngData × PixelState :=
  let palette := { palette with nEntries := 64 }
  (⟨some allocated, encode pixels palette⟩, palette)

/-- The body of the loop but for the time stamp : a frame is simulated with the buttons held, and
its PNG generated and freed. -/
def simulateFrame (keys : Byte) (l : Loop M) : Loop M :=
  let machine := gbc.setInputs l.storage.machine keys
  let (machine, changes) := gbc.simulateOneFrame machine
  let palette := changes.foldl (paletteChange gbc) l.storage.storageState
  let (png, palette) := generatePng encode (gbc.pixels machine) palette l.allocated
  { l with
    storage := { l.storage with machine, png, storageState := palette }
    allocated := l.allocated + 1
    frames := l.frames + 1
    events := l.events ++ [.generated l.allocated, .freed png.first] }

/-- The time stamp after a round of the loop. -/
def nextTs (t1 ts : ℚ) : ℚ :=
  if timeDiff ts t1 > skipRate then t1 else ts + tickRate

/-- A round of the loop, if there is one. -/
def frameStep (t1 : ℚ) (l : Loop M) : Option (Loop M) :=
  let state := l.storage.currentState
  if l.threw = false ∧ timeDiff state.ts t1 > tickRate then
    match state.inputs.get pad with
    | none => some { l with threw := true }
    | some keys =>
      let l := simulateFrame gbc encode keys l
      some { l with
        storage := { l.storage with currentState := { state with ts := nextTs t1 state.ts } } }
  else none

/-- What becomes of the state file when `get_frame` writes it : all of the state, or nothing
because it cannot be opened, or what a later restore finds in a write cut short. -/
inductive FileWrite (M : Type*) where
  | complete
  | unopened
  | interrupted (left : Restored M ℚ)

/-- The storage machine and what is around it : the state file as a restore finds it, the PNG
buffers allocated, and the clock reading last taken. -/
structure World (M : Type*) where
  storage : Storage M ℚ
  file : Option (Restored M ℚ)
  allocated : ℕ
  clock : ℚ

/-- A call of `get_frame` : the frames it simulated, what happened to PNG buffers, and whether it
ended with an exception. -/
structure FrameResult where
  frames : ℕ
  events : List PngEvent
  threw : Bool

/-- The end of `get_frame` once the state is stored : the next input slot, and the PNG
returned. -/
def finishFrame (w : World M) (frames : ℕ) (events : List PngEvent) : World M × FrameResult :=
  match w.storage.currentState.inputs.next with
  | none => (w, ⟨frames, events, true⟩)
  | some inputs =>
    ({ w with
      storage := { w.storage with currentState := { w.storage.currentState with inputs } } },
      ⟨frames, events ++ [.returned w.storage.png.first], false⟩)

/-- `get_frame` from the loop on. -/
def afterLoop (write : FileWrite M) (w : World M) (l : Loop M) : World M × FrameResult :=
  let w := { w with storage := l.storage, allocated := l.allocated }
  if l.threw then (w, ⟨l.frames, l.events, true⟩)
  else if gbc.frameCount l.storage.machine % 64 = 0 then
    match write with
    | .complete => finishFrame { w with file := some l.storage.saved } l.frames l.events
    | .unopened => (w, ⟨l.frames, l.events, true⟩)
    | .interrupted left => ({ w with file := some left }, ⟨l.frames, l.events, true⟩)
  else finishFrame w l.frames l.events

/-- The loop at clock reading `t1`, after the buttons of the call. -/
def enterLoop (w : World M) (inputs : InputState) : Loop M :=
  ⟨{ w.storage with currentState := { w.storage.currentState with inputs } }, w.allocated, 0, [],
    false⟩

/-- `get_frame`, `elapsed` after the last reading of the clock. Four rounds are enough for the
loop. -/
def getFrame (w : World M) (elapsed : NNRat) (keys : Byte) (write : FileWrite M) :
    World M × FrameResult :=
  let t1 := w.clock + elapsed
  let w := { w with clock := t1 }
  match w.storage.currentState.inputs.contribute keys with
  | none => (w, ⟨0, [], true⟩)
  | some inputs =>
    let l := enterLoop w inputs
    afterLoop gbc write w ((chase (frameStep gbc pad encode t1) 4 l).getD l)

/-! ## Processes -/

/-- The state `main` builds in a new process, at a clock reading, with the state file. -/
def start (reading : ℚ) (file : Option (Restored M ℚ)) : Storage M ℚ :=
  let s := ⟨gbc.newMachine, ⟨0, Vector.replicate 256 0⟩, ⟨none, []⟩, ⟨reading, InputState.zero, 0⟩⟩
  match file with
  | none => s
  | some r => s.restore r

/-- What happens to the storage machine : a new process starts with the state file, or with that
and then the state of the old one (a live update), or `get_frame` is called. -/
inductive Op (M : Type*) where
  | startUp (reading : ℚ)
  | liveUpdate (reading : ℚ) (elapsed : NNRat)
  | getFrame (elapsed : NNRat) (keys : Byte) (write : FileWrite M)

/-- One of these, with the result of a `get_frame`. -/
def step (w : World M) : Op M → World M × Option FrameResult
  | .startUp reading =>
    ({ w with storage := start gbc reading w.file, clock := reading }, none)
  | .liveUpdate reading elapsed =>
    ({ w with
      storage := (start gbc reading w.file).restore w.storage.saved
      clock := reading + elapsed }, none)
  | .getFrame elapsed keys write =>
    let (w, result) := getFrame gbc pad encode w elapsed keys write
    (w, some result)

/-- The storage machine, started without a state file at a clock reading. -/
def gameBoy (reading : ℚ) : TinyKvm.Machine (World M) (Op M) (Option FrameResult) where
  init := ⟨start gbc reading none, none, 0, reading⟩
  step := step gbc pad encode

/-! ## Catching up -/

/-- The loop on the time stamp and the number of frames alone. -/
def clockStep (t1 : ℚ) (s : ℚ × ℕ) : Option (ℚ × ℕ) :=
  if timeDiff s.1 t1 > tickRate then some (nextTs t1 s.1, s.2 + 1) else none

/-- From time stamp `ts` with `n` frames, the loop has come to `ts'` with `n'` frames : at most
`m` more, and at least one if it was behind. -/
structure CaughtUp (t1 ts : ℚ) (n m : ℕ) (ts' : ℚ) (n' : ℕ) : Prop where
  behind : timeDiff ts' t1 ≤ tickRate
  not_ahead : ts ≤ t1 → ts' ≤ t1
  frames_le : n' ≤ n + m
  le_frames : n ≤ n'
  lt_frames : tickRate < timeDiff ts t1 → n < n'

theorem CaughtUp.refl {t1 ts : ℚ} (h : timeDiff ts t1 ≤ tickRate) (n m : ℕ) :
    CaughtUp t1 ts n m ts n :=
  ⟨h, id, Nat.le_add_right n m, le_rfl, fun hlt => absurd hlt h.not_gt⟩

/-- A round of a tick leaves what the loop takes from there. -/
theorem CaughtUp.tick {t1 ts ts' : ℚ} {n m n' : ℕ} (hbehind : tickRate < timeDiff ts t1)
    (h : CaughtUp t1 (ts + tickRate) (n + 1) m ts' n') : CaughtUp t1 ts n (m + 1) ts' n' := by
  have hle := h.le_frames
  have hframes := h.frames_le
  refine ⟨h.behind, fun _ => h.not_ahead ?_, by omega, by omega, fun _ => by omega⟩
  unfold timeDiff at hbehind
  linarith

theorem clockStep_of_le {t1 ts : ℚ} (h : timeDiff ts t1 ≤ tickRate) (n : ℕ) :
    clockStep t1 (ts, n) = none :=
  if_neg h.not_gt

theorem clockStep_of_lt {t1 ts : ℚ} (h : tickRate < timeDiff ts t1) (n : ℕ) :
    clockStep t1 (ts, n) = some (nextTs t1 ts, n + 1) :=
  if_pos h

/-- From at most `m + 1` ticks behind and not far behind, the loop takes at most `m` rounds. -/
theorem chase_clockStep_near (t1 : ℚ) :
    ∀ (m : ℕ) (ts : ℚ) (n : ℕ), timeDiff ts t1 ≤ (m + 1) * tickRate → timeDiff ts t1 ≤ skipRate →
      ∃ ts' n', chase (clockStep t1) (m + 1) (ts, n) = some (ts', n') ∧ CaughtUp t1 ts n m ts' n'
  | m, ts, n, hticks, hskip => by
    rcases le_or_gt (timeDiff ts t1) tickRate with hle | hlt
    · exact ⟨ts, n, chase_succ_of_none (clockStep_of_le hle n) m, CaughtUp.refl hle n m⟩
    · cases m with
      | zero =>
        rw [Nat.cast_zero, zero_add, one_mul] at hticks
        exact absurd hlt hticks.not_gt
      | succ m =>
        have hnext : nextTs t1 ts = ts + tickRate := if_neg hskip.not_gt
        have hdiff : timeDiff (ts + tickRate) t1 = timeDiff ts t1 - tickRate := by
          unfold timeDiff
          ring
        have htick : 0 < tickRate := by norm_num [tickRate]
        push_cast at hticks
        obtain ⟨ts', n', hchase, hcaught⟩ := chase_clockStep_near t1 m
          (ts + tickRate) (n + 1) (by rw [hdiff]; linarith) (by rw [hdiff]; linarith)
        refine ⟨ts', n', ?_, hcaught.tick hlt⟩
        rw [chase_succ_of_some (clockStep_of_lt hlt n), hnext, hchase]

/-- The loop ends after at most three rounds. -/
theorem chase_clockStep (t1 ts : ℚ) (n : ℕ) :
    ∃ ts' n', chase (clockStep t1) 4 (ts, n) = some (ts', n') ∧ CaughtUp t1 ts n 3 ts' n' := by
  rcases le_or_gt (timeDiff ts t1) skipRate with hle | hlt
  · have hticks : skipRate ≤ ((3 : ℕ) + 1) * tickRate := by norm_num [skipRate, tickRate]
    exact chase_clockStep_near t1 3 ts n (hle.trans hticks) hle
  · have htick : tickRate < skipRate := by norm_num [skipRate, tickRate]
    have hnext : nextTs t1 ts = t1 := if_pos hlt
    have hself : timeDiff t1 t1 ≤ tickRate := by norm_num [timeDiff, tickRate]
    refine ⟨t1, n + 1, ?_, ⟨hself, fun _ => le_rfl, by omega, by omega, fun _ => by omega⟩⟩
    rw [chase_succ_of_some (clockStep_of_lt (htick.trans hlt) n), hnext,
      chase_succ_of_none (clockStep_of_le hself _)]

/-! ## What `get_frame` does to the clock -/

/-- The loops with the inputs of `l` in which `get` has not thrown. -/
def sameInputs (l : Loop M) : Set (Loop M) :=
  {x | x.threw = false ∧ x.storage.currentState.inputs = l.storage.currentState.inputs}

section Rounds

variable (t1 : ℚ) {l x y : Loop M}

theorem sameInputs_closed {keys : Byte} (hget : l.storage.currentState.inputs.get pad = some keys)
    (hx : x ∈ sameInputs l) (h : frameStep gbc pad encode t1 x = some y) : y ∈ sameInputs l := by
  obtain ⟨hthrew, hinputs⟩ := hx
  obtain ⟨-, h⟩ := Option.ite_none_right_eq_some.1 h
  rw [hinputs, hget] at h
  rw [← Option.some.inj h]
  exact ⟨hthrew, rfl⟩

/-- A round of the loop is one on the time stamp and the number of frames. -/
theorem clockStep_frameStep {keys : Byte}
    (hget : l.storage.currentState.inputs.get pad = some keys) (hx : x ∈ sameInputs l) :
    clockStep t1 (x.storage.currentState.ts, x.frames) =
      (frameStep gbc pad encode t1 x).map fun y => (y.storage.currentState.ts, y.frames) := by
  obtain ⟨hthrew, hinputs⟩ := hx
  by_cases hlt : timeDiff x.storage.currentState.ts t1 > tickRate
  · rw [clockStep_of_lt hlt, frameStep, if_pos ⟨hthrew, hlt⟩, hinputs, hget]
    rfl
  · rw [clockStep_of_le (not_lt.1 hlt), frameStep, if_neg fun h => hlt h.2]
    rfl

/-- Where `get` works, the loop ends as the one on the time stamp does. -/
theorem chase_frameStep {keys : Byte} (hget : l.storage.currentState.inputs.get pad = some keys)
    (hl : l.threw = false) :
    ∃ l', chase (frameStep gbc pad encode t1) 4 l = some l' ∧ l' ∈ sameInputs l ∧
      CaughtUp t1 l.storage.currentState.ts l.frames 3 l'.storage.currentState.ts l'.frames := by
  have hmem : l ∈ sameInputs l := ⟨hl, rfl⟩
  have hclosed : ∀ x ∈ sameInputs l, ∀ y, frameStep gbc pad encode t1 x = some y →
      y ∈ sameInputs l := fun x hx y h =>
    sameInputs_closed gbc pad encode t1 hget hx h
  obtain ⟨ts', n', hchase, hcaught⟩ := chase_clockStep t1 l.storage.currentState.ts l.frames
  rw [chase_map (fun x hx => clockStep_frameStep gbc pad encode t1 hget hx) hclosed 4 hmem]
    at hchase
  obtain ⟨l', hl', heq⟩ := Option.map_eq_some_iff.1 hchase
  obtain ⟨rfl, rfl⟩ := Prod.mk.inj heq
  exact ⟨l', hl', chase_mem hclosed hmem hl', hcaught⟩

/-- Where `get` throws, the loop ends with nothing else changed, having thrown if it was behind. -/
theorem chase_frameStep_threw (hget : l.storage.currentState.inputs.get pad = none)
    (hl : l.threw = false) :
    chase (frameStep gbc pad encode t1) 4 l =
      some { l with threw := decide (tickRate < timeDiff l.storage.currentState.ts t1) } := by
  by_cases hlt : tickRate < timeDiff l.storage.currentState.ts t1
  · have hstep : frameStep gbc pad encode t1 l = some { l with threw := true } := by
      rw [frameStep, if_pos ⟨hl, hlt⟩, hget]
    have hstop : frameStep gbc pad encode t1 { l with threw := true } = none := by
      simp [frameStep]
    rw [chase_succ_of_some hstep, chase_succ_of_none hstop, decide_eq_true hlt]
  · have hstop : frameStep gbc pad encode t1 l = none := if_neg fun h => hlt h.2
    rw [chase_succ_of_none hstop, decide_eq_false hlt, ← hl]

/-- Four rounds are enough for the loop, whatever the time stamp and the inputs. -/
theorem loop_ends (hl : l.threw = false) :
    (chase (frameStep gbc pad encode t1) 4 l).isSome = true := by
  cases hget : l.storage.currentState.inputs.get pad with
  | none =>
    rw [chase_frameStep_threw gbc pad encode t1 hget hl]
    rfl
  | some keys =>
    obtain ⟨l', hchase, -⟩ := chase_frameStep gbc pad encode t1 hget hl
    rw [hchase]
    rfl

end Rounds

/-- The time stamp is not ahead of the clock. -/
def TsOk (w : World M) : Prop :=
  w.storage.currentState.ts ≤ w.clock

/-- The index of the input ring is in the ring. -/
def IndexOk (w : World M) : Prop :=
  w.storage.currentState.inputs.current.toNat < 4

/-- What `get_frame` leaves, for a call `elapsed` after the last reading. -/
structure FrameOk (w w' : World M) (elapsed : NNRat) (frames : ℕ) : Prop where
  clock : w'.clock = w.clock + elapsed
  ts : TsOk w → TsOk w'
  index : IndexOk w → IndexOk w'
  advances : TsOk w → IndexOk w → tickRate < elapsed →
    1 ≤ frames ∧ frames ≤ 3 ∧ 0 ≤ timeDiff w'.storage.currentState.ts w'.clock ∧
      timeDiff w'.storage.currentState.ts w'.clock ≤ tickRate

/-- What follows the loop keeps its time stamp and frames, and the index in the ring. -/
structure Ends (w w' : World M) (result : FrameResult) (l : Loop M) : Prop where
  clock : w'.clock = w.clock
  ts : w'.storage.currentState.ts = l.storage.currentState.ts
  index : l.storage.currentState.inputs.current.toNat < 4 → IndexOk w'
  frames : result.frames = l.frames

theorem finishFrame_ends {w w' : World M} {l : Loop M} {events : List PngEvent}
    {result : FrameResult} (hw : w.storage = l.storage)
    (h : finishFrame w l.frames events = (w', result)) : Ends w w' result l := by
  unfold finishFrame at h
  cases hnext : w.storage.currentState.inputs.next with
  | none =>
    rw [hnext] at h
    cases h
    exact ⟨rfl, by rw [hw], fun hlt => by rw [IndexOk, hw]; exact hlt, rfl⟩
  | some inputs =>
    rw [hnext] at h
    cases h
    exact ⟨rfl, by rw [← hw], fun _ => InputState.current_of_next hnext, rfl⟩

/-- After the loop the call throws, or it goes on to its end. Either may find the state file
written. -/
theorem afterLoop_cases (write : FileWrite M) (w : World M) (l : Loop M) :
    ∃ file, afterLoop gbc write w l =
        ({ w with storage := l.storage, allocated := l.allocated, file },
          ⟨l.frames, l.events, true⟩) ∨
      l.threw = false ∧ afterLoop gbc write w l =
        finishFrame { w with storage := l.storage, allocated := l.allocated, file } l.frames
          l.events := by
  unfold afterLoop
  cases hthrew : l.threw with
  | true => exact ⟨w.file, .inl rfl⟩
  | false =>
    by_cases hstore : gbc.frameCount l.storage.machine % 64 = 0
    · rw [if_neg Bool.false_ne_true, if_pos hstore]
      cases write with
      | complete => exact ⟨some l.storage.saved, .inr ⟨rfl, rfl⟩⟩
      | unopened => exact ⟨w.file, .inl rfl⟩
      | interrupted left => exact ⟨some left, .inl rfl⟩
    · rw [if_neg Bool.false_ne_true, if_neg hstore]
      exact ⟨w.file, .inr ⟨rfl, rfl⟩⟩

theorem afterLoop_ends {w w' : World M} {l : Loop M} {write : FileWrite M} {result : FrameResult}
    (h : afterLoop gbc write w l = (w', result)) : Ends w w' result l := by
  obtain ⟨file, hcase | ⟨-, hcase⟩⟩ := afterLoop_cases gbc write w l
  · obtain ⟨rfl, rfl⟩ := Prod.mk.inj (hcase.symm.trans h)
    exact ⟨rfl, rfl, id, rfl⟩
  · obtain ⟨hclock, hts, hindex, hframes⟩ := finishFrame_ends rfl (hcase.symm.trans h)
    exact ⟨hclock, hts, hindex, hframes⟩

/-- `get_frame` is the loop from the state with the buttons of the call, and what follows. -/
theorem getFrame_ends {w w' : World M} {elapsed : NNRat} {keys : Byte} {write : FileWrite M}
    {result : FrameResult} (h : getFrame gbc pad encode w elapsed keys write = (w', result)) :
    ∃ inputs, inputs.current = w.storage.currentState.inputs.current ∧
      Ends { w with clock := w.clock + elapsed } w' result
        ((chase (frameStep gbc pad encode (w.clock + elapsed)) 4 (enterLoop w inputs)).getD
          (enterLoop w inputs)) := by
  have hcontribute := w.storage.currentState.inputs.contribute_eq keys
  unfold getFrame at h
  simp only [hcontribute] at h
  refine ⟨_, ?_, afterLoop_ends gbc h⟩
  rfl

theorem getFrame_ok {w w' : World M} {elapsed : NNRat} {keys : Byte} {write : FileWrite M}
    {result : FrameResult} (h : getFrame gbc pad encode w elapsed keys write = (w', result)) :
    FrameOk w w' elapsed result.frames := by
  obtain ⟨inputs, hcurrent, hends⟩ := getFrame_ends gbc pad encode h
  have hle : w.clock ≤ w.clock + elapsed := le_add_of_nonneg_right elapsed.coe_nonneg
  have hclock := hends.clock
  dsimp only at hclock
  cases hget : inputs.get pad with
  | none =>
    rw [chase_frameStep_threw gbc pad encode (w.clock + elapsed) (l := enterLoop w inputs) hget rfl,
      Option.getD_some] at hends
    have hindex : IndexOk w → False := fun hlt => by
      rw [IndexOk, ← hcurrent] at hlt
      rw [InputState.get_eq pad hlt] at hget
      cases hget
    refine ⟨hclock, fun hts => ?_, fun hlt => (hindex hlt).elim, fun _ hlt => (hindex hlt).elim⟩
    rw [TsOk, hends.ts, hclock]
    exact hts.trans hle
  | some held =>
    obtain ⟨l', hchase, ⟨-, hinputs⟩, hcaught⟩ := chase_frameStep gbc pad encode
      (w.clock + elapsed) (l := enterLoop w inputs) hget rfl
    rw [hchase, Option.getD_some] at hends
    refine ⟨hclock, fun hts => ?_, fun hlt => ?_, fun hts _ hlate => ?_⟩
    · rw [TsOk, hends.ts, hclock]
      exact hcaught.not_ahead (hts.trans hle)
    · refine hends.index ?_
      rw [hinputs]
      exact hcurrent ▸ hlt
    · have hbehind : tickRate < timeDiff w.storage.currentState.ts (w.clock + elapsed) := by
        unfold timeDiff
        unfold TsOk at hts
        linarith
      have hframes := hcaught.frames_le
      have hone := hcaught.lt_frames hbehind
      have hzero : (enterLoop w inputs).frames = 0 := rfl
      rw [hends.ts, hclock, hends.frames]
      exact ⟨by omega, by omega, sub_nonneg.2 (hcaught.not_ahead (hts.trans hle)), hcaught.behind⟩

/-! ## Runs -/

/-- No time stamp is restored that is ahead of the clock. -/
def RestoresPast (w : World M) : Op M → Prop
  | .startUp reading => ∀ r ∈ w.file, ∀ frame ∈ r.frame, frame.ts ≤ reading
  | .liveUpdate reading elapsed => w.storage.currentState.ts ≤ reading + elapsed
  | .getFrame _ _ _ => True

/-- No index outside the input ring is restored from the state file. -/
def RestoresIndex (w : World M) : Op M → Prop
  | .startUp _ => ∀ r ∈ w.file, ∀ frame ∈ r.frame, frame.inputs.current.toNat < 4
  | _ => True

/-- The frame state of a new process : the restored one, or a fresh one. -/
theorem currentState_start (reading : ℚ) (file : Option (Restored M ℚ)) :
    (start gbc reading file).currentState =
      (file.bind Restored.frame).getD ⟨reading, InputState.zero, 0⟩ := by
  cases file <;> rfl

theorem restored_iff {P : FrameState ℚ → Prop} {reading : ℚ} {file : Option (Restored M ℚ)}
    (hfresh : P ⟨reading, InputState.zero, 0⟩) :
    P (start gbc reading file).currentState ↔ ∀ r ∈ file, ∀ frame ∈ r.frame, P frame := by
  rw [currentState_start]
  cases file with
  | none => simpa using hfresh
  | some r =>
    cases hframe : r.frame with
    | none => simpa [hframe] using hfresh
    | some frame => simp [hframe]

theorem tsOk_step_iff {w : World M} (hw : TsOk w) (op : Op M) :
    TsOk (step gbc pad encode w op).1 ↔ RestoresPast w op := by
  cases op with
  | startUp reading =>
    exact restored_iff gbc (P := fun frame => frame.ts ≤ reading) le_rfl
  | liveUpdate reading elapsed => exact Iff.rfl
  | getFrame elapsed keys write =>
    exact iff_of_true ((getFrame_ok gbc pad encode rfl).ts hw) trivial

theorem indexOk_step {w : World M} (hw : IndexOk w) {op : Op M} (hop : RestoresIndex w op) :
    IndexOk (step gbc pad encode w op).1 := by
  cases op with
  | startUp reading =>
    exact (restored_iff gbc (P := fun frame => frame.inputs.current.toNat < 4)
      (Nat.zero_lt_succ 3)).2 hop
  | liveUpdate reading elapsed => exact hw
  | getFrame elapsed keys write => exact (getFrame_ok gbc pad encode rfl).index hw

/-- The time stamp is never ahead of the clock exactly if none is restored that is. -/
theorem ts_le_clock_iff (reading : ℚ) (ops : List (Op M)) :
    (gameBoy gbc pad encode reading).Always TsOk ops ↔
      (gameBoy gbc pad encode reading).Meets RestoresPast ops := by
  have hstart : TsOk (gameBoy gbc pad encode reading).init := le_refl reading
  have hstep : ∀ w op, TsOk w →
      (TsOk ((gameBoy gbc pad encode reading).step w op).1 ↔ RestoresPast w op) :=
    fun _ op hw => tsOk_step_iff gbc pad encode hw op
  exact (gameBoy gbc pad encode reading).always_iff_meets hstart hstep ops

theorem indexOk_after (reading : ℚ) (ops : List (Op M))
    (h : (gameBoy gbc pad encode reading).Meets RestoresIndex ops) :
    IndexOk ((gameBoy gbc pad encode reading).after ops) :=
  (gameBoy gbc pad encode reading).run_induction (I := fun _ w => IndexOk w)
    (Nat.zero_lt_succ 3)
    (fun ops op hw hop => by
      rw [TinyKvm.Machine.after_snoc]
      exact indexOk_step gbc pad encode hw hop) ops h

/-- The time stamp is never ahead of the clock exactly if none is restored that is. If also no
index outside the ring is restored, a `get_frame` more than a tick after the last reading simulates
one to three frames and ends at most a tick behind the clock. -/
theorem frames_advance (reading : ℚ) (ops : List (Op M)) :
    ((gameBoy gbc pad encode reading).Always TsOk ops ↔
      (gameBoy gbc pad encode reading).Meets RestoresPast ops) ∧
    ((gameBoy gbc pad encode reading).Meets RestoresPast ops →
      (gameBoy gbc pad encode reading).Meets RestoresIndex ops →
      ∀ pre (elapsed : NNRat) keys write, pre ++ [.getFrame elapsed keys write] <+: ops →
        tickRate < elapsed → ∃ w result,
          getFrame gbc pad encode ((gameBoy gbc pad encode reading).after pre) elapsed keys write =
            (w, result) ∧
          1 ≤ result.frames ∧ result.frames ≤ 3 ∧
          0 ≤ timeDiff w.storage.currentState.ts w.clock ∧
          timeDiff w.storage.currentState.ts w.clock ≤ tickRate) := by
  refine ⟨ts_le_clock_iff gbc pad encode reading ops, fun hpast hindex => ?_⟩
  intro pre elapsed keys write hpre hlate
  have hprefix : pre <+: ops := (List.prefix_append _ _).trans hpre
  have halways := (ts_le_clock_iff gbc pad encode reading ops).2 hpast
  have hpreindex : (gameBoy gbc pad encode reading).Meets RestoresIndex pre :=
    fun before op hbefore => hindex before op (hbefore.trans hprefix)
  exact ⟨_, _, rfl, (getFrame_ok gbc pad encode rfl).advances
    (halways pre hprefix) (indexOk_after gbc pad encode reading pre hpreindex) hlate⟩

end Loop

/-! ## Two processes -/

/-- A keypad : the directions in the low bits, the buttons in the high ones. -/
def keypad : Keypad where
  bit :=
    { toFun := fun
        | .right => 0 | .left => 1 | .up => 2 | .down => 3
        | .a => 4 | .b => 5 | .select => 6 | .start => 7
      invFun := fun
        | 0 => .right | 1 => .left | 2 => .up | 3 => .down
        | 4 => .a | 5 => .b | 6 => .select | 7 => .start
      left_inv := fun button => by cases button <;> rfl
      right_inv := by decide }

/-- The machine of one byte, with an image of nothing. -/
def byteGameBoy : TinyKvm.Machine (World Byte) (Op Byte) (Option FrameResult) :=
  gameBoy byteMachine keypad (fun _ _ => []) 0

/-- A request after a fiftieth of a second. -/
def fiftieth : Op Byte :=
  .getFrame ⟨1 / 50, by norm_num⟩ 0 .complete

theorem meets_replicate_fiftieth {G : World Byte → Op Byte → Prop} (h : ∀ w, G w fiftieth)
    (n : ℕ) : byteGameBoy.Meets G (List.replicate n fiftieth) := by
  intro pre op hpre
  obtain ⟨-, rfl⟩ := List.mem_replicate.1 (hpre.subset List.mem_concat_self)
  exact h _

/-- A process that makes 64 frames and so stores its state, and one started when the clock is past
that state. -/
def laterRestart : List (Op Byte) :=
  List.replicate 64 fiftieth ++ [.startUp 2]

/-- The first request to the second process is answered with a new frame. -/
theorem frames_advance_restart :
    (byteGameBoy.after laterRestart).storage.currentState.ts < 2 ∧
    ∃ w result, getFrame byteMachine keypad (fun _ _ => []) (byteGameBoy.after laterRestart)
        ⟨1 / 50, by norm_num⟩ 0 .complete = (w, result) ∧
      1 ≤ result.frames ∧ result.frames ≤ 3 ∧
      0 ≤ timeDiff w.storage.currentState.ts w.clock ∧
      timeDiff w.storage.currentState.ts w.clock ≤ tickRate := by
  have hpast : RestoresPast (byteGameBoy.after (List.replicate 64 fiftieth)) (.startUp 2) := by
    unfold RestoresPast
    decide +kernel
  have hindex : RestoresIndex (byteGameBoy.after (List.replicate 64 fiftieth)) (.startUp 2) := by
    unfold RestoresIndex
    decide +kernel
  refine ⟨by decide +kernel, (frames_advance byteMachine keypad (fun _ _ => []) 0
    (laterRestart ++ [fiftieth])).2 ?_ ?_ laterRestart ⟨1 / 50, by norm_num⟩ 0 .complete
      (List.prefix_refl _) (by rw [tickRate]; decide +kernel)⟩
  · exact byteGameBoy.meets_snoc.2 ⟨byteGameBoy.meets_snoc.2
      ⟨meets_replicate_fiftieth (fun _ => trivial) 64, hpast⟩, trivial⟩
  · exact byteGameBoy.meets_snoc.2 ⟨byteGameBoy.meets_snoc.2
      ⟨meets_replicate_fiftieth (fun _ => trivial) 64, hindex⟩, trivial⟩

/-- A process that makes 64 frames and so stores its state, and one started after it. -/
def restart : List (Op Byte) :=
  List.replicate 64 fiftieth ++ [.startUp 0]

/-- The state of the first process is ahead of the clock of the second. -/
theorem ts_ahead : ¬byteGameBoy.Always TsOk restart := by
  intro h
  have hlast := h restart (List.prefix_refl _)
  revert hlast
  unfold TsOk
  decide +kernel

end GameBoy

end TinyKvm
