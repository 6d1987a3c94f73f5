import TinyKvm.GameBoyFrame
import Mathlib.Logic.Function.Iterate

/-!
# The game that is played

What the viewers of the Game Boy play together, without the clock, the ring and
the state file : a console with a screen, on which every request makes some
frames. The buttons held in a frame are those of the requests that at most three
completed ones followed, less the opposites of the directions that win. Every 64
frames the game is saved, a restart goes on from the last save, and a live update
goes on from where the game was, with a dark screen until the next frame.

The storage machine plays this game (`plays_step`), with as many frames for each
request as its loop finds the clock behind. So whatever the requests, their times
and the updates and restarts between them, the state of the emulator, the palette
and the picture are those of the game (`plays_after`). A state file that was cut
short is left out here.
-/

namespace TinyKvm

namespace GameBoy

variable {M : Type*} (gbc : Libgbc M) (pad : Keypad) (encode : Bytes → PixelState → Bytes)

/-! ## The game -/

/-- A console : the emulated machine and the palette of its screen. -/
structure Console (M : Type*) where
  machine : M
  palette : PixelState

/-- The buttons held after requests and completed ones. -/
def held (presses : List (Tick Byte)) : Byte :=
  let keys := (Tick.within 3 presses).foldl (· ||| ·) 0
  keys &&& ~~~pad.opposites keys

/-- A frame with these buttons. -/
def Console.frame (keys : Byte) (c : Console M) : Console M :=
  let (machine, changes) := gbc.simulateOneFrame (gbc.setInputs c.machine keys)
  ⟨machine, { changes.foldl (paletteChange gbc) c.palette with nEntries := 64 }⟩

/-- The picture on the screen. -/
def Console.picture (c : Console M) : Bytes :=
  encode (gbc.pixels c.machine) c.palette

/-- A game : the console, the picture shown last, what was pressed, and the last save. -/
structure Game (M : Type*) where
  console : Console M
  shown : Bytes
  presses : List (Tick Byte)
  saved : Option (Console M × List (Tick Byte))

/-- A new game. -/
def newGame : Game M :=
  ⟨⟨gbc.newMachine, ⟨0, Vector.replicate 256 0⟩⟩, [], [], none⟩

/-- Buttons are pressed, and some frames made with those held. -/
def Game.play (keys : Byte) (frames : ℕ) (g : Game M) : Game M :=
  let presses := g.presses ++ [.item keys]
  let console := (Console.frame gbc (held pad presses))^[frames] g.console
  let shown := if frames = 0 then g.shown else console.picture gbc encode
  { g with console, shown, presses }

/-- The game is saved. -/
def Game.save (g : Game M) : Game M :=
  { g with saved := some (g.console, g.presses) }

/-- A request is completed. -/
def Game.next (g : Game M) : Game M :=
  { g with presses := g.presses ++ [.tick] }

/-- A request that makes some frames, and with every 64th frame saves the game. -/
def Game.request (keys : Byte) (write : FileWrite M) (frames : ℕ) (g : Game M) : Game M :=
  let g := g.play gbc pad encode keys frames
  if gbc.frameCount g.console.machine % 64 = 0 then
    match write with
    | .complete => g.save.next
    | .unopened | .interrupted _ => g
  else g.next

/-- What happens to the storage machine, with what came of it, is a move of the game. -/
def Game.move (g : Game M) : Op M × Option FrameResult → Game M
  | (.startUp _, _) =>
    match g.saved with
    | none => newGame gbc
    | some (console, presses) => ⟨console, [], presses, g.saved⟩
  | (.liveUpdate _ _, _) => { g with shown := [] }
  | (.getFrame _ keys write, result) =>
    g.request gbc pad encode keys write ((result.map FrameResult.frames).getD 0)

/-- The game of a run. -/
def game (trace : List (Op M × Option FrameResult)) : Game M :=
  trace.foldl (Game.move gbc pad encode) (newGame gbc)

/-! ## Playing it -/

/-- The console of a storage machine. -/
def Storage.console {τ : Type*} (s : Storage M τ) : Console M :=
  ⟨s.machine, s.storageState⟩

/-- The state file holds a save. -/
structure Holds (r : Restored M ℚ) (save : Console M × List (Tick Byte)) : Prop where
  machine : r.machine = save.1.machine
  palette : r.palette = some save.1.palette
  inputs : ∃ f, r.frame = some f ∧ InputState.run save.2 = some f.inputs

/-- The storage machine is where the game is. -/
structure Plays (w : World M) (g : Game M) : Prop where
  console : w.storage.console = g.console
  shown : w.storage.png.content = g.shown
  inputs : InputState.run g.presses = some w.storage.currentState.inputs
  none_saved : g.saved = none → w.file = none
  saved : ∀ save, g.saved = some save → ∃ r, w.file = some r ∧ Holds r save

/-- No write of the state file is cut short. -/
def Uninterrupted : Op M → Prop
  | .getFrame _ _ (.interrupted _) => False
  | _ => True

theorem run_snoc (presses : List (Tick Byte)) (t : Tick Byte) :
    InputState.run (presses ++ [t]) = (InputState.run presses).bind fun s => s.step t := by
  rw [InputState.run, List.foldlM_append, ← InputState.run]
  cases InputState.run presses <;> simp

/-- The buttons `get` gives are the ones held. -/
theorem get_of_run {presses : List (Tick Byte)} {s : InputState}
    (h : InputState.run presses = some s) : s.get pad = some (held pad presses) := by
  obtain ⟨s', hs', hmodels⟩ := InputState.models_run presses
  obtain rfl := Option.some.inj (hs'.symm.trans h)
  exact (InputState.get_of_models pad hmodels).2

/-! ## A request -/

/-- What the rounds of the loop so far made of `l` : frames with these buttons. -/
structure Framed (keys : Byte) (l x : Loop M) : Prop where
  threw : x.threw = false
  inputs : x.storage.currentState.inputs = l.storage.currentState.inputs
  console : x.storage.console = (Console.frame gbc keys)^[x.frames] l.storage.console
  shown : x.storage.png.content =
    if x.frames = 0 then l.storage.png.content else x.storage.console.picture gbc encode

variable {gbc pad encode} {keys : Byte}

/-- A round of the loop is a frame. -/
theorem framed_frameStep {t1 : ℚ} {l x y : Loop M}
    (hget : l.storage.currentState.inputs.get pad = some keys)
    (hx : Framed gbc encode keys l x) (h : frameStep gbc pad encode t1 x = some y) :
    Framed gbc encode keys l y := by
  obtain ⟨-, h⟩ := Option.ite_none_right_eq_some.1 h
  rw [hx.inputs, hget] at h
  obtain rfl := Option.some.inj h
  refine ⟨hx.threw, rfl, ?_, rfl⟩
  have hframe : (simulateFrame gbc encode keys x).storage.console =
      Console.frame gbc keys x.storage.console := rfl
  have hframes : (simulateFrame gbc encode keys x).frames = x.frames + 1 := rfl
  dsimp only
  rw [hframes, Function.iterate_succ_apply', ← hx.console]
  exact hframe

variable (gbc encode) in
/-- The loop makes some frames, all with the buttons that `get` gives. -/
theorem framed_loop (t1 : ℚ) {l : Loop M} (hl : l.threw = false) (hzero : l.frames = 0)
    (hget : l.storage.currentState.inputs.get pad = some keys) :
    ∃ l', chase (frameStep gbc pad encode t1) 4 l = some l' ∧ Framed gbc encode keys l l' := by
  have hself : Framed gbc encode keys l l := by
    refine ⟨hl, rfl, ?_, ?_⟩
    · rw [hzero]
      rfl
    · rw [if_pos hzero]
  obtain ⟨l', hchase, -⟩ := chase_frameStep gbc pad encode t1 hget hl
  refine ⟨l', hchase, ?_⟩
  exact chase_mem (S := {x | Framed gbc encode keys l x})
    (fun x hx y h => framed_frameStep hget hx h) hself hchase

/-- The storage machine after the loop is where the game is after the frames. -/
theorem plays_loop {w : World M} {g : Game M} (h : Plays w g) {keys : Byte} {inputs : InputState}
    {l : Loop M} (hrun : InputState.run (g.presses ++ [.item keys]) = some inputs)
    (hl : Framed gbc encode (held pad (g.presses ++ [.item keys])) (enterLoop w inputs) l)
    (clock : ℚ) :
    Plays { w with clock, storage := l.storage, allocated := l.allocated }
      (g.play gbc pad encode keys l.frames) := by
  have hconsole : l.storage.console = (g.play gbc pad encode keys l.frames).console := by
    rw [Game.play, ← h.console]
    exact hl.console
  refine ⟨hconsole, ?_, ?_, h.none_saved, h.saved⟩
  · rw [Game.play, ← h.shown, ← h.console]
    exact hl.shown.trans (by rw [hl.console]; rfl)
  · rw [Game.play, hrun, hl.inputs]
    rfl

/-- The state file written is the save of the game. -/
theorem plays_save {w : World M} {g : Game M} (h : Plays w g) :
    Plays { w with file := some w.storage.saved } g.save := by
  have hholds : Holds w.storage.saved (g.console, g.presses) := by
    rw [← h.console]
    exact ⟨rfl, rfl, _, rfl, h.inputs⟩
  refine ⟨h.console, h.shown, h.inputs, (fun hnone => nomatch hnone), ?_⟩
  intro save hsave
  obtain rfl := Option.some.inj hsave
  exact ⟨_, rfl, hholds⟩

/-- The end of `get_frame` completes the request. -/
theorem plays_finishFrame {w : World M} {g : Game M} (h : Plays w g) (frames : ℕ)
    (events : List PngEvent) :
    Plays (finishFrame w frames events).1 g.next ∧
      (finishFrame w frames events).2.frames = frames ∧
      (finishFrame w frames events).2.threw = false := by
  obtain ⟨inputs, hrun, -⟩ := InputState.models_run (g.presses ++ [.tick])
  have hnext : w.storage.currentState.inputs.next = some inputs := by
    rwa [run_snoc, h.inputs] at hrun
  rw [finishFrame, hnext]
  exact ⟨⟨h.console, h.shown, hrun, h.none_saved, h.saved⟩, rfl, rfl⟩

/-- After the loop the game is saved every 64th frame, and the request completed, unless the state
file cannot be opened. -/
theorem plays_afterLoop {w : World M} {g : Game M} {l : Loop M} {keys : Byte}
    {write : FileWrite M} (elapsed : NNRat) (hwrite : Uninterrupted (.getFrame elapsed keys write))
    (hthrew : l.threw = false)
    (h : Plays { w with storage := l.storage, allocated := l.allocated }
      (g.play gbc pad encode keys l.frames)) :
    Plays (afterLoop gbc write w l).1 (g.request gbc pad encode keys write l.frames) ∧
      (afterLoop gbc write w l).2.frames = l.frames ∧
      ((afterLoop gbc write w l).2.threw = true → write = .unopened) := by
  have hmachine : l.storage.machine = (g.play gbc pad encode keys l.frames).console.machine :=
    congrArg Console.machine h.console
  unfold afterLoop
  rw [hthrew, if_neg Bool.false_ne_true, hmachine]
  by_cases hstore : gbc.frameCount (g.play gbc pad encode keys l.frames).console.machine % 64 = 0
  · rw [if_pos hstore]
    cases write with
    | complete =>
      have hrequest : g.request gbc pad encode keys .complete l.frames =
          (g.play gbc pad encode keys l.frames).save.next := if_pos hstore
      obtain ⟨hend, hframes, hthrew'⟩ := plays_finishFrame (plays_save h) l.frames l.events
      rw [hrequest]
      exact ⟨hend, hframes, fun hthrew => nomatch hthrew'.symm.trans hthrew⟩
    | unopened =>
      have hrequest : g.request gbc pad encode keys .unopened l.frames =
          g.play gbc pad encode keys l.frames := if_pos hstore
      rw [hrequest]
      exact ⟨h, rfl, fun _ => rfl⟩
    | interrupted left => exact hwrite.elim
  · have hrequest : g.request gbc pad encode keys write l.frames =
        (g.play gbc pad encode keys l.frames).next := if_neg hstore
    obtain ⟨hend, hframes, hthrew'⟩ := plays_finishFrame h l.frames l.events
    rw [if_neg hstore, hrequest]
    exact ⟨hend, hframes, fun hthrew => nomatch hthrew'.symm.trans hthrew⟩

variable (gbc pad encode) in
/-- A request is one in the game, unless its write of the state file is cut short. It throws only if
the state file cannot be opened. -/
theorem plays_getFrame {w : World M} {g : Game M} (h : Plays w g) (elapsed : NNRat) (keys : Byte)
    {write : FileWrite M} (hwrite : Uninterrupted (.getFrame elapsed keys write)) :
    Plays (getFrame gbc pad encode w elapsed keys write).1
        (g.request gbc pad encode keys write
          (getFrame gbc pad encode w elapsed keys write).2.frames) ∧
      ((getFrame gbc pad encode w elapsed keys write).2.threw = true → write = .unopened) := by
  obtain ⟨inputs, hrun, -⟩ := InputState.models_run (g.presses ++ [.item keys])
  have hcontribute : w.storage.currentState.inputs.contribute keys = some inputs := by
    rwa [run_snoc, h.inputs] at hrun
  obtain ⟨l, hchase, hl⟩ := framed_loop gbc encode (w.clock + elapsed)
    (l := enterLoop { w with clock := w.clock + elapsed } inputs) rfl rfl (get_of_run pad hrun)
  have hcall : getFrame gbc pad encode w elapsed keys write =
      afterLoop gbc write { w with clock := w.clock + elapsed } l := by
    unfold getFrame
    simp only [hcontribute, hchase, Option.getD_some]
  obtain ⟨hplays, hframes, hthrew⟩ := plays_afterLoop (w := { w with clock := w.clock + elapsed })
    elapsed hwrite hl.threw (plays_loop h hrun hl (w.clock + elapsed))
  rw [hcall, hframes]
  exact ⟨hplays, hthrew⟩

/-! ## A run -/

/-- A new process goes on from the last save, or starts a new game. -/
theorem plays_startUp {w : World M} {g : Game M} (h : Plays w g) (reading : ℚ) :
    Plays { w with storage := start gbc reading w.file, clock := reading }
      (g.move gbc pad encode (.startUp reading, none)) := by
  cases hsaved : g.saved with
  | none =>
    have hfile := h.none_saved hsaved
    simp only [Game.move, hsaved, hfile]
    exact ⟨rfl, rfl, rfl, fun _ => rfl, fun _ hsave => nomatch hsave⟩
  | some save =>
    obtain ⟨r, hfile, hholds⟩ := h.saved save hsaved
    obtain ⟨f, hframe, hinputs⟩ := hholds.inputs
    simp only [Game.move, hsaved, hfile, start]
    refine ⟨?_, rfl, ?_, (fun hnone => nomatch hnone), ?_⟩
    · rw [Storage.console, Storage.restore, hholds.machine, hholds.palette]
      rfl
    · rw [Storage.restore, hframe]
      exact hinputs
    · intro save' hsave
      obtain rfl := Option.some.inj hsave
      exact ⟨r, rfl, hholds⟩

/-- A live update goes on from where the game was, with a dark screen. -/
theorem plays_liveUpdate {w : World M} {g : Game M} (h : Plays w g) (reading : ℚ)
    (elapsed : NNRat) :
    Plays (step gbc pad encode w (.liveUpdate reading elapsed)).1
      (g.move gbc pad encode (.liveUpdate reading elapsed, none)) := by
  have hshown : (start gbc reading w.file).png.content = [] := by
    cases w.file <;> rfl
  exact ⟨h.console, hshown, h.inputs, h.none_saved, h.saved⟩

variable (gbc pad encode)

/-- What happens to the storage machine is a move of the game. -/
theorem plays_step {w : World M} {g : Game M} (h : Plays w g) {op : Op M}
    (hop : Uninterrupted op) :
    Plays (step gbc pad encode w op).1
      (g.move gbc pad encode (op, (step gbc pad encode w op).2)) := by
  cases op with
  | startUp reading => exact plays_startUp h reading
  | liveUpdate reading elapsed => exact plays_liveUpdate h reading elapsed
  | getFrame elapsed keys write => exact (plays_getFrame gbc pad encode h elapsed keys hop).1

theorem game_snoc (trace : List (Op M × Option FrameResult)) (move : Op M × Option FrameResult) :
    game gbc pad encode (trace ++ [move]) =
      (game gbc pad encode trace).move gbc pad encode move := by
  rw [game, List.foldl_append]
  rfl

/-- Whatever happens to the storage machine, if no write of the state file is cut short it plays
the game : its emulator, palette and picture, its buttons and its save are those of the game. -/
theorem plays_after (reading : ℚ) (ops : List (Op M))
    (h : (gameBoy gbc pad encode reading).Meets (fun _ => Uninterrupted) ops) :
    Plays ((gameBoy gbc pad encode reading).after ops)
      (game gbc pad encode ((gameBoy gbc pad encode reading).trace ops)) := by
  have hstart : Plays (gameBoy gbc pad encode reading).init (newGame gbc) :=
    ⟨rfl, rfl, rfl, fun _ => rfl, fun _ hsave => nomatch hsave⟩
  refine (gameBoy gbc pad encode reading).run_induction
    (I := fun ops w => Plays w (game gbc pad encode ((gameBoy gbc pad encode reading).trace ops)))
    hstart (fun ops op hplays hop => ?_) ops h
  rw [TinyKvm.Machine.after_snoc, TinyKvm.Machine.trace_snoc, game_snoc]
  exact plays_step gbc pad encode hplays hop

end GameBoy

end TinyKvm
