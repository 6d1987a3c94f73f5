import TinyKvm.Api
import TinyKvm.SlidingWindow
import Mathlib.Logic.Equiv.Defs
import Mathlib.Tactic.IntervalCases

/-!
# The Game Boy's input ring

Requests contribute the buttons they hold to the frame the storage machine is
about to make. `InputState` keeps them in four slots : a contribution goes into
all of them, and `next` clears the current slot and moves on, so that a button
stays held for a few frames after the request that held it.

`InputState` refines a ring of four slots folded by OR (`models_run`). The index
stays below 4, no access throws, and `get` is the OR of the contributions
followed by at most three `next` calls, without opposite directions
(`get_eq_window`).
-/

namespace TinyKvm

namespace GameBoy

/-- The buttons of a Game Boy. -/
inductive Button where
  | a
  | b
  | start
  | select
  | up
  | down
  | right
  | left
  deriving DecidableEq

/-- The bit each of the eight buttons has in an input mask, as `libgbc` numbers them. -/
structure Keypad where
  bit : Button ≃ Fin 8

namespace Keypad

variable (pad : Keypad)

/-- The mask of a button, the constants `gbc::BUTTON_A` and so on. -/
def mask (button : Button) : Byte :=
  BitVec.twoPow 8 (pad.bit button)

/-- The test `keys & mask`. -/
def pressed (keys : Byte) (button : Button) : Bool :=
  keys &&& pad.mask button != 0

theorem pressed_eq (keys : Byte) (button : Button) :
    pad.pressed keys button = keys.getLsbD (pad.bit button) := by
  have htwo : BitVec.twoPow 8 (pad.bit button : ℕ) ≠ 0 := by
    intro h
    have hbit := congrArg (fun x => x.getLsbD (pad.bit button)) h
    simp at hbit
  unfold pressed mask
  rw [BitVec.and_twoPow]
  cases keys.getLsbD (pad.bit button) <;> simp_all

theorem pressed_mask (button other : Button) :
    pad.pressed (pad.mask button) other = decide (button = other) := by
  rw [pressed_eq, mask, BitVec.getLsbD_twoPow]
  have hlt := (pad.bit button).isLt
  by_cases h : button = other
  · simp [h]
  · have hne : (pad.bit button : ℕ) ≠ pad.bit other :=
      fun heq => h (pad.bit.injective (Fin.ext heq))
    simp [h, hne]

@[simp] theorem pressed_zero (button : Button) : pad.pressed 0#8 button = false := by
  simp [pressed_eq]

theorem pressed_or (k l : Byte) (button : Button) :
    pad.pressed (k ||| l) button = (pad.pressed k button || pad.pressed l button) := by
  simp [pressed_eq]

theorem pressed_and_not (k l : Byte) (button : Button) :
    pad.pressed (k &&& ~~~l) button = (pad.pressed k button && !pad.pressed l button) := by
  simp [pressed_eq]

/-- Every bit of a mask is a button's. -/
theorem ext_pressed {k l : Byte} (h : ∀ button, pad.pressed k button = pad.pressed l button) :
    k = l := by
  apply BitVec.eq_of_getLsbD_eq
  intro i hi
  have hbit := h (pad.bit.symm ⟨i, hi⟩)
  rw [pressed_eq, pressed_eq, Equiv.apply_symm_apply] at hbit
  exact hbit

/-- The directions opposite to the ones that win : DOWN if UP is pressed, LEFT if RIGHT is. -/
def opposites (keys : Byte) : Byte :=
  (if pad.pressed keys .up then pad.mask .down else 0) |||
    (if pad.pressed keys .right then pad.mask .left else 0)

theorem pressed_opposites (keys : Byte) (button : Button) :
    pad.pressed (pad.opposites keys) button =
      (pad.pressed keys .up && decide (.down = button) ||
        pad.pressed keys .right && decide (.left = button)) := by
  unfold opposites
  rw [pressed_or]
  cases pad.pressed keys .up <;> cases pad.pressed keys .right <;> simp [pressed_mask]

end Keypad

/-! ## The ring -/

/-- `InputState`. -/
structure InputState where
  keystate : Vector Byte 4
  current : BitVec 8
  contribs : BitVec 16
  deriving DecidableEq

namespace InputState

/-- The zero-initialised static. -/
def zero : InputState :=
  ⟨Vector.replicate 4 0, 0, 0⟩

/-- One round of the loop of `contribute`, which throws if `at` does. -/
def contributeAt (current keys : BitVec 8) (keystate : Vector Byte 4) (i : ℕ) :
    Option (Vector Byte 4) := do
  let idx := (current.toNat + i) % 4
  let slot ← keystate[idx]?
  return keystate.setIfInBounds idx (slot ||| keys)

/-- `contribute`. -/
def contribute (s : InputState) (keys : Byte) : Option InputState := do
  let keystate ← (List.range 4).foldlM (contributeAt s.current keys) s.keystate
  return { s with keystate, contribs := s.contribs + 1 }

/-- `get`. -/
def get (pad : Keypad) (s : InputState) : Option Byte := do
  let keys ← s.keystate[s.current.toNat]?
  let keys := if pad.pressed keys .up then keys &&& ~~~pad.mask .down else keys
  let keys := if pad.pressed keys .right then keys &&& ~~~pad.mask .left else keys
  return keys

/-- `next`. -/
def next (s : InputState) : Option InputState := do
  let _ ← s.keystate[s.current.toNat]?
  return { keystate := s.keystate.setIfInBounds s.current.toNat 0
           current := BitVec.ofNat 8 ((s.current.toNat + 1) % 4)
           contribs := 0 }

/-- A call of `contribute`, or of `next`. -/
def step (s : InputState) : Tick Byte → Option InputState
  | .item keys => s.contribute keys
  | .tick => s.next

/-- The state after a sequence of calls, unless one of them throws. -/
def run (calls : List (Tick Byte)) : Option InputState :=
  calls.foldlM step zero

theorem contributeAt_spec (current keys : BitVec 8) (keystate : Vector Byte 4) (i : ℕ) :
    ∃ keystate', contributeAt current keys keystate i = some keystate' ∧
      ∀ j (hj : j < 4), keystate'[j] =
        if j = (current.toNat + i) % 4 then keystate[j] ||| keys else keystate[j] := by
  have hlt : (current.toNat + i) % 4 < 4 := Nat.mod_lt _ (by decide)
  refine ⟨_, by simp [contributeAt, hlt]; rfl, fun j hj => ?_⟩
  rw [Vector.getElem_setIfInBounds hj]
  by_cases h : j = (current.toNat + i) % 4
  · simp [h]
  · simp [h, Ne.symm h]

/-- After `n` rounds the `n` slots from the current one on have the buttons. -/
theorem contribute_rounds (current keys : BitVec 8) (keystate : Vector Byte 4) {n : ℕ}
    (hn : n ≤ 4) :
    ∃ keystate', (List.range n).foldlM (contributeAt current keys) keystate = some keystate' ∧
      ∀ j (hj : j < 4), keystate'[j] =
        if (j + 4 - current.toNat % 4) % 4 < n then keystate[j] ||| keys else keystate[j] := by
  induction n with
  | zero => exact ⟨keystate, rfl, fun j hj => rfl⟩
  | succ n ih =>
    obtain ⟨mid, hmid, hmidj⟩ := ih (by omega)
    obtain ⟨keystate', hround, hj'⟩ := contributeAt_spec current keys mid n
    refine ⟨keystate', by simp [List.range_succ, hmid, hround], fun j hj => ?_⟩
    -- the slot of round `n` is the one `n` places from the current one
    have hplace : j = (current.toNat + n) % 4 ↔ (j + 4 - current.toNat % 4) % 4 = n := by
      omega
    simp only [hj' j hj, hmidj j hj, hplace]
    by_cases h : (j + 4 - current.toNat % 4) % 4 = n
    · simp [h]
    · have hlt : (j + 4 - current.toNat % 4) % 4 < n + 1 ↔ (j + 4 - current.toNat % 4) % 4 < n := by
        omega
      simp [h, hlt]

/-- The four rounds go through the four slots, wherever they start. -/
theorem contribute_eq (s : InputState) (keys : Byte) :
    s.contribute keys =
      some ⟨s.keystate.map (· ||| keys), s.current, s.contribs + 1⟩ := by
  obtain ⟨keystate', hrounds, hj⟩ := contribute_rounds s.current keys s.keystate le_rfl
  have hall : keystate' = s.keystate.map (· ||| keys) := by
    ext j hlt
    rw [hj j hlt, if_pos (Nat.mod_lt _ (by decide)), Vector.getElem_map]
  simp [contribute, hrounds, hall]

theorem get_eq (pad : Keypad) {s : InputState} (h : s.current.toNat < 4) :
    s.get pad = some (s.keystate[s.current.toNat] &&&
      ~~~pad.opposites s.keystate[s.current.toNat]) := by
  simp only [get, Vector.getElem?_eq_getElem h, Option.bind_eq_bind, Option.bind_some,
    Option.pure_def, Option.some.injEq]
  apply pad.ext_pressed
  intro button
  generalize s.keystate[s.current.toNat] = keys
  have hright : pad.pressed (keys &&& ~~~pad.mask .down) .right = pad.pressed keys .right := by
    simp [Keypad.pressed_and_not, Keypad.pressed_mask]
  cases hup : pad.pressed keys .up <;> cases hr : pad.pressed keys .right <;>
    simp [hright, hup, hr, Keypad.pressed_and_not, Keypad.pressed_opposites, Keypad.pressed_mask,
      Bool.and_assoc]

theorem current_of_next {s s' : InputState} (h : s.next = some s') : s'.current.toNat < 4 := by
  obtain ⟨slot, -, h⟩ := Option.bind_eq_some_iff.1 h
  rw [← Option.some.inj h, BitVec.toNat_ofNat]
  omega

/-! ## The ring it refines -/

/-- The state holds what a ring of four slots holds. -/
structure Models (s : InputState) (r : SlotRing Byte 4) : Prop where
  slots : ∀ i : Fin 4, s.keystate[i] = r.slots i
  current : s.current.toNat = r.current

/-- The ring of four slots, folded by OR. -/
def window (calls : List (Tick Byte)) : SlotRing Byte 4 :=
  SlotRing.after (· ||| ·) 0 calls

theorem models_contribute {s : InputState} {r : SlotRing Byte 4} (h : Models s r) (keys : Byte) :
    ∃ s', s.contribute keys = some s' ∧ Models s' (r.step (· ||| ·) 0 (.item keys)) := by
  refine ⟨_, contribute_eq s keys, ⟨fun i => ?_, h.current⟩⟩
  have hslot := h.slots i
  simp [SlotRing.step, ← hslot]

theorem models_next {s : InputState} {r : SlotRing Byte 4} (h : Models s r) :
    ∃ s', s.next = some s' ∧ Models s' (r.step (· ||| ·) 0 .tick) := by
  have hlt : s.current.toNat < 4 := h.current ▸ r.current.isLt
  refine ⟨_, by simp [next, Vector.getElem?_eq_getElem hlt]; rfl, ⟨fun i => ?_, ?_⟩⟩
  · have hslot := h.slots i
    simp only [SlotRing.step]
    by_cases hi : i = r.current
    · subst hi
      simp [h.current]
    · have hne : (r.current : ℕ) ≠ i := fun heq => hi (Fin.ext heq.symm)
      simpa [h.current, hne, Function.update_of_ne hi] using hslot
  · have hmod : (s.current.toNat + 1) % 4 < 256 := by omega
    simp only [SlotRing.step]
    rw [BitVec.toNat_ofNat, Nat.mod_eq_of_lt hmod, h.current, Fin.val_add]
    rfl

theorem models_step {s : InputState} {r : SlotRing Byte 4} (h : Models s r) (call : Tick Byte) :
    ∃ s', s.step call = some s' ∧ Models s' (r.step (· ||| ·) 0 call) := by
  cases call with
  | item keys => exact models_contribute h keys
  | tick => exact models_next h

/-- No call throws, and the state models the ring. -/
theorem models_run (calls : List (Tick Byte)) :
    ∃ s, run calls = some s ∧ Models s (window calls) := by
  induction calls using List.reverseRecOn with
  | nil => exact ⟨zero, rfl, ⟨fun i => by simp [zero, window, SlotRing.after, SlotRing.init], rfl⟩⟩
  | append_singleton calls call ih =>
    obtain ⟨s, hs, hmodels⟩ := ih
    obtain ⟨s', hs', hmodels'⟩ := models_step hmodels call
    refine ⟨s', ?_, ?_⟩
    · rw [run, List.foldlM_append, ← run, hs]
      simpa using hs'
    · rwa [window, SlotRing.after_snoc]

/-- What `get` gives in a state that models the ring. -/
theorem get_of_models (pad : Keypad) {s : InputState} {calls : List (Tick Byte)}
    (hmodels : Models s (window calls)) :
    s.current.toNat < 4 ∧
      s.get pad = some ((Tick.within 3 calls).foldl (· ||| ·) 0 &&&
        ~~~pad.opposites ((Tick.within 3 calls).foldl (· ||| ·) 0)) := by
  have hlt : s.current.toNat < 4 := hmodels.current ▸ (window calls).current.isLt
  have hheld : s.keystate[s.current.toNat] = (Tick.within 3 calls).foldl (· ||| ·) 0 := by
    have hslot := hmodels.slots (window calls).current
    rw [window, SlotRing.after_current] at hslot
    simp only [hmodels.current]
    exact hslot
  exact ⟨hlt, by rw [get_eq pad hlt, hheld]⟩

/-- The index stays below 4, and the buttons held are the OR of the contributions followed by at
most three `next` calls, less the opposites of the directions that win. -/
theorem get_eq_window (pad : Keypad) (calls : List (Tick Byte)) :
    ∃ s, run calls = some s ∧ s.current.toNat < 4 ∧
      s.get pad = some ((Tick.within 3 calls).foldl (· ||| ·) 0 &&&
        ~~~pad.opposites ((Tick.within 3 calls).foldl (· ||| ·) 0)) := by
  obtain ⟨s, hs, hmodels⟩ := models_run calls
  exact ⟨s, hs, get_of_models pad hmodels⟩

end InputState

end GameBoy

end TinyKvm
