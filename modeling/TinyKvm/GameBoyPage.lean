import TinyKvm.GameBoyInput
import TinyKvm.Machine
import Mathlib.Data.List.Nodup

/-!
# The Game Boy's page

The page of the Game Boy remembers the keys that are down as letters of the
string `buttonEvent` : a keydown appends the letter of its key unless it is
there, a keyup removes its first occurrence. It requests each frame from a URL
that ends in that string, and `on_get` presses the buttons whose letters it
finds anywhere in the URL.

`buttonEvent` has no letter twice, so a keyup removes the letter of its key
however often the keydown repeated (`Held.handle`), and none of the letters is in
the fixed part of the URL. `on_get` so presses the buttons of the keys whose
latest event is a keydown, and no others (`pressed_iff_latest`).
-/

namespace TinyKvm

namespace GameBoy

/-! ## The page -/

/-- The `code` of a key event : one the page handles, or any other. -/
inductive Code where
  | arrowUp
  | arrowDown
  | arrowLeft
  | arrowRight
  | keyX
  | keyZ
  | enter
  | space
  | other
  deriving DecidableEq

/-- A key event of the document. -/
inductive KeyEvent where
  | keydown (code : Code)
  | keyup (code : Code)

/-- The byte of a letter. -/
def char (c : Char) : Byte :=
  BitVec.ofNat 8 c.toNat

/-- `setInput`. -/
def setInput (inp : Byte) (buttonEvent : Bytes) : Bytes :=
  if inp ∈ buttonEvent then buttonEvent else buttonEvent ++ [inp]

/-- `unsetInput`, which replaces the first occurrence by nothing. -/
def unsetInput (inp : Byte) (buttonEvent : Bytes) : Bytes :=
  buttonEvent.erase inp

/-- The keydown handler. -/
def onKeydown (buttonEvent : Bytes) : Code → Bytes
  | .arrowUp => setInput (char 'u') buttonEvent
  | .arrowDown => setInput (char 'd') buttonEvent
  | .arrowLeft => setInput (char 'l') buttonEvent
  | .arrowRight => setInput (char 'r') buttonEvent
  | .keyX => setInput (char 'b') buttonEvent
  | .keyZ => setInput (char 'a') buttonEvent
  | .enter => setInput (char 'e') buttonEvent
  | .space => setInput (char 's') buttonEvent
  | .other => buttonEvent

/-- The keyup handler. -/
def onKeyup (buttonEvent : Bytes) : Code → Bytes
  | .arrowUp => unsetInput (char 'u') buttonEvent
  | .arrowDown => unsetInput (char 'd') buttonEvent
  | .arrowLeft => unsetInput (char 'l') buttonEvent
  | .arrowRight => unsetInput (char 'r') buttonEvent
  | .keyX => unsetInput (char 'b') buttonEvent
  | .keyZ => unsetInput (char 'a') buttonEvent
  | .enter => unsetInput (char 'e') buttonEvent
  | .space => unsetInput (char 's') buttonEvent
  | .other => buttonEvent

/-- The handler of an event. -/
def handle (buttonEvent : Bytes) : KeyEvent → Bytes
  | .keydown code => onKeydown buttonEvent code
  | .keyup code => onKeyup buttonEvent code

/-- `buttonEvent` after a sequence of events. -/
def buttonEvent (events : List KeyEvent) : Bytes :=
  events.foldl handle []

/-- The URL `tick` requests a frame from. -/
def frameUrl (buttonEvent : Bytes) : Bytes :=
  ascii "/x/png" ++ ascii "?" ++ buttonEvent

/-! ## The server -/

variable (pad : Keypad)

/-- The button mask `on_get` finds in a URL. -/
def inputsOf (url : Bytes) : Byte :=
  let inputs := 0#8
  let inputs := if char 'a' ∈ url then inputs ||| pad.mask .a else inputs
  let inputs := if char 'b' ∈ url then inputs ||| pad.mask .b else inputs
  let inputs := if char 'e' ∈ url then inputs ||| pad.mask .start else inputs
  let inputs := if char 's' ∈ url then inputs ||| pad.mask .select else inputs
  let inputs := if char 'u' ∈ url then inputs ||| pad.mask .up else inputs
  let inputs := if char 'd' ∈ url then inputs ||| pad.mask .down else inputs
  let inputs := if char 'r' ∈ url then inputs ||| pad.mask .right else inputs
  let inputs := if char 'l' ∈ url then inputs ||| pad.mask .left else inputs
  inputs

/-- What `on_get` answers with : the page, or the frame `get_frame` makes of a button mask. -/
inductive Answer where
  | page
  | frame (inputs : Byte)

/-- `on_get`. -/
def onGet (url : CString) : Answer :=
  if url.bytes = ascii "/x" then .page else .frame (inputsOf pad url.bytes)

/-! ## The letters of the keys -/

/-- The key the page has for each button. -/
def keyOf : Button → Code
  | .a => .keyZ
  | .b => .keyX
  | .start => .enter
  | .select => .space
  | .up => .arrowUp
  | .down => .arrowDown
  | .right => .arrowRight
  | .left => .arrowLeft

/-- The letter page and server have for each button. -/
def letterOf : Button → Byte
  | .a => char 'a'
  | .b => char 'b'
  | .start => char 'e'
  | .select => char 's'
  | .up => char 'u'
  | .down => char 'd'
  | .right => char 'r'
  | .left => char 'l'

theorem letterOf_injective : Function.Injective letterOf := by
  intro button other h
  cases button <;> cases other <;> first | rfl | exact absurd h (by decide)

theorem onKeydown_keyOf (s : Bytes) (button : Button) :
    onKeydown s (keyOf button) = setInput (letterOf button) s := by
  cases button <;> rfl

theorem onKeyup_keyOf (s : Bytes) (button : Button) :
    onKeyup s (keyOf button) = unsetInput (letterOf button) s := by
  cases button <;> rfl

/-- A handled key is the one of a button. -/
theorem eq_keyOf_or_other (code : Code) : (∃ button, code = keyOf button) ∨ code = .other := by
  cases code
  case other => exact .inr rfl
  case arrowUp => exact .inl ⟨.up, rfl⟩
  case arrowDown => exact .inl ⟨.down, rfl⟩
  case arrowLeft => exact .inl ⟨.left, rfl⟩
  case arrowRight => exact .inl ⟨.right, rfl⟩
  case keyX => exact .inl ⟨.b, rfl⟩
  case keyZ => exact .inl ⟨.a, rfl⟩
  case enter => exact .inl ⟨.start, rfl⟩
  case space => exact .inl ⟨.select, rfl⟩

theorem keyOf_injective : Function.Injective keyOf := by
  intro button other h
  cases button <;> cases other <;> first | rfl | cases h

/-! ## What the server presses -/

theorem pressed_add (c : Prop) [Decidable c] (inputs : Byte) (button other : Button) :
    pad.pressed (if c then inputs ||| pad.mask button else inputs) other = true ↔
      pad.pressed inputs other = true ∨ c ∧ button = other := by
  by_cases h : c <;> simp [h, Keypad.pressed_or, Keypad.pressed_mask]

/-- The buttons whose letters are in the URL. -/
theorem pressed_inputsOf (url : Bytes) (button : Button) :
    pad.pressed (inputsOf pad url) button = true ↔ letterOf button ∈ url := by
  simp only [inputsOf, pressed_add, Keypad.pressed_zero]
  cases button <;> simp [letterOf]

theorem letterOf_mem_frameUrl (s : Bytes) (button : Button) :
    letterOf button ∈ frameUrl s ↔ letterOf button ∈ s := by
  have hfixed : letterOf button ∉ ascii "/x/png" ++ ascii "?" := by
    cases button <;> decide
  simp [frameUrl, List.mem_append] at hfixed ⊢
  simp [hfixed]

/-! ## The letters held -/

/-- What an event says about the key of a button : that it is down, or up, or nothing. -/
def downOf (button : Button) : KeyEvent → Option Bool
  | .keydown code => if code = keyOf button then some true else none
  | .keyup code => if code = keyOf button then some false else none

/-- The latest event of the button's key is a keydown. -/
def LatestIsDown (events : List KeyEvent) (button : Button) : Prop :=
  lastOf (downOf button) events = some true

/-- `buttonEvent` has the letters of the buttons held, each once, and no others. -/
structure Held (s : Bytes) (held : Button → Prop) : Prop where
  nodup : s.Nodup
  letter_iff : ∀ button, letterOf button ∈ s ↔ held button
  letters : ∀ l ∈ s, ∃ button, l = letterOf button

theorem Held.congr {s : Bytes} {held held' : Button → Prop} (h : Held s held)
    (heq : ∀ button, held button ↔ held' button) : Held s held' :=
  ⟨h.nodup, fun button => (h.letter_iff button).trans (heq button), h.letters⟩

theorem Held.setInput {s : Bytes} {held : Button → Prop} (h : Held s held) (button : Button) :
    Held (setInput (letterOf button) s) fun other => other = button ∨ held other := by
  unfold GameBoy.setInput
  by_cases hmem : letterOf button ∈ s
  · rw [if_pos hmem]
    refine ⟨h.nodup, fun other => ?_, h.letters⟩
    rw [h.letter_iff]
    refine ⟨.inr, ?_⟩
    rintro (rfl | hother)
    · exact (h.letter_iff _).1 hmem
    · exact hother
  · rw [if_neg hmem]
    refine ⟨?_, fun other => ?_, fun l hl => ?_⟩
    · exact List.nodup_append.2 ⟨h.nodup, List.nodup_singleton _, by
        rintro l hl _ hl' rfl
        exact hmem (List.mem_singleton.1 hl' ▸ hl)⟩
    · rw [List.mem_append, List.mem_singleton, h.letter_iff, letterOf_injective.eq_iff, or_comm]
    · rcases List.mem_append.1 hl with hl | hl
      · exact h.letters l hl
      · exact ⟨button, List.mem_singleton.1 hl⟩

theorem Held.unsetInput {s : Bytes} {held : Button → Prop} (h : Held s held) (button : Button) :
    Held (unsetInput (letterOf button) s) fun other => other ≠ button ∧ held other := by
  refine ⟨h.nodup.erase _, fun other => ?_, fun l hl => h.letters l (List.mem_of_mem_erase hl)⟩
  rw [GameBoy.unsetInput, h.nodup.mem_erase_iff, h.letter_iff, letterOf_injective.ne_iff]

section Latest

variable {events : List KeyEvent} {e : KeyEvent} {button : Button}

theorem latestIsDown_of_some {d : Bool} (h : downOf button e = some d) :
    LatestIsDown (events ++ [e]) button ↔ d = true := by
  rw [LatestIsDown, lastOf_snoc, h, Option.some_or, Option.some_inj]

theorem latestIsDown_of_none (h : downOf button e = none) :
    LatestIsDown (events ++ [e]) button ↔ LatestIsDown events button := by
  rw [LatestIsDown, lastOf_snoc, h, Option.none_or, LatestIsDown]

end Latest

theorem Held.keydown {events : List KeyEvent} {s : Bytes} (h : Held s (LatestIsDown events))
    (button : Button) :
    Held (GameBoy.setInput (letterOf button) s)
      (LatestIsDown (events ++ [.keydown (keyOf button)])) := by
  refine (h.setInput button).congr fun other => ?_
  by_cases heq : other = button
  · subst heq
    have hown : downOf other (.keydown (keyOf other)) = some true := if_pos rfl
    rw [latestIsDown_of_some hown]
    exact iff_of_true (.inl rfl) rfl
  · have hnone : downOf other (.keydown (keyOf button)) = none :=
      if_neg fun hkey => heq (keyOf_injective hkey).symm
    rw [latestIsDown_of_none hnone]
    exact or_iff_right heq

theorem Held.keyup {events : List KeyEvent} {s : Bytes} (h : Held s (LatestIsDown events))
    (button : Button) :
    Held (GameBoy.unsetInput (letterOf button) s)
      (LatestIsDown (events ++ [.keyup (keyOf button)])) := by
  refine (h.unsetInput button).congr fun other => ?_
  by_cases heq : other = button
  · subst heq
    have hown : downOf other (.keyup (keyOf other)) = some false := if_pos rfl
    rw [latestIsDown_of_some hown]
    exact iff_of_false (fun hne => hne.1 rfl) Bool.false_ne_true
  · have hnone : downOf other (.keyup (keyOf button)) = none :=
      if_neg fun hkey => heq (keyOf_injective hkey).symm
    rw [latestIsDown_of_none hnone]
    exact and_iff_right heq

/-- An event of a handled key adds or removes its letter, any other changes nothing. -/
theorem Held.handle {events : List KeyEvent} {s : Bytes} (h : Held s (LatestIsDown events))
    (e : KeyEvent) : Held (handle s e) (LatestIsDown (events ++ [e])) := by
  have hother : ∀ button, Code.other ≠ keyOf button := by
    intro button
    cases button <;> decide
  cases e with
  | keydown code =>
    rcases eq_keyOf_or_other code with ⟨button, rfl⟩ | rfl
    · rw [GameBoy.handle, onKeydown_keyOf]
      exact h.keydown button
    · have hnone : ∀ button, downOf button (.keydown .other) = none := fun button =>
        if_neg (hother button)
      exact h.congr fun button => (latestIsDown_of_none (hnone button)).symm
  | keyup code =>
    rcases eq_keyOf_or_other code with ⟨button, rfl⟩ | rfl
    · rw [GameBoy.handle, onKeyup_keyOf]
      exact h.keyup button
    · have hnone : ∀ button, downOf button (.keyup .other) = none := fun button =>
        if_neg (hother button)
      exact h.congr fun button => (latestIsDown_of_none (hnone button)).symm

/-- After any events the page holds the keys whose latest event is a keydown. -/
theorem held_buttonEvent (events : List KeyEvent) :
    Held (buttonEvent events) (LatestIsDown events) := by
  induction events using List.reverseRecOn with
  | nil =>
    refine ⟨List.nodup_nil, fun button => ?_, fun l hl => by cases hl⟩
    simp [buttonEvent, LatestIsDown, lastOf]
  | append_singleton events e ih =>
    rw [buttonEvent, List.foldl_append]
    exact ih.handle e

theorem nonzero_frameUrl (events : List KeyEvent) :
    ∀ l ∈ frameUrl (buttonEvent events), l ≠ 0 := by
  intro l hl
  rcases List.mem_append.1 hl with hl | hl
  · have hfixed : ∀ l ∈ ascii "/x/png" ++ ascii "?", l ≠ 0 := by decide
    exact hfixed l hl
  · obtain ⟨button, rfl⟩ := (held_buttonEvent events).letters l hl
    cases button <;> decide

/-- The URL of the frame the page requests after a sequence of events. -/
def requestUrl (events : List KeyEvent) : CString :=
  ⟨frameUrl (buttonEvent events), nonzero_frameUrl events⟩

/-- `on_get` presses the buttons of the keys whose latest event is a keydown, and no others. -/
theorem pressed_iff_latest (events : List KeyEvent) :
    ∃ inputs, onGet pad (requestUrl events) = .frame inputs ∧
      ∀ button, pad.pressed inputs button = true ↔ LatestIsDown events button := by
  have hurl : frameUrl (buttonEvent events) ≠ ascii "/x" := by
    intro h
    have hlen := congrArg List.length h
    simp [frameUrl, ascii] at hlen
  refine ⟨_, if_neg hurl, fun button => ?_⟩
  rw [pressed_inputsOf, requestUrl, letterOf_mem_frameUrl, (held_buttonEvent events).letter_iff]

end GameBoy

end TinyKvm
