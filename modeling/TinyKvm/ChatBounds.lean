import TinyKvm.ChatLog
import TinyKvm.JsStorage
import Mathlib.Algebra.GroupWithZero.Nat

/-!
# The size of the chat

Both storage functions of the chat script return its whole text. At its end the
trampoline asserts that the text fits in the buffer of the caller, which has two
mebibytes, and by then the script has appended the message.

The messages in memory are those of every call that formed one, also where the file
did not open, and a restart goes back to those in the file (`messageMachine`). The
text of the chat is their lines, in every run (`holds_after`). So no assertion fails
exactly while the lines fit where they are returned (`chat_fits_iff`). Nothing ever
shortens the text but a restart, so a chat that goes on gets there : short messages
need some hundred thousand calls (`chat_does_not_fit`).
-/

namespace TinyKvm

namespace Js

variable (engine : Engine) (parse : Str → Option Parsed)

/-! ## The messages -/

/-- The messages of a chat, in memory and in its file. -/
structure ChatMessages where
  memory : List Str
  file : List Str

/-- The chat as its messages. -/
def messageMachine : Machine ChatMessages ChatOp Unit where
  init := ⟨[], []⟩
  step c op :=
    match op with
    | .getStorage | .liveUpdate => (c, ())
    | .setStorage data opens =>
      match message parse data with
      | none => (c, ())
      | some m => (⟨c.memory ++ [m], if opens then c.memory ++ [m] else c.file⟩, ())
    | .restart => (⟨c.file, c.file⟩, ())

/-- The lines of the messages. -/
def chatLines (messages : List Str) : Str :=
  messages.flatMap chatLine

/-- The chat has the lines of its messages, in memory and in the file. -/
structure Holds (c : ChatMessages) (s : Chat) : Prop where
  text : s.text = chatLines c.memory
  file : s.file.getD [] = engine.toCString (chatLines c.file)

/-! ## The storage calls -/

/-- The functions of the script that the storage machine is asked for. -/
def chatGlobals (opens : Bool) : Globals Chat := fun name =>
  if name = Utf16.ofAscii "get_storage" then some getStorage
  else if name = Utf16.ofAscii "set_storage" then some (setStorage engine parse opens)
  else if name = Utf16.ofAscii "on_live_update" then some onLiveUpdate
  else if name = Utf16.ofAscii "on_resume_update" then some onResumeUpdate
  else none

/-- What `on_get` and `on_post` run in storage, with the buffer of `js_storage_call`. -/
def chatCall (s : Chat) : ChatOp → Option (StorageRun × Chat)
  | .getStorage =>
    some (storageTrampoline engine (chatGlobals engine parse true) s
      ([Utf16.ofAscii "get_storage"].map engine.toCString) resultSize)
  | .setStorage data opens =>
    some (storageTrampoline engine (chatGlobals engine parse opens) s
      ([Utf16.ofAscii "set_storage", data].map engine.toCString) resultSize)
  | .liveUpdate | .restart => none

/-- No storage call of the run fails an assertion. -/
def NeverAsserts (ops : List ChatOp) : Prop :=
  ∀ pre op, pre ++ [op] <+: ops →
    ∀ call ∈ chatCall engine parse ((chatMachine engine parse).after pre) op,
      call.1.aborted = false

/-- The lines of the messages have room in the caller's buffer. -/
def LinesFit (messages : List Str) : Prop :=
  (engine.toCString (chatLines messages)).length ≤ resultSize

/-- What a call returns fits, if it returns the text : the messages in memory, with its own. -/
def ReplyFits (c : ChatMessages) : ChatOp → Prop
  | .getStorage => LinesFit engine c.memory
  | .setStorage data true => ∀ m, message parse data = some m → LinesFit engine (c.memory ++ [m])
  | .setStorage _ false | .liveUpdate | .restart => True

variable {engine parse} {c : ChatMessages} {s : Chat}

theorem chatLines_snoc (messages : List Str) (m : Str) :
    chatLines (messages ++ [m]) = chatLines messages ++ chatLine m := by
  rw [chatLines, chatLines, List.flatMap_append, List.flatMap_singleton]

/-! ## The text -/

theorem Holds.chatStart (h : Holds engine c s) :
    Holds engine ⟨c.file, c.file⟩ (chatStart engine s.file) where
  text := by
    have hload : engine.newString (s.file.getD []) = chatLines c.file := by
      rw [h.file, engine.newString_toCString]
    rwa [← Option.getD_map engine.newString, engine.newString_nil] at hload
  file := h.file

theorem holds_step (h : Holds engine c s) (op : ChatOp) :
    Holds engine ((messageMachine parse).step c op).1 ((chatMachine engine parse).step s op).1 := by
  rcases op with - | ⟨data, opens⟩ | - | -
  · exact h
  · rcases hm : message parse data with - | m
    · simp only [messageMachine, chatMachine, setStorage_of_none hm, hm]
      exact h
    · have htext : s.text ++ chatLine m = chatLines (c.memory ++ [m]) := by
        rw [chatLines_snoc, h.text]
      simp only [messageMachine, chatMachine, setStorage_of_some hm, hm, htext]
      rcases opens with - | -
      · exact ⟨rfl, h.file⟩
      · exact ⟨rfl, rfl⟩
  · simp only [messageMachine, chatMachine, liveUpdate_eq]
    exact h
  · exact h.chatStart

/-- After every run, the chat has the lines of its messages. -/
theorem holds_after (ops : List ChatOp) :
    Holds engine ((messageMachine parse).after ops) ((chatMachine engine parse).after ops) := by
  induction ops using List.reverseRecOn with
  | nil => exact ⟨rfl, engine.toCString_nil.symm⟩
  | append_singleton ops op ih =>
    rw [Machine.after_snoc, Machine.after_snoc]
    exact holds_step ih op

/-! ## The assertion -/

theorem chatCall_getStorage :
    chatCall engine parse s .getStorage =
      some (storageReturn engine (getStorage [] s).1 resultSize, (getStorage [] s).2) := by
  have hname : chatGlobals engine parse true (Utf16.cString (Utf16.ofAscii "get_storage")) =
      some getStorage := rfl
  rw [chatCall, storageTrampoline_of_some hname]

theorem chatCall_setStorage (data : Str) (opens : Bool) :
    chatCall engine parse s (.setStorage data opens) =
      some (storageReturn engine (setStorage engine parse opens [data] s).1 resultSize,
        (setStorage engine parse opens [data] s).2) := by
  have hname : chatGlobals engine parse opens (Utf16.cString (Utf16.ofAscii "set_storage")) =
      some (setStorage engine parse opens) := rfl
  rw [chatCall, storageTrampoline_of_some hname]

/-- A call passes its assertion exactly if its text fits, where it returns it. -/
theorem not_aborted_iff (h : Holds engine c s) (op : ChatOp) :
    (∀ call ∈ chatCall engine parse s op, call.1.aborted = false) ↔
      ReplyFits engine parse c op := by
  rcases op with - | ⟨data, opens⟩ | - | -
  · rw [chatCall_getStorage]
    simp [storageReturn_aborted_iff, getStorage, Completion.text, Value.text, ReplyFits, LinesFit,
      h.text]
  · rw [chatCall_setStorage]
    simp only [Option.mem_some_iff, forall_eq', storageReturn_aborted_iff]
    rcases hm : message parse data with - | m
    · rw [setStorage_of_none hm]
      rcases opens with - | - <;> simp [Completion.text, ReplyFits, hm]
    · rw [setStorage_of_some hm, h.text, ← chatLines_snoc]
      rcases opens with - | - <;> simp [Completion.text, Value.text, ReplyFits, LinesFit, hm]
  · exact iff_of_true (fun call hcall => by cases hcall) trivial
  · exact iff_of_true (fun call hcall => by cases hcall) trivial

/-- In every run, no storage call fails an assertion exactly if the lines of the messages fit
wherever a call returns them. -/
theorem chat_fits_iff (engine : Engine) (parse : Str → Option Parsed) (ops : List ChatOp) :
    NeverAsserts engine parse ops ↔
      (messageMachine parse).Meets (ReplyFits engine parse) ops :=
  forall_congr' fun pre => forall_congr' fun op => forall_congr' fun _ =>
    not_aborted_iff (holds_after pre) op

/-! ## A chat that is too long -/

/-- A line begins and ends with ASCII characters, so it is encoded on its own. -/
theorem toUtf8_chatLine_append (m s : Str) :
    Utf16.toUtf8 (chatLine m ++ s) =
      ascii ">> " ++ Utf16.toUtf8 m ++ ascii "\n" ++ Utf16.toUtf8 s := by
  have hspace : ∀ u ∈ (Utf16.ofAscii ">> ").getLast?, ∀ v ∈ m.head?, ¬Utf16.IsPair u v := by
    rintro _ ⟨⟩ v -
    exact fun hpair => absurd hpair.1.1 (by decide)
  have hnewline : ∀ u ∈ (Utf16.ofAscii ">> " ++ m).getLast?,
      ∀ v ∈ (Utf16.ofAscii "\n").head?, ¬Utf16.IsPair u v := by
    rintro u - _ ⟨⟩
    exact fun hpair => absurd hpair.2.1 (by decide)
  have hlast : ∀ u ∈ (chatLine m).getLast?, ∀ v ∈ s.head?, ¬Utf16.IsPair u v := by
    intro u hu v _ hpair
    rw [chatLine, List.getLast?_append] at hu
    obtain rfl := Option.some.inj hu
    exact absurd hpair.1.1 (by decide)
  rw [Utf16.toUtf8_append _ _ hlast, chatLine, Utf16.toUtf8_append _ _ hnewline,
    Utf16.toUtf8_append _ _ hspace]
  rfl

/-- A line has four bytes besides its message. -/
theorem length_chatLines : ∀ messages : List Str,
    (Utf16.toUtf8 (chatLines messages)).length =
      (messages.map fun m => (Utf16.toUtf8 m).length + 4).sum
  | [] => rfl
  | m :: messages => by
    rw [chatLines, List.flatMap_cons, toUtf8_chatLine_append, List.map_cons, List.sum_cons,
      ← length_chatLines messages]
    simp [ascii, chatLines]
    omega

/-- A message that is posted over and over. -/
theorem memory_replicate {data m : Str} (hm : message parse data = some m) (n : ℕ) :
    ((messageMachine parse).after (List.replicate n (.setStorage data true))).memory =
      List.replicate n m := by
  induction n with
  | zero => rfl
  | succ n ih =>
    rw [List.replicate_succ', Machine.after_snoc, List.replicate_succ', ← ih]
    simp only [messageMachine, hm]

/-- It comes to the assertion as soon as its lines exceed the buffer. -/
theorem not_neverAsserts_replicate {data m : Str} (hm : message parse data = some m) {n : ℕ}
    (hlong : resultSize < n * ((Utf16.toUtf8 m).length + 4)) :
    ¬NeverAsserts .utf8 parse (List.replicate n (.setStorage data true)) := by
  intro h
  cases n with
  | zero => omega
  | succ n =>
    rw [List.replicate_succ'] at h
    have hfits := (not_aborted_iff (holds_after _) _).1 (h _ _ (List.prefix_refl _)) m hm
    rw [LinesFit, memory_replicate hm, ← List.replicate_succ', Engine.utf8, length_chatLines,
      List.map_replicate, List.sum_replicate_nat] at hfits
    omega

/-- The line of a message of two characters has six bytes. -/
theorem chat_does_not_fit :
    ¬NeverAsserts .utf8
      (fun data => if data = hi then some (.value (.string (Utf16.ofAscii "hi"))) else none)
      (List.replicate 349526 (.setStorage hi true)) :=
  not_neverAsserts_replicate (m := Utf16.ofAscii "hi") rfl (by decide)

end Js

end TinyKvm
