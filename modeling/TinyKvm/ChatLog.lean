import TinyKvm.Machine
import TinyKvm.QuickJs

/-!
# The chat log

The chat script keeps its messages in a string, one line each, and saves the
whole string to the state file after every message. A restart reads the string
from the file, and a live update hands it to the new instance.

`set_storage` appends the line before it opens the file. A message that meets a
file that does not open is in the string but not in the file, and its call
throws. Memory and file agree, and hold the lines of exactly the calls that
returned, in every run without such a message and in no other (`chat_log_iff`).
-/

namespace TinyKvm

namespace Js

/-- What `JSON.parse` gives : `null`, or another value by its property `text`. -/
inductive Parsed where
  | null
  | value (text : Value)

/-- The variable of the script and the content of its state file, if there is one. -/
structure Chat where
  text : Str
  file : Option Bytes
  deriving DecidableEq

variable (engine : Engine) (parse : Str → Option Parsed)

/-! ## The functions of the script -/

/-- `std.loadFile(state_file)`, and the empty string where that gives nothing. -/
def loadText (file : Option Bytes) : Str :=
  (file.map engine.newString).getD []

/-- The evaluation of the script in a new instance. -/
def chatStart (file : Option Bytes) : Chat :=
  ⟨loadText engine file, file⟩

/-- `JSON.parse(data)["text"]` as a string, unless the parse, the access or the conversion
throws. -/
def message (data : Str) : Option Str :=
  match parse data with
  | none => none
  | some .null => none
  | some (.value text) => text.text

/-- The line of a message. -/
def chatLine (message : Str) : Str :=
  Utf16.ofAscii ">> " ++ message ++ Utf16.ofAscii "\n"

/-- `get_storage`. -/
def getStorage : Func Chat := fun _ s =>
  (.returned (.string s.text), s)

/-- `set_storage`, where `std.open` gives a file or `null`. -/
def setStorage (opens : Bool) : Func Chat := fun args s =>
  match message parse (args.headD (Utf16.ofAscii "undefined")) with
  | none => (.threw, s)
  | some m =>
    let text := s.text ++ chatLine m
    if opens then (.returned (.string text), ⟨text, some (engine.toCString text)⟩)
    else (.threw, { s with text })

/-- `on_live_update`. -/
def onLiveUpdate : Func Chat := fun _ s =>
  (.returned (.string s.text), s)

/-- `on_resume_update`. -/
def onResumeUpdate : Func Chat := fun args s =>
  (.returned .undefined, { s with text := args.headD (Utf16.ofAscii "undefined") })

/-- A live update : the new instance starts from the file and is given the text of the old
one. -/
def liveUpdate (s : Chat) : Chat :=
  match (onLiveUpdate [] s).1.text with
  | none => chatStart engine s.file
  | some text =>
    (onResumeUpdate [engine.newString (engine.toCString text)] (chatStart engine s.file)).2

/-! ## Runs -/

/-- What happens to the storage machine. -/
inductive ChatOp where
  | getStorage
  | setStorage (data : Str) (opens : Bool)
  | liveUpdate
  | restart
  deriving DecidableEq

/-- The storage machine from its first start, without a state file. It answers a call with its
completion. -/
def chatMachine : Machine Chat ChatOp Completion where
  init := chatStart engine none
  step s op :=
    match op with
    | .getStorage => ((getStorage [] s).2, (getStorage [] s).1)
    | .setStorage data opens =>
      ((setStorage engine parse opens [data] s).2, (setStorage engine parse opens [data] s).1)
    | .liveUpdate => (liveUpdate engine s, .returned .undefined)
    | .restart => (chatStart engine s.file, .returned .undefined)

/-- The messages of the calls of `set_storage` that returned. -/
def messages (t : List (ChatOp × Completion)) : List Str :=
  t.filterMap fun
    | (.setStorage data _, .returned _) => message parse data
    | _ => none

/-- The file has the text, and a file that is not there is empty. -/
def Saved (s : Chat) : Prop :=
  s.file.getD [] = engine.toCString s.text

/-- After the last step of a run, the file has the text, the text is the lines of the calls that
returned, and a call that throws has changed neither. -/
structure Kept (ops : List ChatOp) (op : ChatOp) : Prop where
  saved : Saved engine ((chatMachine engine parse).after (ops ++ [op]))
  lines : ((chatMachine engine parse).after (ops ++ [op])).text =
    (messages parse ((chatMachine engine parse).trace (ops ++ [op]))).flatMap chatLine
  unchanged : (chatMachine engine parse).answer ops op = .threw →
    (chatMachine engine parse).after (ops ++ [op]) = (chatMachine engine parse).after ops

/-- The file opens for every message that is formed. -/
def Opens (op : ChatOp) : Prop :=
  ∀ data, op = .setStorage data false → message parse data = none

/-! ## Steps -/

variable {engine parse}

theorem chatLine_ne_nil (m : Str) : chatLine m ≠ [] := by
  simp [chatLine, Utf16.ofAscii]

/-- A new instance loads the text that was saved. -/
theorem chatStart_of_saved {s : Chat} (h : Saved engine s) : chatStart engine s.file = s := by
  have hload : loadText engine s.file = s.text := by
    have htext : engine.newString (s.file.getD []) = s.text := by
      rw [h, engine.newString_toCString]
    rwa [← Option.getD_map engine.newString, engine.newString_nil] at htext
  rw [chatStart, hload]

/-- A live update keeps the text, and the file. -/
theorem liveUpdate_eq (s : Chat) : liveUpdate engine s = s := by
  simp only [liveUpdate, onLiveUpdate, Completion.text, Value.text, onResumeUpdate, chatStart,
    engine.newString_toCString, List.headD_cons]

theorem setStorage_of_none {data : Str} (h : message parse data = none) (opens : Bool) (s : Chat) :
    setStorage engine parse opens [data] s = (.threw, s) := by
  simp only [setStorage, List.headD_cons, h]

theorem setStorage_of_some {data m : Str} (h : message parse data = some m) (opens : Bool)
    (s : Chat) :
    setStorage engine parse opens [data] s =
      if opens then (.returned (.string (s.text ++ chatLine m)),
        ⟨s.text ++ chatLine m, some (engine.toCString (s.text ++ chatLine m))⟩)
      else (.threw, ⟨s.text ++ chatLine m, s.file⟩) := by
  simp only [setStorage, List.headD_cons, h]

/-- A step whose file opens keeps the file, appends the line of a call that returns, and changes
nothing otherwise. -/
theorem step_of_opens {s : Chat} {op : ChatOp} (hs : Saved engine s) (hop : Opens parse op) :
    Saved engine ((chatMachine engine parse).step s op).1 ∧
      ((chatMachine engine parse).step s op).1.text =
        s.text ++ (messages parse [(op, ((chatMachine engine parse).step s op).2)]).flatMap
          chatLine ∧
      (((chatMachine engine parse).step s op).2 = .threw →
        ((chatMachine engine parse).step s op).1 = s) := by
  have hsame : s.text = s.text ++ [] := (List.append_nil _).symm
  rcases op with - | ⟨data, opens⟩ | - | -
  · exact ⟨hs, hsame, fun _ => rfl⟩
  · rcases hm : message parse data with - | m
    · simp only [chatMachine, setStorage_of_none hm]
      exact ⟨hs, hsame, fun _ => trivial⟩
    · rcases opens with - | -
      · exact absurd (hm.symm.trans (hop data rfl)) (Option.some_ne_none m)
      · simp only [chatMachine, setStorage_of_some hm, if_pos]
        refine ⟨rfl, ?_, Completion.noConfusion⟩
        simp only [messages, List.filterMap_cons, hm, List.filterMap_nil, List.flatMap_singleton]
  · simp only [chatMachine, liveUpdate_eq]
    exact ⟨hs, hsame, fun _ => trivial⟩
  · simp only [chatMachine, chatStart_of_saved hs]
    exact ⟨hs, hsame, fun _ => trivial⟩

/-- A step keeps the file exactly if its file opens. -/
theorem step_saved_iff {s : Chat} (hs : Saved engine s) (op : ChatOp) :
    Saved engine ((chatMachine engine parse).step s op).1 ↔ Opens parse op := by
  refine ⟨fun h => ?_, fun hop => (step_of_opens hs hop).1⟩
  rintro data rfl
  rcases hm : message parse data with - | m
  · rfl
  · simp only [chatMachine, setStorage_of_some hm] at h
    have htext : s.text = s.text ++ chatLine m := engine.toCString_injective (hs.symm.trans h)
    exact absurd (List.self_eq_append_right.1 htext) (chatLine_ne_nil m)

/-! ## Runs -/

theorem saved_init : Saved engine (chatMachine engine parse).init :=
  engine.toCString_nil.symm

/-- The text is the lines of the calls that returned, in a run whose files open. -/
theorem lines_after {ops : List ChatOp}
    (h : (chatMachine engine parse).Meets (fun _ op => Opens parse op) ops) :
    Saved engine ((chatMachine engine parse).after ops) ∧
      ((chatMachine engine parse).after ops).text =
        (messages parse ((chatMachine engine parse).trace ops)).flatMap chatLine := by
  refine (chatMachine engine parse).run_induction (I := fun ops s => Saved engine s ∧
    s.text = (messages parse ((chatMachine engine parse).trace ops)).flatMap chatLine)
    ⟨saved_init, rfl⟩ ?_ ops h
  rintro ops op ⟨hs, htext⟩ hop
  obtain ⟨hs', htext', -⟩ := step_of_opens hs hop
  rw [Machine.after_snoc, Machine.trace_snoc]
  refine ⟨hs', ?_⟩
  rw [htext', htext, messages, messages, messages, List.filterMap_append, List.flatMap_append]
  rfl

/-- The log is kept throughout a run exactly if every file that a message needs opens. -/
theorem chat_log_iff (engine : Engine) (parse : Str → Option Parsed) (ops : List ChatOp) :
    (∀ pre op, pre ++ [op] <+: ops → Kept engine parse pre op) ↔
      ∀ pre op, pre ++ [op] <+: ops → Opens parse op := by
  constructor
  · intro h
    refine ((chatMachine engine parse).always_iff_meets saved_init
      (fun s op hs => step_saved_iff hs op) ops).1 fun pre hpre => ?_
    rcases List.eq_nil_or_concat' pre with rfl | ⟨pre, op, rfl⟩
    · exact saved_init
    · exact (h pre op hpre).saved
  · intro h pre op hpre
    have hmeets : (chatMachine engine parse).Meets (fun _ op => Opens parse op) (pre ++ [op]) :=
      fun pre' op' hpre' => h pre' op' (hpre'.trans hpre)
    obtain ⟨hpre, hop⟩ := (chatMachine engine parse).meets_snoc.1 hmeets
    obtain ⟨hs, -⟩ := lines_after hpre
    obtain ⟨hs', htext'⟩ := lines_after hmeets
    refine ⟨hs', htext', fun hthrew => ?_⟩
    rw [Machine.after_snoc]
    exact (step_of_opens hs hop).2.2 hthrew

/-- A message, and what its parse gives. -/
def hi : Str :=
  Utf16.ofAscii "\x7b\"text\":\"hi\"\x7d"

/-- A message that does not reach the file stays in the text, although its call throws. -/
theorem chat_log_not_kept :
    ¬Kept .utf8 (fun data => if data = hi then some (.value (.string (Utf16.ofAscii "hi")))
      else none) [] (.setStorage hi false) := by
  intro h
  exact absurd (h.unchanged (by decide)) (by decide)

end Js

end TinyKvm
