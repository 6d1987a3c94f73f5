import TinyKvm.GameBoyPage
import TinyKvm.GameBoyPlay
import TinyKvm.Linearization
import TinyKvm.StorageCall

/-!
# The viewers of the game

`on_get` runs in a request machine for every viewer. It has the storage machine
contribute the viewer's buttons and return a picture, which it sends. Any number
of viewers do so at the same time, and the storage machine is updated and
restarted in between.

`get_frame` frees the block of a picture before it returns it. What the block holds
when it is copied then is not known, only how many bytes (`sent_of_fits`), but what
`get_frame` put there is the picture of one game (`viewers_watch_game`) : the calls
have an order that agrees with what the viewers see, and the block of a viewer's
answer had the picture that the game shows when it has been played as far as the
viewer's own call.
-/

namespace TinyKvm

namespace GameBoy

/-- What a viewer is sent : the page, or the length that the storage call returned and the bytes it
left in the buffer. -/
inductive Sent where
  | page
  | picture (length : ℤ) (bytes : Bytes)

/-- A new process for the storage machine, with its readings of the clock. -/
inductive Renewal where
  | startUp (reading : ℚ)
  | liveUpdate (reading : ℚ) (elapsed : NNRat)

/-- A new process, among what happens to the storage machine. -/
def Renewal.op {M : Type*} : Renewal → Op M
  | startUp reading => .startUp reading
  | liveUpdate reading elapsed => .liveUpdate reading elapsed

/-- What `get_frame` leaves : whether it threw, and the picture in the block that it frees and then
returns. -/
structure Screen where
  threw : Bool
  png : Bytes

/-- What is read in a block that was freed, for what was in it : as many bytes. -/
structure Freed where
  read : Bytes → Bytes
  length_read : ∀ content, (read content).length = content.length

section Viewers

variable {M : Type*} (gbc : Libgbc M) (pad : Keypad) (encode : Bytes → PixelState → Bytes)
  (host : StorageHost) {E : Type*} (elapsed : E → NNRat) (write : E → FileWrite M)
  (freed : E → Freed)

/-- The storage machine with what a call of it leaves. -/
def screenMachine (reading : ℚ) : TinyKvm.Machine (World M) (Op M) Screen where
  init := (gameBoy gbc pad encode reading).init
  step w op :=
    let (w', result) := step gbc pad encode w op
    (w', ⟨(result.map FrameResult.threw).getD false, w'.storage.png.content⟩)

/-- `sizeof(output)`. -/
def outputSize : ℕ := 16384

/-- The storage call of `on_get`, for what `get_frame` leaves. -/
def sent (freed : Freed) (screen : Screen) : Sent :=
  let func := fun _ _ => if screen.threw then ⟨[], true⟩ else ⟨[freed.read screen.png], false⟩
  let (length, bytes) := host.callv func [] outputSize
  .picture length bytes

/-- `on_get`. -/
def viewerRequest (url : CString) : Service.Request E (Op M) Screen Sent :=
  match onGet pad url with
  | .page => .direct .page
  | .frame inputs =>
    .call (fun e => .getFrame (elapsed e) inputs (write e)) fun e => sent host (freed e)

/-- The viewers and their storage machine. -/
def viewerService (reading : ℚ) : Service CString Renewal E (World M) (Op M) Screen Sent where
  machine := screenMachine gbc pad encode reading
  request := viewerRequest pad host elapsed write freed
  background := Renewal.op

/-- The game of what happened to the storage machine. -/
def gameAfter (reading : ℚ) (ops : List (Op M)) : Game M :=
  game gbc pad encode ((gameBoy gbc pad encode reading).trace ops)

variable {reading : ℚ} {κ : Type*} {es : List (κ × Service.Event CString Sent)}
  {lin : List (Option κ × Op M)}

/-- A picture that fits is sent with its length, whatever its block holds by then. -/
theorem sent_of_fits {freed : Freed} {png : Bytes} (h : png.length ≤ outputSize) :
    sent host freed ⟨false, png⟩ = .picture png.length (freed.read png) := by
  have hlen := freed.length_read png
  unfold sent
  dsimp only
  rw [host.callv_of_reply rfl (hlen.trans_le h), hlen]

theorem after_screenMachine (ops : List (Op M)) :
    (screenMachine gbc pad encode reading).after ops =
      (gameBoy gbc pad encode reading).after ops := by
  induction ops using List.reverseRecOn with
  | nil => rfl
  | append_singleton ops op ih =>
    rw [TinyKvm.Machine.after_snoc, TinyKvm.Machine.after_snoc, ih]
    rfl

variable {elapsed write freed}

/-- A viewer's request is a call of `get_frame` with its buttons, or for the page. -/
theorem viewerRequest_cases (elapsed : E → NNRat) (write : E → FileWrite M) (freed : E → Freed)
    (url : CString) :
    url.bytes = ascii "/x" ∧ viewerRequest pad host elapsed write freed url = .direct .page ∨
      url.bytes ≠ ascii "/x" ∧ viewerRequest pad host elapsed write freed url =
        .call (fun e => .getFrame (elapsed e) (inputsOf pad url.bytes) (write e))
          fun e => sent host (freed e) := by
  by_cases hurl : url.bytes = ascii "/x"
  · refine .inl ⟨hurl, ?_⟩
    rw [viewerRequest, onGet, if_pos hurl]
  · refine .inr ⟨hurl, ?_⟩
    rw [viewerRequest, onGet, if_neg hurl]

/-- The calls of the viewers do not cut a write of the state file short if none does. -/
theorem uninterrupted_of_linearizes (hwrite : ∀ e left, write e ≠ .interrupted left)
    (h : (viewerService gbc pad encode host elapsed write freed reading).Linearizes es lin) :
    ∀ op ∈ lin.map Prod.snd, Uninterrupted op := by
  intro op hop
  obtain ⟨⟨- | k, op⟩, hmem, rfl⟩ := List.mem_map.1 hop
  · obtain ⟨b, rfl⟩ := h.background op hmem
    cases b <;> trivial
  · obtain ⟨url, i, reply, e, -, hq, rfl⟩ := h.invoked k op hmem
    obtain ⟨-, hdirect⟩ | ⟨-, hcall⟩ := viewerRequest_cases pad host elapsed write freed url
    · exact nomatch hq.symm.trans hdirect
    · obtain ⟨rfl, -⟩ := Service.Request.call.inj (hq.symm.trans hcall)
      dsimp only
      cases hw : write e with
      | complete => trivial
      | unopened => trivial
      | interrupted left => exact hwrite e left hw

theorem plays_of_uninterrupted {ops : List (Op M)} (h : ∀ op ∈ ops, Uninterrupted op) :
    Plays ((screenMachine gbc pad encode reading).after ops)
      (gameAfter gbc pad encode reading ops) := by
  rw [after_screenMachine]
  exact plays_after gbc pad encode reading ops fun before op hbefore =>
    h op (hbefore.subset (List.mem_append_right _ List.mem_cons_self))

/-- After a call the machine shows what the game does, or the state file could not be opened. -/
theorem answer_getFrame {ops : List (Op M)} {elapsed : NNRat} {keys : Byte} {write : FileWrite M}
    (h : ∀ op ∈ ops ++ [.getFrame elapsed keys write], Uninterrupted op) :
    ∃ threw, (screenMachine gbc pad encode reading).answer ops (.getFrame elapsed keys write) =
        ⟨threw, (gameAfter gbc pad encode reading (ops ++ [.getFrame elapsed keys write])).shown⟩ ∧
      (threw = true → write = .unopened) := by
  have hplays : Plays ((screenMachine gbc pad encode reading).after ops)
      (gameAfter gbc pad encode reading ops) :=
    plays_of_uninterrupted gbc pad encode fun op hop => h op (List.mem_append_left _ hop)
  have hcall := (plays_getFrame gbc pad encode hplays elapsed keys
    (h _ (List.mem_append_right _ List.mem_cons_self))).2
  refine ⟨_, ?_, hcall⟩
  rw [← (plays_of_uninterrupted gbc pad encode h).shown, TinyKvm.Machine.after_snoc]
  rfl

variable [DecidableEq κ] {c : Processes.Config κ (Service.Client CString Sent) (World M)}

/-- If no write of the state file is cut short, the calls of the viewers, the restarts and the live
updates have an order that agrees with what the viewers see, in which the storage machine plays one
game. The block that a viewer is sent had the picture that the game shows when it has been played as
far as the viewer's call, unless the state file could not be opened. -/
theorem viewers_watch_game (hwrite : ∀ e left, write e ≠ .interrupted left)
    (h : (viewerService gbc pad encode host elapsed write freed reading).processes.Run c es) :
    ∃ lin : List (Option κ × Op M),
      (viewerService gbc pad encode host elapsed write freed reading).Linearizes es lin ∧
      Plays c.shared (gameAfter gbc pad encode reading (lin.map Prod.snd)) ∧
      ∀ before rest k url a, es = before ++ (k, .responded a) :: rest → (k, .invoked url) ∈ es →
        url.bytes ≠ ascii "/x" → ∃ pre e post threw,
          lin = pre ++ (some k, .getFrame (elapsed e) (inputsOf pad url.bytes) (write e)) :: post ∧
          a = sent host (freed e) ⟨threw, (gameAfter gbc pad encode reading (pre.map Prod.snd ++
            [.getFrame (elapsed e) (inputsOf pad url.bytes) (write e)])).shown⟩ ∧
          (threw = true → write e = .unopened) := by
  obtain ⟨lin, hlin, hshared⟩ := Service.linearizes_run h
  have hall := uninterrupted_of_linearizes gbc pad encode host hwrite hlin
  refine ⟨lin, hlin, ?_, fun before rest k url a hes hinvoked hurl => ?_⟩
  · rw [hshared]
    exact plays_of_uninterrupted gbc pad encode hall
  · obtain ⟨heq, -⟩ | ⟨-, hcall⟩ := viewerRequest_cases pad host elapsed write freed url
    · exact absurd heq hurl
    · obtain ⟨pre, e, post, hpost, ha, -⟩ := hlin.answered_call hes hinvoked hcall
      have hpre : ∀ op ∈ pre.map Prod.snd ++
          [.getFrame (elapsed e) (inputsOf pad url.bytes) (write e)], Uninterrupted op := by
        intro op hop
        refine hall op ?_
        rw [hpost, List.map_append, List.map_cons]
        exact List.append_subset.2 ⟨List.subset_append_left _ _, by simp⟩ hop
      obtain ⟨threw, hanswer, hthrew⟩ := answer_getFrame gbc pad encode hpre
      exact ⟨pre, e, post, threw, hpost, ha.trans (congrArg (sent host (freed e)) hanswer), hthrew⟩

end Viewers

/-! ## One viewer -/

theorem fiftieth_nonneg : 0 ≤ mkRat 1 50 :=
  Rat.mkRat_nonneg (by decide) 50

/-- The time since the last request. -/
def aFiftieth : NNRat :=
  ⟨mkRat 1 50, fiftieth_nonneg⟩

/-- A picture is the pixels and a byte before them. -/
def framed (pixels : Bytes) (_ : PixelState) : Bytes :=
  0x89 :: pixels

/-- A block that is overwritten with zeros when it is freed. -/
def zeroed : Freed :=
  ⟨fun content => List.replicate content.length 0, fun _ => List.length_replicate⟩

/-- The machine of one byte and its viewers. -/
def byteViewers : Service CString Renewal Unit (World Byte) (Op Byte) Screen Sent :=
  viewerService byteMachine keypad framed .refusing (fun _ => aFiftieth) (fun _ => .complete)
    (fun _ => zeroed) 0

/-- The call of a viewer that presses nothing. -/
def watch : Op Byte :=
  .getFrame aFiftieth (inputsOf keypad (requestUrl []).bytes) .complete

/-- It watches a frame. -/
def watched : List (Unit × Service.Event CString Sent) :=
  [((), .invoked (requestUrl [])),
    ((), .responded (sent .refusing zeroed (byteViewers.machine.answer [] watch)))]

theorem request_watch :
    byteViewers.request (requestUrl []) =
      .call (fun _ => watch) fun _ => sent .refusing zeroed := by
  have hurl : (requestUrl []).bytes ≠ ascii "/x" := by decide
  obtain ⟨heq, -⟩ | ⟨-, hcall⟩ := viewerRequest_cases keypad .refusing
    (fun _ : Unit => aFiftieth) (fun _ => (.complete : FileWrite Byte)) (fun _ => zeroed)
    (requestUrl [])
  · exact absurd heq hurl
  · exact hcall

theorem viewers_watch_game_once :
    ∃ (c : Processes.Config Unit (Service.Client CString Sent) (World Byte))
      (lin : List (Option Unit × Op Byte)),
      byteViewers.Linearizes watched lin ∧
      Plays c.shared (gameAfter byteMachine keypad framed 0 (lin.map Prod.snd)) ∧
      ∀ before rest k url a, watched = before ++ (k, .responded a) :: rest →
        (k, .invoked url) ∈ watched → url.bytes ≠ ascii "/x" → ∃ pre, ∃ _ : Unit, ∃ post threw,
          lin = pre ++ (some k, .getFrame aFiftieth (inputsOf keypad url.bytes) .complete) :: post ∧
          a = sent .refusing zeroed ⟨threw, (gameAfter byteMachine keypad framed 0
            (pre.map Prod.snd ++
              [.getFrame aFiftieth (inputsOf keypad url.bytes) .complete])).shown⟩ ∧
          (threw = true → (.complete : FileWrite Byte) = .unopened) := by
  obtain ⟨c, hrun, -⟩ := Service.run_serve (S := byteViewers) (k := ()) .init rfl request_watch ()
  exact ⟨c, viewers_watch_game byteMachine keypad framed .refusing (fun _ _ => nofun) hrun⟩

end GameBoy

end TinyKvm
