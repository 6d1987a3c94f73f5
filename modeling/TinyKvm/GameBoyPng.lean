import TinyKvm.GameBoyFrame
import Mathlib.Data.List.Count
import Mathlib.Data.List.Range

/-!
# The Game Boy's PNG buffers

`get_frame` keeps the current frame in a global buffer and returns it to its
caller. A round of its loop puts a fresh buffer there and frees it at once, where
it should have freed the one it replaced. So every buffer is freed, and freed once
(`count_pngEvents`), but the buffer a call returns is always one that has been
freed already.

The events of a run are those of its calls, one after the other
(`pngEvents_snoc`). No freed buffer is used exactly if no call finds the time stamp
more than a tick behind, so that none generates a frame (`png_lifetime`); only a
call that throws can generate one and still return nothing.
-/

namespace TinyKvm

namespace GameBoy

/-- The event hands `buffer` to its caller or frees it. -/
def PngEvent.Uses (buffer : ℕ) : PngEvent → Prop
  | generated _ => False
  | freed b => b = some buffer
  | returned b => b = some buffer

/-- The buffer an event generates. -/
def PngEvent.fresh : PngEvent → Option ℕ
  | generated b => some b
  | freed _ => none
  | returned _ => none

/-- `buffer` is replaced by one generated after it. -/
def Replaced (buffer : ℕ) (events : List PngEvent) : Prop :=
  ∃ pre post newer, events = pre ++ .generated buffer :: post ∧ .generated newer ∈ post

/-- No freed buffer is returned or freed again before it is replaced, and every buffer that has
been replaced has been freed exactly once. -/
structure Lifetime (events : List PngEvent) : Prop where
  not_used : ∀ pre e buffer, pre ++ [e] <+: events → e.Uses buffer →
    lastOf PngEvent.fresh pre = some buffer → .freed (some buffer) ∉ pre
  freed_once : ∀ buffer, Replaced buffer events → events.count (.freed (some buffer)) = 1

/-! ## The events of a call -/

/-- The events of `k` rounds of the loop, from the buffer with number `a` on. -/
def roundEvents (a : ℕ) : ℕ → List PngEvent
  | 0 => []
  | k + 1 => roundEvents a k ++ [.generated (a + k), .freed (some (a + k))]

/-- The buffer `png` holds after `k` rounds. -/
def latest (old : Option ℕ) (a : ℕ) : ℕ → Option ℕ
  | 0 => old
  | k + 1 => some (a + k)

theorem count_generated_roundEvents (a b : ℕ) :
    ∀ k, (roundEvents a k).count (.generated b) = if a ≤ b ∧ b < a + k then 1 else 0
  | 0 => by simp [roundEvents]
  | k + 1 => by
    rw [roundEvents, List.count_append, count_generated_roundEvents a b k]
    simp [List.count_cons]
    split_ifs <;> omega

theorem count_freed_roundEvents (a b : ℕ) :
    ∀ k, (roundEvents a k).count (.freed (some b)) = if a ≤ b ∧ b < a + k then 1 else 0
  | 0 => by simp [roundEvents]
  | k + 1 => by
    rw [roundEvents, List.count_append, count_freed_roundEvents a b k]
    simp [List.count_cons]
    split_ifs <;> omega

section Calls

variable {M : Type*} (gbc : Libgbc M) (pad : Keypad) (encode : Bytes → PixelState → Bytes)

/-- What `k` rounds of the loop do to the buffers. -/
structure Rounds (old l : Loop M) (k : ℕ) : Prop where
  frames : l.frames = old.frames + k
  allocated : l.allocated = old.allocated + k
  events : l.events = old.events ++ roundEvents old.allocated k
  png : l.storage.png.first = latest old.storage.png.first old.allocated k

theorem rounds_frameStep {t1 : ℚ} {l x y : Loop M} {k : ℕ} (hx : Rounds l x k)
    (h : frameStep gbc pad encode t1 x = some y) : ∃ k', Rounds l y k' := by
  obtain ⟨-, h⟩ := Option.ite_none_right_eq_some.1 h
  cases hget : x.storage.currentState.inputs.get pad with
  | none =>
    rw [hget] at h
    rw [← Option.some.inj h]
    exact ⟨k, hx.frames, hx.allocated, hx.events, hx.png⟩
  | some keys =>
    rw [hget] at h
    rw [← Option.some.inj h]
    refine ⟨k + 1, ?_, ?_, ?_, ?_⟩
    · simp [simulateFrame, hx.frames, Nat.add_assoc]
    · simp [simulateFrame, hx.allocated, Nat.add_assoc]
    · simp [simulateFrame, generatePng, hx.events, hx.allocated, roundEvents]
    · simp [simulateFrame, generatePng, hx.allocated, latest]

/-- The loop ends after some rounds : none if the time stamp is not behind, and at least one if
it is and nothing throws. -/
theorem rounds_loop (t1 : ℚ) {l : Loop M} (hl : l.threw = false) :
    ∃ l' k, chase (frameStep gbc pad encode t1) 4 l = some l' ∧ Rounds l l' k ∧
      (timeDiff l.storage.currentState.ts t1 ≤ tickRate → k = 0) ∧
      (l'.threw = false → tickRate < timeDiff l.storage.currentState.ts t1 → 0 < k) := by
  have hself : Rounds l l 0 := ⟨rfl, rfl, (List.append_nil _).symm, rfl⟩
  by_cases hlt : tickRate < timeDiff l.storage.currentState.ts t1
  · cases hget : l.storage.currentState.inputs.get pad with
    | none =>
      exact ⟨_, 0, chase_frameStep_threw gbc pad encode t1 hget hl,
        ⟨rfl, rfl, hself.events, rfl⟩, fun _ => rfl,
        fun hthrew => absurd hlt (of_decide_eq_false hthrew)⟩
    | some keys =>
      obtain ⟨l', hchase, -, hcaught⟩ := chase_frameStep gbc pad encode t1 hget hl
      have hclosed : ∀ x ∈ {x | ∃ k, Rounds l x k}, ∀ y, frameStep gbc pad encode t1 x = some y →
          y ∈ {x | ∃ k, Rounds l x k} := by
        rintro x ⟨k, hx⟩ y h
        exact rounds_frameStep gbc pad encode hx h
      obtain ⟨k, hk⟩ := chase_mem hclosed ⟨0, hself⟩ hchase
      have hframes := hcaught.lt_frames hlt
      rw [hk.frames] at hframes
      exact ⟨l', k, hchase, hk, fun hle => absurd hlt hle.not_gt, fun _ _ => by omega⟩
  · have hstop : frameStep gbc pad encode t1 l = none := if_neg fun h => hlt h.2
    exact ⟨l, 0, chase_succ_of_none hstop 3, hself, fun _ => rfl, fun _ h => absurd h hlt⟩

/-- What a call does to the buffers, in `k` rounds of its loop : it returns the buffer it leaves,
unless it throws. -/
structure CallEvents (w w' : World M) (result : FrameResult) (k : ℕ) : Prop where
  events : result.events = roundEvents w.allocated k ++
    if result.threw then [] else [.returned w'.storage.png.first]
  allocated : w'.allocated = w.allocated + k
  png : w'.storage.png.first = latest w.storage.png.first w.allocated k

theorem finishFrame_events {w w' : World M} {frames : ℕ} {events : List PngEvent}
    {result : FrameResult} (h : finishFrame w frames events = (w', result)) :
    w'.allocated = w.allocated ∧ w'.storage.png = w.storage.png ∧
      result.events = events ++ if result.threw then [] else [.returned w'.storage.png.first] := by
  unfold finishFrame at h
  cases hnext : w.storage.currentState.inputs.next with
  | none =>
    rw [hnext] at h
    cases h
    simp
  | some inputs =>
    rw [hnext] at h
    cases h
    simp

theorem afterLoop_events {w w' : World M} {l : Loop M} {write : FileWrite M}
    {result : FrameResult} (h : afterLoop gbc write w l = (w', result)) :
    w'.allocated = l.allocated ∧ w'.storage.png = l.storage.png ∧
      result.events =
        l.events ++ (if result.threw then [] else [.returned w'.storage.png.first]) ∧
      (result.threw = false → l.threw = false) := by
  obtain ⟨file, hcase | ⟨hthrew, hcase⟩⟩ := afterLoop_cases gbc write w l
  · obtain ⟨rfl, rfl⟩ := Prod.mk.inj (hcase.symm.trans h)
    exact ⟨rfl, rfl, (List.append_nil _).symm, nofun⟩
  · obtain ⟨hallocated, hpng, hevents⟩ := finishFrame_events (hcase.symm.trans h)
    exact ⟨hallocated, hpng, hevents, fun _ => hthrew⟩

/-- A call runs its loop and returns the buffer it leaves. -/
theorem getFrame_events (w : World M) (elapsed : NNRat) (keys : Byte) (write : FileWrite M) :
    ∃ k, CallEvents w (getFrame gbc pad encode w elapsed keys write).1
        (getFrame gbc pad encode w elapsed keys write).2 k ∧
      (timeDiff w.storage.currentState.ts (w.clock + elapsed) ≤ tickRate → k = 0) ∧
      ((getFrame gbc pad encode w elapsed keys write).2.threw = false →
        tickRate < timeDiff w.storage.currentState.ts (w.clock + elapsed) → 0 < k) := by
  generalize h : getFrame gbc pad encode w elapsed keys write = call
  obtain ⟨w', result⟩ := call
  dsimp only
  obtain ⟨inputs, hinputs⟩ :
      ∃ inputs, w.storage.currentState.inputs.contribute keys = some inputs :=
    ⟨_, w.storage.currentState.inputs.contribute_eq keys⟩
  unfold getFrame at h
  simp only [hinputs] at h
  obtain ⟨l, k, hchase, hk, hzero, hpos⟩ := rounds_loop gbc pad encode (w.clock + elapsed)
    (l := enterLoop { w with clock := w.clock + elapsed } inputs) rfl
  rw [hchase, Option.getD_some] at h
  obtain ⟨hallocated, hpng, hevents, hthrew⟩ := afterLoop_events gbc h
  refine ⟨k, ⟨?_, ?_, ?_⟩, hzero, fun hresult => hpos (hthrew hresult)⟩
  · rw [hevents, hk.events]
    rfl
  · rw [hallocated, hk.allocated]
    rfl
  · rw [hpng, hk.png]
    rfl

/-! ## Runs -/

/-- The events of one operation. -/
def opEvents (output : Option FrameResult) : List PngEvent :=
  (output.map FrameResult.events).getD []

/-- The buffer events of a run. -/
def pngEvents (reading : ℚ) (ops : List (Op M)) : List PngEvent :=
  ((gameBoy gbc pad encode reading).trace ops).flatMap fun call => opEvents call.2

theorem pngEvents_snoc (reading : ℚ) (ops : List (Op M)) (op : Op M) :
    pngEvents gbc pad encode reading (ops ++ [op]) =
      pngEvents gbc pad encode reading ops ++
        opEvents ((gameBoy gbc pad encode reading).answer ops op) := by
  simp [pngEvents, TinyKvm.Machine.trace_snoc]

theorem pngEvents_initial (reading : ℚ) {pre ops : List (Op M)} (h : pre <+: ops) :
    pngEvents gbc pad encode reading pre <+: pngEvents gbc pad encode reading ops := by
  obtain ⟨post, heq⟩ := (gameBoy gbc pad encode reading).trace_initial h
  rw [pngEvents, pngEvents, ← heq, List.flatMap_append]
  exact List.prefix_append _ _

/-- Every buffer allocated so far has been generated once and freed once. -/
def Balanced (events : List PngEvent) (allocated : ℕ) : Prop :=
  ∀ b, events.count (.generated b) = (if b < allocated then 1 else 0) ∧
    events.count (.freed (some b)) = if b < allocated then 1 else 0

theorem Balanced.call {events : List PngEvent} {w w' : World M} {result : FrameResult} {k : ℕ}
    (h : Balanced events w.allocated) (hc : CallEvents w w' result k) :
    Balanced (events ++ result.events) w'.allocated := by
  intro b
  obtain ⟨hgenerated, hfreed⟩ := h b
  rw [hc.events, hc.allocated]
  simp only [List.count_append, count_generated_roundEvents, count_freed_roundEvents, hgenerated,
    hfreed]
  have hreturned : ∀ e, e = .generated b ∨ e = .freed (some b) →
      (if result.threw then [] else [PngEvent.returned w'.storage.png.first]).count e = 0 := by
    rintro e (rfl | rfl) <;> split_ifs <;> simp
  rw [hreturned _ (.inl rfl), hreturned _ (.inr rfl)]
  split_ifs <;> omega

theorem count_pngEvents (reading : ℚ) (ops : List (Op M)) :
    Balanced (pngEvents gbc pad encode reading ops)
      ((gameBoy gbc pad encode reading).after ops).allocated := by
  refine (gameBoy gbc pad encode reading).run_induction'
    (I := fun ops w => Balanced (pngEvents gbc pad encode reading ops) w.allocated)
    (fun b => ⟨rfl, rfl⟩) (fun ops op ih => ?_) ops
  rw [pngEvents_snoc, TinyKvm.Machine.after_snoc]
  cases op with
  | startUp reading' => simpa [opEvents, TinyKvm.Machine.answer, gameBoy, step] using ih
  | liveUpdate reading' elapsed => simpa [opEvents, TinyKvm.Machine.answer, gameBoy, step] using ih
  | getFrame elapsed keys write =>
    obtain ⟨k, hc, -⟩ := getFrame_events gbc pad encode
      ((gameBoy gbc pad encode reading).after ops) elapsed keys write
    exact ih.call hc

/-- The call does not find the time stamp more than a tick behind. -/
def NotBehind (w : World M) : Op M → Prop
  | .getFrame elapsed _ _ => timeDiff w.storage.currentState.ts (w.clock + elapsed) ≤ tickRate
  | _ => True

/-- A new process has no frame yet, whatever it restores. -/
theorem png_start (reading : ℚ) (file : Option (Restored M ℚ)) :
    (start gbc reading file).png.first = none := by
  cases file <;> rfl

/-- While no call is behind, there is no buffer. -/
theorem no_buffer (reading : ℚ) (ops : List (Op M))
    (h : (gameBoy gbc pad encode reading).Meets NotBehind ops) :
    ((gameBoy gbc pad encode reading).after ops).storage.png.first = none ∧
      ∀ e ∈ pngEvents gbc pad encode reading ops, e = .returned none := by
  refine (gameBoy gbc pad encode reading).run_induction (G := NotBehind)
    (I := fun ops w => w.storage.png.first = none ∧
      ∀ e ∈ pngEvents gbc pad encode reading ops, e = .returned none)
    ⟨rfl, fun e he => by cases he⟩ (fun ops op ih hop => ?_) ops h
  rw [pngEvents_snoc, TinyKvm.Machine.after_snoc]
  cases op with
  | startUp reading' =>
    refine ⟨?_, by simpa [opEvents, TinyKvm.Machine.answer, gameBoy, step] using ih.2⟩
    exact png_start gbc reading' _
  | liveUpdate reading' elapsed =>
    refine ⟨?_, by simpa [opEvents, TinyKvm.Machine.answer, gameBoy, step] using ih.2⟩
    exact png_start gbc reading' _
  | getFrame elapsed keys write =>
    obtain ⟨k, hc, hzero, -⟩ := getFrame_events gbc pad encode
      ((gameBoy gbc pad encode reading).after ops) elapsed keys write
    obtain rfl := hzero hop
    have hpng := hc.png.trans ih.1
    refine ⟨hpng, fun e he => ?_⟩
    rcases List.mem_append.1 he with he | he
    · exact ih.2 e he
    · have hcall : e ∈ (getFrame gbc pad encode ((gameBoy gbc pad encode reading).after ops) elapsed
        keys write).2.events := he
      rw [hc.events, hpng] at hcall
      split_ifs at hcall
      · cases hcall
      · exact List.mem_singleton.1 hcall

/-- Nothing but empty returns is a lifetime. -/
theorem lifetime_of_returned {events : List PngEvent} (h : ∀ e ∈ events, e = .returned none) :
    Lifetime events := by
  constructor
  · intro pre e buffer hpre huses
    rw [h e (hpre.subset (by simp))] at huses
    cases huses
  · rintro buffer ⟨pre, post, newer, rfl, -⟩
    cases h (.generated buffer) (by simp)

/-- A call that is behind and does not throw returns a buffer it has freed. -/
theorem not_lifetime_of_call {before : List PngEvent} {w w' : World M} {result : FrameResult}
    {k : ℕ} (hc : CallEvents w w' result (k + 1)) (hthrew : result.threw = false) :
    ¬Lifetime (before ++ result.events) := by
  intro h
  have hevents := hc.events
  rw [hthrew, hc.png] at hevents
  refine h.not_used (before ++ roundEvents w.allocated (k + 1)) (.returned (some (w.allocated + k)))
    (w.allocated + k) ?_ rfl ?_ ?_
  · rw [hevents, List.append_assoc]
    exact List.prefix_refl _
  · simp [roundEvents, lastOf, List.filterMap_cons, PngEvent.fresh]
  · simp [roundEvents]

theorem Lifetime.initial {events events' : List PngEvent} (h : Lifetime events')
    (hp : events <+: events')
    (hb : ∀ buffer, Replaced buffer events → events.count (.freed (some buffer)) = 1) :
    Lifetime events :=
  ⟨fun pre e buffer hpre => h.not_used pre e buffer (hpre.trans hp), hb⟩

/-- Whatever a run does, a buffer that has been replaced has been freed exactly once. -/
theorem replaced_freed_once (reading : ℚ) (ops : List (Op M)) {buffer : ℕ}
    (h : Replaced buffer (pngEvents gbc pad encode reading ops)) :
    (pngEvents gbc pad encode reading ops).count (.freed (some buffer)) = 1 := by
  obtain ⟨pre, post, newer, heq, -⟩ := h
  have hmem : .generated buffer ∈ pngEvents gbc pad encode reading ops := by
    rw [heq]
    simp
  obtain ⟨hgenerated, hfreed⟩ := count_pngEvents gbc pad encode reading ops buffer
  have hpos := List.count_pos_iff.2 hmem
  rw [hgenerated] at hpos
  split_ifs at hpos hfreed
  · exact hfreed
  · exact absurd hpos (lt_irrefl 0)

/-- No call of the run throws. -/
def NoThrow (reading : ℚ) (ops : List (Op M)) : Prop :=
  ∀ call ∈ (gameBoy gbc pad encode reading).trace ops, ∀ result ∈ call.2, result.threw = false

/-- In a run in which no call is behind, no freed buffer is used; in one in which no call throws,
this is the only way. -/
theorem png_lifetime (reading : ℚ) (ops : List (Op M)) :
    ((gameBoy gbc pad encode reading).Meets NotBehind ops →
      Lifetime (pngEvents gbc pad encode reading ops)) ∧
    (NoThrow gbc pad encode reading ops → Lifetime (pngEvents gbc pad encode reading ops) →
      (gameBoy gbc pad encode reading).Meets NotBehind ops) := by
  refine ⟨fun h => lifetime_of_returned (no_buffer gbc pad encode reading ops h).2, ?_⟩
  intro hthrow hlife
  rcases (gameBoy gbc pad encode reading).meets_or_first NotBehind ops with
    h | ⟨pre, op, post, rfl, -, hop⟩
  · exact h
  · have hpre : pre ++ [op] <+: pre ++ op :: post := ⟨post, by simp⟩
    have hcall := hlife.initial (pngEvents_initial gbc pad encode reading hpre)
      fun b hb => replaced_freed_once gbc pad encode reading _ hb
    rw [pngEvents_snoc] at hcall
    cases op with
    | startUp reading' => exact absurd trivial hop
    | liveUpdate reading' elapsed => exact absurd trivial hop
    | getFrame elapsed keys write =>
      obtain ⟨k, hc, -, hpos⟩ := getFrame_events gbc pad encode
        ((gameBoy gbc pad encode reading).after pre) elapsed keys write
      have hresult : (getFrame gbc pad encode ((gameBoy gbc pad encode reading).after pre) elapsed
          keys write).2.threw = false := by
        have htrace := (gameBoy gbc pad encode reading).trace_initial hpre
        rw [TinyKvm.Machine.trace_snoc] at htrace
        exact hthrow (.getFrame elapsed keys write, _)
          (htrace.subset (List.mem_append_right _ List.mem_cons_self)) _ rfl
      obtain ⟨k, rfl⟩ := Nat.exists_eq_succ_of_ne_zero (hpos hresult (not_le.1 hop)).ne'
      exact absurd hcall (not_lifetime_of_call hc hresult)

end Calls

/-- A call at the time the process starts. -/
def atOnce : Op Byte :=
  .getFrame 0 0 .complete

/-- A call before the first frame returns no buffer. -/
theorem png_lifetime_atOnce :
    Lifetime (pngEvents byteMachine keypad (fun _ _ => []) 0 ([] ++ [atOnce])) :=
  (png_lifetime byteMachine keypad (fun _ _ => []) 0 ([] ++ [atOnce])).1
    (byteGameBoy.meets_snoc.2 ⟨byteGameBoy.meets_nil _, by
      change _ ≤ _
      decide +kernel⟩)

/-- A call a fiftieth of a second later returns the frame it has just freed. -/
theorem png_not_lifetime :
    ¬∀ calls : List (NNRat × Byte), Lifetime (pngEvents byteMachine keypad (fun _ _ => []) 0
      (calls.map fun call => .getFrame call.1 call.2 .complete)) := by
  intro h
  have hcall := h [(⟨1 / 50, by norm_num⟩, 0)]
  have hevents : pngEvents byteMachine keypad (fun _ _ => []) 0 [fiftieth] =
      [.generated 0, .freed (some 0), .returned (some 0)] := by decide +kernel
  change Lifetime (pngEvents byteMachine keypad (fun _ _ => []) 0 [fiftieth]) at hcall
  rw [hevents] at hcall
  exact hcall.not_used [.generated 0, .freed (some 0)] (.returned (some 0)) 0 (List.prefix_refl _)
    rfl rfl (by simp)

end GameBoy

end TinyKvm
