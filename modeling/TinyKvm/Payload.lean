import TinyKvm.Json
import TinyKvm.Machine

/-!
# The payload program and its cache

`payload.cpp` answers a request with as many bytes as it asks for, drawn from a
generator or all `a`. It keeps the bytes in a global and fills it anew only when
the size changes, and the program is not ephemeral. A request for the size of
the payload in memory gets it as it is, whatever it was filled with.

`tracked` is the program with a note of the settings its payload was last filled
for, which changes nothing else (`tracked_globals`). A filling has the size and,
unless it is random, the bytes its settings ask for (`filled_after`). So every
request of a run gets its own kind of payload exactly if none has the size of a
filling of the other kind (`served_iff`).
-/

namespace TinyKvm

namespace Payload

/-- A GET request, and whether the string could be resized while it was handled. -/
structure Request where
  url : CString
  arg : CString
  resized : Bool

/-- The globals : the cached payload, and how many bytes the generator has given. -/
structure Globals where
  payload : Bytes
  drawn : ℕ
  deriving DecidableEq

/-- What a request asks for. -/
structure Settings where
  payloadSize : ℕ
  randomize : Bool
  deriving DecidableEq

/-- `payloadSize` bytes `a`. -/
def constant (payloadSize : ℕ) : Bytes :=
  List.replicate payloadSize 0x61

variable (parse : Bytes → Option Json) (dis : ℕ → Byte)

/-- The settings in the argument, `none` when it throws. -/
def settings (arg : CString) : Option Settings :=
  if arg.bytes.length > 0 then do
    let j ← parse arg.bytes
    let payloadSize ← if j.contains "size" then (j.get "size").getSizeT else some 0
    let randomize ← if j.contains "randomize" then (j.get "randomize").getBool else some false
    return ⟨payloadSize.toNat, randomize⟩
  else some ⟨0, false⟩

/-- The resized payload is filled, with the bytes `dis` gives or with `a`. -/
def fill (g : Globals) (s : Settings) : Globals :=
  if s.randomize then
    ⟨(List.range s.payloadSize).map fun i => dis (g.drawn + i), g.drawn + s.payloadSize⟩
  else ⟨constant s.payloadSize, g.drawn⟩

/-- `on_get` : the response, `none` when it throws. -/
def onGet (g : Globals) (r : Request) : Globals × Option Response :=
  match settings parse r.arg with
  | none => (g, none)
  | some s =>
    if g.payload.length ≠ s.payloadSize then
      if r.resized then
        let g := fill dis g s
        (g, some ⟨200, r.url.bytes, g.payload⟩)
      else (g, none)
    else (g, some ⟨200, r.url.bytes, g.payload⟩)

/-- The program in one virtual machine. -/
def payloadMachine : Machine Globals Request (Option Response) where
  init := ⟨[], 0⟩
  step := onGet parse dis

/-! ## What the payload was filled for -/

/-- The globals, and the settings of the request they were last filled for. -/
structure Tracked where
  globals : Globals
  filled : Option Settings

/-- The settings a request fills the payload for, if it does. -/
def fills (g : Globals) (r : Request) : Option Settings :=
  (settings parse r.arg).filter fun s => g.payload.length ≠ s.payloadSize ∧ r.resized

/-- The program with a note of the settings its payload was filled for. -/
def tracked : Machine Tracked Request (Option Response) where
  init := ⟨(payloadMachine parse dis).init, none⟩
  step t r :=
    let (g, response) := (payloadMachine parse dis).step t.globals r
    (⟨g, (fills parse t.globals r).or t.filled⟩, response)

theorem tracked_globals (rs : List Request) :
    ((tracked parse dis).after rs).globals = (payloadMachine parse dis).after rs := by
  refine (tracked parse dis).run_induction'
    (I := fun rs t => t.globals = (payloadMachine parse dis).after rs) rfl (fun rs r ih => ?_) rs
  rw [Machine.after_snoc, Machine.after_snoc, ← ih]
  rfl

section Steps

variable {parse} {t : Tracked} {r : Request} {s : Settings}

theorem step_of_none (h : settings parse r.arg = none) :
    (tracked parse dis).step t r = (t, none) := by
  simp [tracked, payloadMachine, onGet, fills, h]

theorem step_of_hit (h : settings parse r.arg = some s)
    (hlen : t.globals.payload.length = s.payloadSize) :
    (tracked parse dis).step t r = (t, some ⟨200, r.url.bytes, t.globals.payload⟩) := by
  simp [tracked, payloadMachine, onGet, fills, h, hlen, Option.filter_some]

theorem step_of_fill (h : settings parse r.arg = some s)
    (hlen : t.globals.payload.length ≠ s.payloadSize) (hr : r.resized = true) :
    (tracked parse dis).step t r =
      (⟨fill dis t.globals s, some s⟩,
        some ⟨200, r.url.bytes, (fill dis t.globals s).payload⟩) := by
  simp [tracked, payloadMachine, onGet, fills, h, hlen, hr]

theorem step_of_not_resized (h : settings parse r.arg = some s)
    (hlen : t.globals.payload.length ≠ s.payloadSize) (hr : r.resized = false) :
    (tracked parse dis).step t r = (t, none) := by
  simp [tracked, payloadMachine, onGet, fills, h, hlen, hr]

end Steps

/-- The payload in memory is a filling for these settings. -/
def Filled (payload : Bytes) : Option Settings → Prop
  | none => payload = []
  | some s =>
    payload.length = s.payloadSize ∧ (s.randomize = false → payload = constant s.payloadSize)

theorem filled_fill (g : Globals) (s : Settings) : Filled (fill dis g s).payload (some s) := by
  unfold fill
  cases hs : s.randomize <;> simp [Filled, constant, hs]

/-- The payload is always a filling for the settings noted. -/
theorem filled_after (rs : List Request) :
    Filled ((tracked parse dis).after rs).globals.payload
      ((tracked parse dis).after rs).filled := by
  refine (tracked parse dis).run_induction' (I := fun _ t => Filled t.globals.payload t.filled) rfl
    (fun rs r ih => ?_) rs
  rw [Machine.after_snoc]
  cases h : settings parse r.arg with
  | none => rwa [step_of_none dis h]
  | some s =>
    by_cases hlen : ((tracked parse dis).after rs).globals.payload.length = s.payloadSize
    · rwa [step_of_hit dis h hlen]
    · cases hr : r.resized with
      | false => rwa [step_of_not_resized dis h hlen hr]
      | true =>
        rw [step_of_fill dis h hlen hr]
        exact filled_fill dis _ s

/-! ## Requests that get their own kind of payload -/

/-- After `rs`, the request `r` gets its own kind of payload : bytes `a` if it is not random, and
if it is, none that were filled for a request that is not. -/
structure Served (rs : List Request) (r : Request) : Prop where
  constant : ∀ n, settings parse r.arg = some ⟨n, false⟩ →
    ∃ response, (payloadMachine parse dis).answer rs r = some response ∧
      response.content = Payload.constant n
  random : ∀ n response, settings parse r.arg = some ⟨n, true⟩ → 0 < n →
    (payloadMachine parse dis).answer rs r = some response →
    ∀ s ∈ ((tracked parse dis).after (rs ++ [r])).filled, s.randomize = true

/-- The request does not have the size of a payload filled for the other kind, or it is one of `a`
that finds a payload of `a`; and the string can be resized if it is not random. -/
structure Own (t : Tracked) (r : Request) : Prop where
  kind : ∀ s ∈ settings parse r.arg, ∀ s' ∈ t.filled, s'.payloadSize = s.payloadSize →
    0 < s.payloadSize → s'.randomize = s.randomize ∨
      s.randomize = false ∧ t.globals.payload = constant s.payloadSize
  resized : ∀ s ∈ settings parse r.arg, s.randomize = false →
    t.globals.payload.length ≠ s.payloadSize → r.resized = true

theorem answer_eq (rs : List Request) (r : Request) :
    (payloadMachine parse dis).answer rs r =
      ((tracked parse dis).step ((tracked parse dis).after rs) r).2 := by
  rw [Machine.answer, ← tracked_globals]
  rfl

section Kinds

variable {parse} {rs : List Request} {r : Request} {s : Settings}

theorem served_iff_of_some (h : settings parse r.arg = some s) :
    Served parse dis rs r ↔
      (s.randomize = false → ∃ response, (payloadMachine parse dis).answer rs r = some response ∧
        response.content = constant s.payloadSize) ∧
      (s.randomize = true → 0 < s.payloadSize →
        ((payloadMachine parse dis).answer rs r).isSome →
          ∀ s' ∈ ((tracked parse dis).after (rs ++ [r])).filled, s'.randomize = true) := by
  obtain ⟨n, b⟩ := s
  constructor
  · intro hs
    refine ⟨fun hb => ?_, fun hb hn hsome => ?_⟩
    · obtain rfl : b = false := hb
      exact hs.constant n h
    · obtain rfl : b = true := hb
      obtain ⟨response, hresponse⟩ := Option.isSome_iff_exists.1 hsome
      exact hs.random n response h hn hresponse
  · rintro ⟨hconstant, hrandom⟩
    refine ⟨fun m hm => ?_, fun m response hm hpos hresponse => ?_⟩
    · obtain ⟨rfl, rfl⟩ := Settings.mk.inj (Option.some.inj (h.symm.trans hm))
      exact hconstant rfl
    · obtain ⟨rfl, rfl⟩ := Settings.mk.inj (Option.some.inj (h.symm.trans hm))
      exact hrandom rfl hpos (by simp [hresponse])

theorem own_iff_of_some {t : Tracked} (h : settings parse r.arg = some s) :
    Own parse t r ↔
      (∀ s' ∈ t.filled, s'.payloadSize = s.payloadSize → 0 < s.payloadSize →
        s'.randomize = s.randomize ∨
          s.randomize = false ∧ t.globals.payload = constant s.payloadSize) ∧
      (s.randomize = false → t.globals.payload.length ≠ s.payloadSize → r.resized = true) := by
  constructor
  · intro ho
    exact ⟨ho.kind s h, ho.resized s h⟩
  · rintro ⟨hkind, hresized⟩
    refine ⟨fun s₁ hs₁ => ?_, fun s₁ hs₁ => ?_⟩
    · obtain rfl := Option.some.inj (h.symm.trans hs₁)
      exact hkind
    · obtain rfl := Option.some.inj (h.symm.trans hs₁)
      exact hresized

/-- A filling has the size it was made for. -/
theorem Filled.size_eq {payload : Bytes} {filled : Option Settings} (h : Filled payload filled)
    {s' : Settings} (hs' : s' ∈ filled) : payload.length = s'.payloadSize := by
  rw [Option.mem_def.1 hs'] at h
  exact h.1

/-- A payload of `n` bytes is of `a` if none of these kinds of filling made it. -/
theorem Filled.eq_constant {payload : Bytes} {filled : Option Settings} (h : Filled payload filled)
    {n : ℕ} (hlen : payload.length = n)
    (hkind : 0 < n → ∀ s' ∈ filled, s'.randomize = false ∨ payload = constant n) :
    payload = constant n := by
  rcases Nat.eq_zero_or_pos n with rfl | hn
  · exact List.eq_nil_of_length_eq_zero hlen
  · cases filled with
    | none =>
      rw [show payload = [] from h] at hlen
      exact absurd hlen hn.ne
    | some s' =>
      rcases hkind hn s' rfl with hs' | heq
      · rw [h.2 hs', ← h.1, hlen]
      · exact heq

/-- A payload of the size asked for is served as it is. -/
theorem served_iff_of_hit (h : settings parse r.arg = some s)
    (hlen : ((tracked parse dis).after rs).globals.payload.length = s.payloadSize) :
    Served parse dis rs r ↔ Own parse ((tracked parse dis).after rs) r := by
  have hfilled := filled_after parse dis rs
  rw [served_iff_of_some dis h, own_iff_of_some h, answer_eq, Machine.after_snoc,
    step_of_hit dis h hlen]
  generalize (tracked parse dis).after rs = t at hlen hfilled
  have hsize : ∀ s' ∈ t.filled, s'.payloadSize = s.payloadSize := fun s' hs' =>
    (hfilled.size_eq hs').symm.trans hlen
  cases hs : s.randomize with
  | false =>
    constructor
    · rintro ⟨hserved, -⟩
      obtain ⟨response, hresponse, hcontent⟩ := hserved rfl
      obtain rfl := Option.some.inj hresponse
      exact ⟨fun _ _ _ _ => .inr ⟨rfl, hcontent⟩, fun _ hne => absurd hlen hne⟩
    · rintro ⟨hkind, -⟩
      refine ⟨fun _ => ⟨_, rfl, hfilled.eq_constant hlen fun hn s' hs' => ?_⟩, nofun⟩
      exact (hkind s' hs' (hsize s' hs') hn).imp_right And.right
  | true =>
    constructor
    · rintro ⟨-, hserved⟩
      exact ⟨fun s' hs' _ hn => .inl (hserved rfl hn rfl s' hs'), nofun⟩
    · rintro ⟨hkind, -⟩
      refine ⟨nofun, fun _ hn _ s' hs' => ?_⟩
      simpa using hkind s' hs' (hsize s' hs') hn

/-- A payload of another size is filled anew, if it can be resized. -/
theorem served_iff_of_miss (h : settings parse r.arg = some s)
    (hlen : ((tracked parse dis).after rs).globals.payload.length ≠ s.payloadSize) :
    Served parse dis rs r ↔ Own parse ((tracked parse dis).after rs) r := by
  have hfilled := filled_after parse dis rs
  rw [served_iff_of_some dis h, own_iff_of_some h, answer_eq, Machine.after_snoc]
  generalize (tracked parse dis).after rs = t at hlen hfilled
  have hkind : ∀ s' ∈ t.filled, s'.payloadSize = s.payloadSize → 0 < s.payloadSize →
      s'.randomize = s.randomize ∨
        s.randomize = false ∧ t.globals.payload = constant s.payloadSize :=
    fun s' hs' hsize => absurd ((hfilled.size_eq hs').trans hsize) hlen
  cases hr : r.resized with
  | false =>
    rw [step_of_not_resized dis h hlen hr]
    constructor
    · rintro ⟨hserved, -⟩
      refine ⟨hkind, fun hs _ => ?_⟩
      obtain ⟨response, hresponse, -⟩ := hserved hs
      cases hresponse
    · rintro ⟨-, hresized⟩
      refine ⟨fun hs => absurd (hresized hs hlen) Bool.false_ne_true, fun _ _ hsome => ?_⟩
      cases hsome
  | true =>
    rw [step_of_fill dis h hlen hr]
    have hfill := filled_fill dis t.globals s
    refine iff_of_true ⟨fun hs => ⟨_, rfl, hfill.2 hs⟩, fun hs _ _ => ?_⟩ ⟨hkind, fun _ _ => rfl⟩
    simpa using hs

end Kinds

/-- A request is served its own kind of payload exactly under this condition. -/
theorem served_step_iff (rs : List Request) (r : Request) :
    Served parse dis rs r ↔ Own parse ((tracked parse dis).after rs) r := by
  cases h : settings parse r.arg with
  | none => exact iff_of_true ⟨by simp [h], by simp [h]⟩ ⟨by simp [h], by simp [h]⟩
  | some s =>
    by_cases hlen : ((tracked parse dis).after rs).globals.payload.length = s.payloadSize
    · exact served_iff_of_hit dis h hlen
    · exact served_iff_of_miss dis h hlen

/-- Every request of a run is served its own kind of payload exactly if each meets the
condition. -/
theorem served_iff (rs : List Request) :
    (∀ pre r, pre ++ [r] <+: rs → Served parse dis pre r) ↔
      (tracked parse dis).Meets (Own parse) rs :=
  forall₃_congr fun pre r _ => served_step_iff parse dis pre r

/-! ## Two requests of one size -/

/-- A byte of either kind, by its argument. -/
def byteArg (randomize : Bool) : CString where
  bytes := ascii <|
    if randomize then "\x7b\"size\":1,\"randomize\":true\x7d" else "\x7b\"size\":1\x7d"
  nonzero := by cases randomize <;> simp [ascii]

/-- The parser on these two arguments. -/
def parseByte (arg : Bytes) : Option Json :=
  if arg = (byteArg false).bytes then some (.object [(ascii "size", .number 1)])
  else if arg = (byteArg true).bytes then
    some (.object [(ascii "size", .number 1), (ascii "randomize", .bool true)])
  else none

/-- A request for a byte. -/
def getByte (randomize : Bool) : Request :=
  ⟨⟨[], List.forall_mem_nil _⟩, byteArg randomize, true⟩

/-- After a random byte, the request for an `a` is answered with that byte. -/
theorem not_served :
    ¬∀ (parse : Bytes → Option Json) (dis : ℕ → Byte) (rs : List Request) (r : Request),
      r.resized = true → Served parse dis rs r := by
  intro h
  obtain ⟨response, hresponse, hcontent⟩ :=
    (h parseByte (fun _ => 0) [getByte true] (getByte false) rfl).constant 1 (by decide +kernel)
  have hzero : (payloadMachine parseByte fun _ => 0).answer [getByte true] (getByte false) =
      some ⟨200, [], [0]⟩ := by decide +kernel
  rw [hzero] at hresponse
  obtain rfl := Option.some.inj hresponse
  revert hcontent
  decide

/-- And after an `a`, the request for a random byte with that `a`. -/
example : (payloadMachine parseByte fun _ => 0).answer [getByte false] (getByte true) =
    some ⟨200, [], constant 1⟩ := by decide +kernel

end Payload

end TinyKvm
