import TinyKvm.Api
import TinyKvm.Machine
import Mathlib.Data.Finset.Insert

/-!
# The basic-auth gate

`basicauth.cpp` asks storage whether a request may pass. The storage function
`authenticate` gets the credentials it expects, the `Authorization` field of the
request as the host found it, and the `info` string of the program's
configuration. It answers "OK" for an `info` it remembers, and remembers every
`info` whose request presented the expected credentials.

The remembered set holds `info` strings and no passwords, and the field's value
is taken to start at its sixteenth byte. So an answer "OK" says that some call
with the same `info` presented the credentials of the password that call
expected, fifteen bytes into its field (`authenticate_sound`), and not more :
another password may have been expected, and a field written without the blank
after its colon has lost the first byte of its value (`authenticate_not_sound`).

Turbo-Base64 is not part of the repository. Its encoder is a parameter.
-/

namespace TinyKvm

namespace BasicAuth

/-- `std::string::substr` : `none` when it throws `std::out_of_range`. -/
def substr (s : Bytes) (pos : ℕ) : Option Bytes :=
  if pos ≤ s.length then some (s.drop pos) else none

/-- The presented credentials : a field that is not empty loses 'Authorization: '. -/
def stripField (inpass : Bytes) : Option Bytes :=
  if inpass.isEmpty then some inpass else substr inpass 15

/-- The storage function : the remembered set it leaves and what it returns, `none` when
it throws. The strip of the field comes before the look-up. -/
def authenticate (authenticated : Finset Bytes) (password inpass candidate : Bytes) :
    Finset Bytes × Option Bytes :=
  match stripField inpass with
  | none => (authenticated, none)
  | some inpass =>
    if candidate ∈ authenticated then (authenticated, some (ascii "OK"))
    else if password = inpass then (insert candidate authenticated, some (ascii "OK"))
    else (authenticated, some (ascii "Failed"))

/-- `Http::get` : the field the host found, empty when there is none or it is longer than
the buffer. -/
def httpGet (field : Option Bytes) : Bytes :=
  match field with
  | some f => if f.length ≤ 1024 then f else []
  | none => []

variable (tb64enc : Bytes → Bytes)

/-- `to_base64` : a buffer of the encoded length, filled by the encoder. -/
def toBase64 (text : Bytes) : Bytes :=
  tb64enc text

/-- The credentials the request side expects for a password. -/
def credentials (password : Bytes) : Bytes :=
  ascii "Basic " ++ toBase64 tb64enc password

/-- A storage call : the configured password, the request's `Authorization` field, and the
configured `info`. -/
structure Call where
  password : Bytes
  header : Bytes
  info : Bytes
  deriving DecidableEq

/-- The request side's `authenticate` : the call it makes for the field the host found. -/
def requestCall (password : Bytes) (field : Option Bytes) (info : Bytes) : Call :=
  ⟨password, httpGet field, info⟩

/-- The storage program, called by the request side. -/
def authMachine : Machine (Finset Bytes) Call (Option Bytes) where
  init := ∅
  step authenticated c :=
    authenticate authenticated (credentials tb64enc c.password) c.header c.info

@[simp] theorem authMachine_step (authenticated : Finset Bytes) (c : Call) :
    (authMachine tb64enc).step authenticated c =
      authenticate authenticated (credentials tb64enc c.password) c.header c.info :=
  rfl

/-- `on_get` : the response to the answer of storage. A call that threw ends in `on_error`. -/
def onGet (result : Option Bytes) : Response :=
  if result = some (ascii "OK") then ⟨200, ascii "text/plain", ascii "OK"⟩
  else ⟨401, ascii "text/plain", []⟩

/-- `on_post` : the data comes back under its content type when storage answers "OK". -/
def onPost (result : Option Bytes) (contentType data : Bytes) : Response :=
  match result with
  | none => ⟨401, ascii "text/plain", []⟩
  | some r =>
    if r = ascii "OK" then ⟨200, contentType, data⟩
    else ⟨401, ascii "text/plain", ascii "Access denied"⟩

/-! ## What an answer "OK" says -/

/-- The bytes of the field from the sixteenth on are the credentials of the call's password. -/
def Call.Presents (c : Call) : Prop :=
  15 ≤ c.header.length ∧ c.header.drop 15 = credentials tb64enc c.password

/-- Stripped credentials that are not empty start at the sixteenth byte of the field. -/
theorem stripField_eq_some {field v : Bytes} (h : stripField field = some v) (hv : v ≠ []) :
    15 ≤ field.length ∧ field.drop 15 = v := by
  unfold stripField substr at h
  split_ifs at h with hempty hlen
  · rw [List.isEmpty_iff.1 hempty] at h
    exact absurd (Option.some.inj h).symm hv
  · exact ⟨hlen, Option.some.inj h⟩

/-- All a storage call can do : throw, recognise a remembered `info`, remember a new one on
the right credentials, or fail. -/
theorem authenticate_cases {password : Bytes} (hpassword : password ≠ [])
    (authenticated : Finset Bytes) (field candidate : Bytes) :
    authenticate authenticated password field candidate = (authenticated, none) ∨
      (candidate ∈ authenticated ∧
        authenticate authenticated password field candidate =
          (authenticated, some (ascii "OK"))) ∨
      ((15 ≤ field.length ∧ field.drop 15 = password) ∧
        authenticate authenticated password field candidate =
          (insert candidate authenticated, some (ascii "OK"))) ∨
      (candidate ∉ authenticated ∧
        authenticate authenticated password field candidate =
          (authenticated, some (ascii "Failed"))) := by
  unfold authenticate
  cases hstrip : stripField field with
  | none => exact Or.inl rfl
  | some v =>
    by_cases hmem : candidate ∈ authenticated
    · exact Or.inr (Or.inl ⟨hmem, by simp [hmem]⟩)
    · by_cases heq : password = v
      · subst heq
        exact Or.inr (Or.inr (Or.inl ⟨stripField_eq_some hstrip hpassword, by simp [hmem]⟩))
      · exact Or.inr (Or.inr (Or.inr ⟨hmem, by simp [hmem, heq]⟩))

theorem credentials_ne_nil (password : Bytes) : credentials tb64enc password ≠ [] := by
  intro h
  have hlen := congrArg List.length h
  simp only [credentials, List.length_append, List.length_nil] at hlen
  have hbasic : (ascii "Basic ").length = 6 := by decide
  omega

/-- Every remembered `info` was configured for a call that presented its credentials. -/
theorem remembered_presented (calls : List Call) :
    ∀ info ∈ (authMachine tb64enc).after calls,
      ∃ d ∈ calls, d.info = info ∧ d.Presents tb64enc := by
  refine (authMachine tb64enc).run_induction'
    (I := fun calls s => ∀ info ∈ s, ∃ d ∈ calls, d.info = info ∧ d.Presents tb64enc)
    (by simp [authMachine]) (fun calls c ih => ?_) calls
  rw [Machine.after_snoc, authMachine_step]
  have hkeep : ∀ info ∈ (authMachine tb64enc).after calls,
      ∃ d ∈ calls ++ [c], d.info = info ∧ d.Presents tb64enc := by
    intro info hinfo
    obtain ⟨d, hd, h⟩ := ih info hinfo
    exact ⟨d, List.mem_append_left _ hd, h⟩
  have hcases := authenticate_cases (credentials_ne_nil tb64enc c.password)
    ((authMachine tb64enc).after calls) c.header c.info
  rcases hcases with h | ⟨-, h⟩ | ⟨hpres, h⟩ | ⟨-, h⟩ <;> rw [h]
  · exact hkeep
  · exact hkeep
  · intro info hinfo
    rcases Finset.mem_insert.1 hinfo with rfl | hinfo
    · exact ⟨c, List.mem_append_right _ (by simp), rfl, hpres⟩
    · exact hkeep info hinfo
  · exact hkeep

/-- Behind an answer "OK" is a call up to it, with its `info`, that presented its
credentials. -/
theorem presented_of_answer (calls : List Call) (c : Call)
    (h : (authMachine tb64enc).answer calls c = some (ascii "OK")) :
    ∃ d ∈ calls ++ [c], d.info = c.info ∧ d.Presents tb64enc := by
  have hcases := authenticate_cases (credentials_ne_nil tb64enc c.password)
    ((authMachine tb64enc).after calls) c.header c.info
  have hok : (authenticate ((authMachine tb64enc).after calls) (credentials tb64enc c.password)
      c.header c.info).2 = some (ascii "OK") := h
  rcases hcases with heq | ⟨hmem, -⟩ | ⟨hpres, -⟩ | ⟨-, heq⟩
  · simp [heq] at hok
  · obtain ⟨d, hd, hinfo, hpres⟩ := remembered_presented tb64enc calls c.info hmem
    exact ⟨d, List.mem_append_left _ hd, hinfo, hpres⟩
  · exact ⟨c, List.mem_append_right _ (by simp), rfl, hpres⟩
  · rw [heq] at hok
    exact absurd (Option.some.inj hok) (by decide)

theorem Call.Presents.value {d : Call} (h : d.Presents tb64enc) {v : Bytes}
    (hv : d.header = ascii "Authorization: " ++ v) : v = credentials tb64enc d.password := by
  rw [← h.2, hv]
  rfl

/-- An answer "OK" to a call says that it, or an earlier call with the same `info`,
presented the credentials of the password it expected, from the sixteenth byte of its field
on : in a field written 'Authorization: ' and a value, the value. -/
theorem authenticate_sound (calls : List Call) (c : Call)
    (h : (authMachine tb64enc).answer calls c = some (ascii "OK")) :
    ∃ d ∈ calls ++ [c], d.info = c.info ∧ d.Presents tb64enc ∧
      ∀ v, d.header = ascii "Authorization: " ++ v → v = credentials tb64enc d.password := by
  obtain ⟨d, hd, hinfo, hpres⟩ := presented_of_answer tb64enc calls c h
  exact ⟨d, hd, hinfo, hpres, fun _ hv => hpres.value tb64enc hv⟩

/-- The base64 alphabet. -/
def base64Char (i : BitVec 6) : Byte :=
  (ascii "ABCDEFGHIJKLMNOPQRSTUVWXYZabcdefghijklmnopqrstuvwxyz0123456789+/").getD i.toNat 0

/-- The base64 encoding, three bytes to four characters, padded. -/
def base64 : Bytes → Bytes
  | [] => []
  | [a] => [base64Char (a.extractLsb' 2 6), base64Char ((a ++ 0#4).extractLsb' 0 6)] ++ ascii "=="
  | [a, b] =>
    [base64Char (a.extractLsb' 2 6), base64Char ((a ++ b).extractLsb' 4 6),
      base64Char ((b ++ 0#2).extractLsb' 0 6)] ++ ascii "="
  | a :: b :: c :: rest =>
    [base64Char (a.extractLsb' 2 6), base64Char ((a ++ b).extractLsb' 4 6),
      base64Char ((b ++ c).extractLsb' 6 6), base64Char (c.extractLsb' 0 6)] ++ base64 rest

example : base64 (ascii "secret") = ascii "c2VjcmV0" := by decide

/-- The second call with one `info` needs no field of its own. -/
theorem authenticate_sound_remembered :
    ∃ d ∈ ([⟨ascii "secret", ascii "Authorization: Basic c2VjcmV0", ascii "a"⟩] : List Call) ++
        [⟨ascii "secret", [], ascii "a"⟩],
      d.info = ascii "a" ∧ d.Presents base64 ∧
        ∀ v, d.header = ascii "Authorization: " ++ v → v = credentials base64 d.password :=
  authenticate_sound base64 [⟨ascii "secret", ascii "Authorization: Basic c2VjcmV0", ascii "a"⟩]
    ⟨ascii "secret", [], ascii "a"⟩ (by decide)

/-- Both handlers answer 200 exactly when storage answered "OK". -/
theorem status_eq_200 (result : Option Bytes) (contentType data : Bytes) :
    ((onGet result).status = 200 ↔ result = some (ascii "OK")) ∧
      ((onPost result contentType data).status = 200 ↔ result = some (ascii "OK")) := by
  unfold onGet onPost
  constructor
  · split_ifs with h <;> simp [h]
  · cases result with
    | none => simp
    | some r => by_cases h : r = ascii "OK" <;> simp [h]

/-- A request answered 200, to GET or to POST, has behind it a call with its `info` that
presented its credentials. -/
theorem request_presented (calls : List Call) (password : Bytes) (field : Option Bytes)
    (info contentType data : Bytes)
    (h : (onGet ((authMachine tb64enc).answer calls (requestCall password field info))).status
        = 200 ∨
      (onPost ((authMachine tb64enc).answer calls (requestCall password field info)) contentType
        data).status = 200) :
    ∃ d ∈ calls ++ [requestCall password field info], d.info = info ∧ d.Presents tb64enc := by
  have hstatus := status_eq_200
    ((authMachine tb64enc).answer calls (requestCall password field info)) contentType data
  exact presented_of_answer tb64enc calls _ (h.elim hstatus.1.1 hstatus.2.1)

/-! ## What it does not say -/

/-- The value of a field : what follows its first colon, without leading blanks. -/
def fieldValue (field : Bytes) : Bytes :=
  ((field.dropWhile (· ≠ 0x3A)).drop 1).dropWhile fun b => b = 0x20 ∨ b = 0x09

/-- An answer "OK" always has a call up to it that stands in the relation `presented` to the
one answered. -/
def GateSound (presented : Call → Call → Prop) : Prop :=
  ∀ calls c, (authMachine tb64enc).answer calls c = some (ascii "OK") →
    ∃ d ∈ calls ++ [c], presented d c

/-- A remembered `info` lets a request pass whose own password nobody presented, and a field
without a blank after its colon passes with another value than the credentials. -/
theorem authenticate_not_sound :
    ¬GateSound base64 (fun d c => d.password = c.password ∧ d.info = c.info ∧
        fieldValue d.header = credentials base64 d.password) ∧
      ¬GateSound base64 (fun d c => d.info = c.info ∧
        fieldValue d.header = credentials base64 d.password) := by
  constructor
  · intro h
    obtain ⟨d, hd, hpassword, -, hvalue⟩ := h
      [⟨ascii "secret", ascii "Authorization: Basic c2VjcmV0", ascii "a"⟩]
      ⟨ascii "other", [], ascii "a"⟩ (by decide)
    revert d
    decide
  · intro h
    obtain ⟨d, hd, -, hvalue⟩ := h []
      ⟨ascii "secret", ascii "Authorization:XBasic c2VjcmV0", ascii "a"⟩ (by decide)
    revert d
    decide

end BasicAuth

end TinyKvm
