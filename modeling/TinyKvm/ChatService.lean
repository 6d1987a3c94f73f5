import TinyKvm.ChatBounds
import TinyKvm.Linearization
import TinyKvm.StringConversions

/-!
# The chat as a service

Every request to the chat script runs in a request machine of its own. Its
`on_get` and `on_post` call the storage machine for the log, and respond with what
`varnish.storage` gives; an exception is answered by `on_error`. Requests run at
the same time, and the storage machine is updated and restarted in between.

What the clients see is a chat room, the messages in memory and in the file, that
handles one request after another (`chat_linearizable`). While the state file
opens nothing is lost, so a client that comes after another was sent the log is
sent that log with what was added to it (`bodies_grow`). The log is returned in a
buffer of 2 MiB. Once it does not fit, it is not sent to anyone who comes later,
while messages are still taken (`refused_from_then_on`).
-/

namespace TinyKvm

namespace Js

/-! ## Requests -/

/-- A request to the script : its URL, and the data of a post. -/
inductive HttpRequest where
  | get (url : CString)
  | post (url : CString) (data : Bytes)

/-- What a client is sent : a response, or what `static_site` sends for a path. -/
inductive Answer where
  | response (r : Response)
  | site (path : Bytes)
  deriving DecidableEq

/-- What the storage machine does between requests. -/
inductive Maintenance where
  | liveUpdate
  | restart

/-- A live update or a restart, among what happens to the storage machine. -/
def Maintenance.op : Maintenance → ChatOp
  | liveUpdate => .liveUpdate
  | restart => .restart

section Service

variable {E : Type} (engine : Engine) (parse : Str → Option Parsed) (host : StorageHost)
  (opens headerSet : E → Bool) (fetched : HttpRequest → Answer)

/-- `varnish.response(code, "text/plain", content)`. -/
def plainResponse (code : ℕ) (content : Str) : Answer :=
  .response ⟨code, engine.toCString (Utf16.ofAscii "text/plain"), engine.toCString content⟩

/-- `on_error` of the program and of the script, whose response is not reached if the header is not
set. -/
def onError (headerSet : Bool) : Answer :=
  if headerSet then plainResponse engine 500 (Utf16.ofAscii "Oops!")
  else .response ⟨500, ascii "text/plain", ascii "Internal server error"⟩

/-- The response with what `varnish.storage` gives. -/
def respond (headerSet : Bool) (code : ℕ) (result : Completion) : Answer :=
  match result.text with
  | some text => plainResponse engine code text
  | none => onError engine headerSet

/-- `on_get` and `on_post`. What is sent for the demonstrations of `varnish.fetch` and
`varnish.post` is left open. -/
def chatRequest : HttpRequest → Service.Request E ChatOp Completion Answer
  | .get url =>
    let path := engine.newString url.bytes
    if path = [] ∨ path = Utf16.ofAscii "/" then
      .direct (.site (engine.toCString (Utf16.ofAscii "/index.html")))
    else if path = Utf16.ofAscii "/example" then .direct (fetched (.get url))
    else if path = Utf16.ofAscii "/get" then
      .call (fun _ => .getStorage) fun e => respond engine (headerSet e) 200
    else .direct (.site (engine.toCString path))
  | .post url data =>
    if engine.newString url.bytes = Utf16.ofAscii "/example" then .direct (fetched (.post url data))
    else
      .call (fun e => .setStorage (engine.newString data) (opens e)) fun e =>
        respond engine (headerSet e) 201

/-! ## The storage machine -/

/-- The storage machine as its callers find it. -/
def chatStorage : Machine Chat ChatOp Completion where
  init := chatStart engine none
  step s op :=
    match op with
    | .getStorage =>
      (jsStorageCall engine host (chatGlobals engine parse true) s
        [.string (Utf16.ofAscii "get_storage")]).swap
    | .setStorage data opens =>
      (jsStorageCall engine host (chatGlobals engine parse opens) s
        [.string (Utf16.ofAscii "set_storage"), .string data]).swap
    | .liveUpdate => (liveUpdate engine s, .returned .undefined)
    | .restart => (chatStart engine s.file, .returned .undefined)

/-- The script with its storage machine. -/
def chatService : Service HttpRequest Maintenance E Chat ChatOp Completion Answer where
  machine := chatStorage engine parse host
  request := chatRequest engine opens headerSet fetched
  background := Maintenance.op

/-! ## The chat room -/

instance (messages : List Str) : Decidable (LinesFit engine messages) :=
  inferInstanceAs (Decidable (_ ≤ _))

/-- The log of messages, unless it does not fit. -/
def shown (messages : List Str) : Completion :=
  if LinesFit engine messages then .returned (.string (chatLines messages)) else .threw

/-- What the chat room answers. A post that adds nothing, or does not reach the file, is answered
with the empty string. -/
def roomAnswer (c : ChatMessages) : ChatOp → Completion
  | .getStorage => shown engine c.memory
  | .setStorage data opens =>
    match message parse data with
    | none => .returned (.string [])
    | some m => if opens then shown engine (c.memory ++ [m]) else .returned (.string [])
  | .liveUpdate | .restart => .returned .undefined

/-- A chat room : the messages in memory and in the file. -/
def chatRoom : Machine ChatMessages ChatOp Completion where
  init := ⟨[], []⟩
  step c op := (((messageMachine parse).step c op).1, roomAnswer engine parse c op)

/-- The script with a chat room. -/
def roomService : Service HttpRequest Maintenance E ChatMessages ChatOp Completion Answer where
  machine := chatRoom engine parse
  request := chatRequest engine opens headerSet fetched
  background := Maintenance.op

end Service

/-! ## Storage calls -/

variable {engine : Engine} {parse : Str → Option Parsed} {host : StorageHost}

/-- A call whose string does not fit throws. -/
theorem jsStorageCall_of_long {σ : Type} {global : Globals σ} {name : Str} {args : List Str} {s : σ}
    (hargs : args.length ≤ 11) {sfunc : Func σ} (h : global (Utf16.cString name) = some sfunc)
    {t : Str} (ht : (sfunc args s).1.text = some t)
    (hlong : ¬(engine.toCString t).length ≤ resultSize) :
    jsStorageCall engine host global s (.string name :: args.map .string) =
      (.threw, (sfunc args s).2) := by
  have hrun : (storageTrampoline engine global s ((name :: args).map engine.toCString)
      resultSize).1 = ⟨[], true⟩ := by
    rw [storageTrampoline_of_some h, storageReturn_of_long engine ht hlong]
  rw [jsStorageCall_eq hargs, storageResult_of_aborted engine host hrun,
    storageTrampoline_of_some h]

/-- What a caller finds of a call : a string that fits, and the empty one for no string. -/
def found (engine : Engine) (c : Completion) : Completion :=
  if (engine.toCString (c.text.getD [])).length ≤ resultSize then
    .returned (.string (c.text.getD []))
  else .threw

/-- A storage call is the call of the function, with what its caller finds. -/
theorem jsStorageCall_eq_found {σ : Type} {global : Globals σ} {name : Str} (args : List Str)
    {s : σ} (hargs : args.length ≤ 11) {sfunc : Func σ}
    (h : global (Utf16.cString name) = some sfunc) :
    jsStorageCall engine host global s (.string name :: args.map .string) =
      (found engine (sfunc args s).1, (sfunc args s).2) := by
  cases ht : (sfunc args s).1.text with
  | none =>
    have hfound : found engine (sfunc args s).1 = .returned (.string []) := by
      rw [found, ht, Option.getD_none, engine.toCString_nil]
      exact if_pos (Nat.zero_le _)
    have hfits : ∀ t, (sfunc args s).1.text = some t →
        (engine.toCString t).length ≤ resultSize := fun t ht' =>
      absurd (ht.symm.trans ht') (Option.some_ne_none t).symm
    rw [jsStorageCall_of_some hargs h hfits, hfound, ht, Option.getD_none]
  | some t =>
    by_cases hfits : (engine.toCString t).length ≤ resultSize
    · have hfound : found engine (sfunc args s).1 = .returned (.string t) := by
        rw [found, ht, Option.getD_some, if_pos hfits]
      have hfits' : ∀ t', (sfunc args s).1.text = some t' →
          (engine.toCString t').length ≤ resultSize := fun t' ht' =>
        Option.some.inj (ht.symm.trans ht') ▸ hfits
      rw [jsStorageCall_of_some hargs h hfits', hfound, ht, Option.getD_some]
    · have hfound : found engine (sfunc args s).1 = .threw := by
        rw [found, ht, Option.getD_some, if_neg hfits]
      rw [jsStorageCall_of_long hargs h ht hfits, hfound]

theorem found_string (t : Str) :
    found engine (.returned (.string t)) =
      if (engine.toCString t).length ≤ resultSize then .returned (.string t) else .threw :=
  rfl

theorem found_threw : found engine .threw = .returned (.string []) := by
  have hlen : (engine.toCString []).length ≤ resultSize := by
    rw [engine.toCString_nil]
    exact Nat.zero_le _
  exact if_pos hlen

theorem chatStorage_getStorage (s : Chat) :
    (chatStorage engine parse host).step s .getStorage =
      (s, found engine (.returned (.string s.text))) := by
  have hname : chatGlobals engine parse true (Utf16.cString (Utf16.ofAscii "get_storage")) =
      some getStorage := rfl
  have hcall : jsStorageCall engine host (chatGlobals engine parse true) s
      [.string (Utf16.ofAscii "get_storage")] = (found engine (.returned (.string s.text)), s) :=
    jsStorageCall_eq_found [] (by decide) hname
  exact congrArg Prod.swap hcall

theorem chatStorage_setStorage (data : Str) (opens : Bool) (s : Chat) :
    (chatStorage engine parse host).step s (.setStorage data opens) =
      ((setStorage engine parse opens [data] s).2,
        found engine (setStorage engine parse opens [data] s).1) := by
  have hname : chatGlobals engine parse opens (Utf16.cString (Utf16.ofAscii "set_storage")) =
      some (setStorage engine parse opens) := rfl
  have hcall : jsStorageCall engine host (chatGlobals engine parse opens) s
      [.string (Utf16.ofAscii "set_storage"), .string data] =
        (found engine (setStorage engine parse opens [data] s).1,
          (setStorage engine parse opens [data] s).2) :=
    jsStorageCall_eq_found [data] (by simp) hname
  exact congrArg Prod.swap hcall

/-! ## The room behind the storage machine -/

/-- The storage machine does with the chat what its functions do. -/
theorem chatStorage_state (s : Chat) (op : ChatOp) :
    ((chatStorage engine parse host).step s op).1 = ((chatMachine engine parse).step s op).1 := by
  cases op with
  | getStorage => rw [chatStorage_getStorage]; rfl
  | setStorage data opens => rw [chatStorage_setStorage]; rfl
  | liveUpdate => rfl
  | restart => rfl

theorem after_chatStorage (ops : List ChatOp) :
    (chatStorage engine parse host).after ops = (chatMachine engine parse).after ops := by
  induction ops using List.reverseRecOn with
  | nil => rfl
  | append_singleton ops op ih => rw [Machine.after_snoc, Machine.after_snoc, ih, chatStorage_state]

theorem after_chatRoom (ops : List ChatOp) :
    (chatRoom engine parse).after ops = (messageMachine parse).after ops := by
  induction ops using List.reverseRecOn with
  | nil => rfl
  | append_singleton ops op ih => rw [Machine.after_snoc, Machine.after_snoc, ih]; rfl

/-- The storage machine answers as the room with its messages. -/
theorem answer_of_holds {c : ChatMessages} {s : Chat} (h : Holds engine c s) (op : ChatOp) :
    ((chatStorage engine parse host).step s op).2 = roomAnswer engine parse c op := by
  cases op with
  | getStorage =>
    rw [chatStorage_getStorage, found_string, h.text]
    rfl
  | setStorage data opens =>
    rw [chatStorage_setStorage]
    cases hm : message parse data with
    | none =>
      rw [setStorage_of_none hm, found_threw]
      simp only [roomAnswer, hm]
    | some m =>
      rw [setStorage_of_some hm, h.text, ← chatLines_snoc]
      cases opens with
      | true => simp only [roomAnswer, hm, if_pos, found_string]; rfl
      | false => simp only [roomAnswer, hm, Bool.false_eq_true, if_false, found_threw]
  | liveUpdate => rfl
  | restart => rfl

theorem answer_chatRoom (ops : List ChatOp) (op : ChatOp) :
    (chatRoom engine parse).answer ops op = (chatStorage engine parse host).answer ops op := by
  rw [Machine.answer, Machine.answer, after_chatRoom, after_chatStorage,
    answer_of_holds (holds_after ops)]
  rfl

/-! ## What the clients see -/

section Clients

variable {E κ : Type} {opens headerSet : E → Bool} {fetched : HttpRequest → Answer}
  {es : List (κ × Service.Event HttpRequest Answer)} {lin : List (Option κ × ChatOp)}

/-! ## Logs -/

/-- A request that shows the log is a reader's or brings a message. -/
inductive ShowsLog (engine : Engine) (parse : Str → Option Parsed) :
    HttpRequest → Option Str → Prop
  | get {url : CString} (h : engine.newString url.bytes = Utf16.ofAscii "/get") :
      ShowsLog engine parse (.get url) none
  | post {url : CString} {data : Bytes} {m : Str}
      (hurl : engine.newString url.bytes ≠ Utf16.ofAscii "/example")
      (hm : message parse (engine.newString data) = some m) :
      ShowsLog engine parse (.post url data) (some m)

/-- The code of the response of a request that shows the log. -/
def HttpRequest.code : HttpRequest → ℕ
  | get _ => 200
  | post _ _ => 201

/-- The request is answered with the log of these messages. -/
def IsShown (engine : Engine) (q : HttpRequest) (a : Answer) (messages : List Str) : Prop :=
  ∃ headerSet, a = respond engine headerSet q.code (shown engine messages)

/-- The request is answered with an error. -/
def IsRefused (engine : Engine) (a : Answer) : Prop :=
  ∃ headerSet, a = onError engine headerSet

variable (headerSet fetched) in
/-- A request that shows the log adds its message, and shows what there is then if the file
opens. -/
theorem request_of_showsLog (hopens : ∀ e, opens e = true) {q : HttpRequest} {m : Option Str}
    (h : ShowsLog engine parse q m) :
    ∃ i : E → ChatOp, chatRequest engine opens headerSet fetched q =
        .call i (fun e => respond engine (headerSet e) q.code) ∧
      ∀ e c, ((chatRoom engine parse).step c (i e)).1.memory = c.memory ++ m.toList ∧
        ((chatRoom engine parse).step c (i e)).2 = shown engine (c.memory ++ m.toList) := by
  cases h with
  | @get url hurl =>
    have hroot : ¬(engine.newString url.bytes = [] ∨
        engine.newString url.bytes = Utf16.ofAscii "/") := by
      rw [hurl]
      decide
    have hexample : engine.newString url.bytes ≠ Utf16.ofAscii "/example" := by
      rw [hurl]
      decide
    refine ⟨fun _ => .getStorage, ?_, fun e c => ?_⟩
    · rw [chatRequest, if_neg hroot, if_neg hexample, if_pos hurl]
      rfl
    · rw [Option.toList_none, List.append_nil]
      exact ⟨rfl, rfl⟩
  | @post url data m hurl hm =>
    refine ⟨fun e => .setStorage (engine.newString data) (opens e), ?_, fun e c => ?_⟩
    · rw [chatRequest, if_neg hurl]
      rfl
    · simp only [chatRoom, messageMachine, roomAnswer, hm, hopens e, if_pos, Option.toList_some,
        and_self]

/-- A call of a request writes the file only if it opens. -/
theorem opens_of_chatRequest (hopens : ∀ e, opens e = true) {q : HttpRequest} {i : E → ChatOp}
    {reply : E → Completion → Answer}
    (h : chatRequest engine opens headerSet fetched q = .call i reply) (e : E) :
    Opens parse (i e) := by
  cases q with
  | get url =>
    simp only [chatRequest] at h
    split_ifs at h
    cases h
    exact fun _ => nofun
  | post url data =>
    simp only [chatRequest] at h
    split_ifs at h
    cases h
    intro data' hdata'
    cases (hopens e).symm.trans (ChatOp.setStorage.inj hdata').2

theorem opens_of_linearizes (hopens : ∀ e, opens e = true)
    (h : (roomService engine parse opens headerSet fetched).Linearizes es lin) :
    ∀ op ∈ lin.map Prod.snd, Opens parse op := by
  intro op hop
  obtain ⟨⟨- | k, op⟩, hmem, rfl⟩ := List.mem_map.1 hop
  · obtain ⟨b, rfl⟩ := h.background op hmem
    cases b <;> exact fun _ => nofun
  · obtain ⟨q, i, reply, e, -, hq, rfl⟩ := h.invoked k op hmem
    exact opens_of_chatRequest hopens hq e

/-- The messages of the room are in its file, and begin with `old`. -/
structure Since (old : List Str) (c : ChatMessages) : Prop where
  file : c.file = c.memory
  memory : old <+: c.memory

/-- While the file opens, the room only adds messages. -/
theorem Since.step {old : List Str} {c : ChatMessages} (h : Since old c) {op : ChatOp}
    (hop : Opens parse op) : Since old ((chatRoom engine parse).step c op).1 := by
  cases op with
  | getStorage => exact h
  | liveUpdate => exact h
  | restart =>
    have hmemory := h.memory
    rw [← h.file] at hmemory
    exact ⟨rfl, hmemory⟩
  | setStorage data opens =>
    cases hm : message parse data with
    | none =>
      simp only [chatRoom, messageMachine, hm]
      exact h
    | some m =>
      cases opens with
      | false => exact absurd (hm.symm.trans (hop data rfl)) (Option.some_ne_none m)
      | true =>
        simp only [chatRoom, messageMachine, hm, if_pos]
        exact ⟨rfl, h.memory.trans (List.prefix_append _ _)⟩

theorem since_append {old : List Str} {ops more : List ChatOp}
    (h : Since old ((chatRoom engine parse).after ops)) (hmore : ∀ op ∈ more, Opens parse op) :
    Since old ((chatRoom engine parse).after (ops ++ more)) := by
  induction more using List.reverseRecOn with
  | nil => rwa [List.append_nil]
  | append_singleton more op ih =>
    rw [← List.append_assoc, Machine.after_snoc]
    exact (ih fun op' hop' => hmore op' (List.mem_append_left _ hop')).step
      (hmore op (List.mem_append_right _ List.mem_cons_self))

variable (engine) in
/-- The messages of a longer run begin with those of a shorter one. -/
theorem memory_initial {ops ops' : List ChatOp} (h : ops <+: ops')
    (hopens : ∀ op ∈ ops', Opens parse op) :
    ((chatRoom engine parse).after ops).memory <+: ((chatRoom engine parse).after ops').memory := by
  obtain ⟨more, rfl⟩ := h
  have hinit : Since [] ((chatRoom engine parse).after []) := ⟨rfl, List.nil_prefix⟩
  have hfile := (since_append hinit fun op hop => hopens op (List.mem_append_left more hop)).file
  exact (since_append ⟨hfile, List.prefix_rfl⟩
    fun op hop => hopens op (List.mem_append_right ops hop)).memory

/-- The call of a request that shows the log, and what is shown. -/
theorem shown_of_linearizes (hopens : ∀ e, opens e = true)
    (h : (roomService engine parse opens headerSet fetched).Linearizes es lin)
    {before rest : List (κ × Service.Event HttpRequest Answer)} {k : κ} {q : HttpRequest}
    {a : Answer} {m : Option Str} (hes : es = before ++ (k, .responded a) :: rest)
    (hq : (k, .invoked q) ∈ es) (hshow : ShowsLog engine parse q m) :
    ∃ pre op post, lin = pre ++ (some k, op) :: post ∧
      ((chatRoom engine parse).after ((pre ++ [(some k, op)]).map Prod.snd)).memory =
        ((chatRoom engine parse).after (pre.map Prod.snd)).memory ++ m.toList ∧
      IsShown engine q a (((chatRoom engine parse).after (pre.map Prod.snd)).memory ++ m.toList) ∧
      Service.Invoked before k ∧ ∀ k' op', (some k', op') ∈ pre → Service.Invoked before k' := by
  obtain ⟨i, hcall, hstep⟩ := request_of_showsLog headerSet fetched hopens hshow
  obtain ⟨pre, e, post, hlin, ha, hk, hpre⟩ := h.answered_call hes hq hcall
  obtain ⟨hmemory, hanswer⟩ := hstep e ((chatRoom engine parse).after (pre.map Prod.snd))
  refine ⟨pre, i e, post, hlin, ?_, ⟨headerSet e, ?_⟩, hk, hpre⟩
  · rw [List.map_append, List.map_singleton, Machine.after_snoc, hmemory]
  · rw [ha, ← hanswer]
    rfl

/-- The answer to a client that comes after another was answered with the log, is the log with what
was added since. -/
theorem shown_in_order (hopens : ∀ e, opens e = true)
    (h : (roomService engine parse opens headerSet fetched).Linearizes es lin)
    {before rest : List (κ × Service.Event HttpRequest Answer)} {k k' : κ} {q q' : HttpRequest}
    {a a' : Answer} {m m' : Option Str} (hes : es = before ++ (k, .responded a) :: rest)
    (hq : (k, .invoked q) ∈ es) (hshow : ShowsLog engine parse q m)
    (hk' : ¬Service.Invoked before k') (hq' : (k', .invoked q') ∈ es)
    (ha' : (k', .responded a') ∈ es) (hshow' : ShowsLog engine parse q' m') :
    ∃ messages added, IsShown engine q a messages ∧
      IsShown engine q' a' (messages ++ (added ++ m'.toList)) := by
  obtain ⟨before', rest', hes'⟩ := List.append_of_mem ha'
  obtain ⟨pre, op, post, hpost, hafter, hshown, hk, hpre⟩ :=
    shown_of_linearizes hopens h hes hq hshow
  obtain ⟨pre', op', post', hpost', -, hshown', -⟩ :=
    shown_of_linearizes hopens h hes' hq' hshow'
  have hearlier := Service.earlier_of_not_invoked hpost hpost' hpre hk hk'
  have hpre' : ∀ op ∈ pre'.map Prod.snd, Opens parse op := by
    intro op hop
    refine opens_of_linearizes hopens h op ?_
    rw [hpost', List.map_append]
    exact List.mem_append_left _ hop
  obtain ⟨added, hadded⟩ := memory_initial engine (hearlier.map Prod.snd) hpre'
  rw [hafter] at hadded
  rw [← hadded, List.append_assoc] at hshown'
  exact ⟨_, added, hshown, hshown'⟩

/-! ## Bodies -/

theorem respond_shown (headerSet : Bool) (q : HttpRequest) (messages : List Str) :
    respond engine headerSet q.code (shown engine messages) =
      if LinesFit engine messages then plainResponse engine q.code (chatLines messages)
      else onError engine headerSet := by
  by_cases hfits : LinesFit engine messages
  · have hshown : shown engine messages = .returned (.string (chatLines messages)) :=
      if_pos hfits
    rw [hshown, if_pos hfits]
    rfl
  · have hshown : shown engine messages = .threw := if_neg hfits
    rw [hshown, if_neg hfits]
    rfl

theorem isRefused_iff {q : HttpRequest} {a : Answer} {messages : List Str}
    (h : IsShown engine q a messages) : IsRefused engine a ↔ ¬LinesFit engine messages := by
  obtain ⟨headerSet, rfl⟩ := h
  rw [respond_shown]
  by_cases hfits : LinesFit engine messages
  · rw [if_pos hfits]
    refine ⟨fun ⟨headerSet', herror⟩ => ?_, fun hnot => absurd hfits hnot⟩
    cases q <;> cases headerSet' <;> cases herror
  · rw [if_neg hfits]
    exact ⟨fun _ => hfits, fun _ => ⟨headerSet, rfl⟩⟩

/-- A response with the code of its request has the log as its content. -/
theorem content_of_isShown {q : HttpRequest} {r : Response} {messages : List Str}
    (h : IsShown engine q (.response r) messages) (hr : r.status = q.code) :
    r.content = engine.toCString (chatLines messages) := by
  obtain ⟨headerSet, ha⟩ := h
  rw [respond_shown] at ha
  by_cases hfits : LinesFit engine messages
  · rw [if_pos hfits] at ha
    cases ha
    rfl
  · rw [if_neg hfits] at ha
    cases q <;> cases headerSet <;> cases ha <;> cases hr

/-- Lines are encoded one by one. -/
theorem toUtf8_chatLines_append : ∀ messages added : List Str,
    Utf16.toUtf8 (chatLines (messages ++ added)) =
      Utf16.toUtf8 (chatLines messages) ++ Utf16.toUtf8 (chatLines added)
  | [], _ => rfl
  | m :: messages, added => by
    rw [List.cons_append, chatLines, List.flatMap_cons, toUtf8_chatLine_append, chatLines,
      List.flatMap_cons, toUtf8_chatLine_append,
      List.append_assoc _ _ (Utf16.toUtf8 (chatLines added)), ← chatLines, ← chatLines,
      toUtf8_chatLines_append messages added]

theorem LinesFit.of_append {messages added : List Str}
    (h : LinesFit .quickJs (messages ++ added)) : LinesFit .quickJs messages := by
  have hlines : (Engine.quickJs.toCString (chatLines (messages ++ added))).length =
      (Engine.quickJs.toCString (chatLines messages)).length +
        (Engine.quickJs.toCString (chatLines added)).length := by
    rw [← List.length_append]
    exact congrArg List.length (toUtf8_chatLines_append messages added)
  unfold LinesFit at h
  exact (Nat.le_add_right _ _).trans (hlines ▸ h)

/-! ## What the clients see -/

variable [DecidableEq κ] {c : Processes.Config κ (Service.Client HttpRequest Answer) Chat}

/-- The calls in an order in which the clients see the storage machine. The room that has them is
what they see then. -/
theorem room_of_run
    (h : (chatService engine parse host opens headerSet fetched).processes.Run c es) :
    ∃ lin : List (Option κ × ChatOp),
      (roomService engine parse opens headerSet fetched).Linearizes es lin ∧
      Holds engine ((chatRoom engine parse).after (lin.map Prod.snd)) c.shared := by
  obtain ⟨lin, hlin, hshared⟩ := Service.linearizes_run h
  refine ⟨lin, hlin.of_answer_eq (chatRoom engine parse) fun pre i _ => answer_chatRoom pre i, ?_⟩
  have hafter : c.shared = (chatMachine engine parse).after (lin.map Prod.snd) :=
    hshared.trans (after_chatStorage _)
  rw [hafter, after_chatRoom]
  exact holds_after _

/-- The requests that are handled at the same time, with live updates and restarts in between, are
answered as by a chat room that handles them one after another, each between its invocation and its
response. The storage machine and its file have the lines of the room's messages. -/
theorem chat_linearizable
    (h : (chatService engine parse host opens headerSet fetched).processes.Run c es) :
    ∃ lin : List (Option κ × ChatOp),
      (roomService engine parse opens headerSet fetched).Linearizes es lin ∧
      c.shared.text = chatLines ((chatRoom engine parse).after (lin.map Prod.snd)).memory ∧
      c.shared.file.getD [] =
        engine.toCString (chatLines ((chatRoom engine parse).after (lin.map Prod.snd)).file) := by
  obtain ⟨lin, hlin, hholds⟩ := room_of_run h
  exact ⟨lin, hlin, hholds.text, hholds.file⟩

/-- A client that comes after another was sent the log, is sent what the other was and the lines of
messages added since, its own last. -/
theorem bodies_grow (hopens : ∀ e, opens e = true)
    (h : (chatService .quickJs parse host opens headerSet fetched).processes.Run c es)
    {before rest : List (κ × Service.Event HttpRequest Answer)} {k k' : κ} {q q' : HttpRequest}
    {r r' : Response} {m m' : Option Str}
    (hes : es = before ++ (k, .responded (.response r)) :: rest)
    (hq : (k, .invoked q) ∈ es) (hshow : ShowsLog .quickJs parse q m)
    (hk' : ¬Service.Invoked before k') (hq' : (k', .invoked q') ∈ es)
    (hr' : (k', .responded (.response r')) ∈ es) (hshow' : ShowsLog .quickJs parse q' m')
    (hstatus : r.status = q.code) (hstatus' : r'.status = q'.code) :
    ∃ added : List Str,
      r'.content = r.content ++ Utf16.toUtf8 (chatLines (added ++ m'.toList)) := by
  obtain ⟨lin, hlin, -⟩ := room_of_run h
  obtain ⟨messages, added, hshown, hshown'⟩ :=
    shown_in_order hopens hlin hes hq hshow hk' hq' hr' hshow'
  refine ⟨added, ?_⟩
  rw [content_of_isShown hshown hstatus, content_of_isShown hshown' hstatus']
  exact toUtf8_chatLines_append messages (added ++ m'.toList)

/-- Once a client is refused the log, so is every client that comes later. -/
theorem refused_from_then_on (hopens : ∀ e, opens e = true)
    (h : (chatService .quickJs parse host opens headerSet fetched).processes.Run c es)
    {before rest : List (κ × Service.Event HttpRequest Answer)} {k k' : κ} {q q' : HttpRequest}
    {a a' : Answer} {m m' : Option Str} (hes : es = before ++ (k, .responded a) :: rest)
    (hq : (k, .invoked q) ∈ es) (hshow : ShowsLog .quickJs parse q m)
    (hk' : ¬Service.Invoked before k') (hq' : (k', .invoked q') ∈ es)
    (ha' : (k', .responded a') ∈ es) (hshow' : ShowsLog .quickJs parse q' m')
    (hrefused : IsRefused .quickJs a) : IsRefused .quickJs a' := by
  obtain ⟨lin, hlin, -⟩ := room_of_run h
  obtain ⟨messages, added, hshown, hshown'⟩ :=
    shown_in_order hopens hlin hes hq hshow hk' hq' ha' hshow'
  have hfits := (isRefused_iff hshown).1 hrefused
  exact (isRefused_iff hshown').2 fun hfits' => hfits hfits'.of_append

/-- A request that shows the log, with nothing in between. -/
theorem run_showsLog (hopens : ∀ e, opens e = true)
    (h : (chatService engine parse host opens headerSet fetched).processes.Run c es)
    {room : ChatMessages} (hholds : Holds engine room c.shared) {k : κ}
    (hk : c.locals k = .idle) {q : HttpRequest} {m : Option Str}
    (hshow : ShowsLog engine parse q m) (e : E) :
    ∃ c' room', (chatService engine parse host opens headerSet fetched).processes.Run c'
        (es ++ [(k, .invoked q), (k, .responded
          (respond engine (headerSet e) q.code (shown engine (room.memory ++ m.toList))))]) ∧
      Holds engine room' c'.shared ∧ room'.memory = room.memory ++ m.toList ∧
      ∀ k', k' ≠ k → c'.locals k' = c.locals k' := by
  obtain ⟨i, hcall, hstep⟩ := request_of_showsLog headerSet fetched hopens hshow
  obtain ⟨hmemory, hanswer⟩ := hstep e room
  obtain ⟨c', hrun, hshared, hlocals⟩ := Service.run_serve h hk hcall e
  have hstate : c'.shared = ((chatMachine engine parse).step c.shared (i e)).1 :=
    hshared.trans (chatStorage_state c.shared (i e))
  have hanswer' : ((chatStorage engine parse host).step c.shared (i e)).2 =
      shown engine (room.memory ++ m.toList) :=
    (answer_of_holds hholds (i e)).trans hanswer
  refine ⟨c', ((chatRoom engine parse).step room (i e)).1, ?_, ?_, hmemory, hlocals⟩
  · rw [← hanswer']
    exact hrun
  · rw [hstate]
    exact holds_step hholds (i e)

end Clients

/-! ## A post and a get -/

/-- A parser to which all data is this message. -/
def saying (m : Str) : Str → Option Parsed := fun _ => some (.value (.string m))

/-- The script, for such data. -/
def sayingService (m : Str) :
    Service HttpRequest Maintenance Unit Chat ChatOp Completion Answer :=
  chatService .quickJs (saying m) .refusing (fun _ => true) (fun _ => true) fun _ => .site []

/-- A post to the script. -/
def postChat : HttpRequest :=
  .post ⟨ascii "/chat", by decide⟩ []

/-- A request for its log. -/
def getLog : HttpRequest :=
  .get ⟨ascii "/get", by decide⟩

/-- The answer to a request when the log is this message. -/
def shownTo (q : HttpRequest) (m : Str) : Answer :=
  respond .quickJs true q.code (shown .quickJs [m])

/-- A post is answered before the log is requested. -/
def postThenGet (m : Str) : List (Bool × Service.Event HttpRequest Answer) :=
  [(false, .invoked postChat), (false, .responded (shownTo postChat m)),
    (true, .invoked getLog), (true, .responded (shownTo getLog m))]

theorem newString_ascii {text : String}
    (h : ascii text = Engine.quickJs.toCString (Utf16.ofAscii text)) :
    Engine.quickJs.newString (ascii text) = Utf16.ofAscii text := by
  rw [h, Engine.quickJs.newString_toCString]

theorem showsLog_postChat (m : Str) : ShowsLog .quickJs (saying m) postChat (some m) := by
  refine .post ?_ rfl
  rw [newString_ascii (by decide)]
  decide

theorem showsLog_getLog (m : Str) : ShowsLog .quickJs (saying m) getLog none :=
  .get (newString_ascii (by decide))

theorem run_postThenGet (m : Str) : ∃ c, (sayingService m).processes.Run c (postThenGet m) := by
  have hholds : Holds .quickJs ((messageMachine (saying m)).after [])
      ((chatMachine .quickJs (saying m)).after []) := holds_after []
  have hinit : Holds .quickJs ⟨[], []⟩ ((sayingService m).processes.init Bool).shared := hholds
  obtain ⟨c, room, hrun, hholds, hmemory, hlocals⟩ := run_showsLog (fun _ => rfl) .init hinit
    (k := false) rfl (showsLog_postChat m) ()
  obtain ⟨c', -, hrun', -⟩ := run_showsLog (fun _ => rfl) hrun hholds (k := true)
    (hlocals true (by decide)) (showsLog_getLog m) ()
  rw [hmemory] at hrun'
  exact ⟨c', hrun'⟩

/-- A message of two letters. -/
def hello : Str :=
  Utf16.ofAscii "hi"

theorem chat_linearizable_hello :
    ∃ (c : Processes.Config Bool (Service.Client HttpRequest Answer) Chat)
      (lin : List (Option Bool × ChatOp)),
      (roomService (E := Unit) .quickJs (saying hello) (fun _ => true) (fun _ => true)
        fun _ => .site []).Linearizes (postThenGet hello) lin ∧
      c.shared.text = chatLines ((chatRoom .quickJs (saying hello)).after
        (lin.map Prod.snd)).memory ∧
      c.shared.file.getD [] = Engine.quickJs.toCString (chatLines
        ((chatRoom .quickJs (saying hello)).after (lin.map Prod.snd)).file) := by
  obtain ⟨c, hrun⟩ := run_postThenGet hello
  exact ⟨c, chat_linearizable hrun⟩

/-- The response to a request with the message of two letters. -/
def helloResponse (q : HttpRequest) : Response :=
  ⟨q.code, ascii "text/plain", ascii ">> hi\n"⟩

/-- The reader is not invoked before the post is answered. -/
theorem postThenGet_eq (m : Str) : postThenGet m =
    [(false, .invoked postChat)] ++ (false, .responded (shownTo postChat m)) ::
      [(true, .invoked getLog), (true, .responded (shownTo getLog m))] :=
  rfl

theorem not_invoked_postChat :
    ¬Service.Invoked [(false, Service.Event.invoked (A := Answer) postChat)] true := by
  rintro ⟨q, hq⟩
  cases List.mem_singleton.1 hq

theorem bodies_grow_hello : ∃ added : List Str,
    (helloResponse getLog).content =
      (helloResponse postChat).content ++
        Utf16.toUtf8 (chatLines (added ++ (none : Option Str).toList)) := by
  obtain ⟨c, hrun⟩ := run_postThenGet hello
  have hpost : shownTo postChat hello = .response (helloResponse postChat) := by decide
  have hget : shownTo getLog hello = .response (helloResponse getLog) := by decide
  have hes := postThenGet_eq hello
  rw [hpost, hget] at hes
  exact bodies_grow (fun _ => rfl) hrun hes (by simp [hes]) (showsLog_postChat hello)
    not_invoked_postChat (by simp [hes]) (by simp [hes]) (showsLog_getLog hello) rfl rfl

/-- A message that leaves no room for its line. -/
def tooLong : Str :=
  List.replicate resultSize 0x61

theorem not_linesFit_tooLong : ¬LinesFit .quickJs [tooLong] := by
  have hlen : resultSize < (chatLines [tooLong]).length := by
    rw [chatLines, List.flatMap_singleton, chatLine, tooLong, List.length_append,
      List.length_append, List.length_replicate]
    have hend : (Utf16.ofAscii "\n").length = 1 := rfl
    omega
  exact fun h => (hlen.trans_le (Utf16.length_toUtf8 _).1).not_ge h

theorem refused_from_then_on_tooLong : IsRefused .quickJs (shownTo getLog tooLong) := by
  obtain ⟨c, hrun⟩ := run_postThenGet tooLong
  have hrefused : IsRefused .quickJs (shownTo postChat tooLong) :=
    (isRefused_iff ⟨true, rfl⟩).2 not_linesFit_tooLong
  exact refused_from_then_on (fun _ => rfl) hrun (postThenGet_eq tooLong)
    (by simp [postThenGet]) (showsLog_postChat tooLong) not_invoked_postChat
    (by simp [postThenGet]) (by simp [postThenGet]) (showsLog_getLog tooLong) hrefused

end Js

end TinyKvm
