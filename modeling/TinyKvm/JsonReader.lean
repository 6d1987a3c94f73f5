import TinyKvm.JsonTokens

/-!
# The JSON reader of QuickJS

`JSON.parse` reads the UTF-8 of its argument token by token. A value inside another
is a call inside a call, and the stack has room for some number of them.

The reader accepts exactly the texts of a grammar, and gives the value they denote
(`jsParseJson_iff`) : the one of JSON, with the strings of `jsParseString_iff`,
and with the numbers of `IsLooseNumber`. Of members with the same name the last is
kept, at the place of the first (`settled`). All texts of JSON are among these
(`jsParseJson_of_text`). The loops of the reader end before the turns they are given
(`jsParseJson_ne_unfinished`).
-/

namespace TinyKvm

namespace QuickJs

open Utf16 (Unit16)
open JsonText (byte JsonTree IsSpace Space Follow)

variable {ν : Type}

/-! ## Values -/

/-- Whether a token is a byte of its own. -/
def Token.isChar (c : Byte) : Token ν → Bool
  | char d => decide (d = c)
  | _ => false

/-- `JS_DefinePropertyValue` on a plain object. -/
def definePropertyValue {α : Type} (members : List (List Unit16 × α)) (name : List Unit16)
    (v : α) : List (List Unit16 × α) :=
  match members with
  | [] => [(name, v)]
  | (k, w) :: members =>
    if k = name then (k, v) :: members else (k, w) :: definePropertyValue members name v

section Values

variable (next : Bytes → Except JsonError (JsonState ν))
  (value : JsonState ν → Except JsonError (JsonTree ν × JsonState ν))

/-- `json_parse_expect`. -/
def jsonParseExpect (tok : Byte) (s : JsonState ν) : Except JsonError (JsonState ν) :=
  if s.token.isChar tok then next s.rest
  else .error (jsParseError (ascii "expecting '" ++ tok :: ascii "'"))

/-- The loop over the elements of an array, with those it has and for how many turns it runs at
most. -/
def jsonElements : ℕ → List (JsonTree ν) → JsonState ν →
    Except JsonError (List (JsonTree ν) × JsonState ν)
  | 0, _, _ => .error .unfinished
  | fuel + 1, elements, s =>
    (value s).bind fun r =>
      if r.2.token.isChar (byte ',') then
        (next r.2.rest).bind (jsonElements fuel (elements ++ [r.1]))
      else .ok (elements ++ [r.1], r.2)

/-- The loop over the members of an object. -/
def jsonMembers : ℕ → List (List Unit16 × JsonTree ν) → JsonState ν →
    Except JsonError (List (List Unit16 × JsonTree ν) × JsonState ν)
  | 0, _, _ => .error .unfinished
  | fuel + 1, members, s =>
    match s.token with
    | .string name =>
      ((next s.rest).bind (jsonParseExpect next (byte ':'))).bind fun s =>
        (value s).bind fun r =>
          if r.2.token.isChar (byte ',') then
            (next r.2.rest).bind (jsonMembers fuel (definePropertyValue members name r.1))
          else .ok (definePropertyValue members name r.1, r.2)
    | _ => .error (jsParseError (ascii "expecting property name"))

/-- The error of a token that begins no value. -/
def unexpected (s : JsonState ν) : JsonError :=
  match s.token with
  | .eof => jsParseError (ascii "unexpected end of input")
  | _ => jsParseError (ascii "unexpected token: '" ++ (Utf16.cString s.text ++ ascii "'"))

/-- `json_parse_value`, by what it calls for the next token and for a value inside. -/
def jsonValueWith (s : JsonState ν) : Except JsonError (JsonTree ν × JsonState ν) :=
  match s.token with
  | .string str => (next s.rest).map fun s => (.string str, s)
  | .number n => (next s.rest).map fun s => (.number n, s)
  | .ident atom =>
    if atom = ascii "false" ∨ atom = ascii "true" then
      (next s.rest).map fun s => (.bool (decide (atom = ascii "true")), s)
    else if atom = ascii "null" then (next s.rest).map fun s => (.null, s)
    else .error (unexpected s)
  | .char c =>
    if c = byte '{' then
      ((next s.rest).bind fun s' =>
        if s'.token.isChar (byte '}') then .ok ([], s')
        else jsonMembers next value (s.rest.length + 1) [] s').bind fun r =>
          (jsonParseExpect next (byte '}') r.2).map fun s => (.object r.1, s)
    else if c = byte '[' then
      ((next s.rest).bind fun s' =>
        if s'.token.isChar (byte ']') then .ok ([], s')
        else jsonElements next value (s.rest.length + 1) [] s').bind fun r =>
          (jsonParseExpect next (byte ']') r.2).map fun s => (.array r.1, s)
    else .error (unexpected s)
  | .eof => .error (unexpected s)

end Values

/-- The error of a call that the stack has no room for. -/
def stackOverflow {α : Type} : Except JsonError α :=
  .error (jsParseError (ascii "stack overflow"))

/-- `json_parse_value`, where the stack has room for so many calls inside each other. -/
def jsonParseValue (num : Numbers ν) :
    ℕ → JsonState ν → Except JsonError (JsonTree ν × JsonState ν)
  | 0 => jsonValueWith (fun _ => stackOverflow) fun _ => stackOverflow
  | stack + 1 => jsonValueWith (jsonNextToken num) (jsonParseValue num stack)

/-- `JS_ParseJSON`. -/
def jsParseJson (num : Numbers ν) (stack : ℕ) (p : Bytes) : Except JsonError (JsonTree ν) :=
  (jsonNextToken num p).bind fun s =>
    (jsonParseValue num stack s).bind fun r =>
      match r.2.token with
      | .eof => .ok r.1
      | _ => .error (jsParseError (ascii "unexpected data at the end"))

/-- `js_json_parse` of a string, without a reviver. -/
def jsJsonParse (num : Numbers ν) (stack : ℕ) (str : List Unit16) : Except JsonError (JsonTree ν) :=
  jsParseJson num stack (Utf16.toUtf8 str)

variable {num : Numbers ν}

/-! ## Texts that are accepted -/

mutual

/-- The value that is made of what a text lists : of members with the same name the last, at the
place of the first. -/
def settled : JsonTree ν → JsonTree ν
  | .null => .null
  | .bool b => .bool b
  | .number n => .number n
  | .string s => .string s
  | .array elements => .array (settledElements elements)
  | .object members => .object (settledMembers members [])

def settledElements : List (JsonTree ν) → List (JsonTree ν)
  | [] => []
  | v :: elements => settled v :: settledElements elements

def settledMembers : List (List Unit16 × JsonTree ν) → List (List Unit16 × JsonTree ν) →
    List (List Unit16 × JsonTree ν)
  | [], acc => acc
  | (k, v) :: members, acc => settledMembers members (definePropertyValue acc k (settled v))

end

theorem bind_bind {ε α β γ : Type} (x : Except ε α) (f : α → Except ε β) (g : β → Except ε γ) :
    (x.bind f).bind g = x.bind fun a => (f a).bind g := by
  cases x <;> rfl

theorem follow_space {w rest : Bytes} (hw : Space w) (h : Follow rest) : Follow (w ++ rest) := by
  rcases w with - | ⟨b, w⟩
  · exact h
  · exact .inl (hw b List.mem_cons_self)

/-- A value that begins with no bracket is no value. -/
theorem jsonParseValue_char {c : Byte} (hbrace : c ≠ byte '{') (hbracket : c ≠ byte '[')
    (stack : ℕ) (text rest : Bytes) :
    jsonParseValue num stack ⟨.char c, text, rest⟩ =
      .error (unexpected (⟨.char c, text, rest⟩ : JsonState ν)) := by
  cases stack
  · exact (if_neg hbrace).trans (if_neg hbracket)
  · exact (if_neg hbrace).trans (if_neg hbracket)

theorem isChar_iff {t : Token ν} {c : Byte} : t.isChar c = true ↔ t = .char c := by
  cases t <;> simp [Token.isChar]

/-- What is read up to a bracket or a brace was not empty. -/
theorem bind_ite_isChar {α : Type} {c : Byte} {x : Except JsonError (JsonState ν)}
    {f : JsonState ν → Except JsonError α} {r : α} (h : x.bind f = .ok r)
    (hc : ∀ s : JsonState ν, s.token = .char c → f s ≠ .ok r) (g : JsonState ν → α) :
    (x.bind fun s => if s.token.isChar c then .ok (g s) else f s) = .ok r := by
  rcases x with e | s
  · exact h
  · change (if s.token.isChar c then _ else f s) = _
    rw [if_neg fun hs => hc s (isChar_iff.1 hs) h]
    exact h

/-- The loop over elements, after whitespace. -/
theorem jsonElements_space {w : Bytes} (hw : Space w) (p : Bytes) (stack fuel : ℕ)
    (acc : List (JsonTree ν)) :
    (jsonNextToken num (w ++ p)).bind
        (jsonElements (jsonNextToken num) (jsonParseValue num stack) (fuel + 1) acc) =
      ((jsonNextToken num p).bind (jsonParseValue num stack)).bind fun r =>
        if r.2.token.isChar (byte ',') then
          (jsonNextToken num r.2.rest).bind
            (jsonElements (jsonNextToken num) (jsonParseValue num stack) fuel (acc ++ [r.1]))
        else .ok (acc ++ [r.1], r.2) := by
  rw [jsonNextToken_space hw, bind_bind]
  rfl

/-- The loop over members, up to a value. -/
theorem jsonMembers_name {w k w₁ w₂ : Bytes} {s : List Unit16} (hw : Space w)
    (hk : LooseChars k s) (hw₁ : Space w₁) (hw₂ : Space w₂) (p : Bytes) (stack fuel : ℕ)
    (acc : List (List Unit16 × JsonTree ν)) :
    (jsonNextToken num (w ++ byte '"' :: (k ++ byte '"' :: (w₁ ++ byte ':' :: (w₂ ++ p))))).bind
        (jsonMembers (jsonNextToken num) (jsonParseValue num stack) (fuel + 1) acc) =
      ((jsonNextToken num p).bind (jsonParseValue num stack)).bind fun r =>
        if r.2.token.isChar (byte ',') then
          (jsonNextToken num r.2.rest).bind (jsonMembers (jsonNextToken num)
            (jsonParseValue num stack) fuel (definePropertyValue acc s r.1))
        else .ok (definePropertyValue acc s r.1, r.2) := by
  have hcolon : (jsonNextToken num (w₁ ++ byte ':' :: (w₂ ++ p))).bind
      (jsonParseExpect (jsonNextToken num) (byte ':')) = jsonNextToken num p := by
    rw [jsonNextToken_space hw₁, jsonNextToken_char (by simp), ← jsonNextToken_space hw₂]
    rfl
  rw [jsonNextToken_space hw, jsonNextToken_string hk, bind_bind, ← hcolon]
  rfl

theorem follow_end {c : Byte} (hc : c ∈ [byte ',', byte ']', byte '}']) (rest : Bytes) :
    Follow (c :: rest) := by
  simp only [List.mem_cons, List.not_mem_nil, or_false] at hc
  exact .inr hc

mutual

/-- The text of a value is read up to the next token. -/
theorem jsonParseValue_of_value {n stack : ℕ} (hn : n ≤ stack) {p : Bytes} {v : JsonTree ν} :
    JsonText.Value (loose num) n p v → ∀ {rest : Bytes}, Follow rest →
      (jsonNextToken num (p ++ rest)).bind (jsonParseValue num stack) =
        (jsonNextToken num rest).map fun s => (settled v, s) := by
  intro h rest hrest
  obtain ⟨stack, rfl⟩ : ∃ k, stack = k + 1 := by
    cases h <;> exact Nat.exists_eq_add_one_of_ne_zero (by omega)
  cases h with
  | null =>
    have hnext : jsonNextToken num (byte 'n' :: ([byte 'u', byte 'l', byte 'l'] ++ rest)) = _ :=
      jsonNextToken_ident (by decide) (by decide) (by decide) (by decide) hrest
    exact congrArg (Except.bind · _) hnext
  | bool b =>
    cases b
    · have hnext : jsonNextToken num
          (byte 'f' :: ([byte 'a', byte 'l', byte 's', byte 'e'] ++ rest)) = _ :=
        jsonNextToken_ident (by decide) (by decide) (by decide) (by decide) hrest
      exact congrArg (Except.bind · _) hnext
    · have hnext : jsonNextToken num (byte 't' :: ([byte 'r', byte 'u', byte 'e'] ++ rest)) = _ :=
        jsonNextToken_ident (by decide) (by decide) (by decide) (by decide) hrest
      exact congrArg (Except.bind · _) hnext
  | number h =>
    obtain ⟨hloose, rfl⟩ := h
    rw [jsonNextToken_number hloose hrest]
    rfl
  | string h =>
    rw [List.cons_append, List.append_assoc, List.singleton_append, jsonNextToken_string h]
    rfl
  | emptyArray hw =>
    rw [List.cons_append, List.append_assoc, List.singleton_append,
      jsonNextToken_char (by simp)]
    change ((jsonNextToken num _).bind _).bind _ = _
    rw [jsonNextToken_space hw, jsonNextToken_char (by simp)]
    rfl
  | @array n q els h =>
    have hlen : els.length ≤ (q ++ byte ']' :: rest).length + 1 := by
      have hlen := h.length_le
      rw [List.length_append]
      omega
    have hloop := bind_ite_isChar (c := byte ']')
      (jsonElements_of_elements (Nat.le_of_succ_le_succ hn) h hlen [] rest) (by
        rintro ⟨_, text, rest⟩ ⟨⟩
        change (jsonParseValue num stack _).bind _ ≠ _
        rw [jsonParseValue_char (by decide) (by decide)]
        nofun) fun s => ([], s)
    rw [List.cons_append, List.append_assoc, List.singleton_append,
      jsonNextToken_char (by simp)]
    change ((jsonNextToken num _).bind _).bind _ = _
    rw [hloop]
    rfl
  | emptyObject hw =>
    rw [List.cons_append, List.append_assoc, List.singleton_append,
      jsonNextToken_char (by simp)]
    change ((jsonNextToken num _).bind _).bind _ = _
    rw [jsonNextToken_space hw, jsonNextToken_char (by simp)]
    rfl
  | @object n q members h =>
    have hlen : members.length ≤ (q ++ byte '}' :: rest).length + 1 := by
      have hlen := h.length_le
      rw [List.length_append]
      omega
    have hloop := bind_ite_isChar (c := byte '}')
      (jsonMembers_of_members (Nat.le_of_succ_le_succ hn) h hlen [] rest) (by
        rintro ⟨_, text, rest⟩ ⟨⟩
        nofun) fun s => ([], s)
    rw [List.cons_append, List.append_assoc, List.singleton_append,
      jsonNextToken_char (by simp)]
    change ((jsonNextToken num _).bind _).bind _ = _
    rw [hloop]
    rfl

/-- The text of elements is read up to a bracket. -/
theorem jsonElements_of_elements {n stack : ℕ} (hn : n ≤ stack) {p : Bytes}
    {elements : List (JsonTree ν)} : JsonText.Elements (loose num) n p elements →
      ∀ {fuel : ℕ}, elements.length ≤ fuel → ∀ (acc : List (JsonTree ν)) (rest : Bytes),
        (jsonNextToken num (p ++ byte ']' :: rest)).bind
            (jsonElements (jsonNextToken num) (jsonParseValue num stack) fuel acc) =
          .ok (acc ++ settledElements elements, ⟨.char (byte ']'), [byte ']'], rest⟩) := by
  intro h fuel hfuel acc rest
  obtain ⟨fuel, rfl⟩ : ∃ k, fuel = k + 1 := by
    cases h <;> exact Nat.exists_eq_add_one_of_ne_zero (by simp at hfuel; omega)
  cases h with
  | one hw h hw' =>
    rw [List.append_assoc, List.append_assoc, jsonElements_space hw,
      jsonParseValue_of_value hn h (follow_space hw' (follow_end (by simp) rest)),
      jsonNextToken_space hw', jsonNextToken_char (by simp)]
    rfl
  | @more n w p v w' q elements hw h hw' hrest =>
    have ih := jsonElements_of_elements hn hrest (Nat.le_of_succ_le_succ hfuel)
    rw [List.append_assoc, List.append_assoc, List.append_assoc, List.cons_append,
      jsonElements_space hw, jsonParseValue_of_value hn h
        (follow_space hw' (follow_end (by simp) (q ++ byte ']' :: rest))),
      jsonNextToken_space hw', jsonNextToken_char (by simp)]
    change (jsonNextToken num (q ++ byte ']' :: rest)).bind _ = _
    rw [ih, List.append_assoc]
    rfl

/-- The text of members is read up to a brace. -/
theorem jsonMembers_of_members {n stack : ℕ} (hn : n ≤ stack) {p : Bytes}
    {members : List (List Unit16 × JsonTree ν)} : JsonText.Members (loose num) n p members →
      ∀ {fuel : ℕ}, members.length ≤ fuel →
      ∀ (acc : List (List Unit16 × JsonTree ν)) (rest : Bytes),
        (jsonNextToken num (p ++ byte '}' :: rest)).bind
            (jsonMembers (jsonNextToken num) (jsonParseValue num stack) fuel acc) =
          .ok (settledMembers members acc, ⟨.char (byte '}'), [byte '}'], rest⟩) := by
  intro h fuel hfuel acc rest
  obtain ⟨fuel, rfl⟩ : ∃ k, fuel = k + 1 := by
    cases h <;> exact Nat.exists_eq_add_one_of_ne_zero (by simp at hfuel; omega)
  cases h with
  | one hw hk hw₁ hw₂ h hw' =>
    simp only [List.append_assoc, List.cons_append]
    rw [jsonMembers_name hw hk hw₁ hw₂,
      jsonParseValue_of_value hn h (follow_space hw' (follow_end (by simp) rest)),
      jsonNextToken_space hw', jsonNextToken_char (by simp)]
    rfl
  | @more n w k s w₁ w₂ p v w' q members hw hk hw₁ hw₂ h hw' hrest =>
    have ih := jsonMembers_of_members hn hrest (Nat.le_of_succ_le_succ hfuel)
    simp only [List.append_assoc, List.cons_append]
    rw [jsonMembers_name hw hk hw₁ hw₂, jsonParseValue_of_value hn h
        (follow_space hw' (follow_end (by simp) (q ++ byte '}' :: rest))),
      jsonNextToken_space hw', jsonNextToken_char (by simp)]
    change (jsonNextToken num (q ++ byte '}' :: rest)).bind _ = _
    rw [ih]
    rfl

end

/-! ## What is accepted -/

theorem bind_eq_ok {ε α β : Type} {x : Except ε α} {f : α → Except ε β} {b : β} :
    x.bind f = .ok b ↔ ∃ a, x = .ok a ∧ f a = .ok b := by
  cases x <;> simp [Except.bind]

theorem map_eq_ok {ε α β : Type} {x : Except ε α} {f : α → β} {b : β} :
    x.map f = .ok b ↔ ∃ a, x = .ok a ∧ f a = b := by
  cases x <;> simp [Except.map]

/-- A byte that is a token is its text. -/
theorem Scanned.text_eq {s : JsonState ν} (hs : Scanned num s) {c : Byte}
    (hc : s.token.isChar c = true) : s.text = [c] := by
  have hlexeme := hs.lexeme
  rwa [isChar_iff.1 hc] at hlexeme

/-- A token that is expected is its text, and the next one is read. -/
theorem jsonParseExpect_spec {c : Byte} {s s' : JsonState ν} (hs : Scanned num s)
    (h : jsonParseExpect (jsonNextToken num) c s = .ok s') :
    Scanned num s' ∧ s.text = [c] ∧ ∃ w, Space w ∧ s.rest = w ++ (s'.text ++ s'.rest) := by
  unfold jsonParseExpect at h
  split_ifs at h with hc
  obtain ⟨hs', hrest⟩ := jsonNextToken_spec h
  exact ⟨hs', hs.text_eq hc, hrest⟩

/-- What a call for a value gives : it has read the text of the value, and the whitespace before
the next token. -/
def ReadsValue (num : Numbers ν) (stack : ℕ) : Prop :=
  ∀ {s s' : JsonState ν} {v : JsonTree ν}, Scanned num s →
    jsonParseValue num stack s = .ok (v, s') → Scanned num s' ∧
      ∃ p w t, s.text ++ s.rest = p ++ (w ++ (s'.text ++ s'.rest)) ∧ Space w ∧
        JsonText.Value (loose num) stack p t ∧ v = settled t

/-- The loop over elements has read the text of elements. -/
theorem elements_of_jsonElements {stack : ℕ} (hvalue : ReadsValue num stack) {fuel : ℕ} :
    ∀ {acc els : List (JsonTree ν)} {s s' : JsonState ν}, Scanned num s →
      jsonElements (jsonNextToken num) (jsonParseValue num stack) fuel acc s = .ok (els, s') →
      Scanned num s' ∧ ∃ p els', s.text ++ s.rest = p ++ (s'.text ++ s'.rest) ∧
        (∀ w, Space w → JsonText.Elements (loose num) stack (w ++ p) els') ∧
        els = acc ++ settledElements els' := by
  induction fuel with
  | zero => exact fun _ h => nomatch h
  | succ fuel ih =>
    intro acc els s s' hs h
    obtain ⟨⟨v, s₁⟩, hv, h⟩ := bind_eq_ok.1 h
    obtain ⟨hs₁, p, w', t, htext, hw', hp, rfl⟩ := hvalue hs hv
    dsimp only at h
    split_ifs at h with hcomma
    · obtain ⟨s₂, hnext, h⟩ := bind_eq_ok.1 h
      obtain ⟨hs₂, w₂, hw₂, hrest⟩ := jsonNextToken_spec hnext
      obtain ⟨hs', q, els', htext', hq, rfl⟩ := ih hs₂ h
      refine ⟨hs', p ++ (w' ++ byte ',' :: (w₂ ++ q)), t :: els', ?_,
        fun w hw => .more hw hp hw' (hq w₂ hw₂), by rw [settledElements, List.append_assoc]; rfl⟩
      rw [htext, hs₁.text_eq hcomma, hrest, htext']
      simp only [List.append_assoc, List.cons_append, List.nil_append]
    · cases h
      exact ⟨hs₁, p ++ w', [t], by rw [htext, List.append_assoc],
        fun w hw => .one hw hp hw', rfl⟩

/-- The loop over members has read the text of members. -/
theorem members_of_jsonMembers {stack : ℕ} (hvalue : ReadsValue num stack) {fuel : ℕ} :
    ∀ {acc members : List (List Unit16 × JsonTree ν)} {s s' : JsonState ν}, Scanned num s →
      jsonMembers (jsonNextToken num) (jsonParseValue num stack) fuel acc s = .ok (members, s') →
      Scanned num s' ∧ ∃ p members', s.text ++ s.rest = p ++ (s'.text ++ s'.rest) ∧
        (∀ w, Space w → JsonText.Members (loose num) stack (w ++ p) members') ∧
        members = settledMembers members' acc := by
  induction fuel with
  | zero => exact fun _ h => nomatch h
  | succ fuel ih =>
    rintro acc members ⟨- | name | n | atom | c, text, rest⟩ s' hs h
    case string =>
      obtain ⟨k, htext, hk⟩ := hs.lexeme
      obtain ⟨s₃, hcolon, h⟩ := bind_eq_ok.1 h
      obtain ⟨s₁, hnext, hcolon⟩ := bind_eq_ok.1 hcolon
      obtain ⟨hs₁, w₁, hw₁, hrest₁⟩ := jsonNextToken_spec hnext
      obtain ⟨hs₃, htext₁, w₂, hw₂, hrest₂⟩ := jsonParseExpect_spec hs₁ hcolon
      obtain ⟨⟨v, s₄⟩, hv, h⟩ := bind_eq_ok.1 h
      obtain ⟨hs₄, p, w', t, htext₄, hw', hp, rfl⟩ := hvalue hs₃ hv
      have hread : text ++ rest = byte '"' :: (k ++ byte '"' :: (w₁ ++ byte ':' ::
          (w₂ ++ (p ++ (w' ++ (s₄.text ++ s₄.rest)))))) := by
        change rest = _ at hrest₁
        change text = _ at htext
        rw [htext, hrest₁, htext₁, hrest₂, htext₄]
        simp only [List.append_assoc, List.cons_append, List.nil_append]
      dsimp only at h ⊢
      split_ifs at h with hcomma
      · obtain ⟨s₅, hnext, h⟩ := bind_eq_ok.1 h
        obtain ⟨hs₅, w₅, hw₅, hrest₅⟩ := jsonNextToken_spec hnext
        obtain ⟨hs', q, members', htext', hq, rfl⟩ := ih hs₅ h
        refine ⟨hs', byte '"' :: (k ++ byte '"' :: (w₁ ++ byte ':' :: (w₂ ++ (p ++ (w' ++
          byte ',' :: (w₅ ++ q)))))), (name, t) :: members', ?_,
          fun w hw => .more hw hk hw₁ hw₂ hp hw' (hq w₅ hw₅), rfl⟩
        rw [hread, hs₄.text_eq hcomma, hrest₅, htext']
        simp only [List.append_assoc, List.cons_append, List.nil_append]
      · cases h
        refine ⟨hs₄, byte '"' :: (k ++ byte '"' :: (w₁ ++ byte ':' :: (w₂ ++ (p ++ w')))),
          [(name, t)], ?_, fun w hw => .one hw hk hw₁ hw₂ hp hw', rfl⟩
        rw [hread]
        simp only [List.append_assoc, List.cons_append]
    all_goals cases h

/-- A value of one token has been read with the whitespace after it. -/
theorem readsValue_of_next {stack : ℕ} {s s' : JsonState ν} {t : JsonTree ν}
    (h : jsonNextToken num s.rest = .ok s')
    (hvalue : JsonText.Value (loose num) stack s.text t) :
    Scanned num s' ∧ ∃ p w t', s.text ++ s.rest = p ++ (w ++ (s'.text ++ s'.rest)) ∧ Space w ∧
      JsonText.Value (loose num) stack p t' ∧ settled t = settled t' := by
  obtain ⟨hs', w, hw, hrest⟩ := jsonNextToken_spec h
  exact ⟨hs', s.text, w, t, by rw [hrest], hw, hvalue, rfl⟩

/-- Without room on the stack no value is read. -/
theorem jsonParseValue_zero (s : JsonState ν) (r : JsonTree ν × JsonState ν) :
    jsonParseValue num 0 s ≠ .ok r := by
  rcases s with ⟨- | s | n | atom | c, text, rest⟩
  · nofun
  · nofun
  · nofun
  · change (if _ then _ else if _ then _ else _) ≠ _
    split_ifs <;> nofun
  · change (if _ then _ else if _ then _ else _) ≠ _
    split_ifs <;> nofun

theorem readsValue (num : Numbers ν) : ∀ stack, ReadsValue num stack
  | 0, s, s', v, _, h => absurd h (jsonParseValue_zero s _)
  | stack + 1, ⟨.eof, text, rest⟩, s', v, hs, h => nomatch h
  | stack + 1, ⟨.string str, text, rest⟩, s', v, hs, h => by
    obtain ⟨s₁, hnext, heq⟩ := map_eq_ok.1 h
    cases heq
    obtain ⟨q, htext, hq⟩ := hs.lexeme
    refine readsValue_of_next (t := .string str) hnext ?_
    change JsonText.Value _ _ text _
    rw [show text = _ from htext]
    exact .string hq
  | stack + 1, ⟨.number n, text, rest⟩, s', v, hs, h => by
    obtain ⟨s₁, hnext, heq⟩ := map_eq_ok.1 h
    cases heq
    exact readsValue_of_next (t := .number n) hnext (.number hs.lexeme)
  | stack + 1, ⟨.ident atom, text, rest⟩, s', v, hs, h => by
    have htext : text = atom := hs.lexeme
    subst htext
    change (if text = ascii "false" ∨ text = ascii "true" then _ else if text = ascii "null"
      then _ else _) = _ at h
    split_ifs at h with hbool hnull
    · obtain ⟨s₁, hnext, heq⟩ := map_eq_ok.1 h
      cases heq
      refine readsValue_of_next (t := .bool (decide (text = ascii "true"))) hnext ?_
      rcases hbool with rfl | rfl
      · exact .bool false
      · exact .bool true
    · obtain ⟨s₁, hnext, heq⟩ := map_eq_ok.1 h
      cases heq
      subst hnull
      exact readsValue_of_next (t := .null) hnext .null
  | stack + 1, ⟨.char c, text, rest⟩, s', v, hs, h => by
    have htext : text = [c] := hs.lexeme
    subst htext
    change (if c = byte '{' then _ else if c = byte '[' then _ else _) = _ at h
    split_ifs at h with hbrace hbracket
    · subst hbrace
      obtain ⟨⟨members, s₂⟩, hmembers, h⟩ := bind_eq_ok.1 h
      obtain ⟨s₁, hnext, hmembers⟩ := bind_eq_ok.1 hmembers
      obtain ⟨s₃, hexpect, heq⟩ := map_eq_ok.1 h
      obtain ⟨hs₁, w, hw, hrest⟩ := jsonNextToken_spec hnext
      cases heq
      split_ifs at hmembers with hempty
      · cases hmembers
        obtain ⟨hs₃, htext, w', hw', hrest'⟩ := jsonParseExpect_spec hs₁ hexpect
        refine ⟨hs₃, byte '{' :: (w ++ [byte '}']), w', .object [], ?_, hw', .emptyObject hw, rfl⟩
        change byte '{' :: rest = _
        rw [show rest = _ from hrest, htext, hrest']
        simp only [List.append_assoc, List.cons_append, List.nil_append]
      · obtain ⟨hs₂, p, members', htext, hp, rfl⟩ :=
          members_of_jsonMembers (readsValue num stack) hs₁ hmembers
        obtain ⟨hs₃, htext', w', hw', hrest'⟩ := jsonParseExpect_spec hs₂ hexpect
        refine ⟨hs₃, byte '{' :: (w ++ p ++ [byte '}']), w', .object members', ?_, hw',
          .object (hp w hw), rfl⟩
        change byte '{' :: rest = _
        rw [show rest = _ from hrest, htext, htext', hrest']
        simp only [List.append_assoc, List.cons_append, List.nil_append]
    · subst hbracket
      obtain ⟨⟨els, s₂⟩, helements, h⟩ := bind_eq_ok.1 h
      obtain ⟨s₁, hnext, helements⟩ := bind_eq_ok.1 helements
      obtain ⟨s₃, hexpect, heq⟩ := map_eq_ok.1 h
      obtain ⟨hs₁, w, hw, hrest⟩ := jsonNextToken_spec hnext
      cases heq
      split_ifs at helements with hempty
      · cases helements
        obtain ⟨hs₃, htext, w', hw', hrest'⟩ := jsonParseExpect_spec hs₁ hexpect
        refine ⟨hs₃, byte '[' :: (w ++ [byte ']']), w', .array [], ?_, hw', .emptyArray hw, rfl⟩
        change byte '[' :: rest = _
        rw [show rest = _ from hrest, htext, hrest']
        simp only [List.append_assoc, List.cons_append, List.nil_append]
      · obtain ⟨hs₂, p, els', htext, hp, rfl⟩ :=
          elements_of_jsonElements (readsValue num stack) hs₁ helements
        obtain ⟨hs₃, htext', w', hw', hrest'⟩ := jsonParseExpect_spec hs₂ hexpect
        refine ⟨hs₃, byte '[' :: (w ++ p ++ [byte ']']), w', .array els', ?_, hw',
          .array (hp w hw), rfl⟩
        change byte '[' :: rest = _
        rw [show rest = _ from hrest, htext, htext', hrest']
        simp only [List.append_assoc, List.cons_append, List.nil_append]

/-- A text that is accepted is one of the grammar of the reader. -/
theorem text_of_jsParseJson {stack : ℕ} {p : Bytes} {v : JsonTree ν}
    (h : jsParseJson num stack p = .ok v) :
    ∃ t, JsonText.Text (loose num) stack p t ∧ v = settled t := by
  obtain ⟨s, hnext, h⟩ := bind_eq_ok.1 h
  obtain ⟨⟨v', s'⟩, hvalue, h⟩ := bind_eq_ok.1 h
  obtain ⟨hs, w, hw, rfl⟩ := jsonNextToken_spec hnext
  obtain ⟨hs', q, w', t, htext, hw', hq, rfl⟩ := readsValue num stack hs hvalue
  rcases s' with ⟨- | s | n | atom | c, text, rest⟩
  · cases h
    have htext' : text = [] := hs'.lexeme
    have hrest : rest = [] := hs'.rest_eq rfl
    refine ⟨t, ⟨w, q, w', ?_, hw, hq, hw'⟩, rfl⟩
    rw [htext]
    change w ++ (q ++ (w' ++ (text ++ rest))) = _
    rw [htext', hrest, List.append_nil, List.append_nil]
  all_goals cases h

/-- A text of the grammar of the reader is accepted. -/
theorem jsParseJson_of_looseText {stack : ℕ} {p : Bytes} {t : JsonTree ν}
    (h : JsonText.Text (loose num) stack p t) : jsParseJson num stack p = .ok (settled t) := by
  obtain ⟨w, q, w', rfl, hw, hq, hw'⟩ := h
  have hnil : Follow [] := trivial
  have hfollow : Follow (w' ++ []) := follow_space hw' hnil
  have hend : jsonNextToken num (w' ++ []) = jsonNextToken num [] := jsonNextToken_space hw' []
  rw [List.append_nil] at hfollow hend
  have hread := jsonParseValue_of_value le_rfl hq hfollow
  rw [hend] at hread
  rw [jsParseJson, jsonNextToken_space hw, ← bind_bind, hread]
  rfl

/-- The reader accepts the texts of its grammar in which no more values lie inside each other than
the stack has room for, with the values these denote, and it accepts nothing else. -/
theorem jsParseJson_iff (num : Numbers ν) (stack : ℕ) (p : Bytes) (v : JsonTree ν) :
    jsParseJson num stack p = .ok v ↔
      ∃ t, JsonText.Text (loose num) stack p t ∧ v = settled t := by
  constructor
  · exact text_of_jsParseJson
  · rintro ⟨t, ht, rfl⟩
    exact jsParseJson_of_looseText ht

/-- Every JSON text is accepted with the value it denotes. -/
theorem jsParseJson_of_text {stack : ℕ} {p : Bytes} {t : JsonTree ν}
    (h : JsonText.Text (JsonText.standard num.strtod) stack p t) :
    jsParseJson num stack p = .ok (settled t) := by
  obtain ⟨w, q, w', hp, hw, hq, hw'⟩ := h
  exact jsParseJson_of_looseText ⟨w, q, w', hp, hw, hq.mono (standard_le_loose num), hw'⟩

/-! ## The loops end -/

theorem bind_eq_error {ε α β : Type} {x : Except ε α} {f : α → Except ε β} {e : ε} :
    x.bind f = .error e ↔ x = .error e ∨ ∃ a, x = .ok a ∧ f a = .error e := by
  cases x <;> simp [Except.bind]

theorem map_eq_error {ε α β : Type} {x : Except ε α} {f : α → β} {e : ε} :
    x.map f = .error e ↔ x = .error e := by
  cases x <;> simp [Except.map]

theorem jsonNextToken_ne_unfinished (q : Bytes) :
    jsonNextToken num q ≠ .error .unfinished := by
  induction q with
  | nil => nofun
  | cons c q ih =>
    by_cases hc : IsSpace c
    · have hnext : jsonNextToken num (c :: q) = jsonNextToken num q := if_pos hc
      rwa [hnext]
    · have htoken : jsonToken num c q ≠ .error .unfinished := by
        unfold jsonToken
        split_ifs
        · exact fun h => not_unfinished_jsParseString (map_eq_error.1 h)
        all_goals nofun
      intro h
      rw [jsonNextToken_cons hc] at h
      exact htoken (map_eq_error.1 h)

theorem jsonParseExpect_ne_unfinished (c : Byte) (s : JsonState ν) :
    jsonParseExpect (jsonNextToken num) c s ≠ .error .unfinished := by
  unfold jsonParseExpect
  split_ifs
  · exact jsonNextToken_ne_unfinished _
  · nofun

/-- A call for a value ends. -/
def EndsValue (num : Numbers ν) (stack : ℕ) : Prop :=
  ∀ {s : JsonState ν}, Scanned num s → jsonParseValue num stack s ≠ .error .unfinished

/-- Every turn of the loop over elements takes some of the text. -/
theorem jsonElements_ne_unfinished {stack : ℕ} (hvalue : EndsValue num stack) :
    ∀ {fuel : ℕ} {acc : List (JsonTree ν)} {s : JsonState ν}, Scanned num s →
      (s.text ++ s.rest).length < fuel →
      jsonElements (jsonNextToken num) (jsonParseValue num stack) fuel acc s ≠ .error .unfinished
  | fuel + 1, acc, s, hs, hfuel => by
    intro h
    obtain h | ⟨⟨v, s₁⟩, hv, h⟩ := bind_eq_error.1 h
    · exact hvalue hs h
    dsimp only at h
    split_ifs at h with hcomma
    obtain h | ⟨s₂, hnext, h⟩ := bind_eq_error.1 h
    · exact jsonNextToken_ne_unfinished _ h
    obtain ⟨hs₁, p, w', t, htext, -⟩ := readsValue num stack hs hv
    obtain ⟨hs₂, w₂, -, hrest⟩ := jsonNextToken_spec hnext
    refine jsonElements_ne_unfinished hvalue hs₂ ?_ h
    rw [htext, hs₁.text_eq hcomma, hrest] at hfuel
    simp only [List.length_append, List.length_cons, List.length_nil] at hfuel ⊢
    omega

/-- Every turn of the loop over members takes some of the text. -/
theorem jsonMembers_ne_unfinished {stack : ℕ} (hvalue : EndsValue num stack) :
    ∀ {fuel : ℕ} {acc : List (List Unit16 × JsonTree ν)} {s : JsonState ν}, Scanned num s →
      (s.text ++ s.rest).length < fuel →
      jsonMembers (jsonNextToken num) (jsonParseValue num stack) fuel acc s ≠ .error .unfinished
  | fuel + 1, acc, ⟨.eof, text, rest⟩, hs, hfuel => nofun
  | fuel + 1, acc, ⟨.number n, text, rest⟩, hs, hfuel => nofun
  | fuel + 1, acc, ⟨.ident atom, text, rest⟩, hs, hfuel => nofun
  | fuel + 1, acc, ⟨.char c, text, rest⟩, hs, hfuel => nofun
  | fuel + 1, acc, ⟨.string name, text, rest⟩, hs, hfuel => by
    intro h
    obtain h | ⟨s₃, hcolon, h⟩ := bind_eq_error.1 h
    · obtain h | ⟨s₁, -, h⟩ := bind_eq_error.1 h
      · exact jsonNextToken_ne_unfinished _ h
      · exact jsonParseExpect_ne_unfinished _ _ h
    obtain ⟨s₁, hnext, hcolon⟩ := bind_eq_ok.1 hcolon
    obtain ⟨hs₁, w₁, -, hrest₁⟩ := jsonNextToken_spec hnext
    obtain ⟨hs₃, htext₁, w₂, -, hrest₂⟩ := jsonParseExpect_spec hs₁ hcolon
    obtain h | ⟨⟨v, s₄⟩, hv, h⟩ := bind_eq_error.1 h
    · exact hvalue hs₃ h
    dsimp only at h
    split_ifs at h with hcomma
    obtain h | ⟨s₅, hnext, h⟩ := bind_eq_error.1 h
    · exact jsonNextToken_ne_unfinished _ h
    obtain ⟨hs₄, p, w', t, htext₄, -⟩ := readsValue num stack hs₃ hv
    obtain ⟨hs₅, w₅, -, hrest₅⟩ := jsonNextToken_spec hnext
    refine jsonMembers_ne_unfinished hvalue hs₅ ?_ h
    change (text ++ rest).length < _ at hfuel
    rw [show rest = _ from hrest₁, htext₁, hrest₂, htext₄, hs₄.text_eq hcomma, hrest₅] at hfuel
    simp only [List.length_append, List.length_cons, List.length_nil] at hfuel ⊢
    omega

theorem endsValue (num : Numbers ν) : ∀ stack, EndsValue num stack
  | 0, ⟨.eof, text, rest⟩, hs => nofun
  | 0, ⟨.string str, text, rest⟩, hs => nofun
  | 0, ⟨.number n, text, rest⟩, hs => nofun
  | 0, ⟨.ident atom, text, rest⟩, hs => by
    change (if _ then _ else if _ then _ else _) ≠ _
    split_ifs <;> nofun
  | 0, ⟨.char c, text, rest⟩, hs => by
    change (if _ then _ else if _ then _ else _) ≠ _
    split_ifs <;> nofun
  | stack + 1, ⟨.eof, text, rest⟩, hs => nofun
  | stack + 1, ⟨.string str, text, rest⟩, hs => fun h =>
    jsonNextToken_ne_unfinished _ (map_eq_error.1 h)
  | stack + 1, ⟨.number n, text, rest⟩, hs => fun h =>
    jsonNextToken_ne_unfinished _ (map_eq_error.1 h)
  | stack + 1, ⟨.ident atom, text, rest⟩, hs => by
    change (if atom = ascii "false" ∨ atom = ascii "true" then _ else if atom = ascii "null"
      then _ else _) ≠ _
    split_ifs
    · exact fun h => jsonNextToken_ne_unfinished _ (map_eq_error.1 h)
    · exact fun h => jsonNextToken_ne_unfinished _ (map_eq_error.1 h)
    · nofun
  | stack + 1, ⟨.char c, text, rest⟩, hs => by
    have hlen : ∀ {s₁ : JsonState ν}, jsonNextToken num rest = .ok s₁ →
        Scanned num s₁ ∧ (s₁.text ++ s₁.rest).length < rest.length + 1 := by
      intro s₁ hnext
      obtain ⟨hs₁, w, -, hrest⟩ := jsonNextToken_spec hnext
      refine ⟨hs₁, ?_⟩
      have hlength := congrArg List.length hrest
      rw [List.length_append] at hlength
      omega
    change (if c = byte '{' then _ else if c = byte '[' then _ else _) ≠ _
    split_ifs
    · intro h
      obtain h | ⟨r, -, h⟩ := bind_eq_error.1 h
      · obtain h | ⟨s₁, hnext, h⟩ := bind_eq_error.1 h
        · exact jsonNextToken_ne_unfinished _ h
        split_ifs at h
        obtain ⟨hs₁, hfuel⟩ := hlen hnext
        exact jsonMembers_ne_unfinished (endsValue num stack) hs₁ hfuel h
      · exact jsonParseExpect_ne_unfinished _ _ (map_eq_error.1 h)
    · intro h
      obtain h | ⟨r, -, h⟩ := bind_eq_error.1 h
      · obtain h | ⟨s₁, hnext, h⟩ := bind_eq_error.1 h
        · exact jsonNextToken_ne_unfinished _ h
        split_ifs at h
        obtain ⟨hs₁, hfuel⟩ := hlen hnext
        exact jsonElements_ne_unfinished (endsValue num stack) hs₁ hfuel h
      · exact jsonParseExpect_ne_unfinished _ _ (map_eq_error.1 h)
    · nofun

/-- The reader gives a value or the error of the engine. -/
theorem jsParseJson_ne_unfinished (num : Numbers ν) (stack : ℕ) (p : Bytes) :
    jsParseJson num stack p ≠ .error .unfinished := by
  intro h
  obtain h | ⟨s, hnext, h⟩ := bind_eq_error.1 h
  · exact jsonNextToken_ne_unfinished _ h
  obtain h | ⟨⟨v, s'⟩, -, h⟩ := bind_eq_error.1 h
  · exact endsValue num stack (jsonNextToken_spec hnext).1 h
  · rcases s' with ⟨- | s | n | atom | c, text, rest⟩ <;> cases h

end QuickJs

end TinyKvm
