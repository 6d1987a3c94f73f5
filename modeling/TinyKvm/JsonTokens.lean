import TinyKvm.JsonString

/-!
# The tokens of the JSON reader

`json_next_token` skips whitespace and takes a string, a number, a word, or one
byte. The conversion of a decimal text to a number is a parameter. A number is
scanned as far as it goes, which allows more than JSON does : zeros after a minus,
and a point without digits (`IsLooseNumber`).

The text of a token is what the scanner has taken (`jsonNextToken_spec`), and a
text of a token is taken, where a number or a word ends in something that may
follow a value (`jsonNextToken_number`, `jsonNextToken_ident`).
-/

namespace TinyKvm

namespace QuickJs

open Utf16 (Unit16)
open JsonText (byte JsonTree IsDigit IsSpace Space Follow IsInt IsExp IsNumber Lexis)

variable {ν : Type}

/-! ## Tokens -/

/-- The numbers of the engine : what a decimal text is read as (`js_strtod`), the text that one is
written as, and `isfinite`. -/
structure Numbers (ν : Type) where
  strtod : Bytes → ν
  toText : ν → Bytes
  isFinite : ν → Bool

/-- A token of a JSON text. Any other byte is a token of its own. -/
inductive Token (ν : Type) where
  | eof
  | string (s : List Unit16)
  | number (n : ν)
  | ident (atom : Bytes)
  | char (c : Byte)

/-- `JSParseState` : the current token, its text, and what follows it. -/
structure JsonState (ν : Type) where
  token : Token ν
  text : Bytes
  rest : Bytes

/-- `lre_id_continue_table_ascii`. -/
def idContinueTable : List ℕ :=
  [0x00000000, 0x03FF0010, 0x87FFFFFE, 0x07FFFFFE]

/-- Whether a byte continues an identifier. -/
def idContinue (c : Byte) : Bool :=
  decide (c.toNat < 128) && (idContinueTable.getD (c.toNat >>> 5) 0).testBit (c.toNat &&& 31)

/-- Whether a byte begins an identifier. -/
def IdStart (c : Byte) : Prop :=
  byte 'a' ≤ c ∧ c ≤ byte 'z' ∨ byte 'A' ≤ c ∧ c ≤ byte 'Z' ∨ c = byte '_' ∨ c = byte '$'

instance (c : Byte) : Decidable (IdStart c) :=
  inferInstanceAs (Decidable (_ ∨ _))

/-- `json_parse_ident`, after the first byte. -/
def jsonParseIdent (c : Byte) (p : Bytes) : Bytes × Bytes :=
  (c :: p.takeWhile idContinue, p.dropWhile idContinue)

/-- `is_digit` of the next byte. -/
def HeadDigit (p : Bytes) : Prop :=
  ∃ d ∈ p.head?, IsDigit d

instance (p : Bytes) : Decidable (HeadDigit p) :=
  inferInstanceAs (Decidable (∃ d ∈ p.head?, _))

/-- Digits. -/
def takeDigits (p : Bytes) : Bytes × Bytes :=
  (p.takeWhile fun b => decide (IsDigit b), p.dropWhile fun b => decide (IsDigit b))

/-- A point, and the digits after it. -/
def takeFraction : Bytes → Bytes × Bytes
  | [] => ([], [])
  | c :: p =>
    if c = byte '.' then (c :: (takeDigits p).1, (takeDigits p).2) else ([], c :: p)

/-- The sign of an exponent. -/
def takeSign : Bytes → Bytes × Bytes
  | [] => ([], [])
  | c :: p => if c = byte '+' ∨ c = byte '-' then ([c], p) else ([], c :: p)

/-- An exponent, if it has digits. -/
def takeExponent : Bytes → Bytes × Bytes
  | [] => ([], [])
  | c :: p =>
    if (c = byte 'e' ∨ c = byte 'E') ∧ HeadDigit (takeSign p).2 then
      (c :: ((takeSign p).1 ++ (takeDigits (takeSign p).2).1), (takeDigits (takeSign p).2).2)
    else ([], c :: p)

/-- The minus of a number. -/
def takeMinus : Bytes → Bytes × Bytes
  | [] => ([], [])
  | c :: p => if c = byte '-' then ([c], p) else ([], c :: p)

/-- `js_atof` in base ten, where a number begins. -/
def jsAtof (num : Numbers ν) (p : Bytes) : ν × Bytes :=
  let sign := takeMinus p
  let int := takeDigits sign.2
  let frac := takeFraction int.2
  let exp := takeExponent frac.2
  (num.strtod (sign.1 ++ (int.1 ++ (frac.1 ++ exp.1))), exp.2)

/-- The `switch` of `json_next_token`, after whitespace and without the extensions of JSON. -/
def jsonToken (num : Numbers ν) (c : Byte) (p : Bytes) : Except JsonError (Token ν × Bytes) :=
  if c = byte '"' then (jsParseString [] p).map fun r => (.string r.1, r.2)
  else if IdStart c then .ok (.ident (jsonParseIdent c p).1, (jsonParseIdent c p).2)
  else if c = byte '0' ∧ HeadDigit p ∨ c = byte '-' ∧ ¬HeadDigit p then .ok (.char c, p)
  else if c = byte '-' ∨ IsDigit c then
    .ok (.number (jsAtof num (c :: p)).1, (jsAtof num (c :: p)).2)
  else if c.toNat ≥ 128 then .error (jsParseError (ascii "unexpected character"))
  else .ok (.char c, p)

/-- `json_next_token`. -/
def jsonNextToken (num : Numbers ν) : Bytes → Except JsonError (JsonState ν)
  | [] => .ok ⟨.eof, [], []⟩
  | c :: p =>
    if c = byte ' ' ∨ c = byte '\t' ∨ c = byte '\n' ∨ c = byte '\r' then jsonNextToken num p
    else (jsonToken num c p).map fun r =>
      ⟨r.1, (c :: p).take (p.length + 1 - r.2.length), r.2⟩

/-! ## The literals -/

/-- The text of a number that the reader takes : with digits that begin with zero only after a
minus, and a point that no digit has to follow. -/
def IsLooseNumber (p : Bytes) : Prop :=
  ∃ sign int frac exp, p = sign ++ (int ++ (frac ++ exp)) ∧
    (sign = [] ∧ IsInt int ∨ sign = [byte '-'] ∧ int ≠ [] ∧ ∀ b ∈ int, IsDigit b) ∧
    (frac = [] ∨ ∃ ds, frac = byte '.' :: ds ∧ ∀ b ∈ ds, IsDigit b) ∧ IsExp exp

/-- The literals that the reader takes. -/
def loose (num : Numbers ν) : Lexis ν where
  Chars := LooseChars
  Number p n := IsLooseNumber p ∧ n = num.strtod p

/-- The literals of JSON are among those the reader takes. -/
theorem standard_le_loose (num : Numbers ν) : (JsonText.standard num.strtod).Le (loose num) where
  chars := looseChars_of_chars
  number := by
    rintro p n ⟨⟨sign, int, frac, exp, hp, hsign, hint, hfrac, hexp⟩, hn⟩
    refine ⟨⟨sign, int, frac, exp, hp, ?_, ?_, hexp⟩, hn⟩
    · refine hsign.imp (fun h => ⟨h, hint⟩) fun h => ⟨h, ?_⟩
      rcases hint with rfl | ⟨d, ds, rfl, hd, -, hds⟩
      · exact ⟨nofun, by decide⟩
      · exact ⟨nofun, List.forall_mem_cons.2 ⟨hd, hds⟩⟩
    · exact hfrac.imp id fun ⟨ds, hds, _, hdigits⟩ => ⟨ds, hds, hdigits⟩

/-! ## Scanning numbers -/

/-- Digits are taken up to a byte that is none. -/
theorem takeDigits_append {ds rest : Bytes} (hds : ∀ b ∈ ds, IsDigit b)
    (hrest : ¬HeadDigit rest) : takeDigits (ds ++ rest) = (ds, rest) := by
  have hstop : rest.takeWhile (fun b => decide (IsDigit b)) = [] ∧
      rest.dropWhile (fun b => decide (IsDigit b)) = rest := by
    rcases rest with - | ⟨b, rest⟩
    · exact ⟨rfl, rfl⟩
    · have hb : ¬IsDigit b := fun h => hrest ⟨b, rfl, h⟩
      exact ⟨List.takeWhile_cons_of_neg (by simpa using hb),
        List.dropWhile_cons_of_neg (by simpa using hb)⟩
  have hall : ∀ b ∈ ds, decide (IsDigit b) = true := fun b hb => decide_eq_true (hds b hb)
  rw [takeDigits, List.takeWhile_append_of_pos hall, List.dropWhile_append_of_pos hall, hstop.1,
    hstop.2, List.append_nil]

/-- What is taken is digits, and no digit is left. -/
theorem takeDigits_spec (p : Bytes) :
    p = (takeDigits p).1 ++ (takeDigits p).2 ∧ (∀ b ∈ (takeDigits p).1, IsDigit b) := by
  refine ⟨List.takeWhile_append_dropWhile.symm, fun b hb => ?_⟩
  have hdigit := List.mem_takeWhile_imp hb
  exact of_decide_eq_true hdigit

theorem takeDigits_of_not {p : Bytes} (h : ¬HeadDigit p) : (takeDigits p).1 = [] := by
  have hstop := takeDigits_append (List.forall_mem_nil IsDigit) h
  rw [List.nil_append] at hstop
  rw [hstop]

theorem takeDigits_cons {d : Byte} (hd : IsDigit d) (p : Bytes) :
    (takeDigits (d :: p)).1 = d :: (takeDigits p).1 := by
  rw [takeDigits, List.takeWhile_cons_of_pos (by simpa using hd)]
  rfl

theorem takeDigits_ne_nil {p : Bytes} (h : HeadDigit p) : (takeDigits p).1 ≠ [] := by
  obtain ⟨d, hd, hdigit⟩ := h
  obtain ⟨p, rfl⟩ := List.head?_eq_some_iff.1 hd
  rw [takeDigits, List.takeWhile_cons_of_pos (by simpa using hdigit)]
  exact nofun

/-- A byte that may follow a value, or begins a fraction or an exponent. -/
theorem not_isDigit_of_follow {b : Byte} {rest : Bytes} (h : Follow (b :: rest)) :
    ¬IsDigit b ∧ b ≠ byte '.' ∧ b ≠ byte 'e' ∧ b ≠ byte 'E' ∧ idContinue b = false := by
  rcases h with (rfl | rfl | rfl | rfl) | rfl | rfl | rfl <;> decide

theorem not_headDigit_of_follow {rest : Bytes} (h : Follow rest) : ¬HeadDigit rest := by
  rintro ⟨d, hd, hdigit⟩
  obtain ⟨rest, rfl⟩ := List.head?_eq_some_iff.1 hd
  exact (not_isDigit_of_follow h).1 hdigit

/-- An exponent is taken up to what follows the number. -/
theorem takeExponent_append {exp rest : Bytes} (hexp : IsExp exp) (hrest : Follow rest) :
    takeExponent (exp ++ rest) = (exp, rest) := by
  rcases hexp with rfl | ⟨e, sign, ds, rfl, he, hsign, hne, hds⟩
  · rcases rest with - | ⟨b, rest⟩
    · rfl
    · obtain ⟨-, -, he, hE, -⟩ := not_isDigit_of_follow hrest
      exact if_neg fun h => h.1.elim he hE
  · obtain ⟨d, ds, rfl⟩ := List.exists_cons_of_ne_nil hne
    have hd := hds d List.mem_cons_self
    have hsigned : takeSign (sign ++ (d :: ds ++ rest)) = (sign, d :: ds ++ rest) := by
      rcases hsign with rfl | rfl | rfl
      · refine if_neg ?_
        rintro (rfl | rfl)
        · exact absurd hd (by decide)
        · exact absurd hd (by decide)
      · rfl
      · rfl
    have hdigits := takeDigits_append hds (not_headDigit_of_follow hrest)
    have hhead : HeadDigit (d :: ds ++ rest) := ⟨d, rfl, hd⟩
    rw [List.cons_append, List.append_assoc, takeExponent, hsigned, if_pos ⟨he, hhead⟩, hdigits]

/-- A fraction is taken up to the exponent. -/
theorem takeFraction_append {frac exp rest : Bytes}
    (hfrac : frac = [] ∨ ∃ ds, frac = byte '.' :: ds ∧ ∀ b ∈ ds, IsDigit b) (hexp : IsExp exp)
    (hrest : Follow rest) : takeFraction (frac ++ (exp ++ rest)) = (frac, exp ++ rest) := by
  have hstop : ¬HeadDigit (exp ++ rest) ∧ (exp ++ rest).head? ≠ some (byte '.') := by
    rcases hexp with rfl | ⟨e, sign, ds, rfl, he, -⟩
    · refine ⟨not_headDigit_of_follow hrest, fun h => ?_⟩
      obtain ⟨rest, rfl⟩ := List.head?_eq_some_iff.1 h
      exact (not_isDigit_of_follow hrest).2.1 rfl
    · constructor
      · rintro ⟨d, hd, hdigit⟩
        obtain rfl := Option.some.inj hd
        rcases he with rfl | rfl <;> exact absurd hdigit (by decide)
      · intro h
        obtain rfl := Option.some.inj h
        rcases he with he | he <;> exact absurd he (by decide)
  rcases hfrac with rfl | ⟨ds, rfl, hds⟩
  · rcases hp : exp ++ rest with - | ⟨b, p⟩
    · rfl
    · rw [hp] at hstop
      exact if_neg fun h => hstop.2 (congrArg some h)
  · rw [List.cons_append, takeFraction, if_pos rfl, takeDigits_append hds hstop.1]

/-- The digits before the point are taken up to it. -/
theorem takeDigits_int {int frac exp rest : Bytes} (hint : ∀ b ∈ int, IsDigit b)
    (hfrac : frac = [] ∨ ∃ ds, frac = byte '.' :: ds ∧ ∀ b ∈ ds, IsDigit b) (hexp : IsExp exp)
    (hrest : Follow rest) :
    takeDigits (int ++ (frac ++ (exp ++ rest))) = (int, frac ++ (exp ++ rest)) := by
  refine takeDigits_append hint ?_
  rintro ⟨d, hd, hdigit⟩
  rcases hfrac with rfl | ⟨ds, rfl, -⟩
  · rcases hexp with rfl | ⟨e, sign, ds, rfl, he, -⟩
    · exact not_headDigit_of_follow hrest ⟨d, hd, hdigit⟩
    · obtain rfl := Option.some.inj hd
      rcases he with rfl | rfl <;> exact absurd hdigit (by decide)
  · obtain rfl := Option.some.inj hd
    exact absurd hdigit (by decide)

theorem isDigit_of_isInt {int : Bytes} (h : IsInt int) :
    ∃ d ds, int = d :: ds ∧ IsDigit d ∧ (∀ b ∈ ds, IsDigit b) ∧ (d = byte '0' → ds = []) := by
  rcases h with rfl | ⟨d, ds, rfl, hd, hne, hds⟩
  · exact ⟨_, _, rfl, by decide, nofun, fun _ => rfl⟩
  · exact ⟨d, ds, rfl, hd, hds, fun h => absurd h hne⟩

/-- A number is scanned up to what follows it. -/
theorem jsAtof_append (num : Numbers ν) {p rest : Bytes} (h : IsLooseNumber p)
    (hrest : Follow rest) : jsAtof num (p ++ rest) = (num.strtod p, rest) := by
  obtain ⟨sign, int, frac, exp, rfl, hsign, hfrac, hexp⟩ := h
  have hint : ∀ b ∈ int, IsDigit b := by
    rcases hsign with ⟨-, hint⟩ | ⟨-, -, hint⟩
    · obtain ⟨d, ds, rfl, hd, hds, -⟩ := isDigit_of_isInt hint
      exact List.forall_mem_cons.2 ⟨hd, hds⟩
    · exact hint
  have hminus : takeMinus (sign ++ (int ++ (frac ++ (exp ++ rest)))) =
      (sign, int ++ (frac ++ (exp ++ rest))) := by
    rcases hsign with ⟨rfl, hint'⟩ | ⟨rfl, -⟩
    · obtain ⟨d, ds, rfl, hd, -⟩ := isDigit_of_isInt hint'
      refine if_neg ?_
      rintro rfl
      exact absurd hd (by decide)
    · rfl
  rw [List.append_assoc, List.append_assoc, List.append_assoc, jsAtof, hminus,
    takeDigits_int hint hfrac hexp hrest, takeFraction_append hfrac hexp hrest,
    takeExponent_append hexp hrest]

theorem takeExponent_spec (p : Bytes) :
    p = (takeExponent p).1 ++ (takeExponent p).2 ∧ IsExp (takeExponent p).1 := by
  rcases p with - | ⟨c, p⟩
  · exact ⟨rfl, .inl rfl⟩
  rw [takeExponent]
  split_ifs with h
  · have hsign : p = (takeSign p).1 ++ (takeSign p).2 ∧
        ((takeSign p).1 = [] ∨ (takeSign p).1 = [byte '+'] ∨ (takeSign p).1 = [byte '-']) := by
      rcases p with - | ⟨b, p⟩
      · exact ⟨rfl, .inl rfl⟩
      rw [takeSign]
      split_ifs with hb
      · exact ⟨rfl, .inr (hb.imp (by rintro rfl; rfl) (by rintro rfl; rfl))⟩
      · exact ⟨rfl, .inl rfl⟩
    obtain ⟨hdigits, hall⟩ := takeDigits_spec (takeSign p).2
    refine ⟨?_, .inr ⟨c, _, _, rfl, h.1, hsign.2, takeDigits_ne_nil h.2, hall⟩⟩
    rw [List.cons_append, List.append_assoc, ← hdigits, ← hsign.1]
  · exact ⟨rfl, .inl rfl⟩

theorem takeFraction_spec (p : Bytes) :
    p = (takeFraction p).1 ++ (takeFraction p).2 ∧ ((takeFraction p).1 = [] ∨
      ∃ ds, (takeFraction p).1 = byte '.' :: ds ∧ ∀ b ∈ ds, IsDigit b) := by
  rcases p with - | ⟨c, p⟩
  · exact ⟨rfl, .inl rfl⟩
  rw [takeFraction]
  split_ifs with h
  · obtain ⟨hdigits, hall⟩ := takeDigits_spec p
    subst h
    exact ⟨congrArg _ hdigits, .inr ⟨_, rfl, hall⟩⟩
  · exact ⟨rfl, .inl rfl⟩

/-- What is scanned where a number begins is the text of one. -/
theorem jsAtof_spec (num : Numbers ν) {c : Byte} {p : Bytes}
    (h : ¬(c = byte '0' ∧ HeadDigit p ∨ c = byte '-' ∧ ¬HeadDigit p))
    (hc : c = byte '-' ∨ IsDigit c) :
    ∃ q, c :: p = q ++ (jsAtof num (c :: p)).2 ∧ IsLooseNumber q ∧
      (jsAtof num (c :: p)).1 = num.strtod q := by
  rw [not_or, not_and, not_and, not_not] at h
  have hminus : c :: p = (takeMinus (c :: p)).1 ++ (takeMinus (c :: p)).2 := by
    rw [takeMinus]
    split_ifs <;> rfl
  obtain ⟨hint, hall⟩ := takeDigits_spec (takeMinus (c :: p)).2
  obtain ⟨hfrac, hpoint⟩ := takeFraction_spec (takeDigits (takeMinus (c :: p)).2).2
  obtain ⟨hexp, hexp'⟩ :=
    takeExponent_spec (takeFraction (takeDigits (takeMinus (c :: p)).2).2).2
  refine ⟨_, ?_, ⟨_, _, _, _, rfl, ?_, hpoint, hexp'⟩, rfl⟩
  · unfold jsAtof
    dsimp only
    rw [List.append_assoc, List.append_assoc, List.append_assoc, ← hexp, ← hfrac, ← hint,
      ← hminus]
  · by_cases hm : c = byte '-'
    · have htake : takeMinus (c :: p) = ([c], p) := if_pos hm
      rw [htake] at hall ⊢
      subst hm
      exact .inr ⟨rfl, takeDigits_ne_nil (h.2 rfl), hall⟩
    · have htake : takeMinus (c :: p) = ([], c :: p) := if_neg hm
      have hd := hc.resolve_left hm
      rw [htake] at hall ⊢
      refine .inl ⟨rfl, ?_⟩
      by_cases hzero : c = byte '0'
      · rw [takeDigits_cons hd, takeDigits_of_not (h.1 hzero), hzero]
        exact .inl rfl
      · exact .inr ⟨c, _, takeDigits_cons hd p, hd, hzero, (takeDigits_spec p).2⟩

/-! ## Scanning tokens -/

/-- A token and its text. -/
def Lexeme (num : Numbers ν) : Token ν → Bytes → Prop
  | .eof, text => text = []
  | .string s, text => ∃ q, text = byte '"' :: (q ++ [byte '"']) ∧ LooseChars q s
  | .number n, text => (loose num).Number text n
  | .ident atom, text => text = atom
  | .char c, text => text = [c]

variable {num : Numbers ν}

/-- Whitespace is skipped. -/
theorem jsonNextToken_space {w : Bytes} (hw : Space w) (p : Bytes) :
    jsonNextToken num (w ++ p) = jsonNextToken num p := by
  induction w with
  | nil => rfl
  | cons b w ih =>
    obtain ⟨hb, hw⟩ := List.forall_mem_cons.1 hw
    exact (if_pos hb).trans (ih hw)

theorem jsonNextToken_cons {c : Byte} (hc : ¬IsSpace c) (p : Bytes) :
    jsonNextToken num (c :: p) = (jsonToken num c p).map fun r =>
      ⟨r.1, (c :: p).take (p.length + 1 - r.2.length), r.2⟩ :=
  if_neg hc

/-- The next token, where it begins with no whitespace. -/
theorem jsonNextToken_of_jsonToken {c : Byte} (hc : ¬IsSpace c) {p q rest : Bytes} {t : Token ν}
    (h : jsonToken num c p = .ok (t, rest)) (hp : p = q ++ rest) :
    jsonNextToken num (c :: p) = .ok ⟨t, c :: q, rest⟩ := by
  subst hp
  have hlen : (q ++ rest).length + 1 - rest.length = (c :: q).length := by
    rw [List.length_append, List.length_cons]
    omega
  rw [jsonNextToken_cons hc, h, Except.map, hlen, ← List.cons_append, List.take_left' rfl]

/-- A byte that is a token of its own. -/
theorem jsonNextToken_char {c : Byte}
    (hc : c ∈ [byte '{', byte '}', byte '[', byte ']', byte ',', byte ':']) (rest : Bytes) :
    jsonNextToken num (c :: rest) = .ok ⟨.char c, [c], rest⟩ := by
  simp only [List.mem_cons, List.not_mem_nil, or_false] at hc
  rcases hc with rfl | rfl | rfl | rfl | rfl | rfl <;>
    exact jsonNextToken_of_jsonToken (by decide) rfl (List.nil_append rest).symm

/-- A string. -/
theorem jsonNextToken_string {q : Bytes} {s : List Unit16} (hq : LooseChars q s) (rest : Bytes) :
    jsonNextToken num (byte '"' :: (q ++ byte '"' :: rest)) =
      .ok ⟨.string s, byte '"' :: (q ++ [byte '"']), rest⟩ := by
  have hread : jsParseString [] (q ++ byte '"' :: rest) = .ok (s, rest) :=
    jsParseString_iff.2 ⟨q, hq, rfl⟩
  have htoken : jsonToken num (byte '"') (q ++ byte '"' :: rest) = .ok (.string s, rest) := by
    rw [jsonToken, if_pos rfl, hread]
    rfl
  exact jsonNextToken_of_jsonToken (by decide) htoken (by simp)

/-- A word of letters. -/
theorem jsonNextToken_ident {c : Byte} {word rest : Bytes} (hspace : ¬IsSpace c)
    (hquote : c ≠ byte '"') (hstart : IdStart c) (hword : ∀ b ∈ word, idContinue b = true)
    (hrest : Follow rest) :
    jsonNextToken num (c :: (word ++ rest)) = .ok ⟨.ident (c :: word), c :: word, rest⟩ := by
  have hstop : rest.takeWhile idContinue = [] ∧ rest.dropWhile idContinue = rest := by
    rcases rest with - | ⟨b, rest⟩
    · exact ⟨rfl, rfl⟩
    · obtain ⟨-, -, -, -, hb⟩ := not_isDigit_of_follow hrest
      exact ⟨List.takeWhile_cons_of_neg (by rw [hb]; decide),
        List.dropWhile_cons_of_neg (by rw [hb]; decide)⟩
  refine jsonNextToken_of_jsonToken hspace ?_ rfl
  rw [jsonToken, if_neg hquote, if_pos hstart, jsonParseIdent,
    List.takeWhile_append_of_pos hword, List.dropWhile_append_of_pos hword, hstop.1, hstop.2,
    List.append_nil]

/-- Where a number begins. -/
theorem jsonToken_number {c : Byte} {p : Bytes}
    (h : ¬(c = byte '0' ∧ HeadDigit p ∨ c = byte '-' ∧ ¬HeadDigit p))
    (hc : c = byte '-' ∨ IsDigit c) :
    jsonToken num c p = .ok (.number (jsAtof num (c :: p)).1, (jsAtof num (c :: p)).2) := by
  have hlt : c.toNat ≤ 0x39 := by
    rcases hc with rfl | hd
    · decide
    · exact hd.2
  have hge : 0x2d ≤ c.toNat := by
    rcases hc with rfl | hd
    · decide
    · exact hd.1.trans' (by decide)
  have hquote : c ≠ byte '"' := by
    rintro rfl
    exact absurd hge (by decide)
  have hstart : ¬IdStart c := by
    rintro (⟨h, -⟩ | ⟨h, -⟩ | rfl | rfl)
    · exact absurd (show 0x61 ≤ c.toNat from h) (by omega)
    · exact absurd (show 0x41 ≤ c.toNat from h) (by omega)
    · exact absurd hlt (by decide)
    · exact absurd hge (by decide)
  rw [jsonToken, if_neg hquote, if_neg hstart, if_neg h, if_pos hc]

/-- A number. -/
theorem jsonNextToken_number {p rest : Bytes} (hp : IsLooseNumber p) (hrest : Follow rest) :
    jsonNextToken num (p ++ rest) = .ok ⟨.number (num.strtod p), p, rest⟩ := by
  have hscan := jsAtof_append num hp hrest
  obtain ⟨c, q, rfl, hc, hhead⟩ : ∃ c q, p = c :: q ∧ (c = byte '-' ∨ IsDigit c) ∧
      ¬(c = byte '0' ∧ HeadDigit (q ++ rest) ∨ c = byte '-' ∧ ¬HeadDigit (q ++ rest)) := by
    obtain ⟨sign, int, frac, exp, rfl, hsign, hfrac, hexp⟩ := hp
    rcases hsign with ⟨rfl, hint⟩ | ⟨rfl, hne, hint⟩
    · obtain ⟨d, ds, rfl, hd, hds, hzero⟩ := isDigit_of_isInt hint
      refine ⟨d, _, rfl, .inr hd, ?_⟩
      rintro (⟨rfl, hhead⟩ | ⟨rfl, -⟩)
      · have htake := takeDigits_int (List.forall_mem_nil IsDigit) hfrac hexp hrest
        obtain rfl := hzero rfl
        rw [List.nil_append, ← List.append_assoc] at htake
        exact takeDigits_ne_nil hhead (congrArg Prod.fst htake)
      · exact absurd hd (by decide)
    · obtain ⟨d, ds, rfl⟩ := List.exists_cons_of_ne_nil hne
      refine ⟨_, _, rfl, .inl rfl, ?_⟩
      rintro (⟨h, -⟩ | ⟨-, hhead⟩)
      · exact absurd h (by decide)
      · exact hhead ⟨d, rfl, hint d List.mem_cons_self⟩
  have hspace : ¬IsSpace c := by
    rintro (rfl | rfl | rfl | rfl) <;> exact absurd hc (by decide)
  have htoken : jsonToken num c (q ++ rest) = .ok (.number (num.strtod (c :: q)), rest) := by
    rw [jsonToken_number hhead hc, ← List.cons_append, hscan]
  exact jsonNextToken_of_jsonToken hspace htoken rfl

/-- A token has its text, which is not empty. -/
theorem jsonToken_spec {c : Byte} {p rest : Bytes} {t : Token ν}
    (h : jsonToken num c p = .ok (t, rest)) :
    ∃ q, p = q ++ rest ∧ Lexeme num t (c :: q) := by
  unfold jsonToken at h
  split_ifs at h with hquote hstart hdef hnumber hhigh
  · rcases hread : jsParseString [] p with e | ⟨s, rest'⟩ <;> rw [hread] at h
    · cases h
    · cases h
      obtain ⟨q, hq, rfl⟩ := jsParseString_iff.1 hread
      exact ⟨q ++ [byte '"'], by simp, q, by rw [hquote], hq⟩
  · cases h
    exact ⟨_, List.takeWhile_append_dropWhile.symm, rfl⟩
  · cases h
    exact ⟨[], rfl, rfl⟩
  · cases h
    obtain ⟨q, hq, hloose, hvalue⟩ := jsAtof_spec num hdef hnumber
    rcases q with - | ⟨c', q⟩
    · obtain ⟨sign, int, frac, exp, hnil, hsign, -⟩ := hloose
      simp only [List.nil_eq, List.append_eq_nil_iff] at hnil
      obtain ⟨rfl, rfl, -⟩ := hnil
      rcases hsign with ⟨-, hint⟩ | ⟨-, hne, -⟩
      · obtain ⟨d, ds, hcons, -⟩ := isDigit_of_isInt hint
        cases hcons
      · exact absurd rfl hne
    · obtain ⟨rfl, hp⟩ := List.cons.inj hq
      exact ⟨q, hp, hloose, hvalue⟩
  · cases h
    exact ⟨[], rfl, rfl⟩

/-- A state that `json_next_token` gives. -/
structure Scanned (num : Numbers ν) (s : JsonState ν) : Prop where
  lexeme : Lexeme num s.token s.text
  rest_eq : s.token = .eof → s.rest = []

/-- The next token is the first one after whitespace. -/
theorem jsonNextToken_spec {q : Bytes} {s : JsonState ν} (h : jsonNextToken num q = .ok s) :
    Scanned num s ∧ ∃ w, Space w ∧ q = w ++ (s.text ++ s.rest) := by
  induction q with
  | nil =>
    cases h
    exact ⟨⟨rfl, fun _ => rfl⟩, [], JsonText.space_nil, rfl⟩
  | cons c q ih =>
    by_cases hc : IsSpace c
    · have hnext : jsonNextToken num (c :: q) = jsonNextToken num q := if_pos hc
      obtain ⟨hs, w, hw, hq⟩ := ih (hnext.symm.trans h)
      exact ⟨hs, c :: w, List.forall_mem_cons.2 ⟨hc, hw⟩, congrArg _ hq⟩
    · rcases htoken : jsonToken num c q with e | ⟨t, rest⟩
      · have hnext : jsonNextToken num (c :: q) = .error e := by
          rw [jsonNextToken_cons hc, htoken]
          rfl
        cases hnext.symm.trans h
      · obtain ⟨p, hp, hlexeme⟩ := jsonToken_spec htoken
        have hnext := jsonNextToken_of_jsonToken hc htoken hp
        cases hnext.symm.trans h
        refine ⟨⟨hlexeme, ?_⟩, [], JsonText.space_nil, congrArg _ hp⟩
        rintro rfl
        cases hlexeme

end QuickJs

end TinyKvm
