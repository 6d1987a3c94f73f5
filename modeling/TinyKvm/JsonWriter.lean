import TinyKvm.JsonReader
import Mathlib.Data.List.Sort

/-!
# The JSON writer of QuickJS

`JSON.stringify` writes a value without functions and without a replacer, with line
breaks and indentation if it is given something to indent with. Members are written
in the order in which they are enumerated : names that are array indices first, in
the order of these.

A half pair in a string is written as an escape, so what is written for a string is
UTF-8 whatever its units are (`quoteLoop_spec`). What is written for a value is a
JSON text of the value with its members in that order (`Written`), if the
indentation is whitespace and this holds of its parts (`written_array`,
`written_object`).
-/

namespace TinyKvm

namespace QuickJs

open Utf16 (Unit16 IsPair pairChar charUnits toUtf8)
open JsonText (byte Chars JsonTree IsDigit IsSpace Space IsNumber)

variable {ν : Type}

/-! ## Strings -/

/-- `string_getc` : the character that begins with `u`, and what follows it. -/
def stringGetc (u : Unit16) : List Unit16 → ℕ × List Unit16
  | [] => (u.toNat, [])
  | v :: s =>
    if (u.toNat ≥ 0xd800 ∧ u.toNat < 0xdc00) ∧ v.toNat ≥ 0xdc00 ∧ v.toNat < 0xe000 then
      (((u.toNat &&& 0x3ff) <<< 10 ||| (v.toNat &&& 0x3ff)) + 0x10000, s)
    else (u.toNat, v :: s)

theorem length_stringGetc_le (u : Unit16) (s : List Unit16) :
    (stringGetc u s).2.length ≤ s.length := by
  rcases s with - | ⟨v, s⟩
  · exact le_rfl
  · rw [stringGetc]
    split_ifs
    · exact Nat.le_succ _
    · exact le_rfl

/-- The digit that `%x` prints. -/
def hexDigit (d : ℕ) : Unit16 :=
  BitVec.ofNat 16 (if d < 10 then 0x30 + d else 0x61 + (d - 10))

/-- What `\\u%04x` prints of a unit. -/
def printUnit (c : ℕ) : List Unit16 :=
  Utf16.ofAscii "\\u" ++
    [hexDigit (c / 4096 % 16), hexDigit (c / 256 % 16), hexDigit (c / 16 % 16), hexDigit (c % 16)]

/-- The `switch` over a character of `JS_ToQuotedString`. -/
def quoteChar (c : ℕ) : List Unit16 :=
  if c = 0x09 then Utf16.ofAscii "\\t"
  else if c = 0x0d then Utf16.ofAscii "\\r"
  else if c = 0x0a then Utf16.ofAscii "\\n"
  else if c = 0x08 then Utf16.ofAscii "\\b"
  else if c = 0x0c then Utf16.ofAscii "\\f"
  else if c = 0x22 ∨ c = 0x5c then [0x5c, BitVec.ofNat 16 c]
  else if c < 32 ∨ (c ≥ 0xd800 ∧ c < 0xe000) then printUnit c
  else putc c

/-- The loop of `JS_ToQuotedString`. -/
def quoteLoop : List Unit16 → List Unit16
  | [] => []
  | u :: s => quoteChar (stringGetc u s).1 ++ quoteLoop (stringGetc u s).2
termination_by s => s.length
decreasing_by exact Nat.lt_succ_of_le (length_stringGetc_le u s)

/-- `JS_ToQuotedString`. -/
def jsToQuotedString (s : List Unit16) : List Unit16 :=
  0x22 :: (quoteLoop s ++ [0x22])

theorem quoteLoop_pair {u v : Unit16} (h : IsPair u v) (s : List Unit16) :
    quoteLoop (u :: v :: s) = quoteChar (pairChar u v) ++ quoteLoop s := by
  have hget : stringGetc u (v :: s) =
      (((u.toNat &&& 0x3ff) <<< 10 ||| (v.toNat &&& 0x3ff)) + 0x10000, s) := if_pos h
  rw [quoteLoop, hget, pairChar_eq h]

theorem quoteLoop_unpaired {u v : Unit16} (h : ¬IsPair u v) (s : List Unit16) :
    quoteLoop (u :: v :: s) = quoteChar u.toNat ++ quoteLoop (v :: s) := by
  have hget : stringGetc u (v :: s) = (u.toNat, v :: s) := if_neg h
  rw [quoteLoop, hget]

theorem hexValue_hexDigit : ∀ d < 16, JsonText.hexValue ((hexDigit d).setWidth 8) = some d := by
  decide

theorem hexDigit_lt : ∀ d < 16, (hexDigit d).toNat < 0x80 := by
  decide

theorem escape_u : Utf16.ofAscii "\\u" = [0x5c, 0x75] :=
  rfl

/-- A unit that is printed as an escape. -/
theorem printUnit_spec {c : ℕ} (hc : c < 0x10000) :
    Chars (toUtf8 (printUnit c)) (charUnits c) ∧ Utf16.Closed (printUnit c) := by
  have hlt : ∀ n, n % 16 < 16 := fun n => Nat.mod_lt n (by decide)
  have hascii : Utf16.IsAscii (printUnit c) := by
    rw [printUnit, escape_u, List.cons_append, List.cons_append, List.nil_append]
    simp only [Utf16.isAscii_cons]
    exact ⟨by decide, by decide, hexDigit_lt _ (hlt _), hexDigit_lt _ (hlt _),
      hexDigit_lt _ (hlt _), hexDigit_lt _ (hlt _), nofun⟩
  have hchars := Chars.hex (hexValue_hexDigit _ (hlt (c / 4096)))
    (hexValue_hexDigit _ (hlt (c / 256))) (hexValue_hexDigit _ (hlt (c / 16)))
    (hexValue_hexDigit _ (hlt c)) .nil
  have hvalue : ((c / 4096 % 16 * 16 + c / 256 % 16) * 16 + c / 16 % 16) * 16 + c % 16 = c := by
    omega
  rw [hvalue, ← charUnits_of_lt hc] at hchars
  rw [Utf16.toUtf8_of_isAscii _ hascii]
  exact ⟨hchars, hascii.closed⟩

/-- What is written for a character denotes it. -/
theorem quoteChar_spec {c : ℕ} (hc : c < 0x110000) :
    Chars (toUtf8 (quoteChar c)) (charUnits c) ∧ Utf16.Closed (quoteChar c) := by
  have hone : ∀ {w u : Unit16}, w.toNat < 0x80 → JsonText.escaped (w.setWidth 8) = some u →
      Chars (toUtf8 [0x5c, w]) [u] ∧ Utf16.Closed [0x5c, w] := by
    intro w u hw he
    have hascii : Utf16.IsAscii [0x5c, w] :=
      Utf16.isAscii_cons.2 ⟨by decide, Utf16.isAscii_cons.2 ⟨hw, nofun⟩⟩
    rw [Utf16.toUtf8_of_isAscii _ hascii]
    exact ⟨.escape he .nil, hascii.closed⟩
  unfold quoteChar
  split_ifs with ht hr hn hb hf hquote hprint
  · subst ht
    exact hone (w := 0x74) (by decide) rfl
  · subst hr
    exact hone (w := 0x72) (by decide) rfl
  · subst hn
    exact hone (w := 0x6e) (by decide) rfl
  · subst hb
    exact hone (w := 0x62) (by decide) rfl
  · subst hf
    exact hone (w := 0x66) (by decide) rfl
  · rcases hquote with rfl | rfl
    · exact hone (w := 0x22) (by decide) rfl
    · exact hone (w := 0x5c) (by decide) rfl
  · exact printUnit_spec (by omega)
  · obtain ⟨hclosed, hbytes⟩ := Utf16.closed_charUnits hc (by omega)
    have hchars := Chars.char (by omega) (by omega) (by omega) hc .nil
    rw [List.append_nil, List.append_nil] at hchars
    rw [putc_eq, hbytes]
    exact ⟨hchars, hclosed⟩

/-- What is written for a string, in UTF-8, is a text that JSON allows between quotes and that
denotes the string, whatever its units are. -/
theorem quoteLoop_spec (s : List Unit16) :
    Chars (toUtf8 (quoteLoop s)) s ∧ Utf16.Closed (quoteLoop s) := by
  have hstep : ∀ {c : ℕ} {s : List Unit16}, c < 0x110000 →
      (Chars (toUtf8 (quoteLoop s)) s ∧ Utf16.Closed (quoteLoop s)) →
      Chars (toUtf8 (quoteChar c ++ quoteLoop s)) (charUnits c ++ s) ∧
        Utf16.Closed (quoteChar c ++ quoteLoop s) := by
    intro c s hc ⟨hchars, hclosed⟩
    obtain ⟨hchars', hclosed'⟩ := quoteChar_spec hc
    rw [hclosed']
    exact ⟨hchars'.append hchars, hclosed'.append hclosed⟩
  induction s using Utf16.toUtf8.induct with
  | case1 =>
    rw [quoteLoop]
    exact ⟨.nil, Utf16.closed_nil⟩
  | case2 u =>
    have hnil : Chars (toUtf8 (quoteLoop [])) [] ∧ Utf16.Closed (quoteLoop []) := by
      rw [quoteLoop]
      exact ⟨.nil, Utf16.closed_nil⟩
    have h := hstep (c := u.toNat) (by omega) hnil
    rw [Utf16.charUnits_toNat] at h
    rw [quoteLoop]
    exact h
  | case3 u v s hpair ih =>
    have h := hstep (Utf16.pairChar_lt hpair) ih
    rwa [Utf16.charUnits_pairChar hpair, ← quoteLoop_pair hpair] at h
  | case4 u v s hpair ih =>
    have h := hstep (c := u.toNat) (by omega) ih
    rwa [Utf16.charUnits_toNat, ← quoteLoop_unpaired hpair] at h

/-! ## The order of members -/

/-- `is_num_string` : the loop over the digits after the first. -/
def numString : ℕ → List Unit16 → Option ℕ
  | n, [] => some n
  | n, c :: s =>
    if ¬(0x30 ≤ c.toNat ∧ c.toNat ≤ 0x39) then none
    else if (n * 10 + (c.toNat - 0x30)) >>> 32 ≠ 0 then none
    else numString (n * 10 + (c.toNat - 0x30)) s

/-- `is_num_string`. -/
def isNumString : List Unit16 → Option ℕ
  | [] => none
  | c :: s =>
    if s.length + 1 > 10 then none
    else if ¬(0x30 ≤ c.toNat ∧ c.toNat ≤ 0x39) then none
    else if c.toNat = 0x30 then if s.length + 1 ≠ 1 then none else some 0
    else numString (c.toNat - 0x30) s

/-- `JS_AtomIsArrayIndex`. -/
def atomIsArrayIndex (atom : List Unit16) : Option ℕ :=
  (isNumString atom).filter (· ≠ 2 ^ 32 - 1)

/-- The comparison of two names that are array indices. -/
def NumKeysLe {α : Type} (m m' : List Unit16 × α) : Prop :=
  (atomIsArrayIndex m.1).getD 0 ≤ (atomIsArrayIndex m'.1).getD 0

instance {α : Type} (m m' : List Unit16 × α) : Decidable (NumKeysLe m m') :=
  inferInstanceAs (Decidable (_ ≤ _))

/-- The members of an object in the order of `JS_GetOwnPropertyNames`. -/
def enumerate {α : Type} (members : List (List Unit16 × α)) : List (List Unit16 × α) :=
  (members.filter fun m => (atomIsArrayIndex m.1).isSome).insertionSort NumKeysLe ++
    members.filter fun m => !(atomIsArrayIndex m.1).isSome

/-! ## Values -/

/-- Texts, each with `sep` before it and all but the first with a comma before that. -/
def separated (sep : List Unit16) : Bool → List (List Unit16) → List Unit16
  | _, [] => []
  | first, text :: texts =>
    (if first then [] else Utf16.ofAscii ",") ++ (sep ++ (text ++ separated sep false texts))

section Write

variable (num : Numbers ν) (gap : List Unit16)

/-- A line break with its indentation, if there is something to indent with. -/
def lineBreak (indent : List Unit16) : List Unit16 :=
  if gap = [] then [] else Utf16.ofAscii "\n" ++ indent

/-- What stands between a name and its value, after the colon. -/
def afterColon : List Unit16 :=
  if gap = [] then [] else Utf16.ofAscii " "

mutual

/-- `js_json_to_str`. -/
def jsonToStr (indent : List Unit16) : JsonTree ν → List Unit16
  | .null => Utf16.ofAscii "null"
  | .bool b => Utf16.ofAscii (if b then "true" else "false")
  | .number n => if num.isFinite n then (num.toText n).map (·.setWidth 16) else Utf16.ofAscii "null"
  | .string s => jsToQuotedString s
  | .array elements =>
    Utf16.ofAscii "[" ++
      (separated (lineBreak gap (indent ++ gap)) true (elementTexts (indent ++ gap) elements) ++
        ((if elements = [] then [] else lineBreak gap indent) ++ Utf16.ofAscii "]"))
  | .object members =>
    Utf16.ofAscii "\x7b" ++
      (separated (lineBreak gap (indent ++ gap)) true
          ((enumerate (memberTexts (indent ++ gap) members)).map fun m =>
            jsToQuotedString m.1 ++ (Utf16.ofAscii ":" ++ (afterColon gap ++ m.2))) ++
        ((if members = [] then [] else lineBreak gap indent) ++ Utf16.ofAscii "\x7d"))

def elementTexts (indent : List Unit16) : List (JsonTree ν) → List (List Unit16)
  | [] => []
  | v :: elements => jsonToStr indent v :: elementTexts indent elements

def memberTexts (indent : List Unit16) :
    List (List Unit16 × JsonTree ν) → List (List Unit16 × List Unit16)
  | [] => []
  | (k, v) :: members => (k, jsonToStr indent v) :: memberTexts indent members

end

end Write

/-- What a value is indented with. -/
inductive Indent where
  | none
  | number (n : ℤ)
  | string (s : List Unit16)

/-- `jsc->gap`. -/
def Indent.gap : Indent → List Unit16
  | none => []
  | number n => List.replicate (min (max n 0) 10).toNat 0x20
  | string s => s.take 10

/-- `JS_JSONStringify`. -/
def jsJsonStringify (num : Numbers ν) (space : Indent) (v : JsonTree ν) : List Unit16 :=
  jsonToStr num space.gap [] v

/-! ## Enumeration -/

theorem enumerate_perm {α : Type} (members : List (List Unit16 × α)) :
    (enumerate members).Perm members :=
  ((List.perm_insertionSort _ _).append_right _).trans (List.filter_append_perm _ _)

theorem mem_enumerate {α : Type} {members : List (List Unit16 × α)} {m : List Unit16 × α} :
    m ∈ enumerate members ↔ m ∈ members :=
  (enumerate_perm members).mem_iff

/-- The order does not depend on the values. -/
theorem enumerate_map {α β : Type} (f : α → β) (members : List (List Unit16 × α)) :
    enumerate (members.map fun m => (m.1, f m.2)) =
      (enumerate members).map fun m => (m.1, f m.2) := by
  have hsort := fun l : List (List Unit16 × α) => List.map_insertionSort NumKeysLe NumKeysLe
    (fun m => (m.1, f m.2)) l fun _ _ _ _ => Iff.rfl
  rw [enumerate, enumerate, List.map_append, List.filter_map, List.filter_map, hsort]
  rfl

theorem enumerate_eq_nil {α : Type} {members : List (List Unit16 × α)} :
    enumerate members = [] ↔ members = [] :=
  ⟨fun h => (enumerate_perm members).symm.trans (by rw [h]) |>.eq_nil, fun h => by rw [h]; rfl⟩

instance {α : Type} : Std.Total (@NumKeysLe α) :=
  ⟨fun _ _ => Nat.le_total _ _⟩

instance {α : Type} : IsTrans (List Unit16 × α) NumKeysLe :=
  ⟨fun _ _ _ => Nat.le_trans⟩

/-- What is in order stays in order. -/
theorem enumerate_enumerate {α : Type} (members : List (List Unit16 × α)) :
    enumerate (enumerate members) = enumerate members := by
  unfold enumerate
  generalize hl : members.filter (fun m => !(atomIsArrayIndex m.1).isSome) = others
  generalize hs : (members.filter fun m => (atomIsArrayIndex m.1).isSome).insertionSort
    NumKeysLe = indices
  have hindices : ∀ m ∈ indices, (atomIsArrayIndex m.1).isSome = true := by
    intro m hm
    rw [← hs, List.mem_insertionSort] at hm
    exact (List.mem_filter.1 hm).2
  have hothers : ∀ m ∈ others, (!(atomIsArrayIndex m.1).isSome) = true := by
    intro m hm
    rw [← hl] at hm
    exact (List.mem_filter.1 hm).2
  have hsorted : indices.Pairwise NumKeysLe := hs ▸ List.pairwise_insertionSort _ _
  have hnone : others.filter (fun m => (atomIsArrayIndex m.1).isSome) = [] :=
    List.filter_eq_nil_iff.2 fun m hm => by simpa using hothers m hm
  have hnone' : indices.filter (fun m => !(atomIsArrayIndex m.1).isSome) = [] :=
    List.filter_eq_nil_iff.2 fun m hm => by simp [hindices m hm]
  rw [List.filter_append, List.filter_append, List.filter_eq_self.2 hindices, hnone,
    List.append_nil, hsorted.insertionSort_eq, hnone', List.nil_append,
    List.filter_eq_self.2 hothers]

section Enumerated

variable (num : Numbers ν)

mutual

/-- The value that is written : with `null` for a number that is not finite, and with the members
of objects in order. -/
def enumerated : JsonTree ν → JsonTree ν
  | .null => .null
  | .bool b => .bool b
  | .number n => if num.isFinite n then .number n else .null
  | .string s => .string s
  | .array elements => .array (enumeratedElements elements)
  | .object members => .object (enumerate (enumeratedMembers members))

def enumeratedElements : List (JsonTree ν) → List (JsonTree ν)
  | [] => []
  | v :: elements => enumerated v :: enumeratedElements elements

def enumeratedMembers : List (List Unit16 × JsonTree ν) → List (List Unit16 × JsonTree ν)
  | [] => []
  | (k, v) :: members => (k, enumerated v) :: enumeratedMembers members

end

theorem enumeratedElements_eq (elements : List (JsonTree ν)) :
    enumeratedElements num elements = elements.map (enumerated num) := by
  induction elements with
  | nil => rfl
  | cons v elements ih => rw [enumeratedElements, ih, List.map_cons]

theorem enumeratedMembers_eq (members : List (List Unit16 × JsonTree ν)) :
    enumeratedMembers num members = members.map fun m => (m.1, enumerated num m.2) := by
  induction members with
  | nil => rfl
  | cons m members ih => rw [enumeratedMembers, ih, List.map_cons]

theorem elementTexts_eq (gap indent : List Unit16) (elements : List (JsonTree ν)) :
    elementTexts num gap indent elements = elements.map (jsonToStr num gap indent) := by
  induction elements with
  | nil => rfl
  | cons v elements ih => rw [elementTexts, ih, List.map_cons]

theorem memberTexts_eq (gap indent : List Unit16) (members : List (List Unit16 × JsonTree ν)) :
    memberTexts num gap indent members =
      members.map fun m => (m.1, jsonToStr num gap indent m.2) := by
  induction members with
  | nil => rfl
  | cons m members ih => rw [memberTexts, ih, List.map_cons]

end Enumerated

/-! ## What is written -/

/-- Units of whitespace. -/
def Blank (s : List Unit16) : Prop :=
  ∀ u ∈ s, u = 0x20 ∨ u = 0x09 ∨ u = 0x0a ∨ u = 0x0d

theorem Blank.append {s t : List Unit16} (hs : Blank s) (ht : Blank t) : Blank (s ++ t) :=
  List.forall_mem_append.2 ⟨hs, ht⟩

/-- Whitespace is ASCII, and whitespace of a JSON text. -/
theorem Blank.spec {s : List Unit16} (hs : Blank s) :
    Utf16.Closed s ∧ Space (toUtf8 s) := by
  have hascii : Utf16.IsAscii s := fun u hu => by
    rcases hs u hu with rfl | rfl | rfl | rfl <;> decide
  refine ⟨hascii.closed, ?_⟩
  rw [Utf16.toUtf8_of_isAscii s hascii]
  intro b hb
  obtain ⟨u, hu, rfl⟩ := List.mem_map.1 hb
  rcases hs u hu with rfl | rfl | rfl | rfl <;> decide

theorem blank_lineBreak (gap : List Unit16) {indent : List Unit16} (hindent : Blank indent) :
    Blank (lineBreak gap indent) := by
  unfold lineBreak
  split_ifs
  · exact fun _ h => nomatch h
  · refine List.forall_mem_append.2 ⟨fun u hu => ?_, hindent⟩
    exact .inr (.inr (.inl (List.mem_singleton.1 hu)))

theorem blank_afterColon (gap : List Unit16) : Blank (afterColon gap) := by
  unfold afterColon
  split_ifs
  · exact fun _ h => nomatch h
  · exact fun u hu => .inl (List.mem_singleton.1 hu)

/-- Texts that any other can follow, with a comma in front of each. -/
theorem toUtf8_separated {sep : List Unit16} (hsep : Utf16.Closed sep) :
    ∀ {texts : List (List Unit16)}, (∀ text ∈ texts, Utf16.Closed text) →
      toUtf8 (separated sep false texts) =
          texts.flatMap (fun text => byte ',' :: (toUtf8 sep ++ toUtf8 text)) ∧
        Utf16.Closed (separated sep false texts)
  | [], _ => ⟨rfl, Utf16.closed_nil⟩
  | text :: texts, h => by
    obtain ⟨htext, htexts⟩ := List.forall_mem_cons.1 h
    obtain ⟨hbytes, hclosed⟩ := toUtf8_separated hsep htexts
    have hrest : Utf16.Closed (sep ++ (text ++ separated sep false texts)) :=
      hsep.append (htext.append hclosed)
    refine ⟨?_, Utf16.Closed.cons (u := 0x2c) (by decide) hrest⟩
    change toUtf8 (0x2c :: (sep ++ (text ++ separated sep false texts))) = _
    rw [Utf16.toUtf8_cons (by decide), hsep, htext, hbytes, List.flatMap_cons,
      List.cons_append, List.append_assoc]
    rfl

/-- Texts between brackets or braces. -/
theorem toUtf8_bracketed {o c : Unit16} (ho : o.toNat < 0x80) (hc : c.toNat < 0x80)
    {sep close text : List Unit16} {texts : List (List Unit16)} (hsep : Utf16.Closed sep)
    (hclose : Utf16.Closed close) (h : ∀ t ∈ text :: texts, Utf16.Closed t) :
    toUtf8 ([o] ++ (separated sep true (text :: texts) ++ (close ++ [c]))) =
        o.setWidth 8 :: (toUtf8 sep ++ (toUtf8 text ++
          (texts.flatMap (fun text => byte ',' :: (toUtf8 sep ++ toUtf8 text)) ++
            toUtf8 close)) ++ [c.setWidth 8]) ∧
      Utf16.Closed ([o] ++ (separated sep true (text :: texts) ++ (close ++ [c]))) := by
  obtain ⟨htext, htexts⟩ := List.forall_mem_cons.1 h
  obtain ⟨hbytes, hclosed⟩ := toUtf8_separated hsep htexts
  have hend : Utf16.Closed [c] := Utf16.Closed.cons hc Utf16.closed_nil
  have hseparated : separated sep true (text :: texts) =
      sep ++ (text ++ separated sep false texts) := rfl
  rw [hseparated]
  refine ⟨?_, Utf16.Closed.cons ho
    ((hsep.append (htext.append hclosed)).append (hclose.append hend))⟩
  rw [List.singleton_append, Utf16.toUtf8_cons ho, List.append_assoc, List.append_assoc, hsep,
    htext, hclosed, hbytes, hclose, Utf16.toUtf8_cons hc]
  simp only [List.append_assoc]
  rfl

/-- A number that is read back from its text, if it is finite. -/
def Reads (num : Numbers ν) (n : ν) : Prop :=
  num.isFinite n = true → IsNumber (num.toText n) ∧ num.strtod (num.toText n) = n

theorem lt_of_isDigit {b : Byte} (h : IsDigit b) : b.toNat < 0x80 :=
  Nat.lt_of_le_of_lt h.2 (by decide)

/-- The text of a number is ASCII. -/
theorem lt_of_isNumber {p : Bytes} (h : IsNumber p) : ∀ b ∈ p, b.toNat < 0x80 := by
  obtain ⟨sign, int, frac, exp, rfl, hsign, hint, hfrac, hexp⟩ := h
  simp only [List.forall_mem_append]
  refine ⟨?_, ?_, ?_, ?_⟩
  · rcases hsign with rfl | rfl
    · exact fun _ h => nomatch h
    · decide
  · obtain ⟨d, ds, rfl, hd, hds, -⟩ := isDigit_of_isInt hint
    exact List.forall_mem_cons.2 ⟨lt_of_isDigit hd, fun b hb => lt_of_isDigit (hds b hb)⟩
  · rcases hfrac with rfl | ⟨ds, rfl, -, hds⟩
    · exact fun _ h => nomatch h
    · exact List.forall_mem_cons.2 ⟨by decide, fun b hb => lt_of_isDigit (hds b hb)⟩
  · rcases hexp with rfl | ⟨e, sign, ds, rfl, he, hsign, -, hds⟩
    · exact fun _ h => nomatch h
    · refine List.forall_mem_cons.2 ⟨?_, List.forall_mem_append.2
        ⟨?_, fun b hb => lt_of_isDigit (hds b hb)⟩⟩
      · rcases he with rfl | rfl <;> decide
      · rcases hsign with rfl | rfl | rfl
        · exact fun _ h => nomatch h
        · decide
        · decide

/-- What is written for a string is a JSON string. -/
theorem toUtf8_jsToQuotedString (s : List Unit16) :
    toUtf8 (jsToQuotedString s) = byte '"' :: (toUtf8 (quoteLoop s) ++ [byte '"']) ∧
      Utf16.Closed (jsToQuotedString s) := by
  obtain ⟨-, hclosed⟩ := quoteLoop_spec s
  have hquote : Utf16.Closed [0x22] := Utf16.Closed.cons (by decide) Utf16.closed_nil
  refine ⟨?_, Utf16.Closed.cons (by decide) (hclosed.append hquote)⟩
  rw [jsToQuotedString, Utf16.toUtf8_cons (by decide), hclosed]
  rfl

section Written

variable {num : Numbers ν} {gap : List Unit16}

/-- What a value is written as : a JSON text of the value with its members in order. -/
structure Written (num : Numbers ν) (gap indent : List Unit16) (n : ℕ) (v : JsonTree ν) :
    Prop where
  text : JsonText.Value (JsonText.standard num.strtod) n (toUtf8 (jsonToStr num gap indent v))
    (enumerated num v)
  closed : Utf16.Closed (jsonToStr num gap indent v)

theorem closed_null : Utf16.Closed (Utf16.ofAscii "null") :=
  Utf16.closed_of_all rfl

theorem written_null (indent : List Unit16) (n : ℕ) :
    Written num gap indent (n + 1) (.null : JsonTree ν) :=
  ⟨.null, closed_null⟩

theorem written_bool (indent : List Unit16) (n : ℕ) (b : Bool) :
    Written num gap indent (n + 1) (.bool b : JsonTree ν) := by
  cases b
  · exact ⟨.bool false, Utf16.closed_of_all rfl⟩
  · exact ⟨.bool true, Utf16.closed_of_all rfl⟩

theorem written_number (indent : List Unit16) (n : ℕ) {x : ν} (hx : Reads num x) :
    Written num gap indent (n + 1) (.number x) := by
  by_cases hfinite : num.isFinite x = true
  · obtain ⟨hnumber, hread⟩ := hx hfinite
    obtain ⟨hbytes, hclosed⟩ := Utf16.toUtf8_map_setWidth (lt_of_isNumber hnumber)
    have htext : jsonToStr num gap indent (.number x) = (num.toText x).map (·.setWidth 16) :=
      if_pos hfinite
    have hvalue : enumerated num (.number x) = .number x := if_pos hfinite
    refine ⟨?_, by rwa [htext]⟩
    rw [htext, hbytes, hvalue]
    exact .number ⟨hnumber, hread.symm⟩
  · have htext : jsonToStr num gap indent (.number x) = Utf16.ofAscii "null" := if_neg hfinite
    have hvalue : enumerated num (.number x) = .null := if_neg hfinite
    refine ⟨?_, ?_⟩
    · rw [htext, hvalue]
      exact .null
    · rw [htext]
      exact closed_null

theorem written_string (indent : List Unit16) (n : ℕ) (s : List Unit16) :
    Written num gap indent (n + 1) (.string s : JsonTree ν) := by
  obtain ⟨hbytes, hclosed⟩ := toUtf8_jsToQuotedString s
  refine ⟨?_, hclosed⟩
  rw [jsonToStr, hbytes]
  exact .string (quoteLoop_spec s).1

/-- An array is written if its elements are. -/
theorem written_array {indent : List Unit16} (hgap : Blank gap) (hindent : Blank indent) {n : ℕ}
    {elements : List (JsonTree ν)}
    (h : ∀ v ∈ elements, Written num gap (indent ++ gap) n v) :
    Written num gap indent (n + 1) (.array elements) := by
  obtain ⟨hsep, hspace⟩ := (blank_lineBreak gap (hindent.append hgap)).spec
  obtain ⟨hclose, hspace'⟩ := (blank_lineBreak gap hindent).spec
  rcases elements with - | ⟨v, elements⟩
  · exact ⟨.emptyArray JsonText.space_nil, Utf16.closed_of_all rfl⟩
  have hvalue : enumerated num (.array (v :: elements)) =
      .array ((v :: elements).map (enumerated num)) := by
    rw [enumerated, enumeratedElements_eq]
  have htexts : ∀ t ∈ (v :: elements).map (jsonToStr num gap (indent ++ gap)),
      Utf16.Closed t := by
    intro t ht
    obtain ⟨w, hw, rfl⟩ := List.mem_map.1 ht
    exact (h w hw).closed
  have hbytes := toUtf8_bracketed (o := 0x5b) (c := 0x5d) (by decide) (by decide) hsep hclose
    htexts
  have htext : jsonToStr num gap indent (.array (v :: elements)) =
      [0x5b] ++ (separated (lineBreak gap (indent ++ gap)) true
        (jsonToStr num gap (indent ++ gap) v :: elements.map (jsonToStr num gap (indent ++ gap))) ++
          (lineBreak gap indent ++ [0x5d])) := by
    rw [jsonToStr, elementTexts_eq, if_neg (List.cons_ne_nil v elements)]
    rfl
  have helements := JsonText.elements_of_forall hspace hspace'
    (fun w hw => (h w hw).text)
  refine ⟨?_, by rw [htext]; exact hbytes.2⟩
  rw [htext, hbytes.1, hvalue, List.flatMap_map]
  exact .array helements

/-- An object is written if the values of its members are. -/
theorem written_object {indent : List Unit16} (hgap : Blank gap) (hindent : Blank indent) {n : ℕ}
    {members : List (List Unit16 × JsonTree ν)}
    (h : ∀ m ∈ members, Written num gap (indent ++ gap) n m.2) :
    Written num gap indent (n + 1) (.object members) := by
  obtain ⟨hsep, hspace⟩ := (blank_lineBreak gap (hindent.append hgap)).spec
  obtain ⟨hclose, hspace'⟩ := (blank_lineBreak gap hindent).spec
  obtain ⟨hcolon, hspace₂⟩ := (blank_afterColon gap).spec
  have hvalue : enumerated num (.object members) =
      .object ((enumerate members).map fun m => (m.1, enumerated num m.2)) := by
    rw [enumerated, enumeratedMembers_eq, enumerate_map]
  have horder : enumerate (memberTexts num gap (indent ++ gap) members) =
      (enumerate members).map fun m => (m.1, jsonToStr num gap (indent ++ gap) m.2) := by
    rw [memberTexts_eq, enumerate_map]
  by_cases hnil : members = []
  · subst hnil
    exact ⟨.emptyObject JsonText.space_nil, Utf16.closed_of_all rfl⟩
  have hall : ∀ m ∈ enumerate members, Written num gap (indent ++ gap) n m.2 := fun m hm =>
    h m (mem_enumerate.1 hm)
  rcases horder' : enumerate members with - | ⟨m, rest⟩
  · exact absurd (enumerate_eq_nil.1 horder') hnil
  rw [horder'] at hall hvalue horder
  have htexts : ∀ t ∈ (m :: rest).map fun m : List Unit16 × JsonTree ν => jsToQuotedString m.1 ++
      (0x3a :: (afterColon gap ++ jsonToStr num gap (indent ++ gap) m.2)), Utf16.Closed t := by
    intro t ht
    obtain ⟨w, hw, rfl⟩ := List.mem_map.1 ht
    exact (toUtf8_jsToQuotedString w.1).2.append
      (Utf16.Closed.cons (by decide) (hcolon.append (hall w hw).closed))
  have hbytes := toUtf8_bracketed (o := 0x7b) (c := 0x7d) (by decide) (by decide) hsep hclose
    htexts
  have htext : jsonToStr num gap indent (.object members) =
      [0x7b] ++ (separated (lineBreak gap (indent ++ gap)) true
        ((m :: rest).map fun m => jsToQuotedString m.1 ++
          (0x3a :: (afterColon gap ++ jsonToStr num gap (indent ++ gap) m.2))) ++
          (lineBreak gap indent ++ [0x7d])) := by
    rw [jsonToStr, horder, if_neg hnil, List.map_map]
    rfl
  have hmember : ∀ m : List Unit16 × JsonTree ν, toUtf8 (jsToQuotedString m.1 ++
      (0x3a :: (afterColon gap ++ jsonToStr num gap (indent ++ gap) m.2))) =
      byte '"' :: (toUtf8 (quoteLoop m.1) ++ byte '"' :: byte ':' ::
        (toUtf8 (afterColon gap) ++ toUtf8 (jsonToStr num gap (indent ++ gap) m.2))) := by
    intro m
    obtain ⟨hquoted, hclosed⟩ := toUtf8_jsToQuotedString m.1
    rw [hclosed, hquoted, Utf16.toUtf8_cons (by decide), hcolon, List.cons_append,
      List.append_assoc]
    rfl
  have hmembers := JsonText.members_of_forall hspace hspace₂ hspace'
    (fun w _ => (quoteLoop_spec w.1).1) (fun w hw => (hall w hw).text)
  refine ⟨?_, by rw [htext]; exact hbytes.2⟩
  rw [htext, List.map_cons, hbytes.1, hvalue, List.flatMap_map, hmember]
  simp only [hmember]
  exact .object hmembers

end Written

end QuickJs

end TinyKvm
