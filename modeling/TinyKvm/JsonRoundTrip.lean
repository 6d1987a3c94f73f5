import TinyKvm.JsonWriter

/-!
# JSON round trips

What `JSON.stringify` writes is read by `JSON.parse`, with line breaks and
indentation of any whitespace, if the stack has room for the value, the names in
every object are different, and the numbers are read back from their texts
(`jsJsonParse_jsJsonStringify`). The members of an object are then in the order in
which they are enumerated.

The values that `JSON.parse` gives have different names, and the stack had room for
them (`distinct_settled`, `depth_settled`). So every text that is accepted can be
written and read again, and after that nothing changes any more
(`jsJsonStringify_of_jsParseJson`).
-/

namespace TinyKvm

namespace QuickJs

open Utf16 (Unit16)
open JsonText (byte JsonTree)

variable {ν : Type} {num : Numbers ν}

/-! ## Writing and reading -/

/-- Every value is written, if its numbers have texts. -/
theorem written {gap : List Unit16} (hgap : Blank gap) (v : JsonTree ν) :
    (∀ n, JsonTree.Part (.number n) v → Reads num n) →
      ∀ {indent : List Unit16} {n : ℕ}, Blank indent → v.depth ≤ n →
        Written num gap indent n v := by
  induction v using JsonTree.induction with
  | null =>
    intro _ indent n _ hn
    obtain ⟨n, rfl⟩ := Nat.exists_eq_add_one_of_ne_zero (Nat.one_le_iff_ne_zero.1 hn)
    exact written_null indent n
  | bool b =>
    intro _ indent n _ hn
    obtain ⟨n, rfl⟩ := Nat.exists_eq_add_one_of_ne_zero (Nat.one_le_iff_ne_zero.1 hn)
    exact written_bool indent n b
  | number x =>
    intro hnumbers indent n _ hn
    obtain ⟨n, rfl⟩ := Nat.exists_eq_add_one_of_ne_zero (Nat.one_le_iff_ne_zero.1 hn)
    exact written_number indent n (hnumbers x .self)
  | string s =>
    intro _ indent n _ hn
    obtain ⟨n, rfl⟩ := Nat.exists_eq_add_one_of_ne_zero (Nat.one_le_iff_ne_zero.1 hn)
    exact written_string indent n s
  | array elements ih =>
    intro hnumbers indent n hindent hn
    rw [JsonTree.depth] at hn
    obtain ⟨n, rfl⟩ := Nat.exists_eq_add_one_of_ne_zero (Nat.ne_zero_of_lt hn)
    exact written_array hgap hindent fun v hv =>
      ih v hv (fun x hx => hnumbers x (.element hv hx)) (hindent.append hgap)
        ((JsonTree.depth_le_depthElements hv).trans (Nat.le_of_succ_le_succ hn))
  | object members ih =>
    intro hnumbers indent n hindent hn
    rw [JsonTree.depth] at hn
    obtain ⟨n, rfl⟩ := Nat.exists_eq_add_one_of_ne_zero (Nat.ne_zero_of_lt hn)
    exact written_object hgap hindent fun m hm =>
      ih m hm (fun x hx => hnumbers x (.member hm hx)) (hindent.append hgap)
        ((JsonTree.depth_le_depthMembers hm).trans (Nat.le_of_succ_le_succ hn))

/-- A name that is not there is added at the end. -/
theorem definePropertyValue_of_notMem {α : Type} {members : List (List Unit16 × α)}
    {name : List Unit16} (h : name ∉ members.map Prod.fst) (v : α) :
    definePropertyValue members name v = members ++ [(name, v)] := by
  induction members with
  | nil => rfl
  | cons m members ih =>
    rw [List.map_cons, List.mem_cons, not_or] at h
    rw [definePropertyValue, if_neg (Ne.symm h.1), ih h.2, List.cons_append]

/-- Members with different names are kept as they are. -/
theorem settledMembers_of_nodup {members : List (List Unit16 × JsonTree ν)} :
    ∀ {acc : List (List Unit16 × JsonTree ν)}, ((acc ++ members).map Prod.fst).Nodup →
      (∀ m ∈ members, settled m.2 = m.2) → settledMembers members acc = acc ++ members := by
  induction members with
  | nil => exact fun _ _ => (List.append_nil _).symm
  | cons m members ih =>
    intro acc hnodup hsettled
    obtain ⟨hm, hmembers⟩ := List.forall_mem_cons.1 hsettled
    have hname : m.1 ∉ acc.map Prod.fst := by
      rw [List.map_append, List.map_cons] at hnodup
      exact fun h => (List.nodup_append.1 hnodup).2.2 _ h _ List.mem_cons_self rfl
    rw [settledMembers, hm, definePropertyValue_of_notMem hname, ih ?_ hmembers,
      List.append_assoc, List.singleton_append]
    rwa [List.append_assoc, List.singleton_append]

theorem settledElements_eq (elements : List (JsonTree ν)) :
    settledElements elements = elements.map settled := by
  induction elements with
  | nil => rfl
  | cons v elements ih => rw [settledElements, ih, List.map_cons]

/-- A value with different names is what its text is read as, with its members in order. -/
theorem settled_enumerated (v : JsonTree ν) (h : v.Distinct) :
    settled (enumerated num v) = enumerated num v := by
  induction v using JsonTree.induction with
  | null => rfl
  | bool b => rfl
  | number x =>
    rw [enumerated]
    split_ifs <;> rfl
  | string s => rfl
  | array elements ih =>
    have helements : (elements.map (enumerated num)).map settled =
        elements.map (enumerated num) := by
      rw [List.map_map]
      exact List.map_congr_left fun v hv =>
        ih v hv fun members hpart => h members (.element hv hpart)
    rw [enumerated, enumeratedElements_eq, settled, settledElements_eq, helements]
  | object members ih =>
    have hperm := enumerate_perm (members.map fun m => (m.1, enumerated num m.2))
    rw [enumerated, enumeratedMembers_eq, settled, settledMembers_of_nodup, List.nil_append]
    · rw [List.nil_append, (hperm.map _).nodup_iff, List.map_map]
      exact h members .self
    · intro m hm
      obtain ⟨m', hm', rfl⟩ := List.mem_map.1 (hperm.mem_iff.1 hm)
      exact ih m' hm' fun members hpart => h members (.member hm' hpart)

/-- The whitespace that a value is indented with. -/
def Indent.IsBlank : Indent → Prop
  | .string s => Blank s
  | _ => True

theorem Indent.IsBlank.gap {space : Indent} (h : space.IsBlank) : Blank space.gap := by
  cases space with
  | none => exact fun _ h => nomatch h
  | number n => exact fun u hu => .inl (List.eq_of_mem_replicate hu)
  | string s => exact fun u hu => h u (List.mem_of_mem_take hu)

/-- What is written for a value is a text of JSON, for the value with its members in order. -/
theorem text_stringify {v : JsonTree ν}
    (hnumbers : ∀ n, JsonTree.Part (.number n) v → Reads num n) {space : Indent}
    (hspace : space.IsBlank) {stack : ℕ} (hstack : v.depth ≤ stack) :
    JsonText.Text (JsonText.standard num.strtod) stack
      (Utf16.toUtf8 (jsJsonStringify num space v)) (enumerated num v) := by
  have hblank : Blank [] := fun _ h => nomatch h
  have hwritten := written hspace.gap v hnumbers hblank hstack
  exact ⟨[], _, [], by simp [jsJsonStringify], JsonText.space_nil, hwritten.text,
    JsonText.space_nil⟩

/-- With any indentation of whitespace, what is written for a value whose objects have different
names and whose numbers are read back is read as the value with its members in order. -/
theorem jsJsonParse_jsJsonStringify {v : JsonTree ν}
    (hnumbers : ∀ n, JsonTree.Part (.number n) v → Reads num n) (hnames : v.Distinct)
    {space : Indent} (hspace : space.IsBlank) {stack : ℕ} (hstack : v.depth ≤ stack) :
    jsJsonParse num stack (jsJsonStringify num space v) = .ok (enumerated num v) := by
  have htext := text_stringify hnumbers hspace hstack
  rw [jsJsonParse, jsParseJson_of_text htext, settled_enumerated v hnames]

/-! ## Reading and writing -/

theorem map_fst_definePropertyValue {α : Type} (members : List (List Unit16 × α))
    (name : List Unit16) (v : α) :
    (definePropertyValue members name v).map Prod.fst =
      if name ∈ members.map Prod.fst then members.map Prod.fst
      else members.map Prod.fst ++ [name] := by
  induction members with
  | nil => rfl
  | cons m members ih =>
    rw [definePropertyValue]
    split_ifs with hm hname hname
    · rfl
    · exact absurd (List.mem_cons.2 (.inl hm.symm)) hname
    · rw [List.map_cons, List.mem_cons] at hname
      rw [List.map_cons, ih, if_pos (hname.resolve_left (Ne.symm hm))]
      rfl
    · rw [List.map_cons, List.mem_cons, not_or] at hname
      rw [List.map_cons, ih, if_neg hname.2]
      rfl

/-- Members keep their values, or have the one that is defined. -/
theorem mem_definePropertyValue {α : Type} {members : List (List Unit16 × α)}
    {name : List Unit16} {v : α} {m : List Unit16 × α}
    (h : m ∈ definePropertyValue members name v) : m ∈ members ∨ m.2 = v := by
  induction members with
  | nil => exact .inr (by rw [List.mem_singleton.1 h])
  | cons m' members ih =>
    rw [definePropertyValue] at h
    split_ifs at h with hname
    · rcases List.mem_cons.1 h with rfl | h
      · exact .inr rfl
      · exact .inl (List.mem_cons_of_mem _ h)
    · rcases List.mem_cons.1 h with rfl | h
      · exact .inl List.mem_cons_self
      · exact (ih h).imp_left (List.mem_cons_of_mem _)

/-- The names stay different, and every value is one that a text lists. -/
theorem settledMembers_spec (members : List (List Unit16 × JsonTree ν)) :
    ∀ {acc : List (List Unit16 × JsonTree ν)}, (acc.map Prod.fst).Nodup →
      ((settledMembers members acc).map Prod.fst).Nodup ∧
        ∀ m ∈ settledMembers members acc, m ∈ acc ∨ ∃ m' ∈ members, m.2 = settled m'.2 := by
  induction members with
  | nil => exact fun hacc => ⟨hacc, fun m hm => .inl hm⟩
  | cons m members ih =>
    intro acc hacc
    have hnodup : ((definePropertyValue acc m.1 (settled m.2)).map Prod.fst).Nodup := by
      rw [map_fst_definePropertyValue]
      split_ifs with hname
      · exact hacc
      · exact List.nodup_append.2 ⟨hacc, List.nodup_singleton _, fun a ha b hb => by
          rintro rfl
          exact hname (List.mem_singleton.1 hb ▸ ha)⟩
    obtain ⟨hnodup', hmem⟩ := ih hnodup
    refine ⟨hnodup', fun m' hm' => ?_⟩
    rcases hmem m' hm' with h | ⟨m'', hm'', heq⟩
    · rcases mem_definePropertyValue h with h | h
      · exact .inl h
      · exact .inr ⟨m, List.mem_cons_self, h⟩
    · exact .inr ⟨m'', List.mem_cons_of_mem _ hm'', heq⟩

/-- The members of an object that is read. -/
theorem settledMembers_nil_spec (members : List (List Unit16 × JsonTree ν)) :
    ((settledMembers members []).map Prod.fst).Nodup ∧
      ∀ m ∈ settledMembers members [], ∃ m' ∈ members, m.2 = settled m'.2 := by
  have hnil : (([] : List (List Unit16 × JsonTree ν)).map Prod.fst).Nodup := List.nodup_nil
  obtain ⟨hnodup, hmem⟩ := settledMembers_spec members hnil
  exact ⟨hnodup, fun m hm => (hmem m hm).resolve_left fun h => nomatch h⟩

/-- The names in every object that is read are different. -/
theorem distinct_settled (t : JsonTree ν) : (settled t).Distinct := by
  induction t using JsonTree.induction with
  | null => rintro members ⟨⟩
  | bool b => rintro members ⟨⟩
  | number n => rintro members ⟨⟩
  | string s => rintro members ⟨⟩
  | array elements ih =>
    intro members hpart
    rw [settled, settledElements_eq] at hpart
    obtain - | ⟨hv, hpart⟩ := hpart
    obtain ⟨t, ht, rfl⟩ := List.mem_map.1 hv
    exact ih t ht members hpart
  | object ms ih =>
    obtain ⟨hnodup, hmem⟩ := settledMembers_nil_spec ms
    intro members hpart
    rw [settled] at hpart
    obtain - | - | ⟨hm, hpart⟩ := hpart
    · exact hnodup
    · obtain ⟨m', hm', heq⟩ := hmem _ hm
      rw [heq] at hpart
      exact ih m' hm' members hpart

theorem depthElements_le {n : ℕ} {elements : List (JsonTree ν)}
    (h : ∀ v ∈ elements, v.depth ≤ n) : JsonTree.depthElements elements ≤ n := by
  induction elements with
  | nil => exact Nat.zero_le n
  | cons v elements ih =>
    obtain ⟨hv, helements⟩ := List.forall_mem_cons.1 h
    exact max_le hv (ih helements)

theorem depthMembers_le {n : ℕ} {members : List (List Unit16 × JsonTree ν)}
    (h : ∀ m ∈ members, m.2.depth ≤ n) : JsonTree.depthMembers members ≤ n := by
  induction members with
  | nil => exact Nat.zero_le n
  | cons m members ih =>
    obtain ⟨hm, hmembers⟩ := List.forall_mem_cons.1 h
    exact max_le hm (ih hmembers)

/-- No more values lie inside each other than in the text. -/
theorem depth_settled (t : JsonTree ν) : (settled t).depth ≤ t.depth := by
  induction t using JsonTree.induction with
  | null => exact le_rfl
  | bool b => exact le_rfl
  | number n => exact le_rfl
  | string s => exact le_rfl
  | array elements ih =>
    rw [settled, settledElements_eq, JsonTree.depth, JsonTree.depth]
    refine Nat.succ_le_succ (depthElements_le fun v hv => ?_)
    obtain ⟨t, ht, rfl⟩ := List.mem_map.1 hv
    exact (ih t ht).trans (JsonTree.depth_le_depthElements ht)
  | object members ih =>
    rw [settled, JsonTree.depth, JsonTree.depth]
    refine Nat.succ_le_succ (depthMembers_le fun m hm => ?_)
    obtain ⟨m', hm', heq⟩ := (settledMembers_nil_spec members).2 m hm
    rw [heq]
    exact (ih m' hm').trans (JsonTree.depth_le_depthMembers hm')

/-- A value with its members in order is written like the value. -/
theorem jsonToStr_enumerated (gap : List Unit16) (v : JsonTree ν) :
    ∀ indent, jsonToStr num gap indent (enumerated num v) = jsonToStr num gap indent v := by
  induction v using JsonTree.induction with
  | null => exact fun _ => rfl
  | bool b => exact fun _ => rfl
  | number n =>
    intro indent
    rw [enumerated]
    split_ifs with hfinite
    · rfl
    · exact (if_neg hfinite).symm
  | string s => exact fun _ => rfl
  | array elements ih =>
    intro indent
    have htexts : (elements.map (enumerated num)).map (jsonToStr num gap (indent ++ gap)) =
        elements.map (jsonToStr num gap (indent ++ gap)) := by
      rw [List.map_map]
      exact List.map_congr_left fun v hv => ih v hv _
    rw [enumerated, enumeratedElements_eq, jsonToStr, jsonToStr, elementTexts_eq, elementTexts_eq,
      htexts]
    simp only [List.map_eq_nil_iff]
  | object members ih =>
    intro indent
    have htexts : enumerate (memberTexts num gap (indent ++ gap)
        (enumerate (members.map fun m => (m.1, enumerated num m.2)))) =
        enumerate (memberTexts num gap (indent ++ gap) members) := by
      have hsame : (members.map fun m => (m.1, enumerated num m.2)).map
          (fun m => (m.1, jsonToStr num gap (indent ++ gap) m.2)) =
          members.map fun m => (m.1, jsonToStr num gap (indent ++ gap) m.2) := by
        rw [List.map_map]
        exact List.map_congr_left fun m hm => congrArg (Prod.mk m.1) (ih m hm _)
      rw [memberTexts_eq, memberTexts_eq, ← enumerate_map, enumerate_enumerate, hsame]
    rw [enumerated, enumeratedMembers_eq, jsonToStr, jsonToStr, htexts]
    simp only [enumerate_eq_nil, List.map_eq_nil_iff]

/-- What is read from a text that is accepted is written as a text that is accepted, and read from
that with its members in order. After that nothing changes. -/
theorem jsJsonStringify_of_jsParseJson {stack : ℕ} {p : Bytes} {v : JsonTree ν}
    (h : jsParseJson num stack p = .ok v)
    (hnumbers : ∀ n, JsonTree.Part (.number n) v → Reads num n) {space : Indent}
    (hspace : space.IsBlank) :
    jsJsonParse num stack (jsJsonStringify num space v) = .ok (enumerated num v) ∧
      jsJsonStringify num space (enumerated num v) = jsJsonStringify num space v := by
  obtain ⟨t, ⟨w, q, w', -, -, hq, -⟩, rfl⟩ := text_of_jsParseJson h
  have htext := text_stringify hnumbers hspace ((depth_settled t).trans hq.depth_le)
  refine ⟨?_, jsonToStr_enumerated _ _ _⟩
  rw [jsJsonParse, jsParseJson_of_text htext, settled_enumerated _ (distinct_settled t)]

/-! ## A text and its value -/

/-- Natural numbers in decimal digits. -/
def decimals : Numbers ℕ where
  strtod p := p.foldl (fun n d => n * 10 + (d.toNat - 0x30)) 0
  toText n := (Nat.toDigits 10 n).map byte
  isFinite _ := true

/-- Members whose names are not in order, and half a pair. -/
def sample : JsonTree ℕ :=
  .object [(Utf16.ofAscii "b", .array [.number 7, .null]), (Utf16.ofAscii "0", .string [0xd800])]

/-- The members as they are listed in a text. -/
def listed : JsonTree ℕ :=
  .object [(Utf16.ofAscii "b", .null), (Utf16.ofAscii "0", .string [0xd800]),
    (Utf16.ofAscii "b", .array [.number 7, .null])]

/-- The text. -/
def listedText : Bytes :=
  ascii "\x7b\"b\":null,\"0\":\"\\ud800\",\"b\":[7,null]\x7d"

theorem isNumber_seven : JsonText.IsNumber (ascii "7") := by
  refine ⟨[], [byte '7'], [], [], rfl, .inl rfl, ?_, .inl rfl, .inl rfl⟩
  exact .inr ⟨byte '7', [], rfl, by decide, by decide, nofun⟩

theorem reads_seven : Reads decimals 7 :=
  fun _ => ⟨isNumber_seven, rfl⟩

theorem reads_sample (n : ℕ) (h : JsonTree.Part (.number n) sample) : Reads decimals n := by
  obtain - | - | ⟨hm, hpart⟩ := h
  simp only [List.mem_cons, List.not_mem_nil, or_false] at hm
  rcases hm with rfl | rfl
  · obtain - | ⟨hv, hpart⟩ := hpart
    simp only [List.mem_cons, List.not_mem_nil, or_false] at hv
    rcases hv with rfl | rfl
    · cases hpart
      exact reads_seven
    · cases hpart
  · cases hpart

theorem distinct_sample : sample.Distinct := by
  intro members h
  obtain - | - | ⟨hm, hpart⟩ := h
  · decide
  simp only [List.mem_cons, List.not_mem_nil, or_false] at hm
  rcases hm with rfl | rfl
  · obtain - | ⟨hv, hpart⟩ := hpart
    simp only [List.mem_cons, List.not_mem_nil, or_false] at hv
    rcases hv with rfl | rfl <;> cases hpart
  · cases hpart

theorem jsJsonParse_jsJsonStringify_sample :
    (∀ n, JsonTree.Part (.number n) sample → Reads decimals n) ∧ sample.Distinct ∧
      (Indent.number 2).IsBlank ∧ sample.depth ≤ 3 ∧
      jsJsonParse decimals 3 (jsJsonStringify decimals (.number 2) sample) =
        .ok (enumerated decimals sample) := by
  have hspace : (Indent.number 2).IsBlank := trivial
  have hstack : sample.depth ≤ 3 := by decide
  exact ⟨reads_sample, distinct_sample, hspace, hstack,
    jsJsonParse_jsJsonStringify reads_sample distinct_sample hspace hstack⟩

/-- The text lists the members. -/
theorem text_listed :
    JsonText.Text (JsonText.standard decimals.strtod) 3 listedText listed := by
  have hspace := JsonText.space_nil
  have hb : JsonText.Chars (ascii "b") (Utf16.ofAscii "b") :=
    .char (c := 0x62) (by decide) (by decide) (by decide) (by decide) .nil
  have hzero : JsonText.Chars (ascii "0") (Utf16.ofAscii "0") :=
    .char (c := 0x30) (by decide) (by decide) (by decide) (by decide) .nil
  have hd : JsonText.hexValue (byte 'd') = some 0xd := by decide
  have h8 : JsonText.hexValue (byte '8') = some 0x8 := by decide
  have h0 : JsonText.hexValue (byte '0') = some 0x0 := by decide
  have hhalf : JsonText.Chars (ascii "\\ud800") [0xd800] := .hex hd h8 h0 h0 .nil
  have hseven : JsonText.Value (JsonText.standard decimals.strtod) 1 (ascii "7") (.number 7) :=
    .number ⟨isNumber_seven, rfl⟩
  have harray : JsonText.Value (JsonText.standard decimals.strtod) 2 (ascii "[7,null]")
      (.array [.number 7, .null]) :=
    .array (.more hspace hseven hspace (.one hspace .null hspace))
  exact ⟨[], _, [], rfl, hspace, .object (.more hspace hb hspace hspace .null hspace
    (.more hspace hzero hspace hspace (.string hhalf) hspace
      (.one hspace hb hspace hspace harray hspace))), hspace⟩

theorem jsJsonStringify_of_jsParseJson_listed :
    jsParseJson decimals 3 listedText = .ok sample ∧
      (∀ n, JsonTree.Part (.number n) sample → Reads decimals n) ∧ (Indent.number 2).IsBlank ∧
      jsJsonParse decimals 3 (jsJsonStringify decimals (.number 2) sample) =
        .ok (enumerated decimals sample) ∧
      jsJsonStringify decimals (.number 2) (enumerated decimals sample) =
        jsJsonStringify decimals (.number 2) sample := by
  have htext : jsParseJson decimals 3 listedText = .ok sample := jsParseJson_of_text text_listed
  have hspace : (Indent.number 2).IsBlank := trivial
  exact ⟨htext, reads_sample, hspace, jsJsonStringify_of_jsParseJson htext reads_sample hspace⟩

end QuickJs

end TinyKvm
