import TinyKvm.Chase
import TinyKvm.Crc32
import TinyKvm.Keyed
import Mathlib.Data.FinEnum

/-!
# The static site

`static_builder.py` turns an alias list and a tree of files into C : every file
is embedded, and `static_site(arg)` switches on the CRC-32 of its argument. The
case of an alias sets the CRC to that of the alias's target and restarts the
switch, the case of a file sends the file. The builder computes the labels with
`zlib.crc32`, the generated code computes its argument's with `crc32.h`.

A run of the switch is a chase of the alias cases, ended by what the case it
stops at sends (`run_eq_chase`), and when the generated C compiles an alias case
is taken exactly for a line of the alias list (`jump_iff`). Nothing compares the
paths themselves, and nothing follows the aliases ahead of time. So a file is
sent for exactly the arguments whose CRC-32 leads to the file's
(`static_site_sound`), which are more than the paths that lead to it
(`static_site_not_sound`), and the restarts end exactly if the alias lines that
follow from the argument's CRC-32 are free of a cycle (`static_site_ends_iff`).
Where CRC-32 tells the configured strings apart and no alias leads back to
itself, the switch sends what the alias list says (`static_site_resolves`).
-/

namespace TinyKvm

open Relation StateTransition

/-- A file under the builder's location : its path relative to it, and its content. -/
structure SourceFile where
  rel : Bytes
  content : Bytes
  deriving DecidableEq

/-- What the builder reads : the lines of `aliases.txt`, each split into its words, and the
files in the order of `os.walk`. -/
structure SiteSource where
  lines : List (List Bytes)
  files : List SourceFile

/-- A case of the generated switch. An alias restarts it, a file is sent as the resource with its
number. -/
inductive SiteCase where
  | restart (label target : BitVec 32)
  | respond (label : BitVec 32) (ctype : Bytes) (resource : ℕ)
  deriving DecidableEq

/-- The CRC-32 a case is labelled with. -/
def SiteCase.label : SiteCase → BitVec 32
  | restart label _ => label
  | respond label _ _ => label

/-- The generated C : the embedded resources and the cases of the switch. -/
structure SiteProgram where
  binaries : List Bytes
  cases : List SiteCase
  deriving DecidableEq

/-- The C compiles : no two cases of the switch have the same label. -/
def SiteProgram.Compiles (g : SiteProgram) : Prop :=
  (g.cases.map SiteCase.label).Nodup

instance (g : SiteProgram) : Decidable g.Compiles :=
  inferInstanceAs (Decidable (List.Nodup _))

/-! ## The builder -/

/-- The name and the target of an alias line; `none` where the builder fails for want of a
word. Further words are ignored. -/
def aliasLine : List Bytes → Option (Bytes × Bytes)
  | name :: dest :: _ => some (name, dest)
  | _ => none

def aliasCase (a : Bytes × Bytes) : SiteCase :=
  .restart (zlibCrc32 a.1) (zlibCrc32 a.2)

/-- The name of a file in its directory. -/
def SourceFile.name (f : SourceFile) : Bytes :=
  (f.rel.reverse.takeWhile (· ≠ 0x2F)).reverse

/-- The path a file is served under. -/
def SourceFile.path (f : SourceFile) : Bytes :=
  ascii "/" ++ f.rel

variable (guessType : Bytes → Option Bytes)

/-- The mimetype deduction. What it compares with ".css" and ".woff2" is the pair of root and
extension, which equals neither, so the guess decides. -/
def mimetype (f : SourceFile) : Bytes :=
  (guessType f.name).getD (ascii "text/plain")

def fileCase (bins : ℕ) (f : SourceFile) : SiteCase :=
  .respond (zlibCrc32 f.path) (mimetype guessType f) bins

/-- `static_builder.py` : the program it writes, `none` if it fails on an alias line. -/
def SiteSource.build (s : SiteSource) : Option SiteProgram := do
  let aliases ← s.lines.mapM aliasLine
  return ⟨s.files.map SourceFile.content,
    aliases.map aliasCase ++ s.files.mapIdx (fileCase guessType)⟩

/-! ## The generated code -/

/-- A resource sent, by its number and as a response. -/
structure Sent where
  resource : ℕ
  response : Response
  deriving DecidableEq

namespace SiteProgram

/-- The switch from `restart`, entered at most `n` times : what it sends before it returns. -/
def run (g : SiteProgram) : ℕ → BitVec 32 → Option (List Sent)
  | 0, _ => none
  | n + 1, crc =>
    match g.cases.find? fun c => c.label = crc with
    | some (.restart _ target) => g.run n target
    | some (.respond _ ctype resource) =>
      some [⟨resource, 200, ctype, g.binaries.getD resource []⟩]
    | none => some []

/-- `static_site(arg)`, with at most `n` entries of the switch. -/
def staticSite (g : SiteProgram) (n : ℕ) (arg : Bytes) : Option (List Sent) :=
  g.run n (crc32 arg)

/-- `static_site(arg)` returns, having sent `sent`. -/
def Serves (g : SiteProgram) (arg : Bytes) (sent : List Sent) : Prop :=
  ∃ n, g.staticSite n arg = some sent

/-- The restart of an alias case. -/
def jump (g : SiteProgram) (crc : BitVec 32) : Option (BitVec 32) :=
  match g.cases.find? fun c => c.label = crc with
  | some (.restart _ target) => some target
  | _ => none

/-- What the switch sends without a restart. -/
def send (g : SiteProgram) (crc : BitVec 32) : List Sent :=
  match g.cases.find? fun c => c.label = crc with
  | some (.respond _ ctype resource) => [⟨resource, 200, ctype, g.binaries.getD resource []⟩]
  | _ => []

variable (g : SiteProgram)

/-- The switch follows the alias cases, then sends what the case it ends at sends. -/
theorem run_eq_chase : ∀ (n : ℕ) (crc : BitVec 32),
    g.run n crc = (chase g.jump n crc).map g.send
  | 0, _ => rfl
  | n + 1, crc => by
    unfold run chase jump
    cases h : g.cases.find? fun c => c.label = crc with
    | none => simp [send, h]
    | some c =>
      cases c with
      | restart label target => exact run_eq_chase n target
      | respond label ctype resource => simp [send, h]

theorem serves_iff (arg : Bytes) (sent : List Sent) :
    g.Serves arg sent ↔ ∃ crc ∈ eval g.jump (crc32 arg), g.send crc = sent := by
  simp only [Serves, staticSite, run_eq_chase, Option.map_eq_some_iff]
  constructor
  · rintro ⟨n, crc, hcrc, hs⟩
    exact ⟨crc, mem_eval_of_chase hcrc, hs⟩
  · rintro ⟨crc, hcrc, hs⟩
    obtain ⟨n, hn⟩ := exists_chase_iff.2 hcrc
    exact ⟨n, crc, hn, hs⟩

/-- In a switch that compiles, a CRC finds the one case labelled with it. -/
theorem find?_label_iff {g : SiteProgram} (hc : g.Compiles) {crc : BitVec 32} {c : SiteCase} :
    (g.cases.find? fun d => d.label = crc) = some c ↔ c ∈ g.cases ∧ c.label = crc :=
  find?_key_iff hc

theorem jump_eq_some_iff {g : SiteProgram} (hc : g.Compiles) {c d : BitVec 32} :
    g.jump c = some d ↔ .restart c d ∈ g.cases := by
  constructor
  · intro h
    unfold jump at h
    split at h
    · next label target hf =>
      obtain ⟨hmem, rfl⟩ := (find?_label_iff hc).1 hf
      obtain rfl := Option.some.inj h
      exact hmem
    · cases h
  · intro h
    have hf : (g.cases.find? fun e => e.label = c) = some (.restart c d) :=
      (find?_label_iff hc).2 ⟨h, rfl⟩
    rw [jump, hf]

end SiteProgram

/-! ## What the builder wrote -/

namespace SiteSource

/-- The alias list. -/
def aliases (s : SiteSource) : List (Bytes × Bytes) :=
  s.lines.filterMap aliasLine

/-- The target of an alias name. -/
def follow (s : SiteSource) (p : Bytes) : Option Bytes :=
  (s.aliases.find? fun a => a.1 = p).map Prod.snd

/-- A line of the alias list leads from the CRC-32 of its name to that of its target. -/
def AliasStep (s : SiteSource) (c d : BitVec 32) : Prop :=
  ∃ a ∈ s.aliases, zlibCrc32 a.1 = c ∧ zlibCrc32 a.2 = d

end SiteSource

theorem filterMap_of_mapM {α β : Type} {f : α → Option β} :
    ∀ {xs : List α} {ys : List β}, xs.mapM f = some ys → xs.filterMap f = ys
  | [], ys, h => by simpa using h
  | x :: xs, ys, h => by
    simp only [List.mapM_cons, Option.bind_eq_bind, Option.bind_eq_some_iff] at h
    obtain ⟨y, hy, zs, hzs, h⟩ := h
    obtain rfl := Option.some.inj h
    rw [List.filterMap_cons_some hy, filterMap_of_mapM hzs]

variable {guessType} {s : SiteSource} {g : SiteProgram}

theorem build_eq (hb : s.build guessType = some g) :
    g = ⟨s.files.map SourceFile.content,
      s.aliases.map aliasCase ++ s.files.mapIdx (fileCase guessType)⟩ := by
  simp only [SiteSource.build, Option.bind_eq_bind, Option.bind_eq_some_iff] at hb
  obtain ⟨aliases, ha, h⟩ := hb
  obtain rfl := Option.some.inj h
  rw [SiteSource.aliases, filterMap_of_mapM ha]

theorem restart_mem_cases_iff (hb : s.build guessType = some g) {c d : BitVec 32} :
    .restart c d ∈ g.cases ↔ s.AliasStep c d := by
  simp [build_eq hb, aliasCase, fileCase, SiteSource.AliasStep, List.mem_mapIdx]

theorem respond_mem_cases_iff (hb : s.build guessType = some g) {c : BitVec 32} {ctype : Bytes}
    {i : ℕ} : .respond c ctype i ∈ g.cases ↔
      ∃ f, s.files[i]? = some f ∧ zlibCrc32 f.path = c ∧ mimetype guessType f = ctype := by
  rw [build_eq hb]
  simp only [List.mem_append, List.mem_map, List.mem_mapIdx, aliasCase, fileCase]
  constructor
  · rintro (⟨_, _, h⟩ | ⟨j, hj, h⟩)
    · cases h
    · cases h
      exact ⟨_, List.getElem?_eq_getElem hj, rfl, rfl⟩
  · rintro ⟨f, hf, rfl, rfl⟩
    obtain ⟨hi, rfl⟩ := List.getElem?_eq_some_iff.1 hf
    exact .inr ⟨i, hi, rfl⟩

/-- An alias case is taken exactly for a line of the alias list. -/
theorem jump_iff (hb : s.build guessType = some g) (hc : g.Compiles) {c d : BitVec 32} :
    d ∈ g.jump c ↔ s.AliasStep c d :=
  (SiteProgram.jump_eq_some_iff hc).trans (restart_mem_cases_iff hb)

/-- The resource of a file, sent. -/
def SourceFile.sent (guessType : Bytes → Option Bytes) (i : ℕ) (f : SourceFile) : Sent :=
  ⟨i, 200, mimetype guessType f, f.content⟩

theorem binaries_getD (hb : s.build guessType = some g) {i : ℕ} {f : SourceFile}
    (hf : s.files[i]? = some f) : g.binaries.getD i [] = f.content := by
  simp [build_eq hb, List.getD_eq_getElem?_getD, hf]

/-- The switch sends a file at the CRC-32 of its path. -/
theorem send_of_file (hb : s.build guessType = some g) (hc : g.Compiles) {i : ℕ} {f : SourceFile}
    (hf : s.files[i]? = some f) : g.send (zlibCrc32 f.path) = [f.sent guessType i] := by
  have hmem := (respond_mem_cases_iff hb).2 ⟨f, hf, rfl, rfl⟩
  have hfind : (g.cases.find? fun c => c.label = zlibCrc32 f.path) = some _ :=
    (SiteProgram.find?_label_iff hc).2 ⟨hmem, rfl⟩
  rw [SiteProgram.send, hfind]
  simp only [binaries_getD hb hf, SourceFile.sent]

/-- What the switch sends is a file, at the CRC-32 of its path. -/
theorem send_cases (hb : s.build guessType = some g) (hc : g.Compiles) (crc : BitVec 32) :
    g.send crc = [] ∨ ∃ i, ∃ f : SourceFile, s.files[i]? = some f ∧
      zlibCrc32 f.path = crc ∧ g.send crc = [f.sent guessType i] := by
  unfold SiteProgram.send
  split
  · next label ctype i hf =>
    obtain ⟨hmem, rfl⟩ := (SiteProgram.find?_label_iff hc).1 hf
    obtain ⟨f, hi, hcrc, rfl⟩ := (respond_mem_cases_iff hb).1 hmem
    exact .inr ⟨i, f, hi, hcrc, by rw [binaries_getD hb hi, SourceFile.sent]⟩
  · exact .inl rfl

theorem jump_rel_eq (hb : s.build guessType = some g) (hc : g.Compiles) :
    (fun c d => d ∈ g.jump c) = s.AliasStep := by
  funext c d
  exact propext (jump_iff hb hc)

theorem reaches_jump_eq (hb : s.build guessType = some g) (hc : g.Compiles) :
    Reaches g.jump = ReflTransGen s.AliasStep :=
  congrArg ReflTransGen (jump_rel_eq hb hc)

theorem reaches₁_jump_eq (hb : s.build guessType = some g) (hc : g.Compiles) :
    Reaches₁ g.jump = TransGen s.AliasStep :=
  congrArg TransGen (jump_rel_eq hb hc)

/-! ## Which arguments a file is sent for -/

/-- What `static_site(arg)` sends is a file whose CRC-32 the alias lines lead to from that of
`arg`. -/
theorem static_site_sound (hb : s.build guessType = some g) (hc : g.Compiles) {arg : Bytes}
    {sent : List Sent} (h : g.Serves arg sent) {x : Sent} (hx : x ∈ sent) :
    ∃ f, s.files[x.resource]? = some f ∧ x = f.sent guessType x.resource ∧
      ReflTransGen s.AliasStep (crc32 arg) (zlibCrc32 f.path) := by
  obtain ⟨crc, hcrc, rfl⟩ := (g.serves_iff arg sent).1 h
  rcases send_cases hb hc crc with hs | ⟨i, f, hf, rfl, hs⟩
  · rw [hs] at hx
    exact absurd hx List.not_mem_nil
  · rw [hs] at hx
    obtain rfl := List.mem_singleton.1 hx
    refine ⟨f, hf, rfl, ?_⟩
    rw [← reaches_jump_eq hb hc]
    exact (mem_eval.1 hcrc).1

/-- A source whose aliases are those of the repository, with one file, the page at
"/index.html". -/
def wwwSource : SiteSource where
  lines := [[ascii "/", ascii "/index.html"], [ascii "/j", ascii "/index.html"]]
  files := [⟨ascii "index.html", ascii "<html>"⟩]

/-- The guess for the page's name. -/
def guessHtml (name : Bytes) : Option Bytes :=
  if name = ascii "index.html" then some (ascii "text/html") else none

/-- What the builder writes for it. -/
def wwwProgram : SiteProgram where
  binaries := [ascii "<html>"]
  cases := [.restart 0x79D3D2D4 0xEA224B42, .restart 0xFEA2A2D4 0xEA224B42,
    .respond 0xEA224B42 (ascii "text/html") 0]

/-- The page as it is sent. -/
def wwwPage : Sent :=
  ⟨0, 200, ascii "text/html", ascii "<html>"⟩

theorem build_wwwSource : wwwSource.build guessHtml = some wwwProgram := by
  decide +kernel

/-- The alias "/j" sends the page, and its line leads there. -/
theorem static_site_sound_www :
    ∃ f, wwwSource.files[wwwPage.resource]? = some f ∧
      wwwPage = f.sent guessHtml wwwPage.resource ∧
      ReflTransGen wwwSource.AliasStep (crc32 (ascii "/j")) (zlibCrc32 f.path) :=
  static_site_sound build_wwwSource (by decide)
    (show wwwProgram.Serves (ascii "/j") [wwwPage] from ⟨2, by decide +kernel⟩)
    (List.mem_singleton_self wwwPage)

/-- What is sent for `arg` is a file whose path `arg` is, or leads to through the alias
list. -/
def RoutesSoundly (s : SiteSource) (g : SiteProgram) (arg : Bytes) : Prop :=
  ∀ sent, g.Serves arg sent → ∀ x ∈ sent, ∀ f, s.files[x.resource]? = some f →
    Reaches s.follow arg f.path

/-- A string with the CRC-32 of "/index.html". -/
def collision : Bytes :=
  ascii "/hfknlsv"

/-- A source whose only alias leads to that string, and not to the page. -/
def straySource : SiteSource where
  lines := [[ascii "/j", collision]]
  files := wwwSource.files

/-- What the builder writes for it. -/
def strayProgram : SiteProgram where
  binaries := wwwProgram.binaries
  cases := [.restart 0xFEA2A2D4 0xEA224B42, .respond 0xEA224B42 (ascii "text/html") 0]

/-- The page is sent for a string that is neither its path nor an alias, and for an alias that
does not lead to it. -/
theorem static_site_not_sound :
    (wwwSource.build guessHtml = some wwwProgram ∧ wwwProgram.Compiles ∧
      ¬RoutesSoundly wwwSource wwwProgram collision) ∧
    (straySource.build guessHtml = some strayProgram ∧ strayProgram.Compiles ∧
      ¬RoutesSoundly straySource strayProgram (ascii "/j")) := by
  refine ⟨⟨build_wwwSource, by decide, fun h => ?_⟩, ⟨by decide +kernel, by decide, fun h => ?_⟩⟩
  · have hreach := h [wwwPage] ⟨1, by decide +kernel⟩ wwwPage (List.mem_singleton_self _)
      ⟨ascii "index.html", ascii "<html>"⟩ rfl
    have hchase : chase wwwSource.follow 1 collision = some collision := by decide
    exact absurd (eq_of_chase hchase hreach (by decide)) (by decide)
  · have hreach := h [wwwPage] ⟨2, by decide +kernel⟩ wwwPage (List.mem_singleton_self _)
      ⟨ascii "index.html", ascii "<html>"⟩ rfl
    have hchase : chase straySource.follow 2 (ascii "/j") = some collision := by decide
    exact absurd (eq_of_chase hchase hreach (by decide)) (by decide)

/-! ## When the restarts end -/

theorem serves_iff_no_cycle (g : SiteProgram) (arg : Bytes) :
    (∃ sent, g.Serves arg sent) ↔
      ¬∃ c, Reaches g.jump (crc32 arg) c ∧ Reaches₁ g.jump c c := by
  rw [← ends_iff_no_cycle (Set.toFinite _)]
  simp only [SiteProgram.serves_iff, ← exists_chase_iff]
  constructor
  · rintro ⟨_, crc, ⟨n, hn⟩, -⟩
    exact ⟨n, crc, hn⟩
  · rintro ⟨n, crc, hn⟩
    exact ⟨_, crc, ⟨n, hn⟩, rfl⟩

/-- `static_site(arg)` returns exactly when no cycle of alias lines follows from the CRC-32
of `arg`. -/
theorem static_site_ends_iff (hb : s.build guessType = some g) (hc : g.Compiles) (arg : Bytes) :
    (∃ sent, g.Serves arg sent) ↔
      ¬∃ c, ReflTransGen s.AliasStep (crc32 arg) c ∧ TransGen s.AliasStep c c := by
  rw [serves_iff_no_cycle, reaches_jump_eq hb hc, reaches₁_jump_eq hb hc]

/-- Nothing leads back to "/j", so its request ends. -/
theorem static_site_ends_www :
    (∃ sent, wwwProgram.Serves (ascii "/j") sent) ↔
      ¬∃ c, ReflTransGen wwwSource.AliasStep (crc32 (ascii "/j")) c ∧
        TransGen wwwSource.AliasStep c c :=
  static_site_ends_iff build_wwwSource (by decide) (ascii "/j")

/-- Two aliases that lead to each other. -/
def loopSource : SiteSource where
  lines := [[ascii "/a", ascii "/b"], [ascii "/b", ascii "/a"]]
  files := []

/-- What the builder writes for them. -/
def loopProgram : SiteProgram where
  binaries := []
  cases := [.restart 0x69707B5C 0xF0792AE6, .restart 0xF0792AE6 0x69707B5C]

/-- The builder accepts them, the C compiles, and the request for one never returns. -/
theorem static_site_not_ends :
    loopSource.build guessHtml = some loopProgram ∧ loopProgram.Compiles ∧
      ¬∃ sent, loopProgram.Serves (ascii "/a") sent := by
  refine ⟨by decide +kernel, by decide, fun h => ?_⟩
  have hcrc : crc32 (ascii "/a") = 0x69707B5C := by decide +kernel
  have hab : loopProgram.jump 0x69707B5C = some 0xF0792AE6 := by decide
  have hba : loopProgram.jump 0xF0792AE6 = some 0x69707B5C := by decide
  exact (serves_iff_no_cycle loopProgram (ascii "/a")).1 h
    ⟨0x69707B5C, hcrc ▸ .refl, .head hab (.single hba)⟩

/-! ## What the alias list says -/

namespace SiteSource

/-- The alias names, the alias targets and the paths of the files. -/
def strings (s : SiteSource) : List Bytes :=
  s.aliases.map Prod.fst ++ s.aliases.map Prod.snd ++ s.files.map SourceFile.path

/-- No alias leads back to itself, and CRC-32 tells the configured strings apart. -/
structure Resolvable (s : SiteSource) : Prop where
  acyclic : ∀ p, ¬Reaches₁ s.follow p p
  distinct : ∀ x ∈ s.strings, ∀ y ∈ s.strings, zlibCrc32 x = zlibCrc32 y → x = y

theorem name_mem_strings {a : Bytes × Bytes} (h : a ∈ s.aliases) : a.1 ∈ s.strings := by
  simp only [strings, List.mem_append, List.mem_map]
  exact .inl (.inl ⟨a, h, rfl⟩)

theorem target_mem_strings {a : Bytes × Bytes} (h : a ∈ s.aliases) : a.2 ∈ s.strings := by
  simp only [strings, List.mem_append, List.mem_map]
  exact .inl (.inr ⟨a, h, rfl⟩)

theorem path_mem_strings {f : SourceFile} (h : f ∈ s.files) : f.path ∈ s.strings := by
  simp only [strings, List.mem_append, List.mem_map]
  exact .inr ⟨f, h, rfl⟩

/-- When the C compiles, no alias name repeats, so a name has the target of its line. -/
theorem follow_eq_some_iff (hb : s.build guessType = some g) (hc : g.Compiles) {p q : Bytes} :
    s.follow p = some q ↔ (p, q) ∈ s.aliases := by
  have hnodup : (s.aliases.map Prod.fst).Nodup := by
    rw [SiteProgram.Compiles, build_eq hb, List.map_append, List.map_map] at hc
    refine List.Nodup.of_map zlibCrc32 ?_
    rw [List.map_map]
    exact hc.of_append_left
  rw [follow, Option.map_eq_some_iff]
  constructor
  · rintro ⟨a, ha, rfl⟩
    obtain ⟨hmem, rfl⟩ := (find?_key_iff hnodup).1 ha
    exact hmem
  · exact fun h => ⟨(p, q), (find?_key_iff hnodup).2 ⟨h, rfl⟩, rfl⟩

theorem follow_mem_strings {p q : Bytes} (h : s.follow p = some q) : q ∈ s.strings := by
  obtain ⟨a, ha, rfl⟩ := Option.map_eq_some_iff.1 h
  exact target_mem_strings (List.mem_of_find?_eq_some ha)

theorem reaches_mem_strings {p q : Bytes} (hp : p ∈ s.strings) (h : Reaches s.follow p q) :
    q ∈ s.strings := by
  induction h with
  | refl => exact hp
  | tail _ hq _ => exact follow_mem_strings hq

/-- On the configured strings, the restarts of the switch follow the alias list. -/
theorem jump_zlibCrc32 (hb : s.build guessType = some g) (hc : g.Compiles) (hr : s.Resolvable)
    {p : Bytes} (hp : p ∈ s.strings) : g.jump (zlibCrc32 p) = (s.follow p).map zlibCrc32 := by
  refine Option.ext fun d => ?_
  rw [← Option.mem_def, jump_iff hb hc, Option.map_eq_some_iff]
  constructor
  · rintro ⟨a, ha, hname, rfl⟩
    obtain rfl := hr.distinct _ (name_mem_strings ha) _ hp hname
    exact ⟨a.2, (follow_eq_some_iff hb hc).2 ha, rfl⟩
  · rintro ⟨q, hq, rfl⟩
    exact ⟨(p, q), (follow_eq_some_iff hb hc).1 hq, rfl, rfl⟩

/-- From a configured string the alias list leads to an end, and the switch to its CRC-32. -/
theorem exists_end (hb : s.build guessType = some g) (hc : g.Compiles) (hr : s.Resolvable)
    {p : Bytes} (hp : p ∈ s.strings) :
    ∃ e ∈ eval s.follow p, e ∈ s.strings ∧ zlibCrc32 e ∈ eval g.jump (zlibCrc32 p) := by
  have hfin : {q | Reaches s.follow p q}.Finite :=
    s.strings.finite_toSet.subset fun q hq => reaches_mem_strings hp hq
  obtain ⟨e, he⟩ := exists_mem_eval_of_no_cycle hfin fun q _ => hr.acyclic q
  obtain ⟨n, hn⟩ := exists_chase_iff.2 he
  have hmap := chase_map (S := {x | x ∈ s.strings}) (fun x hx => jump_zlibCrc32 hb hc hr hx)
    (fun x _ y hy => follow_mem_strings hy) n hp
  rw [hn] at hmap
  exact ⟨e, he, reaches_mem_strings hp (mem_eval.1 he).1, mem_eval_of_chase hmap⟩

end SiteSource

namespace SiteProgram

theorem serves_unique (g : SiteProgram) {arg : Bytes} {sent sent' : List Sent}
    (h : g.Serves arg sent) (h' : g.Serves arg sent') : sent' = sent := by
  obtain ⟨crc, hcrc, rfl⟩ := (g.serves_iff arg sent).1 h
  obtain ⟨crc', hcrc', rfl⟩ := (g.serves_iff arg sent').1 h'
  rw [Part.mem_unique hcrc hcrc']

theorem serves_iff_eq (g : SiteProgram) {arg : Bytes} {sent : List Sent} (h : g.Serves arg sent)
    (sent' : List Sent) : g.Serves arg sent' ↔ sent' = sent :=
  ⟨g.serves_unique h, fun h' => h' ▸ h⟩

theorem serves_of_not_label (g : SiteProgram) {arg : Bytes}
    (h : crc32 arg ∉ g.cases.map SiteCase.label) : g.Serves arg [] := by
  have hf : (g.cases.find? fun c => c.label = crc32 arg) = none :=
    List.find?_eq_none.2 fun c hmem hlabel =>
      h (List.mem_map.2 ⟨c, hmem, of_decide_eq_true hlabel⟩)
  exact ⟨1, by rw [staticSite, run, hf]⟩

end SiteProgram

/-- For an alias name or the path of a file, the switch sends the file the alias list leads
to, once, and nothing if there is no such file. For an argument whose CRC-32 is not a label it
sends nothing. -/
theorem static_site_resolves (hb : s.build guessType = some g) (hc : g.Compiles)
    (hr : s.Resolvable) :
    (∀ p : CString, p.bytes ∈ s.aliases.map Prod.fst ∨ p.bytes ∈ s.files.map SourceFile.path →
      ∃ e ∈ eval s.follow p.bytes,
        (∀ (i : ℕ) (f : SourceFile), s.files[i]? = some f → f.path = e →
          ∀ sent, g.Serves p.bytes sent ↔ sent = [f.sent guessType i]) ∧
        ((∀ f ∈ s.files, f.path ≠ e) → ∀ sent, g.Serves p.bytes sent ↔ sent = [])) ∧
    ∀ p : Bytes, crc32 p ∉ g.cases.map SiteCase.label →
      ∀ sent, g.Serves p sent ↔ sent = [] := by
  refine ⟨fun p hp => ?_, fun _ hp => g.serves_iff_eq (g.serves_of_not_label hp)⟩
  have hmem : p.bytes ∈ s.strings := by
    simp only [SiteSource.strings, List.mem_append]
    exact hp.imp .inl id
  obtain ⟨e, he, hstr, hend⟩ := SiteSource.exists_end hb hc hr hmem
  have hcrc : crc32 p.bytes = zlibCrc32 p.bytes := crc32Rec_eq_foldl _ p.nonzero
  have hserves : g.Serves p.bytes (g.send (zlibCrc32 e)) :=
    (g.serves_iff _ _).2 ⟨_, hcrc ▸ hend, rfl⟩
  refine ⟨e, he, fun i f hf hpath => ?_, fun hno => ?_⟩
  · rw [← hpath, send_of_file hb hc hf] at hserves
    exact g.serves_iff_eq hserves
  · rcases send_cases hb hc (zlibCrc32 e) with hs | ⟨i, f, hf, hlabel, -⟩
    · rw [hs] at hserves
      exact g.serves_iff_eq hserves
    · have hf := List.mem_of_getElem? hf
      exact absurd (hr.distinct _ (SiteSource.path_mem_strings hf) _ hstr hlabel) (hno f hf)

theorem wwwSource_resolvable : wwwSource.Resolvable where
  acyclic := by
    intro p h
    have hends : ∀ a ∈ wwwSource.aliases, wwwSource.follow a.2 = none := by decide
    obtain ⟨q, hpq, hqp⟩ := TransGen.head'_iff.1 h
    obtain ⟨a, ha, rfl⟩ := Option.map_eq_some_iff.1 hpq
    have hnone := hends a (List.mem_of_find?_eq_some ha)
    rw [(eval_maximal (mem_eval.2 ⟨.refl, hnone⟩)).1 hqp] at hpq
    rw [Option.mem_def, hnone] at hpq
    cases hpq
  distinct := by decide +kernel

/-- The aliases of the repository and the page are sent as the alias list says. -/
theorem static_site_resolves_www :
    (∀ p : CString, p.bytes ∈ wwwSource.aliases.map Prod.fst ∨
        p.bytes ∈ wwwSource.files.map SourceFile.path →
      ∃ e ∈ eval wwwSource.follow p.bytes,
        (∀ (i : ℕ) (f : SourceFile), wwwSource.files[i]? = some f → f.path = e →
          ∀ sent, wwwProgram.Serves p.bytes sent ↔ sent = [f.sent guessHtml i]) ∧
        ((∀ f ∈ wwwSource.files, f.path ≠ e) →
          ∀ sent, wwwProgram.Serves p.bytes sent ↔ sent = [])) ∧
    ∀ p : Bytes, crc32 p ∉ wwwProgram.cases.map SiteCase.label →
      ∀ sent, wwwProgram.Serves p sent ↔ sent = [] :=
  static_site_resolves build_wwwSource (by decide) wwwSource_resolvable

end TinyKvm
