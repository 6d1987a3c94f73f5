import TinyKvm.StaticSite

/-!
# Paths that differ in four bytes

The switch of `static_site` tells paths apart by their CRC-32 only. Of two paths
that differ inside one window of four bytes it always can : their CRC-32 differ,
whatever stands before and after the window. So the two never share a label, a
request for one does not take the case of the other, and where both are embedded
each is sent its own file (`crc32_separates`).
-/

namespace TinyKvm

open ReflectedCrc

/-- Strings that differ inside one window of up to four bytes have different labels. -/
theorem zlibCrc32_window_ne {w₁ w₂ : Bytes} (hlen : w₁.length = w₂.length)
    (hle : w₁.length ≤ 4) (hne : w₁ ≠ w₂) (p q : Bytes) :
    zlibCrc32 (p ++ w₁ ++ q) ≠ zlibCrc32 (p ++ w₂ ++ q) := by
  have hpoly : crc32Poly.getLsbD (32 - 1) = true := by decide
  have hfit : 8 * w₁.length ≤ 32 := by omega
  intro h
  exact foldl_window_ne hpoly hlen hfit hne p q _ ((BitVec.xor_left_inj _).1 h)

theorem CString.nonzero_append {x y z : CString} :
    ∀ b ∈ x.bytes ++ y.bytes ++ z.bytes, b ≠ 0 := by
  intro b hb
  rcases List.mem_append.1 hb with hb | hb
  · rcases List.mem_append.1 hb with hb | hb
    · exact x.nonzero b hb
    · exact y.nonzero b hb
  · exact z.nonzero b hb

/-- A file is sent for its own path, without a restart. -/
theorem serves_path {guessType : Bytes → Option Bytes} {s : SiteSource} {g : SiteProgram}
    (hb : s.build guessType = some g) (hc : g.Compiles) {i : ℕ} {f : SourceFile}
    (hf : s.files[i]? = some f) (hzero : ∀ b ∈ f.path, b ≠ 0) :
    g.Serves f.path [f.sent guessType i] := by
  have hmem := (respond_mem_cases_iff hb).2 ⟨f, hf, rfl, rfl⟩
  have hfind : (g.cases.find? fun c => c.label = crc32 f.path) = some _ :=
    (SiteProgram.find?_label_iff hc).2 ⟨hmem, (crc32Rec_eq_foldl _ hzero).symm⟩
  refine ⟨1, ?_⟩
  rw [SiteProgram.staticSite, SiteProgram.run, hfind]
  simp only [binaries_getD hb hf, SourceFile.sent]

/-- A site keeps the path `y` apart from the path `x` : the case of a file at `y` is not the one a
request for `x` takes, and where files are embedded at both, their labels differ and each path is
sent its own file only. -/
def KeepsApart (guessType : Bytes → Option Bytes) (s : SiteSource) (g : SiteProgram)
    (x y : Bytes) : Prop :=
  ∀ (j : ℕ) (f : SourceFile), s.files[j]? = some f → f.path = y →
    (fileCase guessType j f).label ≠ crc32 x ∧
    ∀ (i : ℕ) (e : SourceFile), s.files[i]? = some e → e.path = x →
      (fileCase guessType i e).label ≠ (fileCase guessType j f).label ∧
      (g.Compiles → ∀ sent, (g.Serves x sent ↔ sent = [e.sent guessType i]) ∧
        (g.Serves y sent ↔ sent = [f.sent guessType j]))

/-- Paths that differ inside one window of up to four bytes have different CRC-32, and every site
keeps them apart. -/
theorem crc32_separates (p w₁ w₂ q : CString) (hlen : w₁.bytes.length = w₂.bytes.length)
    (hle : w₁.bytes.length ≤ 4) (hne : w₁.bytes ≠ w₂.bytes) :
    crc32 (p.bytes ++ w₁.bytes ++ q.bytes) ≠ crc32 (p.bytes ++ w₂.bytes ++ q.bytes) ∧
    ∀ (guessType : Bytes → Option Bytes) (s : SiteSource) (g : SiteProgram),
      s.build guessType = some g →
      KeepsApart guessType s g (p.bytes ++ w₁.bytes ++ q.bytes)
        (p.bytes ++ w₂.bytes ++ q.bytes) := by
  have hlabel := zlibCrc32_window_ne hlen hle hne p.bytes q.bytes
  have hx : crc32 (p.bytes ++ w₁.bytes ++ q.bytes) = zlibCrc32 (p.bytes ++ w₁.bytes ++ q.bytes) :=
    crc32Rec_eq_foldl _ CString.nonzero_append
  have hy : crc32 (p.bytes ++ w₂.bytes ++ q.bytes) = zlibCrc32 (p.bytes ++ w₂.bytes ++ q.bytes) :=
    crc32Rec_eq_foldl _ CString.nonzero_append
  refine ⟨hx ▸ hy ▸ hlabel, fun guessType s g hb j f hf hfy => ⟨?_, fun i e he hex => ⟨?_, ?_⟩⟩⟩
  · rw [fileCase, SiteCase.label, hfy, hx]
    exact hlabel.symm
  · rw [fileCase, fileCase, SiteCase.label, SiteCase.label, hfy, hex]
    exact hlabel
  · intro hc sent
    rw [← hfy, ← hex]
    have hez : ∀ b ∈ e.path, b ≠ 0 := hex ▸ CString.nonzero_append
    have hfz : ∀ b ∈ f.path, b ≠ 0 := hfy ▸ CString.nonzero_append
    exact ⟨g.serves_iff_eq (serves_path hb hc he hez) sent,
      g.serves_iff_eq (serves_path hb hc hf hfz) sent⟩

/-- Two pages whose names differ in one byte. -/
theorem crc32_separates_pages :
    crc32 (ascii "/page" ++ ascii "1" ++ ascii ".html") ≠
      crc32 (ascii "/page" ++ ascii "2" ++ ascii ".html") ∧
    ∀ (guessType : Bytes → Option Bytes) (s : SiteSource) (g : SiteProgram),
      s.build guessType = some g →
      KeepsApart guessType s g (ascii "/page" ++ ascii "1" ++ ascii ".html")
        (ascii "/page" ++ ascii "2" ++ ascii ".html") :=
  crc32_separates ⟨ascii "/page", by simp [ascii]⟩ ⟨ascii "1", by simp [ascii]⟩
    ⟨ascii "2", by simp [ascii]⟩ ⟨ascii ".html", by simp [ascii]⟩ rfl (by decide) (by decide)

end TinyKvm
