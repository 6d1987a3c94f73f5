import TinyKvm.Api
import TinyKvm.Layout
import TinyKvm.Machine

/-!
# Assembling a WAV file

The speech example writes a WAV header with provisional sizes when it starts,
appends the samples of every `callback` of the synthesizer, and counts them.
`finalizeWAV` then patches the two sizes of the header in place, for the samples
that were counted.

A patch of the header leaves what follows it, and a header is patched to another
(`finalizeWAV_eq`). Every run so keeps a header before the samples delivered and
their number in the counter (`wav_after`). `callback` computes the length of a
chunk as an `int`, which overflows from `2 ^ 30` samples on, while `finalizeWAV`
computes with `size_t`. The file of a run is well formed with all samples
exactly if no chunk is so long (`wav_assembled_iff`).
-/

namespace TinyKvm

namespace Wav

/-! ## The program -/

/-- `LE32`. -/
def LE32 (a b c d : Byte) : BitVec 32 :=
  (a.setWidth 32 <<< 0) ||| (b.setWidth 32 <<< 8) ||| (c.setWidth 32 <<< 16) |||
    (d.setWidth 32 <<< 24)

/-- `WAV_header`, with its defaults. -/
structure WavHeader where
  riff : BitVec 32 := LE32 0x52 0x49 0x46 0x46
  size : BitVec 32
  wave : BitVec 32 := LE32 0x57 0x41 0x56 0x45
  fmt : BitVec 32 := LE32 0x66 0x6D 0x74 0x20
  fmtLength : BitVec 32
  format : BitVec 16 := 1
  channels : BitVec 16 := 1
  samplerate : BitVec 32 := 22050
  byterate : BitVec 32
  blockalign : BitVec 16
  bitsPerSample : BitVec 16 := 16
  beginData : BitVec 32 := LE32 0x64 0x61 0x74 0x61
  dataSize : BitVec 32

/-- The fields of the header, with their widths in bytes. -/
def WavHeader.fields (h : WavHeader) : List (ℕ × ℕ) :=
  [(4, h.riff.toNat), (4, h.size.toNat), (4, h.wave.toNat), (4, h.fmt.toNat),
    (4, h.fmtLength.toNat), (2, h.format.toNat), (2, h.channels.toNat), (4, h.samplerate.toNat),
    (4, h.byterate.toNat), (2, h.blockalign.toNat), (2, h.bitsPerSample.toNat),
    (4, h.beginData.toNat), (4, h.dataSize.toNat)]

/-- The packed bytes of the header. -/
def WavHeader.bytes (h : WavHeader) : Bytes :=
  packed h.fields

/-- `sizeof(WAV_header)`. -/
def sizeofHeader : ℕ :=
  44

/-- Where the packed header has `size`. -/
def sizeOffset : ℕ :=
  4

/-- Where the packed header has `bits_per_sample`. -/
def bitsPerSampleOffset : ℕ :=
  34

/-- Where the packed header has `data_size`. -/
def dataSizeOffset : ℕ :=
  40

/-- `setupWAV`, with the vector it leaves. -/
def setupWAV (samplerate channels : BitVec 32) : Bytes :=
  let bits : BitVec 16 := 16
  let subchunk1Size : BitVec 32 := 16
  let subchunk2Size : BitVec 32 := 0 * bits.setWidth 32 / 8
  let header : WavHeader :=
    { size := 36 + subchunk2Size
      fmtLength := subchunk1Size
      samplerate := samplerate
      channels := channels.setWidth 16
      byterate := samplerate * channels * bits.setWidth 32 / 8
      blockalign := ((channels * bits.setWidth 32).sdiv 8).setWidth 16
      bitsPerSample := bits
      dataSize := subchunk2Size }
  header.bytes

/-- `finalizeWAV`, unless its assertion fails. -/
def finalizeWAV (wav : Bytes) (samples : BitVec 64) : Option Bytes :=
  if sizeofHeader ≤ wav.length then
    let bitsPerSample : BitVec 16 := BitVec.ofNat 16 (loadLe wav bitsPerSampleOffset 2)
    let subchunk2Size : BitVec 32 := (samples * bitsPerSample.setWidth 64 / 8).setWidth 32
    let wav := writeAt wav sizeOffset (leBytes 4 (36 + subchunk2Size).toNat)
    some (writeAt wav dataSizeOffset (leBytes 4 subchunk2Size.toNat))
  else none

/-- The samples of a call of `callback`, as many as an `int` can say. -/
structure Chunk where
  samples : List (BitVec 16)
  isInt : samples.length < 2 ^ 31

/-- The memory of samples. -/
def sampleBytes (samples : List (BitVec 16)) : Bytes :=
  samples.flatMap fun s => leBytes 2 s.toNat

/-- The static variables. -/
structure State where
  wav : Bytes
  sampleCount : BitVec 64

/-- `callback`, unless `2 * length` overflows. -/
def callback (s : State) (chunk : Chunk) : Option State :=
  if 2 * chunk.samples.length < 2 ^ 31 then
    some ⟨s.wav ++ sampleBytes chunk.samples,
      s.sampleCount + BitVec.ofNat 64 chunk.samples.length⟩
  else none

/-- A call of `callback`, or one of `finalizeWAV` with the counter. -/
inductive Event where
  | callback (chunk : Chunk)
  | finalizeWAV

/-- A call, on the static variables. -/
def step (s : State) : Event → Option State
  | .callback chunk => callback s chunk
  | .finalizeWAV => (finalizeWAV s.wav s.sampleCount).map fun wav => { s with wav := wav }

/-- The calls of a run, until one fails. -/
def wavMachine : Machine (Option State) Event Unit where
  init := some ⟨setupWAV 22050 1, 0⟩
  step s e := (s.bind (step · e), ())

/-- The vector after a run and a last `finalizeWAV`. -/
def file (events : List Event) : Option Bytes :=
  (wavMachine.after events).bind fun s => finalizeWAV s.wav s.sampleCount

/-! ## WAV files -/

/-- A RIFF/WAVE file with its fields. -/
structure RiffWave where
  riffSize : ℕ
  format : ℕ
  channels : ℕ
  samplerate : ℕ
  byterate : ℕ
  blockalign : ℕ
  bitsPerSample : ℕ
  dataSize : ℕ
  data : Bytes

/-- Four characters as the word they are read as. -/
def fourCC (s : String) : ℕ :=
  leNat (ascii s)

/-- Reads a file that has the format chunk and then the data chunk. -/
def RiffWave.parse (bytes : Bytes) : Option RiffWave :=
  if loadLe bytes 0 4 = fourCC "RIFF" ∧ loadLe bytes 8 4 = fourCC "WAVE" ∧
      loadLe bytes 12 4 = fourCC "fmt " ∧ loadLe bytes 16 4 = 16 ∧
      loadLe bytes 36 4 = fourCC "data" then
    some
      { riffSize := loadLe bytes 4 4
        format := loadLe bytes 20 2
        channels := loadLe bytes 22 2
        samplerate := loadLe bytes 24 4
        byterate := loadLe bytes 28 4
        blockalign := loadLe bytes 32 2
        bitsPerSample := loadLe bytes 34 2
        dataSize := loadLe bytes 40 4
        data := bytes.drop 44 }
  else none

/-- The chunk an event delivers. -/
def Event.chunk : Event → List Chunk
  | callback chunk => [chunk]
  | finalizeWAV => []

/-- The chunks of a run. -/
def chunks (events : List Event) : List Chunk :=
  events.flatMap Event.chunk

/-- The samples of a run. -/
def samples (events : List Event) : List (BitVec 16) :=
  (chunks events).flatMap Chunk.samples

/-- A run whose samples fit in the sizes of a WAV file. -/
structure Run where
  events : List Event
  fits : 36 + 2 * (samples events).length < 2 ^ 32

/-- The file of a run is a RIFF/WAVE file of 16-bit samples with consistent sizes, of the samples
that were delivered in order. -/
def Assembled (run : Run) : Prop :=
  ∃ wav riff, file run.events = some wav ∧ RiffWave.parse wav = some riff ∧
    riff.riffSize = wav.length - 8 ∧ riff.dataSize = wav.length - 44 ∧
    wav.length - 44 = 2 * (samples run.events).length ∧ riff.blockalign = riff.channels * 2 ∧
    riff.byterate = riff.samplerate * riff.channels * 2 ∧ riff.bitsPerSample = 16 ∧
    riff.channels = 1 ∧ riff.samplerate = 22050 ∧ riff.data = sampleBytes (samples run.events)

/-! ## The header -/

/-- The header of a mono file at 22050 Hz. -/
def header (size dataSize : BitVec 32) : WavHeader where
  size := size
  fmtLength := 16
  byterate := 44100
  blockalign := 2
  dataSize := dataSize

theorem setupWAV_eq : setupWAV 22050 1 = (header 36 0).bytes := by
  decide

/-- The widths of the fields. -/
def headerWidths : List ℕ :=
  [4, 4, 4, 4, 4, 2, 2, 4, 4, 2, 2, 4, 4]

theorem map_fst_fields (h : WavHeader) : h.fields.map Prod.fst = headerWidths :=
  rfl

theorem length_header (h : WavHeader) : h.bytes.length = sizeofHeader := by
  rw [WavHeader.bytes, length_packed, packedSize, map_fst_fields]
  rfl

section Header

variable (size dataSize : BitVec 32) (data : Bytes)

/-- The `k`-th field of a header is read at its offset. -/
theorem loadLe_header (h : WavHeader) (k : ℕ) {n v : ℕ} (hk : h.fields[k]? = some (n, v))
    (hv : v < 256 ^ n) : loadLe (h.bytes ++ data) (headerWidths.take k).sum n = v := by
  obtain ⟨hlt, hfield⟩ := List.getElem?_eq_some_iff.1 hk
  have hfields : h.fields.take k ++ (n, v) :: h.fields.drop (k + 1) = h.fields := by
    rw [← hfield, ← List.drop_eq_getElem_cons hlt, List.take_append_drop]
  have hread := loadLe_packed (h.fields.take k) (h.fields.drop (k + 1)) n v data
  rw [hfields, Nat.mod_eq_of_lt hv, packedSize, List.map_take, map_fst_fields] at hread
  exact hread

/-- The size is written over that of the header. -/
theorem writeAt_size (size' : BitVec 32) :
    writeAt ((header size dataSize).bytes ++ data) sizeOffset (leBytes 4 size'.toNat) =
      (header size' dataSize).bytes ++ data :=
  writeAt_packed [(4, (header size dataSize).riff.toNat)] _ 4 size.toNat size'.toNat data

/-- The size of the data is written over that of the header. -/
theorem writeAt_dataSize (dataSize' : BitVec 32) :
    writeAt ((header size dataSize).bytes ++ data) dataSizeOffset (leBytes 4 dataSize'.toNat) =
      (header size dataSize').bytes ++ data := by
  have hoffset : packedSize (header size dataSize).fields.dropLast = dataSizeOffset := by
    rw [packedSize, List.map_dropLast, map_fst_fields]
    rfl
  have hwrite := writeAt_packed (header size dataSize).fields.dropLast [] 4 dataSize.toNat
    dataSize'.toNat data
  rw [hoffset] at hwrite
  exact hwrite

/-- The header says what it has. -/
theorem parse_header : RiffWave.parse ((header size dataSize).bytes ++ data) =
    some
      { riffSize := size.toNat
        format := 1
        channels := 1
        samplerate := 22050
        byterate := 44100
        blockalign := 2
        bitsPerSample := 16
        dataSize := dataSize.toNat
        data := data } := by
  let h := header size dataSize
  have hriff : loadLe (h.bytes ++ data) 0 4 = fourCC "RIFF" :=
    loadLe_header data h 0 rfl (by decide)
  have hsize : loadLe (h.bytes ++ data) 4 4 = size.toNat :=
    loadLe_header data h 1 rfl size.isLt
  have hwave : loadLe (h.bytes ++ data) 8 4 = fourCC "WAVE" :=
    loadLe_header data h 2 rfl (by decide)
  have hfmt : loadLe (h.bytes ++ data) 12 4 = fourCC "fmt " :=
    loadLe_header data h 3 rfl (by decide)
  have hfmtLength : loadLe (h.bytes ++ data) 16 4 = 16 :=
    loadLe_header data h 4 rfl (by decide)
  have hformat : loadLe (h.bytes ++ data) 20 2 = 1 :=
    loadLe_header data h 5 rfl (by decide)
  have hchannels : loadLe (h.bytes ++ data) 22 2 = 1 :=
    loadLe_header data h 6 rfl (by decide)
  have hsamplerate : loadLe (h.bytes ++ data) 24 4 = 22050 :=
    loadLe_header data h 7 rfl (by decide)
  have hbyterate : loadLe (h.bytes ++ data) 28 4 = 44100 :=
    loadLe_header data h 8 rfl (by decide)
  have hblockalign : loadLe (h.bytes ++ data) 32 2 = 2 :=
    loadLe_header data h 9 rfl (by decide)
  have hbits : loadLe (h.bytes ++ data) 34 2 = 16 :=
    loadLe_header data h 10 rfl (by decide)
  have hbeginData : loadLe (h.bytes ++ data) 36 4 = fourCC "data" :=
    loadLe_header data h 11 rfl (by decide)
  have hdataSize : loadLe (h.bytes ++ data) 40 4 = dataSize.toNat :=
    loadLe_header data h 12 rfl dataSize.isLt
  have hdata : (h.bytes ++ data).drop 44 = data := List.drop_left' (length_header h)
  rw [RiffWave.parse, if_pos ⟨hriff, hwave, hfmt, hfmtLength, hbeginData⟩, hsize, hformat,
    hchannels, hsamplerate, hbyterate, hblockalign, hbits, hdataSize, hdata]

/-- `finalizeWAV` patches the sizes for the number of samples. -/
theorem finalizeWAV_eq (samples : BitVec 64) {size' : BitVec 32}
    (h : (samples * 16 / 8).setWidth 32 = size') :
    finalizeWAV ((header size dataSize).bytes ++ data) samples =
      some ((header (36 + size') size').bytes ++ data) := by
  have hlen : sizeofHeader ≤ ((header size dataSize).bytes ++ data).length := by
    rw [List.length_append, length_header]
    exact Nat.le_add_right _ _
  have hbits : loadLe ((header size dataSize).bytes ++ data) bitsPerSampleOffset 2 = 16 :=
    loadLe_header data (header size dataSize) 10 rfl (by decide)
  rw [finalizeWAV, if_pos hlen, hbits]
  show some (writeAt (writeAt _ sizeOffset (leBytes 4
    (36 + (samples * 16 / 8).setWidth 32).toNat)) dataSizeOffset
    (leBytes 4 ((samples * 16 / 8).setWidth 32).toNat)) = _
  rw [h, writeAt_size, writeAt_dataSize]

end Header

/-! ## Runs -/

/-- No chunk is so long that its length in bytes overflows. -/
def Small (events : List Event) : Prop :=
  ∀ chunk ∈ chunks events, chunk.samples.length < 2 ^ 30

theorem chunks_snoc (events : List Event) (e : Event) :
    chunks (events ++ [e]) = chunks events ++ e.chunk := by
  simp [chunks]

theorem small_snoc {events : List Event} {e : Event} :
    Small (events ++ [e]) ↔ Small events ∧ ∀ chunk ∈ e.chunk, chunk.samples.length < 2 ^ 30 := by
  rw [Small, chunks_snoc, List.forall_mem_append]
  rfl

theorem step_callback (s : State) (chunk : Chunk) :
    (wavMachine.step (some s) (.callback chunk)).1 = callback s chunk :=
  rfl

theorem step_finalizeWAV (s : State) : (wavMachine.step (some s) .finalizeWAV).1 =
    (finalizeWAV s.wav s.sampleCount).map fun wav => { s with wav := wav } :=
  rfl

/-- A run of small chunks has a header, the samples delivered, and their number in the counter. -/
theorem wav_after (events : List Event) : Small events → ∃ size dataSize,
    wavMachine.after events =
      some ⟨(header size dataSize).bytes ++ sampleBytes (samples events),
        BitVec.ofNat 64 (samples events).length⟩ := by
  refine wavMachine.run_induction' (I := fun events s => Small events → ∃ size dataSize,
    s = some ⟨(header size dataSize).bytes ++ sampleBytes (samples events),
      BitVec.ofNat 64 (samples events).length⟩) (fun _ => ⟨36, 0, ?_⟩) (fun events e ih h => ?_)
    events
  · show some (State.mk (setupWAV 22050 1) 0) = some (State.mk ((header 36 0).bytes ++ []) 0)
    rw [List.append_nil, setupWAV_eq]
  · obtain ⟨hevents, hlast⟩ := small_snoc.1 h
    obtain ⟨size, dataSize, hstate⟩ := ih hevents
    rw [Machine.after_snoc, hstate]
    cases e with
    | callback chunk =>
      have hsmall : 2 * chunk.samples.length < 2 ^ 31 := by
        have := hlast chunk List.mem_cons_self
        omega
      have hsamples : samples (events ++ [.callback chunk]) = samples events ++ chunk.samples := by
        simp [samples, chunks_snoc, Event.chunk]
      refine ⟨size, dataSize, ?_⟩
      rw [step_callback, callback, if_pos hsmall, hsamples, sampleBytes, sampleBytes, sampleBytes,
        List.flatMap_append, List.append_assoc, List.length_append, BitVec.ofNat_add]
    | finalizeWAV =>
      have hsamples : samples (events ++ [.finalizeWAV]) = samples events := by
        simp [samples, chunks_snoc, Event.chunk]
      let size' := (BitVec.ofNat 64 (samples events).length * 16 / 8).setWidth 32
      rw [hsamples]
      refine ⟨36 + size', size', ?_⟩
      rw [step_finalizeWAV, finalizeWAV_eq size dataSize _ _ rfl]
      rfl

/-- After a chunk that is too long nothing is left. -/
theorem after_eq_none (events : List Event) : ¬Small events → wavMachine.after events = none := by
  refine wavMachine.run_induction' (I := fun events s => ¬Small events → s = none)
    (fun h => absurd (by simp [Small, chunks]) h) (fun events e ih h => ?_) events
  rw [small_snoc, not_and_or] at h
  rw [Machine.after_snoc]
  rcases h with h | h
  · rw [ih h]
    rfl
  · by_cases hevents : Small events
    · obtain ⟨size, dataSize, hstate⟩ := wav_after events hevents
      rw [hstate]
      cases e with
      | callback chunk =>
        have hlong : ¬2 * chunk.samples.length < 2 ^ 31 := by
          intro hlt
          refine h fun c hc => ?_
          obtain rfl := List.mem_singleton.1 hc
          omega
        exact if_neg hlong
      | finalizeWAV => exact absurd (fun chunk hc => absurd hc List.not_mem_nil) h
    · rw [ih hevents]
      rfl

theorem length_sampleBytes (samples : List (BitVec 16)) :
    (sampleBytes samples).length = 2 * samples.length :=
  length_flatMap_eq (f := fun s : BitVec 16 => leBytes 2 s.toNat) (fun _ => length_leBytes 2 _)
    samples

/-- The number of bytes, computed with 64 bits and cut to 32. -/
theorem byteCount_eq (n : ℕ) :
    (BitVec.ofNat 64 n * 16 / 8).setWidth 32 = BitVec.ofNat 32 (2 * n) := by
  have h16 : (16 : BitVec 64).toNat = 16 := rfl
  have h8 : (8 : BitVec 64).toNat = 8 := rfl
  apply BitVec.eq_of_toNat_eq
  simp only [BitVec.toNat_setWidth, BitVec.toNat_udiv, BitVec.toNat_mul, BitVec.toNat_ofNat, h16,
    h8]
  omega

/-- A header before the samples, with the sizes of these, is the file as it should be. -/
theorem assembled_of_file {run : Run} (size dataSize : BitVec 32)
    (hfile : file run.events =
      some ((header size dataSize).bytes ++ sampleBytes (samples run.events)))
    (hsize : size.toNat = 36 + 2 * (samples run.events).length)
    (hdataSize : dataSize.toNat = 2 * (samples run.events).length) : Assembled run := by
  have hlen : ((header size dataSize).bytes ++ sampleBytes (samples run.events)).length =
      44 + 2 * (samples run.events).length := by
    rw [List.length_append, length_header, length_sampleBytes, sizeofHeader]
  refine ⟨_, _, hfile, parse_header .., ?_⟩
  dsimp only
  rw [hlen, hsize, hdataSize]
  exact ⟨by omega, by omega, by omega, rfl, rfl, rfl, rfl, rfl, rfl⟩

/-- The file of a run is well formed and has all samples exactly if every chunk has fewer than
`2 ^ 30`. -/
theorem wav_assembled_iff (run : Run) :
    Assembled run ↔ ∀ chunk ∈ chunks run.events, chunk.samples.length < 2 ^ 30 := by
  constructor
  · rintro ⟨wav, riff, hfile, -⟩
    by_contra hlong
    rw [file, after_eq_none run.events hlong] at hfile
    exact absurd hfile (by simp)
  · intro hsmall
    obtain ⟨size, dataSize, hstate⟩ := wav_after run.events hsmall
    have hfits := run.fits
    have hsize : (BitVec.ofNat 32 (2 * (samples run.events).length)).toNat =
        2 * (samples run.events).length := by
      rw [BitVec.toNat_ofNat, Nat.mod_eq_of_lt (by omega)]
    refine assembled_of_file (36 + BitVec.ofNat 32 (2 * (samples run.events).length)) _ ?_ ?_ hsize
    · rw [file, hstate]
      exact finalizeWAV_eq size dataSize _ _ (byteCount_eq _)
    · rw [BitVec.toNat_add, hsize]
      exact Nat.mod_eq_of_lt hfits

/-- The run that delivers `2 ^ 30` samples at once. -/
def longRun (content : List (BitVec 16)) (h : content.length = 2 ^ 30) : Run where
  events := [.callback ⟨content, by omega⟩]
  fits := by
    have hsamples : samples [.callback ⟨content, by omega⟩] = content :=
      (List.append_nil _).trans rfl
    rw [hsamples]
    omega

theorem not_assembled_of_long (content : List (BitVec 16)) (h : content.length = 2 ^ 30) :
    ¬Assembled (longRun content h) := by
  rintro ⟨wav, riff, hfile, -⟩
  have hlong : ¬Small (longRun content h).events := by
    intro hsmall
    have hlt : content.length < 2 ^ 30 := hsmall ⟨content, by omega⟩ List.mem_cons_self
    omega
  rw [file, after_eq_none _ hlong] at hfile
  exact absurd hfile (by simp)

/-- Of `2 ^ 30` zero samples delivered at once no file is made. -/
theorem wav_not_assembled :
    ¬Assembled (longRun (List.replicate (2 ^ 30) 0) List.length_replicate) :=
  not_assembled_of_long _ _

end Wav

end TinyKvm
