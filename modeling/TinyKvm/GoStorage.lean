import TinyKvm.StorageCall
import Mathlib.Algebra.Group.Int.Defs
import Mathlib.Algebra.Group.Nat.Defs
import Mathlib.Data.List.Basic
import Mathlib.Logic.Function.Basic

/-!
# Storage calls in Go

A Go program registers storage functions under a name. `StorageCall` and
`StorageCallV` pass the name and the argument slices to a trampoline in the
storage machine, which looks the function up, calls it and returns its result.

Slices cross as the address of their first element and a length. Taking that
address panics on an empty slice, on both sides, and the trampolines convert
lengths to a C `int`. So the calls are transparent exactly for non-empty slices
and results and for lengths below 2^31 (`storage_call_iff`).
-/

namespace TinyKvm

namespace Go

/-- A storage function, which may panic. -/
abbrev StorageFunc := List Bytes → Option Bytes

/-- `storage_lookup`. -/
abbrev Registry := Bytes → Option StorageFunc

/-- `StorageRegister`. -/
def storageRegister (lookup : Registry) (name : Bytes) (fn : StorageFunc) : Registry :=
  Function.update lookup name (some fn)

/-- `C.int(n)`. -/
def cInt (n : ℤ) : ℤ :=
  (BitVec.ofInt 32 n).toInt

/-- `C.GoBytes` and `C.GoStringN`, which panic on a negative length. -/
def goBytes (memory : Bytes) (n : ℤ) : Option Bytes :=
  if n < 0 then none else some (memory.take n.toNat)

/-- The bytes of a buffer as a trampoline takes them. -/
def bufferBytes (buffer : Bytes) : Option Bytes :=
  goBytes buffer (cInt buffer.length)

/-- `C.storage_return(&result[0], len(result))`, for a result unless there was a panic. -/
def storageReturn : Option Bytes → StorageRun
  | some (b :: bs) => ⟨[b :: bs], false⟩
  | some [] => ⟨[], true⟩
  | none => ⟨[], true⟩

/-- `storage_trampoline`. -/
def storageTrampoline (lookup : Registry) (buffers : List Bytes) (_res : ℕ) : StorageRun :=
  storageReturn do
    let name ← bufferBytes (← buffers[0]?)
    let slice ← bufferBytes (← buffers[1]?)
    let fn ← lookup name
    fn [slice]

/-- `storage_strings_trampoline`. -/
def storageStringsTrampoline (lookup : Registry) (buffers : List Bytes) (_res : ℕ) :
    StorageRun :=
  storageReturn do
    let slices ← (buffers.drop 1).mapM bufferBytes
    let name ← bufferBytes (← buffers[0]?)
    let fn ← lookup name
    fn slices

/-- The result of a call : the bytes, an error, or a panic of the caller. -/
inductive CallResult where
  | ok (content : Bytes)
  | error (message : Bytes)
  | panicked
  deriving DecidableEq

/-- `resmax`. -/
def resmax : ℕ := 2 * 1024 * 1024

/-- The end of both calls, on what `storage_callv` gives. -/
def finishCall (reply : ℤ × Bytes) : CallResult :=
  if reply.1 < 0 then .error (ascii "storage call failed")
  else
    match goBytes reply.2 (cInt reply.1) with
    | none => .panicked
    | some content => .ok content

variable (host : StorageHost)

/-- `StorageCall`. -/
def storageCall (lookup : Registry) (fn data : Bytes) : CallResult :=
  if fn = [] ∨ data = [] then .panicked
  else finishCall (host.callv (storageTrampoline lookup) [fn, data] resmax)

/-- The length of the array type `StorageCallV` casts its buffers to. -/
def arrayMax : ℕ := 2 ^ 30 - 1

/-- The loop that fills the array from index `i` on, unless it panics. -/
def fillBuffers : ℕ → List Bytes → Option (List Bytes)
  | _, [] => some []
  | i, sl :: input =>
    if i < arrayMax ∧ sl ≠ [] then (fillBuffers (i + 1) input).map (sl :: ·) else none

/-- `StorageCallV`. -/
def storageCallV (lookup : Registry) (fn : Bytes) (input : List Bytes) : CallResult :=
  match fillBuffers 1 input with
  | none => .panicked
  | some buffers =>
    finishCall (host.callv (storageStringsTrampoline lookup) (fn :: buffers) resmax)

/-! ## Lengths -/

theorem cInt_of_lt {n : ℕ} (h : n < 2 ^ 31) : cInt n = n := by
  rw [cInt, BitVec.toInt_ofInt, Int.bmod_eq_of_le] <;> omega

theorem cInt_lt (n : ℤ) : cInt n < 2 ^ 31 :=
  BitVec.toInt_lt

/-- A buffer is taken whole exactly if its length fits a C `int`. -/
theorem bufferBytes_eq_self_iff {buffer : Bytes} :
    bufferBytes buffer = some buffer ↔ buffer.length < 2 ^ 31 := by
  refine ⟨fun h => ?_, fun h => ?_⟩
  · obtain ⟨-, h⟩ := Option.ite_none_left_eq_some.1 h
    have hlen := congrArg List.length (Option.some.inj h)
    rw [List.length_take] at hlen
    have hlt := cInt_lt buffer.length
    omega
  · rw [bufferBytes, cInt_of_lt h, goBytes, if_neg (by omega), Int.toNat_natCast,
      List.take_length]

theorem mapM_bufferBytes_iff {buffers : List Bytes} :
    buffers.mapM bufferBytes = some buffers ↔ ∀ b ∈ buffers, b.length < 2 ^ 31 := by
  induction buffers with
  | nil => simp
  | cons b buffers ih =>
    rw [List.forall_mem_cons, ← ih, ← bufferBytes_eq_self_iff, List.mapM_cons]
    refine ⟨fun h => ?_, fun ⟨hb, hrest⟩ => by rw [hb, hrest]; rfl⟩
    obtain ⟨b', hb, h⟩ := Option.bind_eq_some_iff.1 h
    obtain ⟨buffers', hrest, h⟩ := Option.bind_eq_some_iff.1 h
    obtain ⟨rfl, rfl⟩ := List.cons.inj (Option.some.inj h)
    exact ⟨hb, hrest⟩

/-- The loop does not panic exactly if there is room in the array and no slice is empty. -/
theorem fillBuffers_eq_some_iff {i : ℕ} {input buffers : List Bytes} :
    fillBuffers i input = some buffers ↔
      buffers = input ∧ (∀ sl ∈ input, sl ≠ []) ∧ input.length ≤ arrayMax - i := by
  induction input generalizing i buffers with
  | nil => simp [fillBuffers, eq_comm]
  | cons sl input ih =>
    rw [fillBuffers, List.forall_mem_cons, List.length_cons]
    by_cases h : i < arrayMax ∧ sl ≠ []
    · rw [if_pos h, Option.map_eq_some_iff]
      refine ⟨?_, ?_⟩
      · rintro ⟨rest, hrest, rfl⟩
        obtain ⟨rfl, hne, hlen⟩ := ih.1 hrest
        exact ⟨rfl, ⟨h.2, hne⟩, by omega⟩
      · rintro ⟨rfl, ⟨-, hne⟩, hlen⟩
        exact ⟨input, ih.2 ⟨rfl, hne, by omega⟩, rfl⟩
    · rw [if_neg h]
      refine iff_of_false (by simp) ?_
      rintro ⟨-, ⟨hsl, -⟩, hlen⟩
      exact h ⟨by omega, hsl⟩

/-! ## Calls -/

/-- What the function that is looked up makes of the buffers. -/
def lookupResult (lookup : Registry) (name : Bytes) (xs : List Bytes) : Option Bytes :=
  (xs.mapM bufferBytes).bind fun slices => (bufferBytes name).bind fun name =>
    (lookup name).bind fun fn => fn slices

theorem storageStringsTrampoline_eq (lookup : Registry) (name : Bytes) (xs : List Bytes)
    (res : ℕ) :
    storageStringsTrampoline lookup (name :: xs) res =
      storageReturn (lookupResult lookup name xs) :=
  rfl

/-- One buffer is a vector of one buffer, for the trampolines. -/
theorem storageTrampoline_eq (lookup : Registry) (name data : Bytes) (res : ℕ) :
    storageTrampoline lookup [name, data] res =
      storageStringsTrampoline lookup [name, data] res := by
  have hrun : storageTrampoline lookup [name, data] res =
      storageReturn ((bufferBytes name).bind fun name => (bufferBytes data).bind fun slice =>
        (lookup name).bind fun fn => fn [slice]) := rfl
  have hdata : [data].mapM bufferBytes = (bufferBytes data).map ([·]) := by
    rw [List.mapM_cons]
    cases bufferBytes data <;> rfl
  rw [hrun, storageStringsTrampoline_eq, lookupResult, hdata]
  cases bufferBytes name <;> cases bufferBytes data <;> rfl

/-- The two calls agree on one slice. -/
theorem storageCall_eq {name : Bytes} (hname : name ≠ []) (lookup : Registry) (data : Bytes) :
    storageCall host lookup name data = storageCallV host lookup name [data] := by
  have hcall : host.callv (storageTrampoline lookup) [name, data] resmax =
      host.callv (storageStringsTrampoline lookup) [name, data] resmax := by
    simp only [StorageHost.callv, storageTrampoline_eq]
  by_cases hdata : data = []
  · rw [storageCall, if_pos (Or.inr hdata), hdata]
    rfl
  · have hfill : fillBuffers 1 [data] = some [data] :=
      fillBuffers_eq_some_iff.2 ⟨rfl, by simpa using hdata, by rw [arrayMax]; simp⟩
    rw [storageCall, if_neg (by tauto), storageCallV, hfill, hcall]

/-- A result is the caller's exactly if it is not empty. -/
theorem finishCall_callv_iff {func : List Bytes → ℕ → StorageRun} {buffers : List Bytes}
    {result : Option Bytes} {r : Bytes} (hrun : func buffers resmax = storageReturn result)
    (hresult : ∀ r', result = some r' → r' = r) (hr : r.length ≤ resmax) :
    finishCall (host.callv func buffers resmax) = .ok r ↔ result = some r ∧ r ≠ [] := by
  have herror : func buffers resmax = ⟨[], true⟩ →
      finishCall (host.callv func buffers resmax) ≠ .ok r := by
    intro h
    rw [host.callv_of_aborted h, finishCall, if_pos host.failure_neg]
    exact CallResult.noConfusion
  rcases result with - | r'
  · exact iff_of_false (herror hrun) (by simp)
  · obtain rfl := hresult r' rfl
    rcases r' with - | ⟨b, bs⟩
    · exact iff_of_false (herror hrun) (by simp)
    · refine iff_of_true ?_ ⟨rfl, List.cons_ne_nil b bs⟩
      rw [resmax] at hr
      rw [host.callv_of_reply hrun hr, finishCall, if_neg (by omega), cInt_of_lt (by omega),
        goBytes, if_neg (by omega), Int.toNat_natCast, List.take_length]

/-- The function that is defined at `xs` only. -/
def only (xs : List Bytes) (r : Bytes) : StorageFunc :=
  fun ys => if ys = xs then some r else none

theorem lookupResult_of_lt {lookup : Registry} {name : Bytes} {xs : List Bytes}
    {f : StorageFunc} (hname : name.length < 2 ^ 31) (hxs : ∀ x ∈ xs, x.length < 2 ^ 31) :
    lookupResult (storageRegister lookup name f) name xs = f xs := by
  rw [lookupResult, mapM_bufferBytes_iff.2 hxs, bufferBytes_eq_self_iff.2 hname]
  simp only [Option.bind_some, storageRegister, Function.update_self]

/-- A function that is defined at `xs` only has to be given `xs`. -/
theorem lookupResult_only {name : Bytes} {xs : List Bytes} {r r' : Bytes}
    (h : lookupResult (storageRegister (fun _ => none) name (only xs r)) name xs = some r') :
    r' = r ∧ name.length < 2 ^ 31 ∧ ∀ x ∈ xs, x.length < 2 ^ 31 := by
  obtain ⟨slices, hslices, h⟩ := Option.bind_eq_some_iff.1 h
  obtain ⟨name', hname', h⟩ := Option.bind_eq_some_iff.1 h
  obtain ⟨fn, hfn, h⟩ := Option.bind_eq_some_iff.1 h
  rw [storageRegister, Function.update_apply] at hfn
  obtain ⟨hname, hfn⟩ := Option.ite_none_right_eq_some.1 hfn
  rw [← Option.some.inj hfn] at h
  obtain ⟨hxs, hr⟩ := Option.ite_none_right_eq_some.1 h
  subst hname hxs
  exact ⟨(Option.some.inj hr).symm, bufferBytes_eq_self_iff.1 hname',
    mapM_bufferBytes_iff.1 hslices⟩

/-- `StorageCallV` returns what the function returns exactly for non-empty slices and results
whose lengths the trampoline takes. -/
theorem storageCallV_transparent_iff {name : Bytes} {xs : List Bytes} {r : Bytes}
    (hr : r.length ≤ resmax) :
    (∀ lookup f, f xs = some r →
        storageCallV host (storageRegister lookup name f) name xs = .ok r) ↔
      (∀ x ∈ xs, x ≠ [] ∧ x.length < 2 ^ 31) ∧ xs.length ≤ arrayMax - 1 ∧
        name.length < 2 ^ 31 ∧ r ≠ [] := by
  constructor
  · intro h
    have hcall := h (fun _ => none) (only xs r) (if_pos rfl)
    rw [storageCallV] at hcall
    rcases hfill : fillBuffers 1 xs with - | buffers
    · rw [hfill] at hcall
      exact CallResult.noConfusion hcall
    · obtain ⟨rfl, hne, hlen⟩ := fillBuffers_eq_some_iff.1 hfill
      rw [hfill] at hcall
      obtain ⟨hresult, hr0⟩ := (finishCall_callv_iff host (storageStringsTrampoline_eq _ _ _ _)
        (fun r' h' => (lookupResult_only h').1) hr).1 hcall
      obtain ⟨-, hname, hlt⟩ := lookupResult_only hresult
      exact ⟨fun x hx => ⟨hne x hx, hlt x hx⟩, hlen, hname, hr0⟩
  · rintro ⟨hxs, hlen, hname, hr0⟩ lookup f hf
    have hfill : fillBuffers 1 xs = some xs :=
      fillBuffers_eq_some_iff.2 ⟨rfl, fun x hx => (hxs x hx).1, hlen⟩
    have hresult : lookupResult (storageRegister lookup name f) name xs = some r := by
      rw [lookupResult_of_lt hname fun x hx => (hxs x hx).2, hf]
    rw [storageCallV, hfill]
    exact (finishCall_callv_iff host (storageStringsTrampoline_eq _ _ _ _)
      (fun r' h' => Option.some.inj (h'.symm.trans hresult)) hr).2 ⟨hresult, hr0⟩

/-- Both calls return what the registered function returns exactly if no slice and no result is
empty and the lengths fit : the two paths agree throughout. -/
theorem storage_call_iff {name : Bytes} (hname : name ≠ []) (xs : List Bytes) (d r : Bytes)
    (hr : r.length ≤ resmax) :
    ((∀ lookup f, f xs = some r →
        storageCallV host (storageRegister lookup name f) name xs = .ok r) ↔
      (∀ x ∈ xs, x ≠ [] ∧ x.length < 2 ^ 31) ∧ xs.length ≤ arrayMax - 1 ∧
        name.length < 2 ^ 31 ∧ r ≠ []) ∧
    ((∀ lookup f, f [d] = some r →
        storageCall host (storageRegister lookup name f) name d = .ok r) ↔
      (d ≠ [] ∧ d.length < 2 ^ 31) ∧ name.length < 2 ^ 31 ∧ r ≠ []) := by
  refine ⟨storageCallV_transparent_iff host hr, ?_⟩
  simp only [storageCall_eq host hname]
  rw [storageCallV_transparent_iff host hr, List.forall_mem_singleton]
  exact and_congr_right fun _ => and_iff_right (by rw [arrayMax]; simp)

theorem storage_call_iff_get :
    storageCallV .refusing (storageRegister (fun _ => none) (ascii "get") fun _ =>
        some (ascii "b")) (ascii "get") [ascii "a"] = .ok (ascii "b") ∧
      storageCall .refusing (storageRegister (fun _ => none) (ascii "get") fun _ =>
        some (ascii "b")) (ascii "get") (ascii "a") = .ok (ascii "b") :=
  have h := storage_call_iff .refusing (by decide : ascii "get" ≠ []) [ascii "a"] (ascii "a")
    (ascii "b") (by decide)
  ⟨h.1.2 (by decide) _ _ rfl, h.2.2 (by decide) _ _ rfl⟩

/-- An empty slice panics in the caller, and an empty result in the trampoline. -/
theorem storage_call_not_transparent :
    storageCallV .refusing (storageRegister (fun _ => none) (ascii "get") fun _ =>
        some (ascii "b")) (ascii "get") [[]] ≠ .ok (ascii "b") ∧
      storageCall .refusing (storageRegister (fun _ => none) (ascii "get") fun _ =>
        some []) (ascii "get") (ascii "a") ≠ .ok [] := by
  decide

end Go

end TinyKvm
