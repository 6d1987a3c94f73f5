import TinyKvm.QuickJs
import TinyKvm.StorageCall
import Mathlib.Algebra.Group.Nat.Defs

/-!
# Storage calls in JavaScript

`varnish.storage(name, ...)` passes the name of a function and its arguments, all
as UTF-8, to a trampoline in the storage machine, which calls the function of
that name with the arguments and returns its result as UTF-8.

The call is that of the function for one that gives a string, provided the name
is whole as a zero-terminated string. A function that throws returns nothing,
which the caller reads as the empty string (`storage_direct_iff`).
-/

namespace TinyKvm

namespace Js

/-- `MAX_STORAGE_ARGS`. -/
def maxStorageArgs : ℕ := 12

/-- `result_size`. -/
def resultSize : ℕ := 2 ^ 21

variable (engine : Engine) {σ : Type}

/-- The end of the trampoline : nothing is returned for an exception, and the text of another
result has to fit. A result that has no text is returned as a null pointer of length zero. -/
def storageReturn (ret : Completion) (reslen : ℕ) : StorageRun :=
  match ret with
  | .threw => ⟨[[]], false⟩
  | .returned value =>
    let text := (value.text.map engine.toCString).getD []
    if text.length ≤ reslen then ⟨[text], false⟩ else ⟨[], true⟩

/-- `storage_trampoline`, with the assertions. -/
def storageTrampoline (global : Globals σ) (s : σ) (buffers : List Bytes) (reslen : ℕ) :
    StorageRun × σ :=
  match buffers with
  | [] => (⟨[], true⟩, s)
  | name :: args =>
    match engine.getProperty global name with
    | none => (⟨[], true⟩, s)
    | some sfunc =>
      let ret := sfunc (args.map engine.newString) s
      (storageReturn engine ret.1 reslen, ret.2)

variable (host : StorageHost)

/-- What `js_storage_call` makes of the reply. -/
def storageResult (reply : ℤ × Bytes) : Completion :=
  if reply.1 ≥ 0 then .returned (.string (engine.newString (reply.2.take reply.1.toNat)))
  else .threw

/-- `js_storage_call`. -/
def jsStorageCall (global : Globals σ) (s : σ) (argv : List Value) : Completion × σ :=
  if argv.length ≥ 1 then
    if argv.length > maxStorageArgs then (.threw, s)
    else
      match argv.mapM fun arg => arg.text.map engine.toCString with
      | none => (.threw, s)
      | some buffers =>
        (storageResult engine
          (host.callv (fun b r => (storageTrampoline engine global s b r).1) buffers resultSize),
          (storageTrampoline engine global s buffers resultSize).2)
  else (.threw, s)

/-! ## Replies -/

theorem storageResult_of_aborted {func : List Bytes → ℕ → StorageRun} {buffers : List Bytes}
    (h : func buffers resultSize = ⟨[], true⟩) :
    storageResult engine (host.callv func buffers resultSize) = .threw := by
  rw [host.callv_of_aborted h]
  exact if_neg (by have := host.failure_neg; omega)

theorem storageResult_of_reply {func : List Bytes → ℕ → StorageRun} {buffers : List Bytes}
    {reply : Bytes} (h : func buffers resultSize = ⟨[reply], false⟩)
    (hle : reply.length ≤ resultSize) :
    storageResult engine (host.callv func buffers resultSize) =
      .returned (.string (engine.newString reply)) := by
  rw [host.callv_of_reply h hle, storageResult, if_pos (by omega), Int.toNat_natCast,
    List.take_length]

/-- Whether the function gives a string or not, the trampoline returns. -/
theorem storageReturn_eq {ret : Completion} {reslen : ℕ}
    (hfits : ∀ t, ret.text = some t → (engine.toCString t).length ≤ reslen) :
    storageReturn engine ret reslen = ⟨[(ret.text.map engine.toCString).getD []], false⟩ ∧
      ((ret.text.map engine.toCString).getD []).length ≤ reslen := by
  have hlen : ((ret.text.map engine.toCString).getD []).length ≤ reslen := by
    rcases htext : ret.text with - | t
    · exact Nat.zero_le _
    · exact hfits t htext
  refine ⟨?_, hlen⟩
  rcases ret with value | -
  · exact if_pos hlen
  · rfl

/-- A text that does not fit fails the assertion. -/
theorem storageReturn_of_long {ret : Completion} {reslen : ℕ} {t : Str} (ht : ret.text = some t)
    (hlong : ¬(engine.toCString t).length ≤ reslen) :
    storageReturn engine ret reslen = ⟨[], true⟩ := by
  rcases ret with value | -
  · have hvalue : value.text = some t := ht
    rw [storageReturn, hvalue]
    exact if_neg hlong
  · cases ht

theorem storageReturn_aborted_iff (ret : Completion) (reslen : ℕ) :
    (storageReturn engine ret reslen).aborted = false ↔
      ∀ t, ret.text = some t → (engine.toCString t).length ≤ reslen := by
  refine ⟨fun h t ht => ?_, fun hfits => by rw [(storageReturn_eq engine hfits).1]⟩
  by_contra hlong
  rw [storageReturn_of_long engine ht hlong] at h
  cases h

theorem mapM_toCString (strings : List Str) :
    (strings.map Value.string).mapM (fun arg => arg.text.map engine.toCString) =
      some (strings.map engine.toCString) := by
  rw [List.mapM_map]
  exact List.mapM_pure

/-! ## Calls -/

variable {engine host} {global : Globals σ} {name : Str} {args : List Str} {s : σ}

/-- A call with a name and up to eleven strings reaches the trampoline. -/
theorem jsStorageCall_eq (hargs : args.length ≤ 11) :
    jsStorageCall engine host global s (.string name :: args.map .string) =
      (storageResult engine (host.callv (fun b r => (storageTrampoline engine global s b r).1)
          ((name :: args).map engine.toCString) resultSize),
        (storageTrampoline engine global s ((name :: args).map engine.toCString)
          resultSize).2) := by
  rw [jsStorageCall, ← List.map_cons, mapM_toCString, List.length_map, List.length_cons,
    if_pos (by omega), if_neg (by unfold maxStorageArgs; omega)]

theorem storageTrampoline_of_some {sfunc : Func σ} (h : global (Utf16.cString name) = some sfunc)
    (reslen : ℕ) :
    storageTrampoline engine global s ((name :: args).map engine.toCString) reslen =
      (storageReturn engine (sfunc args s).1 reslen, (sfunc args s).2) := by
  rw [storageTrampoline.eq_def]
  simp only [List.map_cons, engine.getProperty_toCString, h, engine.map_newString_toCString]

/-- A call is that of the function, except that one without a string gives the empty string. -/
theorem jsStorageCall_of_some (hargs : args.length ≤ 11) {sfunc : Func σ}
    (h : global (Utf16.cString name) = some sfunc)
    (hfits : ∀ t, (sfunc args s).1.text = some t → (engine.toCString t).length ≤ resultSize) :
    jsStorageCall engine host global s (.string name :: args.map .string) =
      (.returned (.string ((sfunc args s).1.text.getD [])), (sfunc args s).2) := by
  have ⟨hreturn, hlen⟩ := storageReturn_eq engine hfits
  have hrun : (storageTrampoline engine global s ((name :: args).map engine.toCString)
      resultSize).1 = ⟨[((sfunc args s).1.text.map engine.toCString).getD []], false⟩ := by
    rw [storageTrampoline_of_some h, hreturn]
  rw [jsStorageCall_eq hargs, storageResult_of_reply engine host hrun hlen,
    storageTrampoline_of_some h, engine.newString_text]

end Js

end TinyKvm
