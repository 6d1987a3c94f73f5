import Mathlib.Data.List.Basic
import Mathlib.Data.Option.Basic

/-!
# Pipelines of stages that may fail

A pipeline runs its stages in order until one ends it. Whether a stage failed and
whether it ends the pipeline are two facts : the code around a step may leave
what the step reports untested, or test it wrongly. `ending` is how the first
stage that ends the pipeline ends it, and `executed` are the stages up to and
including that one.

A pipeline is `Safe` when it ends well if a stage it executed failed. Stages
whose failures end it well can be passed over (`safe_append_checked`). A stage
that does not end it must not fail, unless what follows ends it well anyway
(`safe_cons`).
-/

namespace TinyKvm

/-- A stage of a pipeline : whether it failed, and how it ends the pipeline if it does. -/
structure Stage (ε : Type*) where
  failed : Bool
  ends : Option ε
  deriving DecidableEq

namespace Stage

variable {ε : Type*}

/-- How the first stage that ends the pipeline ends it. -/
def ending : List (Stage ε) → Option ε
  | [] => none
  | s :: l =>
    match s.ends with
    | some e => some e
    | none => ending l

/-- The stages up to and including the first that ends the pipeline. -/
def executed : List (Stage ε) → List (Stage ε)
  | [] => []
  | s :: l =>
    match s.ends with
    | some _ => [s]
    | none => s :: executed l

/-- The pipeline as a computation. -/
def run (l : List (Stage ε)) : Except ε Unit :=
  match ending l with
  | some e => .error e
  | none => .ok ()

/-- A test that ends the pipeline where `b` holds. -/
def check (b : Bool) (e : ε) : Stage ε :=
  ⟨false, if b then some e else none⟩

/-- A step that failed or not, with the test the code makes of what it reports. -/
def step (failed tested : Bool) (e : ε) : Stage ε :=
  ⟨failed, if tested then some e else none⟩

@[simp] theorem ending_nil : ending ([] : List (Stage ε)) = none :=
  rfl

theorem ending_cons (s : Stage ε) (l : List (Stage ε)) :
    ending (s :: l) = s.ends.or (ending l) := by
  cases h : s.ends <;> simp [ending, h]

theorem ending_append (l l' : List (Stage ε)) :
    ending (l ++ l') = (ending l).or (ending l') := by
  induction l with
  | nil => rfl
  | cons s l ih => rw [List.cons_append, ending_cons, ending_cons, ih, Option.or_assoc]

/-- A pipeline that no stage ends executes all of them. -/
theorem executed_of_ending_none {l : List (Stage ε)} (h : ending l = none) : executed l = l := by
  induction l with
  | nil => rfl
  | cons s l ih =>
    cases hs : s.ends with
    | some e => simp [ending, hs] at h
    | none =>
      have hl : ending l = none := by simpa [ending, hs] using h
      simp [executed, hs, ih hl]

@[simp] theorem run_nil : run ([] : List (Stage ε)) = .ok () :=
  rfl

/-- A pipeline in two parts runs the second when the first does not end it. -/
theorem run_append (l l' : List (Stage ε)) : run (l ++ l') = run l >>= fun _ => run l' := by
  simp only [run, ending_append]
  cases ending l <;> rfl

@[simp] theorem run_check (b : Bool) (e : ε) (l : List (Stage ε)) :
    run (check b e :: l) = if b then .error e else run l := by
  cases b <;> rfl

@[simp] theorem run_step (failed tested : Bool) (e : ε) (l : List (Stage ε)) :
    run (step failed tested e :: l) = if tested then .error e else run l := by
  cases tested <;> rfl

/-! ## Pipelines that fail safe -/

variable (good : ε → Prop)

/-- The pipeline ends well. -/
def EndsWell (l : List (Stage ε)) : Prop :=
  ∃ e ∈ ending l, good e

/-- If a stage the pipeline executed failed, the pipeline ends well. -/
def Safe (l : List (Stage ε)) : Prop :=
  (∃ s ∈ executed l, s.failed) → EndsWell good l

/-- Every failure of a stage ends the pipeline well. -/
def Checked (l : List (Stage ε)) : Prop :=
  ∀ s ∈ l, s.failed → ∃ e ∈ s.ends, good e

variable {good}

@[simp] theorem not_endsWell_nil : ¬EndsWell good [] := by
  simp [EndsWell]

@[simp] theorem endsWell_check {b : Bool} {e : ε} {l : List (Stage ε)} :
    EndsWell good (check b e :: l) ↔ if b then good e else EndsWell good l := by
  cases b <;> simp [EndsWell, ending, check]

@[simp] theorem endsWell_step {failed tested : Bool} {e : ε} {l : List (Stage ε)} :
    EndsWell good (step failed tested e :: l) ↔ if tested then good e else EndsWell good l := by
  cases tested <;> simp [EndsWell, ending, step]

@[simp] theorem safe_nil : Safe good [] := by
  simp [Safe, executed]

/-- A stage that ends the pipeline must end it well if it failed; after one that does not,
the rest must be safe, and end well if the stage failed. -/
theorem safe_cons {s : Stage ε} {l : List (Stage ε)} :
    Safe good (s :: l) ↔
      match s.ends with
      | some e => s.failed → good e
      | none => (s.failed → EndsWell good l) ∧ Safe good l := by
  cases h : s.ends with
  | some e => simp [Safe, EndsWell, executed, ending, h]
  | none =>
    have hend : ending (s :: l) = ending l := by
      rw [ending_cons, h, Option.none_or]
    simp only [Safe, EndsWell, executed, h, hend, List.mem_cons, exists_eq_or_imp, or_imp]

@[simp] theorem safe_check {b : Bool} {e : ε} {l : List (Stage ε)} :
    Safe good (check b e :: l) ↔ (b = false → Safe good l) := by
  rw [safe_cons]
  cases b <;> simp [check]

@[simp] theorem safe_step {failed tested : Bool} {e : ε} {l : List (Stage ε)} :
    Safe good (step failed tested e :: l) ↔
      if tested then failed → good e else (failed → EndsWell good l) ∧ Safe good l := by
  rw [safe_cons]
  cases tested <;> rfl

/-- Stages whose failures end the pipeline well leave its safety to what follows them. -/
theorem safe_append_checked {l l' : List (Stage ε)} (h : Checked good l) :
    Safe good (l ++ l') ↔ (ending l = none → Safe good l') := by
  induction l with
  | nil => simp
  | cons s l ih =>
    have hs := h s List.mem_cons_self
    have hl : Checked good l := fun t ht => h t (List.mem_cons_of_mem s ht)
    rw [List.cons_append, safe_cons, ending_cons]
    cases he : s.ends with
    | some e => simpa [he] using hs
    | none =>
      have hf : ¬s.failed := fun hf => by simpa [he] using hs hf
      simp [hf, ih hl]

end Stage

end TinyKvm
