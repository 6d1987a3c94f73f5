import Mathlib.Data.List.Induction
import Mathlib.Data.List.Infix

/-!
# Runs of a machine

A machine answers each input with an output and moves its state. `after` is the
state a run ends in, `trace` the inputs of the run with their answers, and
`answer` the output to one more input. Runs grow at the end : `after_snoc` and
`trace_snoc` peel the last input, and `run_induction` is the induction they give.

A guard `G` speaks of a state and the input about to be handled. `Meets G` says
that every step of a run meets the guard where it is taken, so `run_induction`
proves what guarded runs preserve. When a step from a good state ends in a good
state exactly if it meets the guard, a run stays good exactly if it meets the
guard throughout (`always_iff_meets`).

Some outputs are refusals. Where these are harmless (`RefusalsHarmless`), a run
goes on as if the refused inputs had not been made.
-/

namespace TinyKvm

/-- A machine with states `σ`, inputs `ι` and outputs `ο`. -/
structure Machine (σ ι ο : Type*) where
  init : σ
  step : σ → ι → σ × ο

namespace Machine

variable {σ ι ο : Type*} (M : Machine σ ι ο)

/-- The state after the inputs `is`. -/
def after (is : List ι) : σ :=
  is.foldl (fun s i => (M.step s i).1) M.init

/-- The output to `i` after the inputs `is`. -/
def answer (is : List ι) (i : ι) : ο :=
  (M.step (M.after is) i).2

/-- The inputs of a run from `s`, each with its output. -/
def traceFrom : σ → List ι → List (ι × ο)
  | _, [] => []
  | s, i :: is => (i, (M.step s i).2) :: traceFrom (M.step s i).1 is

/-- The inputs of a run, each with its output. -/
def trace (is : List ι) : List (ι × ο) :=
  M.traceFrom M.init is

@[simp] theorem after_nil : M.after [] = M.init :=
  rfl

theorem after_snoc (is : List ι) (i : ι) :
    M.after (is ++ [i]) = (M.step (M.after is) i).1 := by
  simp [after]

@[simp] theorem trace_nil : M.trace [] = [] :=
  rfl

theorem traceFrom_append (s : σ) (is js : List ι) :
    M.traceFrom s (is ++ js) =
      M.traceFrom s is ++ M.traceFrom (is.foldl (fun s i => (M.step s i).1) s) js := by
  induction is generalizing s with
  | nil => rfl
  | cons i is ih => simp [traceFrom, ih]

theorem trace_snoc (is : List ι) (i : ι) :
    M.trace (is ++ [i]) = M.trace is ++ [(i, M.answer is i)] := by
  simp [trace, traceFrom_append, traceFrom, answer, after]

/-- The trace only grows. -/
theorem trace_initial {js is : List ι} (h : js <+: is) : M.trace js <+: M.trace is := by
  obtain ⟨post, rfl⟩ := h
  rw [trace, trace, traceFrom_append]
  exact List.prefix_append _ _

/-! ## Guarded runs -/

/-- Every step of the run meets `G` : the state it is taken in, with its input. -/
def Meets (G : σ → ι → Prop) (is : List ι) : Prop :=
  ∀ pre i, pre ++ [i] <+: is → G (M.after pre) i

theorem meets_nil (G : σ → ι → Prop) : M.Meets G [] := by
  intro pre i h
  simp at h

/-- A run meets `G` when the run before its last input does and the last step does. -/
theorem meets_snoc {G : σ → ι → Prop} {is : List ι} {i : ι} :
    M.Meets G (is ++ [i]) ↔ M.Meets G is ∧ G (M.after is) i := by
  constructor
  · intro h
    exact ⟨fun pre j hp => h pre j (hp.trans (List.prefix_append _ _)), h is i (List.prefix_refl _)⟩
  · rintro ⟨h, hi⟩ pre j hp
    rcases List.prefix_concat_iff.1 hp with heq | hp
    · obtain ⟨rfl, hj⟩ := List.append_inj' heq rfl
      obtain rfl := List.singleton_inj.1 hj
      exact hi
    · exact h pre j hp

theorem Meets.initial {M : Machine σ ι ο} {G : σ → ι → Prop} {is js : List ι} (h : M.Meets G is)
    (hp : js <+: is) : M.Meets G js :=
  fun pre i hi => h pre i (hi.trans hp)

theorem meets_iff_take {G : σ → ι → Prop} {is : List ι} :
    M.Meets G is ↔ ∀ k (hk : k < is.length), G (M.after (is.take k)) is[k] := by
  constructor
  · intro h k hk
    refine h _ _ ?_
    rw [List.take_append_getElem hk]
    exact List.take_prefix _ _
  · rintro h pre i ⟨post, rfl⟩
    simpa using h pre.length (by simp)

instance {G : σ → ι → Prop} [∀ s i, Decidable (G s i)] (is : List ι) :
    Decidable (M.Meets G is) :=
  decidable_of_iff _ M.meets_iff_take.symm

/-- A run that does not meet `G` throughout has a first step that does not. -/
theorem meets_or_first (G : σ → ι → Prop) (is : List ι) :
    M.Meets G is ∨
      ∃ pre i post, is = pre ++ i :: post ∧ M.Meets G pre ∧ ¬G (M.after pre) i := by
  induction is using List.reverseRecOn with
  | nil => exact .inl (M.meets_nil G)
  | append_singleton is j ih =>
    rcases ih with h | ⟨pre, i, post, rfl, hpre, hi⟩
    · by_cases hj : G (M.after is) j
      · exact .inl (M.meets_snoc.2 ⟨h, hj⟩)
      · exact .inr ⟨is, j, [], rfl, h, hj⟩
    · exact .inr ⟨pre, i, post ++ [j], by simp, hpre, hi⟩

/-- What the first state has and every guarded step keeps, every guarded run has. -/
theorem run_induction {G : σ → ι → Prop} {I : List ι → σ → Prop} (h0 : I [] M.init)
    (hstep : ∀ is i, I is (M.after is) → G (M.after is) i → I (is ++ [i]) (M.after (is ++ [i])))
    (is : List ι) (hG : M.Meets G is) : I is (M.after is) := by
  induction is using List.reverseRecOn with
  | nil => exact h0
  | append_singleton is i ih =>
    obtain ⟨hG, hi⟩ := M.meets_snoc.1 hG
    exact hstep is i (ih hG) hi

/-- What the first state has and every step keeps, every run has. -/
theorem run_induction' {I : List ι → σ → Prop} (h0 : I [] M.init)
    (hstep : ∀ is i, I is (M.after is) → I (is ++ [i]) (M.after (is ++ [i]))) (is : List ι) :
    I is (M.after is) :=
  M.run_induction (G := fun _ _ => True) h0 (fun is i h _ => hstep is i h) is fun _ _ _ => trivial

/-! ## Properties of every state of a run -/

/-- `P` holds in every state of the run, the first and the last included. -/
def Always (P : σ → Prop) (is : List ι) : Prop :=
  ∀ pre, pre <+: is → P (M.after pre)

theorem always_snoc {P : σ → Prop} {is : List ι} {i : ι} :
    M.Always P (is ++ [i]) ↔ M.Always P is ∧ P (M.after (is ++ [i])) := by
  constructor
  · intro h
    exact ⟨fun pre hp => h pre (hp.trans (List.prefix_append _ _)), h _ (List.prefix_refl _)⟩
  · rintro ⟨h, hi⟩ pre hp
    rcases List.prefix_concat_iff.1 hp with rfl | hp
    · exact hi
    · exact h pre hp

/-- If a step from a state with `P` ends in a state with `P` exactly when it meets `G`,
every state of a run has `P` exactly when every step of it meets `G`. -/
theorem always_iff_meets {P : σ → Prop} {G : σ → ι → Prop} (h0 : P M.init)
    (hstep : ∀ s i, P s → (P (M.step s i).1 ↔ G s i)) (is : List ι) :
    M.Always P is ↔ M.Meets G is := by
  induction is using List.reverseRecOn with
  | nil =>
    refine iff_of_true (fun pre hp => ?_) (M.meets_nil G)
    rw [List.prefix_nil.1 hp]
    exact h0
  | append_singleton is i ih =>
    rw [M.always_snoc, M.meets_snoc, ← ih]
    refine and_congr_right fun hP => ?_
    rw [M.after_snoc]
    exact hstep _ _ (hP is (List.prefix_refl _))

/-! ## Refusals -/

section Refusals

variable (refused : ο → Prop) [DecidablePred refused]

/-- The inputs of a run whose outputs are no refusals. -/
def accepted (is : List ι) : List ι :=
  ((M.trace is).filter fun c => ¬refused c.2).map Prod.fst

/-- Deleting from a run the inputs that were refused changes no output of it. -/
def RefusalsHarmless (is : List ι) : Prop :=
  ∀ pre i, pre ++ [i] <+: is → M.answer pre i = M.answer (M.accepted refused pre) i

variable {refused}

theorem accepted_snoc_of_refused {is : List ι} {i : ι} (h : refused (M.answer is i)) :
    M.accepted refused (is ++ [i]) = M.accepted refused is := by
  simp [accepted, trace_snoc, List.filter_append, h]

theorem accepted_snoc_of_not {is : List ι} {i : ι} (h : ¬refused (M.answer is i)) :
    M.accepted refused (is ++ [i]) = M.accepted refused is ++ [i] := by
  simp [accepted, trace_snoc, List.filter_append, h]

end Refusals

end Machine

/-! ## What a run brought last -/

/-- What the last input that brought something brought. -/
def lastOf {ι α : Type*} (bring : ι → Option α) (is : List ι) : Option α :=
  (is.filterMap bring).getLast?

theorem lastOf_snoc {ι α : Type*} (bring : ι → Option α) (is : List ι) (i : ι) :
    lastOf bring (is ++ [i]) = (bring i).or (lastOf bring is) := by
  unfold lastOf
  cases h : bring i <;> simp [List.filterMap_append, h]

end TinyKvm
