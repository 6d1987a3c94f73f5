import TinyKvm.Machine
import Mathlib.Algebra.BigOperators.Fin
import Mathlib.Algebra.BigOperators.Group.Finset.Basic
import Mathlib.Data.Fintype.BigOperators

/-!
# Interleaved processes

Processes run the same program on a private state each and on a state they all
share. A step belongs to one process, takes an input and emits outputs, and any
process whose program allows a step may take the next one. `Run` is what an
interleaving can lead to : the states it ends in and what was emitted on the
way, each output with the process that emitted it.

Two rules derive facts about every interleaving from one step of the program. A
property of the private state that a step keeps holds of every process
(`Run.local_inv`). A quantity that a step moves between the private state, the
shared state and the outputs without loss is conserved over all processes
(`Run.conserves`).

An output was emitted by a step of a shorter run, which emitted what stands
before it (`Run.emitted`). A program refines another (`Refines`) when each of its
steps is a step of the other on related states, or is not seen there; what it
emits is then what the other emits in some interleaving (`Refines.run`).

A schedule says whose step is next. The runs are what the schedules of a machine
lead to (`run_schedule`, `Run.exists_schedule`), so a guard on its steps speaks
of the interleaving.
-/

namespace TinyKvm

/-- The program of interleaved processes : private states `L`, shared state `S`, inputs `E`
and outputs `O`. A step is `none` where the program does not allow it. -/
structure Processes (L S E O : Type*) where
  start : L
  shared : S
  step : L → S → E → Option (L × S × List O)

namespace Processes

variable {ι L S E O : Type*}

/-- The private state of every process and the shared state. -/
structure Config (ι L S : Type*) where
  locals : ι → L
  shared : S

variable (P : Processes L S E O)

/-- Before any step. -/
def init (ι : Type*) : Config ι L S :=
  ⟨fun _ => P.start, P.shared⟩

variable [DecidableEq ι]

/-- The configuration after a step of process `i`. -/
def Config.set (c : Config ι L S) (i : ι) (l : L) (s : S) : Config ι L S :=
  ⟨Function.update c.locals i l, s⟩

@[simp] theorem Config.set_locals_self (c : Config ι L S) (i : ι) (l : L) (s : S) :
    (c.set i l s).locals i = l := by
  simp [Config.set]

theorem Config.set_locals_of_ne (c : Config ι L S) {i j : ι} (h : j ≠ i) (l : L) (s : S) :
    (c.set i l s).locals j = c.locals j := by
  simp [Config.set, h]

/-- The configurations interleavings lead to, with what was emitted. -/
inductive Run : Config ι L S → List (ι × O) → Prop
  | init : Run (P.init ι) []
  | step {c : Config ι L S} {es : List (ι × O)} (h : Run c es) (i : ι) (e : E) {l : L} {s : S}
      {os : List O} (hs : P.step (c.locals i) c.shared e = some (l, s, os)) :
      Run (c.set i l s) (es ++ os.map (Prod.mk i))

variable {P} {c : Config ι L S} {es : List (ι × O)}

/-- What a private state starts with and every step keeps, every process has. -/
theorem Run.local_inv {I : L → Prop} (h0 : I P.start)
    (hstep : ∀ {l s e l' s' os}, I l → P.step l s e = some (l', s', os) → I l')
    (h : P.Run c es) (i : ι) : I (c.locals i) := by
  induction h generalizing i with
  | init => exact h0
  | @step c es h j e l s os hs ih =>
    by_cases hij : i = j
    · subst hij
      rw [Config.set_locals_self]
      exact hstep (ih i) hs
    · rw [Config.set_locals_of_ne c hij]
      exact ih i

/-- An output was emitted by a step of a run that emitted the outputs before it. -/
theorem Run.emitted {i : ι} {o : O} (h : P.Run c es) {pre post : List (ι × O)}
    (hes : es = pre ++ (i, o) :: post) :
    ∃ c' es' e l s os₁ os₂, P.Run c' es' ∧
      P.step (c'.locals i) c'.shared e = some (l, s, os₁ ++ o :: os₂) ∧
      pre = es' ++ os₁.map (Prod.mk i) := by
  induction h generalizing post with
  | init => simp at hes
  | @step c es h j e l s os hs ih =>
    rcases List.append_eq_append_iff.1 hes with ⟨mid, rfl, hmid⟩ | ⟨mid, hmid, hpost⟩
    · obtain ⟨os₁, os', rfl, rfl, hos'⟩ := List.map_eq_append_iff.1 hmid
      obtain ⟨o', os₂, rfl, ho, -⟩ := List.map_eq_cons_iff.1 hos'
      obtain ⟨rfl, rfl⟩ := Prod.mk.inj ho
      exact ⟨c, es, e, l, s, os₁, os₂, h, hs, rfl⟩
    · cases mid with
      | nil =>
        obtain ⟨o', os₂, rfl, ho, -⟩ := List.map_eq_cons_iff.1 hpost.symm
        obtain ⟨rfl, rfl⟩ := Prod.mk.inj ho
        exact ⟨c, es, e, l, s, [], os₂, h, hs, by simpa using hmid.symm⟩
      | cons p mid =>
        obtain ⟨rfl, -⟩ := List.cons.inj hpost
        exact ih hmid

section Conserved

variable [Fintype ι] {M : Type*} [AddCommMonoid M]

/-- A sum over all processes, after a step of one. -/
theorem sum_set (f : L → M) (c : Config ι L S) (i : ι) (l : L) (s : S) :
    ∑ j, f ((c.set i l s).locals j) = f l + ∑ j ∈ Finset.univ.erase i, f (c.locals j) := by
  rw [← Finset.add_sum_erase _ _ (Finset.mem_univ i)]
  congr 1
  · rw [Config.set_locals_self]
  · refine Finset.sum_congr rfl fun j hj => ?_
    rw [Config.set_locals_of_ne c (Finset.ne_of_mem_erase hj)]

/-- What a step moves between the private state, the shared state and the outputs without
loss, the shared state and all processes hold together, up to what was emitted. -/
theorem Run.conserves {f : L → M} {g : S → M} {w : O → M} (hf : f P.start = 0)
    (hg : g P.shared = 0)
    (hstep : ∀ {l s e l' s' os}, P.step l s e = some (l', s', os) →
      f l' + g s' = f l + g s + (os.map w).sum)
    (h : P.Run c es) : g c.shared + ∑ i, f (c.locals i) = (es.map fun e => w e.2).sum := by
  induction h with
  | init => simp [Processes.init, hf, hg]
  | @step c es h i e l s os hs ih =>
    have hmap : ((os.map (Prod.mk i)).map fun e => w e.2) = os.map w := by
      rw [List.map_map]
      rfl
    rw [sum_set, List.map_append, List.sum_append, hmap, ← ih,
      ← Finset.add_sum_erase _ _ (Finset.mem_univ i)]
    calc g s + (f l + ∑ j ∈ Finset.univ.erase i, f (c.locals j))
        = (f l + g s) + ∑ j ∈ Finset.univ.erase i, f (c.locals j) := by
          rw [← add_assoc, add_comm (g s)]
      _ = (f (c.locals i) + g c.shared + (os.map w).sum) +
            ∑ j ∈ Finset.univ.erase i, f (c.locals j) := by
          rw [hstep hs]
      _ = g c.shared + (f (c.locals i) + ∑ j ∈ Finset.univ.erase i, f (c.locals j)) +
            (os.map w).sum := by
          rw [add_comm (f (c.locals i)), add_right_comm, add_assoc (g c.shared)]

end Conserved

/-! ## Refinement -/

section Refinement

variable {L' S' E' O' : Type*}

/-- A step of the program, or no step at all. -/
def StepOrStay (Q : Processes L S E O) (l : L) (s : S) (m : L) (t : S) (os : List O) : Prop :=
  (∃ e, Q.step l s e = some (m, t, os)) ∨ (m = l ∧ t = s ∧ os = [])

/-- `P` refines `Q` : related states are related again after a step of `P` and the step of `Q`
it stands for, and `obs` says what an output of `Q` is in `P`. -/
structure Refines (P : Processes L S E O) (Q : Processes L' S' E' O') where
  relL : L → L' → Prop
  relS : S → S' → Prop
  obs : O' → O
  startL : relL P.start Q.start
  startS : relS P.shared Q.shared
  step : ∀ {l s e m t os l' s'}, relL l l' → relS s s' → P.step l s e = some (m, t, os) →
    ∃ m' t' os', Q.StepOrStay l' s' m' t' os' ∧ relL m m' ∧ relS t t' ∧ os = os'.map obs

/-- An interleaving of `P` is one of `Q`, with the outputs of `P` for those of `Q`. -/
theorem Refines.run {Q : Processes L' S' E' O'} (r : Refines P Q) (h : P.Run c es) :
    ∃ (c' : Config ι L' S') (es' : List (ι × O')), Q.Run c' es' ∧
      (∀ i, r.relL (c.locals i) (c'.locals i)) ∧ r.relS c.shared c'.shared ∧
      es = es'.map (Prod.map id r.obs) := by
  induction h with
  | init => exact ⟨Q.init ι, [], .init, fun _ => r.startL, r.startS, rfl⟩
  | @step c es h i e l s os hs ih =>
    obtain ⟨c', es', h', hL, hS, rfl⟩ := ih
    obtain ⟨m', t', os', hstep, hm, ht, rfl⟩ := r.step (hL i) hS hs
    have hlocals : ∀ j, r.relL ((c.set i l s).locals j) ((c'.set i m' t').locals j) := by
      intro j
      by_cases hj : j = i
      · subst hj
        rwa [Config.set_locals_self, Config.set_locals_self]
      · rw [Config.set_locals_of_ne c hj, Config.set_locals_of_ne c' hj]
        exact hL j
    have hes : es'.map (Prod.map id r.obs) ++ (os'.map r.obs).map (Prod.mk i) =
        (es' ++ os'.map (Prod.mk i)).map (Prod.map id r.obs) := by
      simp [Function.comp_def]
    rcases hstep with ⟨e', hstep⟩ | ⟨rfl, rfl, rfl⟩
    · exact ⟨c'.set i m' t', _, h'.step i e' hstep, hlocals, ht, hes⟩
    · have hset : c'.set i (c'.locals i) c'.shared = c' := by
        simp [Config.set]
      rw [hset] at hlocals
      exact ⟨c', es', h', hlocals, ht, by simp⟩

end Refinement

/-! ## Schedules -/

section Schedule

variable (P ι)

/-- The processes as one machine : an input names the process that takes the next step. A step
that its program does not allow is none. -/
def scheduler : Machine (Config ι L S) (ι × E) (List (ι × O)) where
  init := P.init ι
  step c x :=
    match P.step (c.locals x.1) c.shared x.2 with
    | some (l, s, os) => (c.set x.1 l s, os.map (Prod.mk x.1))
    | none => (c, [])

variable {ι}

/-- What the steps of a schedule emit. -/
def emitted (xs : List (ι × E)) : List (ι × O) :=
  ((P.scheduler ι).trace xs).flatMap Prod.snd

theorem emitted_snoc (xs : List (ι × E)) (x : ι × E) :
    P.emitted (xs ++ [x]) = P.emitted xs ++ (P.scheduler ι).answer xs x := by
  simp [emitted, Machine.trace_snoc]

variable {P} {xs : List (ι × E)} {i : ι} {e : E} {l : L} {s : S} {os : List O}

theorem scheduler_step (h : P.step (c.locals i) c.shared e = some (l, s, os)) :
    (P.scheduler ι).step c (i, e) = (c.set i l s, os.map (Prod.mk i)) := by
  simp only [scheduler, h]

theorem scheduler_step_of_none (h : P.step (c.locals i) c.shared e = none) :
    (P.scheduler ι).step c (i, e) = (c, []) := by
  simp only [scheduler, h]

/-- The configuration after one more step. -/
theorem after_snoc_of_step
    (h : P.step (((P.scheduler ι).after xs).locals i) ((P.scheduler ι).after xs).shared e =
      some (l, s, os)) :
    (P.scheduler ι).after (xs ++ [(i, e)]) = ((P.scheduler ι).after xs).set i l s := by
  rw [Machine.after_snoc, scheduler_step h]

/-- What one more step emits. -/
theorem emitted_snoc_of_step
    (h : P.step (((P.scheduler ι).after xs).locals i) ((P.scheduler ι).after xs).shared e =
      some (l, s, os)) :
    P.emitted (xs ++ [(i, e)]) = P.emitted xs ++ os.map (Prod.mk i) := by
  rw [emitted_snoc, Machine.answer, scheduler_step h]

/-- A schedule leads to a run. -/
theorem run_schedule (xs : List (ι × E)) : P.Run ((P.scheduler ι).after xs) (P.emitted xs) := by
  induction xs using List.reverseRecOn with
  | nil => exact .init
  | append_singleton xs x ih =>
    obtain ⟨i, e⟩ := x
    cases h : P.step (((P.scheduler ι).after xs).locals i) ((P.scheduler ι).after xs).shared e with
    | none =>
      rw [Machine.after_snoc, emitted_snoc, Machine.answer, scheduler_step_of_none h,
        List.append_nil]
      exact ih
    | some r =>
      obtain ⟨l, s, os⟩ := r
      rw [after_snoc_of_step h, emitted_snoc_of_step h]
      exact ih.step i e h

/-- Every run is that of a schedule. -/
theorem Run.exists_schedule (h : P.Run c es) :
    ∃ xs, (P.scheduler ι).after xs = c ∧ P.emitted xs = es := by
  induction h with
  | init => exact ⟨[], rfl, rfl⟩
  | @step c es h i e l s os hs ih =>
    obtain ⟨xs, rfl, rfl⟩ := ih
    exact ⟨xs ++ [(i, e)], after_snoc_of_step hs, emitted_snoc_of_step hs⟩

end Schedule

end Processes

end TinyKvm
