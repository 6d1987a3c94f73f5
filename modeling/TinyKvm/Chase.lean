import Mathlib.Computability.StateTransition
import Mathlib.Order.WellFoundedSet

/-!
# Following a step to its end

`chase f n a` follows `f` from `a` until it gives nothing more, for at most `n`
rounds. It finds the place where `StateTransition.eval` ends (`exists_chase_iff`),
so what it finds does not depend on the rounds it is given.

When finitely many places are reached from `a`, the chase from `a` ends exactly
if none of them is on a cycle (`ends_iff_no_cycle`). A map that carries one step
function to another carries the one chase to the other (`chase_map`).
-/

namespace TinyKvm

open Relation StateTransition

variable {α β : Type*} {f : α → Option α}

/-- Follow `f` until it is `none`, in fewer than `n` steps. -/
def chase (f : α → Option α) : ℕ → α → Option α
  | 0, _ => none
  | n + 1, a =>
    match f a with
    | none => some a
    | some b => chase f n b

theorem chase_succ_of_none {a : α} (h : f a = none) (n : ℕ) : chase f (n + 1) a = some a := by
  rw [chase, h]

theorem chase_succ_of_some {a b : α} (h : f a = some b) (n : ℕ) :
    chase f (n + 1) a = chase f n b := by
  rw [chase, h]

theorem mem_eval_of_chase : ∀ {n : ℕ} {a b : α}, chase f n a = some b → b ∈ eval f a
  | n + 1, a, b, h => by
    cases ha : f a with
    | none =>
      rw [chase_succ_of_none ha] at h
      obtain rfl := Option.some.inj h
      exact mem_eval.2 ⟨.refl, ha⟩
    | some c =>
      rw [chase_succ_of_some ha] at h
      obtain ⟨hcb, hb⟩ := mem_eval.1 (mem_eval_of_chase h)
      exact mem_eval.2 ⟨.head ha hcb, hb⟩

/-- The chase ends where the transition system does. -/
theorem exists_chase_iff {a b : α} : (∃ n, chase f n a = some b) ↔ b ∈ eval f a := by
  refine ⟨fun ⟨n, h⟩ => mem_eval_of_chase h, fun h => ?_⟩
  obtain ⟨hab, hb⟩ := mem_eval.1 h
  induction hab using ReflTransGen.head_induction_on with
  | refl => exact ⟨1, chase_succ_of_none hb 0⟩
  | head hac hcb ih =>
    obtain ⟨n, hn⟩ := ih (mem_eval.2 ⟨hcb, hb⟩)
    exact ⟨n + 1, (chase_succ_of_some hac n).trans hn⟩

/-- An end that is reached is the one the chase finds. -/
theorem eq_of_chase {n : ℕ} {a b c : α} (hb : chase f n a = some b) (hac : Reaches f a c)
    (hc : f c = none) : c = b :=
  Part.mem_unique (mem_eval.2 ⟨hac, hc⟩) (mem_eval_of_chase hb)

/-- A set the steps stay in, the chase ends in. -/
theorem chase_mem {S : Set α} (hclosed : ∀ x ∈ S, ∀ y, f x = some y → y ∈ S) :
    ∀ {n : ℕ} {a b : α}, a ∈ S → chase f n a = some b → b ∈ S
  | n + 1, a, b, ha, h => by
    cases hfa : f a with
    | none =>
      rw [chase_succ_of_none hfa] at h
      exact Option.some.inj h ▸ ha
    | some c =>
      rw [chase_succ_of_some hfa] at h
      exact chase_mem hclosed (hclosed a ha c hfa) h

/-- Where an invariant is kept and a measure falls, the chase ends in as many rounds as the measure
has left, with the invariant. -/
theorem chase_of_measure {I : α → Prop} {m : α → ℕ}
    (hstep : ∀ {a b}, I a → f a = some b → I b ∧ m b < m a) :
    ∀ {n : ℕ} {a : α}, I a → m a < n → ∃ b, chase f n a = some b ∧ I b
  | n + 1, a, ha, hm => by
    cases hfa : f a with
    | none => exact ⟨a, chase_succ_of_none hfa n, ha⟩
    | some b =>
      obtain ⟨hb, hlt⟩ := hstep ha hfa
      rw [chase_succ_of_some hfa]
      exact chase_of_measure hstep hb (by omega)

/-! ## Cycles -/

/-- What is reached from a cycle is on one. -/
theorem reaches₁_self_of_reaches {a b : α} (ha : Reaches₁ f a a) (hab : Reaches f a b) :
    Reaches₁ f b b := by
  induction hab with
  | refl => exact ha
  | tail _ hbc ih => exact TransGen.tail' (reaches₁_fwd ih hbc) hbc

/-- A chase that ends meets no cycle on its way. -/
theorem not_cycle_of_mem_eval {a b c : α} (hb : b ∈ eval f a) (hac : Reaches f a c) :
    ¬Reaches₁ f c c := by
  intro hc
  obtain ⟨hab, hnone⟩ := mem_eval.1 hb
  have hcb : Reaches f c b := by
    rcases reaches_total hab hac with h | h
    · rw [(eval_maximal (mem_eval.2 ⟨.refl, hnone⟩)).1 h]
      exact .refl
    · exact h
  exact eval_maximal₁ hb b (reaches₁_self_of_reaches hc hcb)

/-- Among finitely many places and without a cycle, the chase ends. -/
theorem exists_mem_eval_of_no_cycle {a : α} (hfin : {c | Reaches f a c}.Finite)
    (h : ∀ c, Reaches f a c → ¬Reaches₁ f c c) : ∃ b, b ∈ eval f a := by
  let r : α → α → Prop := fun x y => Reaches f a y ∧ Reaches₁ f y x
  have : IsStrictOrder α r :=
    { irrefl := fun x hx => h x hx.1 hx.2
      trans := fun x y z hxy hyz => ⟨hyz.1, hyz.2.trans hxy.2⟩ }
  have hwf : {c | Reaches f a c}.WellFoundedOn r := hfin.wellFoundedOn
  refine hwf.induction (P := fun c => ∃ b, b ∈ eval f c) ReflTransGen.refl fun c hc ih => ?_
  cases hn : f c with
  | none => exact ⟨c, mem_eval.2 ⟨.refl, hn⟩⟩
  | some d =>
    obtain ⟨b, hb⟩ := ih d (ReflTransGen.tail hc hn) ⟨hc, .single hn⟩
    exact ⟨b, by rwa [reaches_eval (.single hn)]⟩

/-- Among finitely many places the chase ends exactly when none of them is on a cycle. -/
theorem ends_iff_no_cycle {a : α} (hfin : {c | Reaches f a c}.Finite) :
    (∃ n b, chase f n a = some b) ↔ ¬∃ c, Reaches f a c ∧ Reaches₁ f c c := by
  refine ⟨fun ⟨n, b, h⟩ ⟨c, hac, hc⟩ => not_cycle_of_mem_eval (mem_eval_of_chase h) hac hc,
    fun h => ?_⟩
  obtain ⟨b, hb⟩ := exists_mem_eval_of_no_cycle hfin fun c hac hc => h ⟨c, hac, hc⟩
  obtain ⟨n, hn⟩ := exists_chase_iff.2 hb
  exact ⟨n, b, hn⟩

/-! ## Simulation -/

/-- A map that carries the steps of `g` to those of `f`, on a set the steps of `g` stay in,
carries the chase of `g` to that of `f`. -/
theorem chase_map {g : β → Option β} {φ : β → α} {S : Set β}
    (hmap : ∀ x ∈ S, f (φ x) = (g x).map φ) (hclosed : ∀ x ∈ S, ∀ y, g x = some y → y ∈ S) :
    ∀ (n : ℕ) {x : β}, x ∈ S → chase f n (φ x) = (chase g n x).map φ
  | 0, _, _ => rfl
  | n + 1, x, hx => by
    cases hg : g x with
    | none =>
      rw [chase_succ_of_none hg, chase_succ_of_none (by rw [hmap x hx, hg]; rfl)]
      rfl
    | some y =>
      rw [chase_succ_of_some hg, chase_succ_of_some (by rw [hmap x hx, hg]; rfl)]
      exact chase_map hmap hclosed n (hclosed x hx y hg)

end TinyKvm
