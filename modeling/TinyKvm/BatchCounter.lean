import TinyKvm.Interleaving
import Mathlib.Algebra.Order.BigOperators.Group.Finset
import Mathlib.Data.List.Pairwise

/-!
# Counting in batches

Processes count together : each gains ones of its own, moves what it owns into a
shared count, and at some point after each gain reports what it owns and the
shared count. Others may own ones it does not see, but never more than a batch
each, so a report is short of the ones gained by at most a batch for every other
process (`seen_accurate`). What one process reports only grows, since between
two of its reports it gains one and no one that is counted is taken back
(`reports_increasing`).
-/

namespace TinyKvm

namespace BatchCounter

/-- What a process owns, and whether it gained since its last report. -/
structure Owner where
  owned : ℕ
  gained : Bool

/-- What a process may do. -/
inductive Act where
  | gain
  | transfer
  | report

/-- What is seen of it : a one gained, or a report. -/
inductive Seen where
  | gained
  | reported (n : ℕ)

/-- A step of a process, with batches of at most `B`. -/
def step (B : ℕ) (o : Owner) (shared : ℕ) : Act → Option (Owner × ℕ × List Seen)
  | .gain => if o.owned < B then some (⟨o.owned + 1, true⟩, shared, [.gained]) else none
  | .transfer => some (⟨0, o.gained⟩, shared + o.owned, [])
  | .report =>
    if o.gained then some (⟨o.owned, false⟩, shared, [.reported (o.owned + shared)]) else none

/-- The processes, which own nothing, and the shared count. -/
def counter (B : ℕ) : Processes Owner ℕ Act Seen where
  start := ⟨0, false⟩
  shared := 0
  step := step B

/-- What a step can do. -/
inductive OwnerStep (B : ℕ) : Owner → ℕ → Owner → ℕ → List Seen → Prop
  | gain {owned : ℕ} (h : owned < B) (g : Bool) (s : ℕ) :
      OwnerStep B ⟨owned, g⟩ s ⟨owned + 1, true⟩ s [.gained]
  | transfer (owned : ℕ) (g : Bool) (s : ℕ) :
      OwnerStep B ⟨owned, g⟩ s ⟨0, g⟩ (s + owned) []
  | report (owned s : ℕ) :
      OwnerStep B ⟨owned, true⟩ s ⟨owned, false⟩ s [.reported (owned + s)]

theorem ownerStep_of_step {B : ℕ} {o o' : Owner} {s s' : ℕ} {a : Act} {os : List Seen}
    (h : step B o s a = some (o', s', os)) : OwnerStep B o s o' s' os := by
  obtain ⟨owned, g⟩ := o
  cases a with
  | gain =>
    obtain ⟨hlt, h⟩ := Option.ite_none_right_eq_some.1 h
    cases h
    exact .gain hlt g s
  | transfer =>
    cases h
    exact .transfer owned g s
  | report =>
    obtain ⟨rfl, h⟩ := Option.ite_none_right_eq_some.1 h
    cases h
    exact .report owned s

/-! ## Accuracy -/

/-- The ones an output shows. -/
def ones : Seen → ℕ
  | .gained => 1
  | .reported _ => 0

variable {ι : Type*}

/-- The ones gained. -/
def total (es : List (ι × Seen)) : ℕ :=
  (es.map fun e => ones e.2).sum

theorem OwnerStep.balance {B : ℕ} {o o' : Owner} {s s' : ℕ} {os : List Seen}
    (h : OwnerStep B o s o' s' os) : o'.owned + s' = o.owned + s + (os.map ones).sum := by
  cases h <;> simp [ones] <;> omega

theorem OwnerStep.owned_le {B : ℕ} {o o' : Owner} {s s' : ℕ} {os : List Seen}
    (h : OwnerStep B o s o' s' os) (ho : o.owned ≤ B) : o'.owned ≤ B := by
  cases h with
  | gain h => exact h
  | transfer => exact Nat.zero_le B
  | report => exact ho

variable [DecidableEq ι] {B : ℕ} {c : Processes.Config ι Owner ℕ} {es : List (ι × Seen)}

theorem owned_le (h : (counter B).Run c es) (i : ι) : (c.locals i).owned ≤ B :=
  h.local_inv (I := fun o => o.owned ≤ B) (Nat.zero_le B)
    (fun ho hs => (ownerStep_of_step hs).owned_le ho) i

section Accuracy

variable [Fintype ι]

/-- Nothing is lost between the processes and the shared count. -/
theorem counted (h : (counter B).Run c es) (i : ι) :
    c.shared + ((c.locals i).owned + ∑ j ∈ Finset.univ.erase i, (c.locals j).owned) =
      total es := by
  rw [Finset.add_sum_erase _ (fun j => (c.locals j).owned) (Finset.mem_univ i)]
  exact h.conserves (f := Owner.owned) (g := id) (w := ones) rfl rfl
    fun hs => (ownerStep_of_step hs).balance

/-- What process `i` sees is short of the total by at most a batch for each other process. -/
theorem total_le (h : (counter B).Run c es) (i : ι) :
    total es ≤ (c.locals i).owned + c.shared + B * (Fintype.card ι - 1) := by
  have hothers : ∑ j ∈ Finset.univ.erase i, (c.locals j).owned ≤ B * (Fintype.card ι - 1) := by
    calc ∑ j ∈ Finset.univ.erase i, (c.locals j).owned
        ≤ (Finset.univ.erase i).card • B := Finset.sum_le_card_nsmul _ _ _ fun j _ => owned_le h j
      _ = B * (Fintype.card ι - 1) := by
        rw [Finset.card_erase_of_mem (Finset.mem_univ i), Finset.card_univ, smul_eq_mul, mul_comm]
  have hcounted := counted h i
  omega

theorem owned_add_shared_le (h : (counter B).Run c es) (i : ι) :
    (c.locals i).owned + c.shared ≤ total es := by
  have hcounted := counted h i
  omega

/-- A report is at most the ones gained before it, and short of them by at most a batch for each
other process. -/
theorem seen_accurate (h : (counter B).Run c es) {pre post : List (ι × Seen)} {i : ι} {n : ℕ}
    (hes : es = pre ++ (i, .reported n) :: post) :
    total pre ≤ n + B * (Fintype.card ι - 1) ∧ n ≤ total pre := by
  obtain ⟨c', es', a, o, s, os₁, os₂, h', hs, hpre⟩ := h.emitted hes
  have hle := total_le h' i
  have hge := owned_add_shared_le h' i
  have hstep := ownerStep_of_step hs
  generalize hos : os₁ ++ Seen.reported n :: os₂ = os at hstep
  generalize c'.locals i = own at hstep hle hge
  cases hstep with
  | gain => simp [List.append_eq_singleton_iff] at hos
  | transfer => simp at hos
  | report owned =>
    obtain ⟨rfl, rfl, rfl⟩ : os₁ = [] ∧ n = owned + c'.shared ∧ os₂ = [] := by
      simpa [List.append_eq_singleton_iff] using hos
    rw [hpre, List.map_nil, List.append_nil]
    exact ⟨hle, hge⟩

end Accuracy

/-! ## Growth -/

/-- The value of a report. -/
def Seen.value : Seen → Option ℕ
  | .gained => none
  | .reported n => some n

/-- The reports of process `i`, in order. -/
def reports (i : ι) (es : List (ι × Seen)) : List ℕ :=
  es.filterMap fun e => if e.1 = i then e.2.value else none

theorem exists_of_mem_reports {i : ι} {n : ℕ} (h : n ∈ reports i es) :
    ∃ pre post, es = pre ++ (i, .reported n) :: post := by
  obtain ⟨⟨j, o⟩, hmem, ho⟩ := List.mem_filterMap.1 h
  obtain ⟨rfl, ho⟩ := Option.ite_none_right_eq_some.1 ho
  have hreported : o = .reported n := by
    cases o <;> simp_all [Seen.value]
  rw [hreported] at hmem
  exact List.append_of_mem hmem

/-- A process is past the reports `ns` : it would report more than each of them after its next
gain, and already does if it gained since. -/
def Past (o : Owner) (shared : ℕ) (ns : List ℕ) : Prop :=
  ∀ n ∈ ns, n + o.gained.toNat ≤ o.owned + shared

theorem Past.mono {o : Owner} {s s' : ℕ} {ns : List ℕ} (h : Past o s ns) (hs : s ≤ s') :
    Past o s' ns :=
  fun n hn => (h n hn).trans (Nat.add_le_add_left hs _)

theorem OwnerStep.shared_le {o o' : Owner} {s s' : ℕ} {os : List Seen}
    (h : OwnerStep B o s o' s' os) : s ≤ s' := by
  cases h <;> omega

/-- A step of a process past its increasing reports leaves it so. -/
theorem OwnerStep.past {o o' : Owner} {s s' : ℕ} {os : List Seen} {ns : List ℕ}
    (h : OwnerStep B o s o' s' os) (hns : ns.Pairwise (· < ·)) (hpast : Past o s ns) :
    (ns ++ os.filterMap Seen.value).Pairwise (· < ·) ∧
      Past o' s' (ns ++ os.filterMap Seen.value) := by
  cases h with
  | @gain owned hlt g =>
    simp only [List.filterMap_cons, List.filterMap_nil, Seen.value, List.append_nil]
    refine ⟨hns, fun n hn => ?_⟩
    have := hpast n hn
    simp only [Bool.toNat_true] at this ⊢
    omega
  | transfer owned g =>
    simp only [List.filterMap_nil, List.append_nil]
    refine ⟨hns, fun n hn => ?_⟩
    have := hpast n hn
    simp only at this ⊢
    omega
  | report owned =>
    have hlt : ∀ n ∈ ns, n < owned + s := hpast
    simp only [List.filterMap_cons, List.filterMap_nil, Seen.value]
    refine ⟨List.pairwise_append.2 ⟨hns, List.pairwise_singleton _ _, ?_⟩, fun n hn => ?_⟩
    · intro n hn m hm
      rw [List.mem_singleton.1 hm]
      exact hlt n hn
    · rcases List.mem_append.1 hn with hn | hn
      · exact (hlt n hn).le
      · exact (List.mem_singleton.1 hn).le

theorem reports_append_self (i : ι) (es : List (ι × Seen)) (os : List Seen) :
    reports i (es ++ os.map (Prod.mk i)) = reports i es ++ os.filterMap Seen.value := by
  simp [reports, List.filterMap_map]

theorem reports_append_of_ne {i j : ι} (h : j ≠ i) (es : List (ι × Seen)) (os : List Seen) :
    reports i (es ++ os.map (Prod.mk j)) = reports i es := by
  simp [reports, List.filterMap_map, h]

/-- A process is past its reports, and they increase. -/
theorem past_reports (h : (counter B).Run c es) (i : ι) :
    (reports i es).Pairwise (· < ·) ∧ Past (c.locals i) c.shared (reports i es) := by
  induction h with
  | init => exact ⟨.nil, fun n hn => by simp [reports] at hn⟩
  | @step c es h j a o s os hs ih =>
    have hstep := ownerStep_of_step hs
    by_cases hij : j = i
    · subst hij
      rw [Processes.Config.set_locals_self, reports_append_self]
      exact hstep.past ih.1 ih.2
    · rw [Processes.Config.set_locals_of_ne c (Ne.symm hij), reports_append_of_ne hij]
      exact ⟨ih.1, ih.2.mono hstep.shared_le⟩

/-- What a process reports is strictly increasing. -/
theorem reports_increasing (h : (counter B).Run c es) (i : ι) :
    (reports i es).Pairwise (· < ·) :=
  (past_reports h i).1

end BatchCounter

end TinyKvm
