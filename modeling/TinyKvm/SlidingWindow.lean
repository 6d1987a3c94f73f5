import Mathlib.Algebra.Group.Fin.Basic
import Mathlib.Algebra.GroupWithZero.Nat
import Mathlib.Data.List.Induction
import Mathlib.Logic.Function.Basic

/-!
# Sliding windows

Items come in between ticks. `within n` are the items followed by at most `n`
ticks, in order.

A ring of `B` slots keeps the last windows folded : an item goes into every
slot, a tick resets the current slot to the start value and moves on. The slot
`j` places ahead of the current one was reset `B - j` ticks ago, so it holds the
fold of the items within `B - 1 - j` ticks (`SlotRing.after_slot`), and the current
slot that of the items within `B - 1` ticks.
-/

namespace TinyKvm

variable {α M : Type*}

/-- An item, or a tick. -/
inductive Tick (α : Type*) where
  | item (a : α)
  | tick
  deriving DecidableEq

namespace Tick

/-- The ticks of a history. -/
def ticks (ts : List (Tick α)) : ℕ :=
  ts.countP fun t => match t with
    | .item _ => false
    | .tick => true

/-- The items followed by at most `n` ticks. -/
def within (n : ℕ) : List (Tick α) → List α
  | [] => []
  | .item a :: ts => if ticks ts ≤ n then a :: within n ts else within n ts
  | .tick :: ts => within n ts

theorem ticks_snoc_item (ts : List (Tick α)) (a : α) : ticks (ts ++ [.item a]) = ticks ts := by
  simp [ticks]

theorem ticks_snoc_tick (ts : List (Tick α)) : ticks (ts ++ [.tick]) = ticks ts + 1 := by
  simp [ticks]

theorem within_snoc_item (n : ℕ) (ts : List (Tick α)) (a : α) :
    within n (ts ++ [.item a]) = within n ts ++ [a] := by
  induction ts with
  | nil => simp [within, ticks]
  | cons t ts ih =>
    cases t with
    | item b => simp only [List.cons_append, within, ticks_snoc_item, ih]; split <;> rfl
    | tick => exact ih

theorem within_zero_snoc_tick (ts : List (Tick α)) : within 0 (ts ++ [.tick]) = [] := by
  induction ts with
  | nil => rfl
  | cons t ts ih =>
    cases t with
    | item b => simp [within, ticks_snoc_tick, ih]
    | tick => exact ih

theorem within_succ_snoc_tick (n : ℕ) (ts : List (Tick α)) :
    within (n + 1) (ts ++ [.tick]) = within n ts := by
  induction ts with
  | nil => rfl
  | cons t ts ih =>
    cases t with
    | item b => simp [within, ticks_snoc_tick, ih]
    | tick => exact ih

end Tick

/-- A ring of `B` slots, one of them the current one. -/
structure SlotRing (M : Type*) (B : ℕ) where
  slots : Fin B → M
  current : Fin B

namespace SlotRing

variable {B : ℕ} [NeZero B] (f : M → α → M) (start : M)

/-- Every slot holds the start value. -/
def init : SlotRing M B :=
  ⟨fun _ => start, 0⟩

/-- An item goes into every slot; a tick resets the current slot and moves on. -/
def step (r : SlotRing M B) : Tick α → SlotRing M B
  | .item a => ⟨fun i => f (r.slots i) a, r.current⟩
  | .tick => ⟨Function.update r.slots r.current start, r.current + 1⟩

/-- The ring after a history. -/
def after (ts : List (Tick α)) : SlotRing M B :=
  ts.foldl (step f start) (init start)

theorem after_snoc (ts : List (Tick α)) (t : Tick α) :
    (after f start (ts ++ [t]) : SlotRing M B) = step f start (after f start ts) t := by
  simp [after]

/-- The slot `j` places ahead holds the items within `B - 1 - j` ticks. -/
theorem after_slot (ts : List (Tick α)) (j : Fin B) :
    (after f start ts : SlotRing M B).slots ((after f start ts).current + j) =
      (Tick.within (B - 1 - j) ts).foldl f start := by
  induction ts using List.reverseRecOn generalizing j with
  | nil => rfl
  | append_singleton ts t ih =>
    rw [after_snoc]
    cases t with
    | item a =>
      rw [Tick.within_snoc_item, List.foldl_append, ← ih j]
      rfl
    | tick =>
      simp only [step]
      rw [add_assoc, add_comm 1 j]
      by_cases hlast : (j : ℕ) + 1 = B
      · -- the slot just reset is `B - 1` places ahead of the new current one
        have hwrap : j + 1 = 0 := by
          apply Fin.ext
          rw [Fin.val_add, Fin.val_one', Nat.add_mod_mod, hlast, Nat.mod_self]
          rfl
        rw [hwrap, add_zero, Function.update_self, show B - 1 - (j : ℕ) = 0 by omega,
          Tick.within_zero_snoc_tick]
        rfl
      · have hval : ((j + 1 : Fin B) : ℕ) = j + 1 := by
          rw [Fin.val_add, Fin.val_one', Nat.add_mod_mod, Nat.mod_eq_of_lt (by omega)]
        have hne : (after f start ts : SlotRing M B).current + (j + 1) ≠
            (after f start ts).current := by
          rw [Ne, add_eq_left, Fin.ext_iff, hval]
          exact Nat.succ_ne_zero _
        rw [Function.update_of_ne hne, ih (j + 1), hval,
          show B - 1 - (j : ℕ) = B - 1 - (j + 1) + 1 by omega, Tick.within_succ_snoc_tick]

/-- The current slot holds the items within `B - 1` ticks. -/
theorem after_current (ts : List (Tick α)) :
    (after f start ts : SlotRing M B).slots (after f start ts).current =
      (Tick.within (B - 1) ts).foldl f start := by
  simpa using after_slot f start ts (0 : Fin B)

end SlotRing

end TinyKvm
