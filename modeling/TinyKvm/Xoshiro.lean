import Mathlib.Data.LawfulXor.Basic
import Mathlib.Logic.Function.Iterate

/-!
# xoshiro128**

A generator of 32-bit words with a state of four words. `next` is the successor
of a state, `output` the word that is drawn in a state, and `state s k` the state
after `k` draws from `s`.

Only the zero state is its own successor (`next_eq_self_iff`), so a generator
that does not advance draws its sequence only from there.
-/

namespace TinyKvm

namespace Xoshiro

/-- The four words of the state. -/
structure State where
  a : BitVec 32
  b : BitVec 32
  c : BitVec 32
  d : BitVec 32
  deriving DecidableEq

/-- The state with every word zero. -/
def zero : State :=
  ⟨0, 0, 0, 0⟩

/-- The successor of a state. -/
def next (s : State) : State :=
  let c := s.c ^^^ s.a
  let d := s.d ^^^ s.b
  ⟨s.a ^^^ d, s.b ^^^ c, c ^^^ (s.b <<< 9), d.rotateLeft 11⟩

/-- The word drawn in a state, scrambled from its second word. -/
def output (s : State) : BitVec 32 :=
  (s.b * 5).rotateLeft 7 * 9

/-- The state after `k` draws from `s`. -/
def state (s : State) (k : ℕ) : State :=
  next^[k] s

theorem next_zero : next zero = zero := by
  decide

theorem state_of_fixed {s : State} (h : next s = s) (k : ℕ) : state s k = s :=
  Function.iterate_fixed h k

/-- A state that is its own successor is zero : the words have to agree in pairs, and then the
shift and the rotation of zero leave zeros. -/
theorem next_eq_self_iff {s : State} : next s = s ↔ s = zero := by
  refine ⟨fun h => ?_, fun h => h ▸ next_zero⟩
  obtain ⟨a, b, c, d⟩ := s
  simp only [next, State.mk.injEq] at h
  obtain ⟨ha, hb, hc, hd⟩ := h
  have hdb : d ^^^ b = 0 := xor_left_eq_self_iff.1 ha
  have hca : c ^^^ a = 0 := xor_left_eq_self_iff.1 hb
  have hd0 : d = 0 := by
    rw [hdb] at hd
    exact hd.symm
  have hb0 : b = 0 := by
    rw [hd0] at hdb
    simpa using hdb
  have hc0 : c = 0 := by
    rw [hca, hb0] at hc
    exact hc.symm
  have ha0 : a = 0 := by
    rw [hc0] at hca
    simpa using hca
  rw [ha0, hb0, hc0, hd0]
  rfl

end Xoshiro

end TinyKvm
