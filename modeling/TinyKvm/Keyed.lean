import Mathlib.Algebra.Order.Group.Nat
import Mathlib.Data.List.Nodup

/-!
# Entries with keys

In a list of entries with distinct keys, a key finds the one entry that has it
(`find?_key_iff`). An object built from entries keeps the last one of each name
(`property`), which with distinct names is the one there is. A search by a wider
condition finds the element that a narrower one does exactly if what it finds
meets the narrower one (`findIdx?_eq_iff`).
-/

namespace TinyKvm

/-- In a list of distinct keys, a key finds the one entry that has it. -/
theorem find?_key_iff {α κ : Type} [DecidableEq κ] {key : α → κ} {l : List α}
    (h : (l.map key).Nodup) {k : κ} {a : α} :
    (l.find? fun x => key x = k) = some a ↔ a ∈ l ∧ key a = k := by
  refine ⟨fun hf => ⟨List.mem_of_find?_eq_some hf, by simpa using List.find?_some hf⟩, ?_⟩
  rintro ⟨ha, rfl⟩
  cases hf : l.find? fun x => key x = key a with
  | none => exact absurd (List.find?_eq_none.1 hf a ha) (by simp)
  | some b =>
    have hb : key b = key a := by simpa using List.find?_some hf
    rw [List.inj_on_of_nodup_map h (List.mem_of_find?_eq_some hf) ha hb]

/-- The property of that name of an object built from entries. -/
def property {α : Type} (entries : List (String × α)) (name : String) : Option α :=
  (entries.reverse.find? fun e => e.1 = name).map Prod.snd

theorem property_eq {α : Type} {entries : List (String × α)} (h : (entries.map Prod.fst).Nodup)
    {name : String} {a : α} (hmem : (name, a) ∈ entries) : property entries name = some a := by
  have hnodup : (entries.reverse.map Prod.fst).Nodup := by
    rw [List.map_reverse]
    exact List.nodup_reverse.2 h
  rw [property, (find?_key_iff hnodup).2 ⟨List.mem_reverse.2 hmem, rfl⟩]
  rfl

/-- The first element with `p` is the first one with the narrower `q` exactly if it has `q`. -/
theorem findIdx?_eq_iff {α : Type} {p q : α → Bool} (h : ∀ a, q a → p a) :
    ∀ {l : List α}, l.findIdx? p = l.findIdx? q ↔ ∀ a, l.find? p = some a → q a
  | [] => by simp
  | a :: l => by
    rw [List.findIdx?_cons, List.findIdx?_cons]
    by_cases hp : p a
    · rw [if_pos hp, List.find?_cons_of_pos hp]
      by_cases hq : q a
      · simp [hq]
      · cases l.findIdx? q <;> simp [hq]
    · have hq : ¬q a := fun hq => hp (h a hq)
      rw [if_neg hp, if_neg hq, List.find?_cons_of_neg hp, ← findIdx?_eq_iff h]
      exact (Option.map_injective (add_left_injective 1)).eq_iff

end TinyKvm
