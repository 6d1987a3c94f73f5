import TinyKvm.Alignment
import TinyKvm.LittleEndian
import Mathlib.Data.List.DropRight
import Mathlib.Data.List.Pairwise

/-!
# Fields in memory

A field of `w` bytes, naturally aligned, takes the next multiple of `w` from
where the field before it ends. `layout cur ws` are the offsets of fields of the
widths `ws` from `cur` on. They are aligned (`aligned_layout`), and each field
ends before the ones after it start (`layout_pairwise`). In an array the fields
take their end rounded up to the largest width (`layoutSize`), which is the end
itself if the fields after the last one of that width fill a multiple of it
(`layoutEnd_eq_size_iff`).

`writeAt` writes bytes at an offset. Of bytes written one after the other at
ranges that do not overlap, each is read back whatever the memory held
(`loadLe_writeAll`).

Packed fields follow each other without gaps. Each is read and written behind
those before it (`loadLe_packed`, `writeAt_packed`).
-/

namespace TinyKvm

/-! ## Offsets -/

/-- The offset and the width of each field of the widths `ws`, from `cur` on. -/
def layout : ℕ → List ℕ → List (ℕ × ℕ)
  | _, [] => []
  | cur, w :: ws => (alignUp w cur, w) :: layout (alignUp w cur + w) ws

/-- Where the last field ends. -/
def layoutEnd : ℕ → List ℕ → ℕ
  | cur, [] => cur
  | cur, w :: ws => layoutEnd (alignUp w cur + w) ws

/-- The range of a field ends before that of another starts. -/
def Before (a b : ℕ × ℕ) : Prop :=
  a.1 + a.2 ≤ b.1

theorem map_snd_layout : ∀ (cur : ℕ) (ws : List ℕ), (layout cur ws).map Prod.snd = ws
  | _, [] => rfl
  | cur, w :: ws => by rw [layout, List.map_cons, map_snd_layout]

theorem aligned_layout : ∀ (cur : ℕ) (ws : List ℕ), ∀ r ∈ layout cur ws, r.2 ∣ r.1
  | cur, w :: ws, r, hr => by
    rcases List.mem_cons.1 hr with rfl | hr
    · exact dvd_alignUp w cur
    · exact aligned_layout _ ws r hr

theorem le_layoutEnd : ∀ {cur : ℕ} {ws : List ℕ}, (∀ w ∈ ws, 0 < w) → cur ≤ layoutEnd cur ws
  | cur, [], _ => le_refl cur
  | cur, w :: ws, h => by
    have halign := le_alignUp (h w List.mem_cons_self) cur
    have hrest : alignUp w cur + w ≤ layoutEnd (alignUp w cur + w) ws :=
      le_layoutEnd fun v hv => h v (List.mem_cons_of_mem w hv)
    rw [layoutEnd]
    omega

/-- Every field lies between the start and the end. -/
theorem bounds_layout : ∀ {cur : ℕ} {ws : List ℕ}, (∀ w ∈ ws, 0 < w) → ∀ r ∈ layout cur ws,
    cur ≤ r.1 ∧ r.1 + r.2 ≤ layoutEnd cur ws
  | cur, w :: ws, h, r, hr => by
    have hpos : ∀ v ∈ ws, 0 < v := fun v hv => h v (List.mem_cons_of_mem w hv)
    have halign := le_alignUp (h w List.mem_cons_self) cur
    rcases List.mem_cons.1 hr with rfl | hr
    · exact ⟨halign, le_layoutEnd hpos⟩
    · have hrest := bounds_layout hpos r hr
      rw [layoutEnd]
      omega

/-- The ranges increase and do not overlap. -/
theorem layout_pairwise : ∀ {cur : ℕ} {ws : List ℕ}, (∀ w ∈ ws, 0 < w) →
    (layout cur ws).Pairwise Before
  | _, [], _ => .nil
  | cur, w :: ws, h => by
    have hpos : ∀ v ∈ ws, 0 < v := fun v hv => h v (List.mem_cons_of_mem w hv)
    exact .cons (fun r hr => (bounds_layout hpos r hr).1) (layout_pairwise hpos)

/-! ## Sizes -/

/-- The largest of the widths. -/
def maxWidth (ws : List ℕ) : ℕ :=
  ws.foldr max 1

/-- The size of the fields as an element of an array : the end of the last one, rounded up to the
largest width. -/
def layoutSize (ws : List ℕ) : ℕ :=
  alignUp (maxWidth ws) (layoutEnd 0 ws)

/-- The widths after the last one that is the largest. -/
def trailing (ws : List ℕ) : List ℕ :=
  ws.rtakeWhile (· ≠ maxWidth ws)

theorem maxWidth_pos (ws : List ℕ) : 0 < maxWidth ws := by
  induction ws with
  | nil => exact Nat.one_pos
  | cons w ws ih => exact lt_max_of_lt_right ih

theorem le_maxWidth : ∀ {ws : List ℕ}, ∀ w ∈ ws, w ≤ maxWidth ws
  | v :: ws, w, hw => by
    rcases List.mem_cons.1 hw with rfl | hw
    · exact le_max_left _ _
    · exact (le_maxWidth w hw).trans (le_max_right _ _)

theorem exists_maxWidth_eq_two_pow : ∀ {ws : List ℕ}, (∀ w ∈ ws, ∃ k, w = 2 ^ k) →
    ∃ k, maxWidth ws = 2 ^ k
  | [], _ => ⟨0, rfl⟩
  | w :: ws, h => by
    have hmax : maxWidth (w :: ws) = max w (maxWidth ws) := rfl
    rcases max_choice w (maxWidth ws) with hw | hw
    · rw [hmax, hw]
      exact h w List.mem_cons_self
    · rw [hmax, hw]
      exact exists_maxWidth_eq_two_pow fun v hv => h v (List.mem_cons_of_mem w hv)

/-- Of powers of two, the largest is a multiple of all. -/
theorem dvd_maxWidth {ws : List ℕ} (h : ∀ w ∈ ws, ∃ k, w = 2 ^ k) : ∀ w ∈ ws, w ∣ maxWidth ws := by
  intro w hw
  have hle := le_maxWidth w hw
  obtain ⟨k, hk⟩ := h w hw
  obtain ⟨m, hm⟩ := exists_maxWidth_eq_two_pow h
  rw [hk, hm] at hle ⊢
  exact Nat.pow_dvd_pow 2 ((Nat.pow_le_pow_iff_right (by omega)).1 hle)

theorem layoutEnd_append (xs ys : List ℕ) (cur : ℕ) :
    layoutEnd cur (xs ++ ys) = layoutEnd (layoutEnd cur xs) ys := by
  induction xs generalizing cur with
  | nil => rfl
  | cons x xs ih => exact ih _

/-- A start that is a multiple of all widths moves the whole layout. -/
theorem layoutEnd_add {m : ℕ} : ∀ {ws : List ℕ} (cur : ℕ), (∀ w ∈ ws, 0 < w ∧ w ∣ m) →
    layoutEnd (m + cur) ws = m + layoutEnd cur ws
  | [], _, _ => rfl
  | w :: ws, cur, h => by
    have hrest : ∀ v ∈ ws, 0 < v ∧ v ∣ m := fun v hv => h v (List.mem_cons_of_mem w hv)
    obtain ⟨hw, hdvd⟩ := h w List.mem_cons_self
    rw [layoutEnd, layoutEnd, alignUp_add hw hdvd, Nat.add_assoc, layoutEnd_add _ hrest]

/-- The fields need no padding at the end exactly when those after the last one of the largest
width fill a multiple of that width. -/
theorem layoutEnd_eq_size_iff {ws : List ℕ} (h : ∀ w ∈ ws, 0 < w ∧ w ∣ maxWidth ws) :
    layoutEnd 0 ws = layoutSize ws ↔ maxWidth ws ∣ layoutEnd 0 (trailing ws) := by
  rw [layoutSize, eq_comm, alignUp_eq_self_iff (maxWidth_pos ws)]
  set m := maxWidth ws with hm
  have hsplit : ws.rdropWhile (· ≠ m) ++ trailing ws = ws := List.rdropWhile_append_rtakeWhile
  rcases List.eq_nil_or_concat (ws.rdropWhile (· ≠ m)) with hnil | ⟨front, a, hfront⟩
  · rw [hnil, List.nil_append] at hsplit
    rw [hsplit]
  · have hlast : a = m := by
      have hnot := List.rdropWhile_last_not (fun w => decide (w ≠ m)) ws
      simp only [hfront] at hnot
      simpa using hnot (by simp)
    have hstart : m ∣ alignUp m (layoutEnd 0 front) + m :=
      Nat.dvd_add (dvd_alignUp m _) (Nat.dvd_refl m)
    have htrailing : ∀ w ∈ trailing ws,
        0 < w ∧ w ∣ alignUp m (layoutEnd 0 front) + m := fun w hw =>
      have hmem := hsplit ▸ List.mem_append_right _ hw
      ⟨(h w hmem).1, (h w hmem).2.trans hstart⟩
    have hend : layoutEnd 0 ws =
        alignUp m (layoutEnd 0 front) + m + layoutEnd 0 (trailing ws) := by
      rw [← layoutEnd_add 0 htrailing, Nat.add_zero]
      conv_lhs => rw [← hsplit, hfront, hlast, List.concat_eq_append]
      rw [layoutEnd_append, layoutEnd_append, layoutEnd, layoutEnd]
    rw [hend]
    exact Nat.dvd_add_right hstart

/-! ## Writes -/

/-- The memory with bytes written at an offset. -/
def writeAt (mem : List (BitVec 8)) (off : ℕ) (bs : List (BitVec 8)) : List (BitVec 8) :=
  mem.take off ++ (bs ++ mem.drop (off + bs.length))

/-- The memory with several writes, in order. -/
def writeAll (mem : List (BitVec 8)) (writes : List (ℕ × List (BitVec 8))) : List (BitVec 8) :=
  writes.foldl (fun mem w => writeAt mem w.1 w.2) mem

section Write

variable {mem bs : List (BitVec 8)} {off : ℕ}

theorem length_writeAt (h : off + bs.length ≤ mem.length) :
    (writeAt mem off bs).length = mem.length := by
  simp only [writeAt, List.length_append, List.length_take, List.length_drop]
  omega

theorem loadLe_writeAt_self (h : off + bs.length ≤ mem.length) :
    loadLe (writeAt mem off bs) off bs.length = leNat bs := by
  have htake : (mem.take off).length = off := by
    rw [List.length_take]
    omega
  rw [writeAt, loadLe_skip htake le_rfl, Nat.sub_self, loadLe_append_left (Nat.zero_add _).le,
    loadLe_self]

/-- A read of bytes a write does not touch. -/
theorem loadLe_writeAt_of_disjoint (h : off + bs.length ≤ mem.length) {i n : ℕ}
    (hdisjoint : i + n ≤ off ∨ off + bs.length ≤ i) :
    loadLe (writeAt mem off bs) i n = loadLe mem i n := by
  have htake : (mem.take off).length = off := by
    rw [List.length_take]
    omega
  have hsplit : mem = mem.take off ++ mem.drop off := (List.take_append_drop off mem).symm
  rcases hdisjoint with hbefore | hafter
  · conv_rhs => rw [hsplit]
    rw [writeAt, loadLe_append_left (htake.symm ▸ hbefore),
      loadLe_append_left (htake.symm ▸ hbefore)]
  · have hlen : (mem.take off ++ bs).length = off + bs.length := by
      rw [List.length_append, htake]
    rw [writeAt, ← List.append_assoc, loadLe_skip hlen hafter, loadLe, loadLe, List.drop_drop,
      show off + bs.length + (i - (off + bs.length)) = i by omega]

end Write

/-- A write over as many bytes replaces them. -/
theorem writeAt_append {pre old bs : List (BitVec 8)} {off : ℕ} (hoff : pre.length = off)
    (hlen : old.length = bs.length) (post : List (BitVec 8)) :
    writeAt (pre ++ (old ++ post)) off bs = pre ++ (bs ++ post) := by
  have hdrop : (pre ++ (old ++ post)).drop (off + bs.length) = post := by
    rw [← hoff, ← hlen, ← List.append_assoc, ← List.length_append, List.drop_left]
  rw [writeAt, hdrop, ← hoff, List.take_left]

/-- A read before or after all of the writes. -/
theorem loadLe_writeAll_of_disjoint :
    ∀ {writes : List (ℕ × List (BitVec 8))} {mem : List (BitVec 8)} {i n : ℕ},
      (∀ w ∈ writes, w.1 + w.2.length ≤ mem.length) →
      (∀ w ∈ writes, i + n ≤ w.1 ∨ w.1 + w.2.length ≤ i) →
      loadLe (writeAll mem writes) i n = loadLe mem i n
  | [], _, _, _, _, _ => rfl
  | w :: writes, mem, i, n, hin, hdisjoint => by
    have hw := hin w List.mem_cons_self
    have hlen := length_writeAt hw
    have hrest : loadLe (writeAll (writeAt mem w.1 w.2) writes) i n =
        loadLe (writeAt mem w.1 w.2) i n :=
      loadLe_writeAll_of_disjoint (fun v hv => hlen ▸ hin v (List.mem_cons_of_mem w hv))
        fun v hv => hdisjoint v (List.mem_cons_of_mem w hv)
    exact hrest.trans (loadLe_writeAt_of_disjoint hw (hdisjoint w List.mem_cons_self))

theorem length_writeAll :
    ∀ {writes : List (ℕ × List (BitVec 8))} {mem : List (BitVec 8)},
      (∀ w ∈ writes, w.1 + w.2.length ≤ mem.length) → (writeAll mem writes).length = mem.length
  | [], _, _ => rfl
  | w :: writes, mem, hin => by
    have hlen := length_writeAt (hin w List.mem_cons_self)
    have hrest : (writeAll (writeAt mem w.1 w.2) writes).length =
        (writeAt mem w.1 w.2).length :=
      length_writeAll fun v hv => hlen ▸ hin v (List.mem_cons_of_mem w hv)
    exact hrest.trans hlen

/-- Of writes at ranges one after the other, each is read back. -/
theorem loadLe_writeAll :
    ∀ {writes : List (ℕ × List (BitVec 8))} {mem : List (BitVec 8)},
      (∀ w ∈ writes, w.1 + w.2.length ≤ mem.length) →
      writes.Pairwise (fun v w => v.1 + v.2.length ≤ w.1) →
      ∀ w ∈ writes, loadLe (writeAll mem writes) w.1 w.2.length = leNat w.2
  | w :: writes, mem, hin, hpair, v, hv => by
    obtain ⟨hfirst, hpair⟩ := List.pairwise_cons.1 hpair
    have hw := hin w List.mem_cons_self
    have hlen := length_writeAt hw
    have hin' : ∀ u ∈ writes, u.1 + u.2.length ≤ (writeAt mem w.1 w.2).length :=
      fun u hu => hlen ▸ hin u (List.mem_cons_of_mem w hu)
    rcases List.mem_cons.1 hv with rfl | hv
    · have hrest : loadLe (writeAll (writeAt mem v.1 v.2) writes) v.1 v.2.length =
          loadLe (writeAt mem v.1 v.2) v.1 v.2.length :=
        loadLe_writeAll_of_disjoint hin' fun u hu => .inl (hfirst u hu)
      exact hrest.trans (loadLe_writeAt_self hw)
    · exact loadLe_writeAll hin' hpair v hv

/-! ## Packed structures -/

/-- The bytes of fields, each with its width and value, without gaps. -/
def packed (fields : List (ℕ × ℕ)) : List (BitVec 8) :=
  fields.flatMap fun f => leBytes f.1 f.2

/-- The size of packed fields. -/
def packedSize (fields : List (ℕ × ℕ)) : ℕ :=
  (fields.map Prod.fst).sum

theorem length_packed (fields : List (ℕ × ℕ)) : (packed fields).length = packedSize fields := by
  simp [packed, packedSize, List.length_flatMap]

theorem packed_append (fields rest : List (ℕ × ℕ)) :
    packed (fields ++ rest) = packed fields ++ packed rest :=
  List.flatMap_append

theorem packed_cons (f : ℕ × ℕ) (fields : List (ℕ × ℕ)) :
    packed (f :: fields) = leBytes f.1 f.2 ++ packed fields :=
  List.flatMap_cons

/-- A field is read behind the fields before it. -/
theorem loadLe_packed (pre post : List (ℕ × ℕ)) (n v : ℕ) (rest : List (BitVec 8)) :
    loadLe (packed (pre ++ (n, v) :: post) ++ rest) (packedSize pre) n = v % 256 ^ n := by
  have hread : loadLe (leBytes n v ++ (packed post ++ rest)) 0 n = v % 256 ^ n := by
    rw [loadLe_append_left (by rw [length_leBytes, Nat.zero_add]), ← leNat_leBytes]
    have hself := loadLe_self (leBytes n v)
    rwa [length_leBytes] at hself
  rw [packed_append, packed_cons, List.append_assoc, List.append_assoc, ← length_packed,
    ← Nat.add_zero (packed pre).length, loadLe_append_right, hread]

/-- A field is written behind the fields before it. -/
theorem writeAt_packed (pre post : List (ℕ × ℕ)) (n v v' : ℕ) (rest : List (BitVec 8)) :
    writeAt (packed (pre ++ (n, v) :: post) ++ rest) (packedSize pre) (leBytes n v') =
      packed (pre ++ (n, v') :: post) ++ rest := by
  simp only [packed_append, packed_cons, List.append_assoc]
  exact writeAt_append (length_packed pre) (by rw [length_leBytes, length_leBytes]) _

end TinyKvm
