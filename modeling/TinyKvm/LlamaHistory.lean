import TinyKvm.Llama
import Mathlib.Data.List.DropRight

/-!
# What a context swap inserts

A swap is to insert the tokens that came just before the one to be evaluated. It
reads them from `last_n_tokens`, which nothing updates after it was filled with
zeros : the tokens are shifted into `last_tokens`. So every swap inserts zeros, and
the history is kept exactly if the tokens it should have inserted are zeros
(`swaps_keep_history_iff`). The same range of `last_tokens` holds them
(`slice_lastTokens`).
-/

namespace TinyKvm

namespace Llama

/-- The tokens sampled so far. -/
def sampledTokens (log : List Event) : List Token :=
  log.filterMap fun e =>
    match e with
    | .sampled id => some id
    | .eval .. | .swap _ => none

/-- Of the prompt and the tokens sampled before a swap, as many as it is to insert, just before
those about to be evaluated. -/
def recent (embdInp : List Token) (before : List Event) (sw : Swap) : List Token :=
  ((embdInp ++ sampledTokens before).rdrop sw.embd.length).rtake (sw.nLeft.tdiv 2).toNat

/-- `P` holds of every swap, with what happened before it. -/
def EverySwap (P : List Event → Swap → Prop) (log : List Event) : Prop :=
  ∀ before sw, before ++ [.swap sw] <+: log → P before sw

/-- Every swap inserts the tokens just before those about to be evaluated. -/
def KeepsHistory (embdInp : List Token) (log : List Event) : Prop :=
  EverySwap (fun before sw => sw.inserted = recent embdInp before sw) log

/-- At every swap, the tokens just before those about to be evaluated are zeros. -/
def ZeroHistory (embdInp : List Token) (log : List Event) : Prop :=
  EverySwap (fun before sw => ∀ id ∈ recent embdInp before sw, id = 0) log

/-! ## Logs -/

section Logs

variable {P : List Event → Swap → Prop} {log : List Event} {e : Event}

theorem everySwap_nil : EverySwap P [] := by
  intro before sw h
  simp at h

theorem everySwap_snoc (h : EverySwap P log) (he : ∀ sw, e = .swap sw → P log sw) :
    EverySwap P (log ++ [e]) := by
  intro before sw hp
  rcases List.prefix_concat_iff.1 hp with heq | hp
  · obtain ⟨rfl, hlast⟩ := List.append_inj' heq rfl
    exact he sw (List.singleton_inj.1 hlast).symm
  · exact h before sw hp

theorem everySwap_append_batches {params : Params} {bound : ℤ} {es : List Event}
    (h : EverySwap P log) (hes : ∀ e ∈ es, IsBatch params bound e) : EverySwap P (log ++ es) := by
  induction es using List.reverseRecOn with
  | nil => rwa [List.append_nil]
  | append_singleton es e ih =>
    obtain ⟨hes, he⟩ := List.forall_mem_append.1 hes
    rw [← List.append_assoc]
    refine everySwap_snoc (ih hes) fun sw hsw => ?_
    have hbatch := he e (List.mem_singleton_self e)
    rw [hsw] at hbatch
    exact hbatch.elim

/-- `P` holds of an event that is a swap. -/
def IfSwap (P : Swap → Prop) : Option Event → Prop
  | some (.swap sw) => P sw
  | _ => True

instance {P : Swap → Prop} [DecidablePred P] : DecidablePred (IfSwap P)
  | some (.swap sw) => inferInstanceAs (Decidable (P sw))
  | none | some (.eval ..) | some (.sampled _) => .isTrue trivial

theorem everySwap_iff_forall_lt :
    EverySwap P log ↔ ∀ k < log.length, IfSwap (P (log.take k)) log[k]? := by
  constructor
  · intro h k hk
    rcases hk' : log[k]? with - | ⟨- | sw | -⟩
    · trivial
    · trivial
    · refine h _ sw ?_
      rw [← Option.toList_some, ← hk', ← List.take_add_one]
      exact List.take_prefix _ _
    · trivial
  · rintro h before sw ⟨after, rfl⟩
    have hat := h before.length (by simp)
    rw [List.append_assoc, List.getElem?_append_right le_rfl, Nat.sub_self, List.take_left] at hat
    exact hat

instance [∀ before sw, Decidable (P before sw)] : Decidable (EverySwap P log) :=
  decidable_of_iff _ everySwap_iff_forall_lt.symm

theorem sampledTokens_append (log log' : List Event) :
    sampledTokens (log ++ log') = sampledTokens log ++ sampledTokens log' :=
  List.filterMap_append

theorem sampledTokens_batches {params : Params} {bound : ℤ} {es : List Event}
    (hes : ∀ e ∈ es, IsBatch params bound e) : sampledTokens es = [] := by
  refine List.filterMap_eq_nil_iff.2 fun e he => ?_
  have hbatch := hes e he
  match e with
  | .eval .. | .swap _ => rfl

end Logs

/-! ## The history -/

variable (ctx : Context) (params : Params) (embdInp : List Token)

/-- Between two iterations, the result is what was read of the prompt and the tokens sampled
since. -/
structure HistoryInv (s : State) : Prop where
  result_eq : s.result = embdInp.take s.nConsumed ++ sampledTokens s.log
  unread : s.nConsumed < embdInp.length → sampledTokens s.log = []
  embd_suffix : s.embd <:+ s.result
  long : s.nPast + s.embd.length ≤ s.result.length
  budget : (sampledTokens s.log).length + s.nRemain = params.nPredict
  lastTokens_eq : s.lastTokens = slide (List.replicate ctx.nCtx.toNat 0) s.result

/-- What a swap inserts are zeros, as many as there should be. -/
structure SwapFacts (before : List Event) (sw : Swap) : Prop where
  zeros : sw.inserted = List.replicate (sw.nLeft.tdiv 2).toNat 0
  length_recent : (recent embdInp before sw).length = (sw.nLeft.tdiv 2).toNat
  embd_suffix : sw.embd <:+ embdInp ++ sampledTokens before
  long : ctx.nCtx + 2 ≤ embdInp.length + params.nPredict

variable {ctx params embdInp} {s t : State}

theorem length_recent {before : List Event} {sw : Swap}
    (h : (sw.nLeft.tdiv 2).toNat + sw.embd.length ≤ (embdInp ++ sampledTokens before).length) :
    (recent embdInp before sw).length = (sw.nLeft.tdiv 2).toNat := by
  rw [recent, List.rtake, List.rdrop, List.length_drop, List.length_take]
  omega

theorem slice_replicate (n : ℕ) (first last : ℤ) :
    ∀ id ∈ slice (List.replicate n 0) first last, id = 0 := fun _ hid =>
  List.eq_of_mem_replicate (List.mem_of_mem_drop (List.mem_of_mem_take hid))

/-- A swap with the context full. -/
theorem swapFacts (hkeep : 0 ≤ params.nKeep ∧ params.nKeep ≤ ctx.nCtx - 4)
    (h : LoopInv ctx embdInp s) (hist : HistoryInv ctx params embdInp s) (hremain : s.nRemain ≠ 0)
    (hfull : s.nPast = ctx.nCtx) (hone : s.embd.length = 1)
    (hconsumed : s.nConsumed = embdInp.length) :
    SwapFacts ctx params embdInp s.log (swapOf ctx params s) := by
  have hzeros : s.lastNTokens.length = ctx.nCtx.toNat := by
    rw [h.zeros, List.length_replicate]
  have hinserted := (swapOf_spec hkeep hfull hone hzeros).2
  have hnLeft : (swapOf ctx params s).nLeft = ctx.nCtx - params.nKeep := hfull ▸ rfl
  have hleft : (swapOf ctx params s).nLeft.tdiv 2 = (ctx.nCtx - params.nKeep) / 2 := by
    rw [hnLeft, Int.tdiv_eq_ediv_of_nonneg (by omega)]
  have hresult : s.result = embdInp ++ sampledTokens s.log := by
    rw [hist.result_eq, hconsumed, List.take_length]
  have hlong := hist.long
  have hbudget := hist.budget
  have hpos := h.remain_nonneg
  have hlength := congrArg List.length hresult
  rw [List.length_append] at hlength
  refine ⟨List.eq_replicate_iff.2 ⟨by omega, ?_⟩, length_recent ?_, hresult ▸ hist.embd_suffix, ?_⟩
  · rw [swapOf, h.zeros]
    exact slice_replicate _ _ _
  · have hembd : (swapOf ctx params s).embd.length = 1 := hone
    rw [hembd, hleft, List.length_append]
    omega
  · omega

/-- The first part of an iteration samples nothing. -/
theorem sampledTokens_predicted (hp : Predicted ctx params embdInp s t) :
    sampledTokens t.log = sampledTokens s.log := by
  obtain ⟨sw, es, hlog, hes, hsw⟩ := hp.log_eq
  have hnone : sampledTokens sw = [] := by
    rcases hsw with rfl | ⟨-, -, -, rfl⟩ <;> rfl
  rw [hlog, sampledTokens_append, sampledTokens_append, hnone, sampledTokens_batches hes,
    List.append_nil, List.append_nil]

theorem everySwap_predicted (hkeep : 0 ≤ params.nKeep ∧ params.nKeep ≤ ctx.nCtx - 4)
    (h : LoopInv ctx embdInp s) (hist : HistoryInv ctx params embdInp s) (hremain : s.nRemain ≠ 0)
    (hp : Predicted ctx params embdInp s t)
    (hswaps : EverySwap (SwapFacts ctx params embdInp) s.log) :
    EverySwap (SwapFacts ctx params embdInp) t.log := by
  obtain ⟨sw, es, hlog, hes, hsw⟩ := hp.log_eq
  rw [hlog]
  refine everySwap_append_batches ?_ hes
  rcases hsw with rfl | ⟨hfull, hone, hconsumed, rfl⟩
  · rwa [List.append_nil]
  · refine everySwap_snoc hswaps fun sw hsw => ?_
    obtain rfl := Event.swap.inj hsw
    exact swapFacts hkeep h hist hremain hfull hone hconsumed

/-- The second part appends what it forwards to the result. -/
theorem HistoryInv.advance (hbatch : 1 ≤ params.nBatch) (h : HistoryInv ctx params embdInp s)
    (hp : Predicted ctx params embdInp s t) (hrunning : t.status = .running)
    (hle : s.nConsumed ≤ embdInp.length) :
    HistoryInv ctx params embdInp (advance ctx params embdInp t) := by
  obtain ⟨hremain, hconsumed, -, hlast, hresult⟩ := hp.frame
  have hsampled := sampledTokens_predicted hp
  have hnPast := (hp.nPast_le hrunning).2
  have hlong := h.long
  have hbudget := h.budget
  have hwindow : ∀ tokens, slide t.lastTokens tokens =
      slide (List.replicate ctx.nCtx.toNat 0) (t.result ++ tokens) := fun tokens => by
    rw [slide_append, hlast, h.lastTokens_eq, hresult]
  have hroom : ∀ tokens : List Token,
      t.nPast + tokens.length ≤ (t.result ++ tokens).length := fun tokens => by
    rw [List.length_append, hresult]
    omega
  rcases advance_cases ctx embdInp hbatch t with
    ⟨hread, id, status, heq⟩ | ⟨hunread, tokens, status, htokens, heq⟩ <;> rw [heq]
  · have hnew : sampledTokens (t.log ++ [.sampled id]) = sampledTokens s.log ++ [id] := by
      rw [sampledTokens_append, hsampled]
      rfl
    exact {
      result_eq := by
        dsimp only
        rw [hnew, hresult, h.result_eq, hconsumed, List.append_assoc]
      unread := fun hlt => absurd hread (by dsimp only at hlt; omega)
      embd_suffix := List.suffix_append _ _
      long := hroom _
      budget := by
        dsimp only
        rw [hnew, List.length_append, List.length_singleton]
        omega
      lastTokens_eq := hwindow _ }
  · have hnone := h.unread (hconsumed ▸ hunread)
    have htake : (embdInp.drop s.nConsumed).take tokens.length = tokens := by
      rw [htokens, hconsumed]
      exact (List.prefix_iff_eq_take.1 (List.take_prefix _ _)).symm
    exact {
      result_eq := by
        dsimp only
        rw [hsampled, hnone, hresult, h.result_eq, hnone, hconsumed, List.take_add, htake,
          List.append_nil, List.append_nil]
      unread := fun _ => hsampled.trans hnone
      embd_suffix := List.suffix_append _ _
      long := hroom _
      budget := by
        dsimp only
        rw [hsampled]
        omega
      lastTokens_eq := hwindow _ }

theorem everySwap_advance {P : List Event → Swap → Prop} (hbatch : 1 ≤ params.nBatch)
    (h : EverySwap P t.log) : EverySwap P (Llama.advance ctx params embdInp t).log := by
  rcases advance_cases ctx embdInp hbatch t with
    ⟨-, id, status, heq⟩ | ⟨-, tokens, status, -, heq⟩ <;> rw [heq]
  · exact everySwap_snoc h fun sw hsw => Event.noConfusion hsw
  · exact h

variable (ctx params embdInp)

/-- What holds after every iteration, of the history. -/
structure SwapInv (s : State) : Prop where
  run : RunInv ctx params embdInp s
  swaps : EverySwap (SwapFacts ctx params embdInp) s.log
  history : s.status = .running → HistoryInv ctx params embdInp s

variable {ctx params embdInp}

theorem swapInv_iteration (hl : Limits ctx params embdInp)
    (hkeep : 0 ≤ params.nKeep ∧ params.nKeep ≤ ctx.nCtx - 4) (h : SwapInv ctx params embdInp s)
    (hst : iteration ctx params embdInp s = some t) : SwapInv ctx params embdInp t := by
  obtain ⟨hrun, hremain, hcases⟩ := iteration_eq_some hst
  have hloop := h.run.loop hrun
  have hist := h.history hrun
  have hp := predict_spec hl hkeep hloop
  have hswaps := everySwap_predicted hkeep hloop hist hremain hp h.swaps
  refine ⟨(iteration_spec hl hkeep h.run hst).1, ?_, ?_⟩ <;>
    rcases hcases with ⟨hstopped, rfl⟩ | ⟨hrunning, rfl⟩
  · exact hswaps
  · exact everySwap_advance hl.nBatch hswaps
  · exact fun h => absurd h hstopped
  · exact fun _ => hist.advance hl.nBatch hp hrunning hloop.consumed_le

theorem swapInv_start (hl : Limits ctx params embdInp) :
    SwapInv ctx params embdInp (start ctx params) where
  run := runInv_start hl
  swaps := everySwap_nil
  history _ :=
    { result_eq := rfl
      unread := fun _ => rfl
      embd_suffix := List.nil_suffix
      long := le_rfl
      budget := Int.zero_add _
      lastTokens_eq := rfl }

/-- What the swaps of a run insert. -/
theorem swapFacts_mainLoop (hl : Limits ctx params embdInp) {n : ℕ} {last : State}
    (h : mainLoop ctx params embdInp n = some last) :
    EverySwap (SwapFacts ctx params embdInp) last.log := by
  obtain ⟨hl', hkeep⟩ := hl.keep
  have hinv := chase_mem
    (S := { s | SwapInv ctx { params with nKeep := keep params embdInp } embdInp s })
    (fun s hs t hst => swapInv_iteration hl' hkeep hs hst) (swapInv_start hl') h
  intro before sw hp
  obtain ⟨hzeros, hrecent, hsuffix, hlong⟩ := hinv.swaps before sw hp
  exact ⟨hzeros, hrecent, hsuffix, hlong⟩

/-- In every run, every swap inserts the tokens just before those about to be evaluated exactly if
these are zeros at every swap; and no swap is made while the prompt and the tokens to predict
exceed the context by at most one. -/
theorem swaps_keep_history_iff (hl : Limits ctx params embdInp) {n : ℕ} {last : State}
    (h : mainLoop ctx params embdInp n = some last) :
    (KeepsHistory embdInp last.log ↔ ZeroHistory embdInp last.log) ∧
      (embdInp.length + params.nPredict ≤ ctx.nCtx + 1 → ∀ sw, .swap sw ∉ last.log) := by
  have hfacts := swapFacts_mainLoop hl h
  constructor
  · refine forall_congr' fun before => forall_congr' fun sw => forall_congr' fun hp => ?_
    have hsw := hfacts before sw hp
    dsimp only
    rw [hsw.zeros, eq_comm, List.eq_replicate_iff]
    exact and_iff_right hsw.length_recent
  · intro hshort sw hsw
    obtain ⟨before, after, hlog⟩ := List.append_of_mem hsw
    have hlong := (hfacts before sw ⟨after, by simp [hlog]⟩).long
    omega

/-! ## The last tokens -/

theorem slide_eq_drop : ∀ {window : List Token} (tokens : List Token), window ≠ [] →
    slide window tokens = (window ++ tokens).drop tokens.length
  | window, [], _ => by simp [slide]
  | first :: window, id :: tokens, _ => by
    have hslide : slide (first :: window) (id :: tokens) = slide (window ++ [id]) tokens := rfl
    rw [hslide, slide_eq_drop tokens (List.append_ne_nil_of_right_ne_nil _ (List.cons_ne_nil _ _)),
      List.append_assoc, List.singleton_append, List.cons_append, List.length_cons,
      List.drop_succ_cons]

/-- At a swap, the range that is read from `last_n_tokens` has in `last_tokens` what it should. -/
theorem slice_lastTokens (hl : Limits ctx params embdInp)
    (hkeep : 0 ≤ params.nKeep ∧ params.nKeep ≤ ctx.nCtx - 4)
    (hist : HistoryInv ctx params embdInp s) (hfull : s.nPast = ctx.nCtx)
    (hone : s.embd.length = 1) (hconsumed : s.nConsumed = embdInp.length) :
    slice s.lastTokens (swapFirst ctx (swapOf ctx params s).nLeft s.embd) (swapLast ctx s.embd) =
      recent embdInp s.log (swapOf ctx params s) := by
  have hctx := hl.nCtx
  have hlong := hist.long
  have hnLeft : (swapOf ctx params s).nLeft = ctx.nCtx - params.nKeep := hfull ▸ rfl
  have hembd : (swapOf ctx params s).embd.length = 1 := hone
  have htdiv : (ctx.nCtx - params.nKeep).tdiv 2 = (ctx.nCtx - params.nKeep) / 2 :=
    Int.tdiv_eq_ediv_of_nonneg (by omega)
  have hresult : embdInp ++ sampledTokens s.log = s.result := by
    rw [hist.result_eq, hconsumed, List.take_length]
  have hwindow : List.replicate ctx.nCtx.toNat (0 : Token) ≠ [] := by
    rw [Ne, List.replicate_eq_nil_iff]
    omega
  obtain ⟨half, hhalf⟩ : ∃ half : ℕ, (half : ℤ) = (ctx.nCtx - params.nKeep) / 2 :=
    ⟨((ctx.nCtx - params.nKeep) / 2).toNat, by omega⟩
  have hread : slice s.lastTokens (ctx.nCtx - half - 1) (ctx.nCtx - 1) =
      (s.result.drop (s.result.length - 1 - half)).take half := by
    rw [slice, hist.lastTokens_eq, slide_eq_drop _ hwindow, List.drop_drop, List.drop_append,
      List.length_replicate, List.drop_of_length_le (by rw [List.length_replicate]; omega),
      List.nil_append]
    congr 2 <;> omega
  have hrecent : recent embdInp s.log (swapOf ctx params s) =
      (s.result.drop (s.result.length - 1 - half)).take half := by
    rw [recent, hresult, hembd, hnLeft, htdiv, ← hhalf, Int.toNat_natCast, List.rtake, List.rdrop,
      List.length_take, List.drop_take, Nat.min_eq_left (Nat.sub_le _ _)]
    congr 1
    omega
  rw [hrecent, ← hread, swapFirst, swapLast, hone, hnLeft, htdiv, hhalf]
  rfl

/-! ## A run with a swap -/

/-- The end of a run in which 5 is sampled `n` times after the token 1. -/
def fivesEnd (n : ℕ) : State :=
  (mainLoop fives ⟨0, 8, n, false⟩ [1] (n + 2)).getD (start fives ⟨0, 8, n, false⟩)

/-- The same context with 0 sampled throughout. -/
def zeros : Context :=
  { fives with sampleToken := fun _ _ => 0 }

/-- The end of a run in which nine zeros are sampled after the token 1. -/
def zerosEnd : State :=
  (mainLoop zeros ⟨0, 8, 9, false⟩ [1] 11).getD (start zeros ⟨0, 8, 9, false⟩)

/-- The swap of this run inserts four zeros for four zeros. -/
theorem keeps_history_zeros :
    .swap ⟨8, [0], [0, 0, 0, 0]⟩ ∈ zerosEnd.log ∧ KeepsHistory [1] zerosEnd.log ∧
      ZeroHistory [1] zerosEnd.log := by
  have hl : Limits zeros ⟨0, 8, 9, false⟩ [1] := ⟨by decide, by decide, by decide, by decide⟩
  have hend : mainLoop zeros ⟨0, 8, 9, false⟩ [1] 11 = some zerosEnd := by decide
  have hkeeps : EverySwap (fun before sw => sw.inserted = recent [1] before sw) zerosEnd.log := by
    decide +kernel
  exact ⟨by decide, hkeeps, (swaps_keep_history_iff hl hend).1.1 hkeeps⟩

/-- Where fives are sampled, the swap before the ninth inserts four zeros for four fives. -/
theorem history_not_kept :
    Limits fives ⟨0, 8, 9, false⟩ [1] ∧
      mainLoop fives ⟨0, 8, 9, false⟩ [1] 11 = some (fivesEnd 9) ∧
      ¬KeepsHistory [1] (fivesEnd 9).log := by
  refine ⟨⟨by decide, by decide, by decide, by decide⟩, by decide, fun h => ?_⟩
  have hswap := h ((fivesEnd 9).log.take 16) ⟨8, [5], [0, 0, 0, 0]⟩
    ⟨(fivesEnd 9).log.drop 17, by decide⟩
  revert hswap
  decide

end Llama

end TinyKvm
