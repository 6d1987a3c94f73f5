import TinyKvm.LlamaHistory

/-!
# The text LLaMA returns

The loop appends the prompt to its result in batches, and then the tokens it
samples, one by one. These are its rounds (`rounds`). A round that ends with the
end of text is the last the loop takes, also when it is a batch of the prompt.

The result grows by `embd` right after `embd` was filled again. A swap puts tokens
in front of `embd` in the next iteration, where it is cleared before it is filled. So
between two iterations the result has the rounds so far, and what is still to come
are the rounds of the rest of the prompt (`TextInv`). What is returned is the text
of the rounds up to the first that ends with the end of text (`exec_llama_text`).
-/

namespace TinyKvm

namespace Llama

variable (ctx : Context) (params : Params) (embdInp : List Token)

/-- `tokens` in batches of `n`. -/
def batches (n : ℕ) (tokens : List Token) : List (List Token) :=
  if tokens = [] ∨ n = 0 then [] else tokens.take n :: batches n (tokens.drop n)
termination_by tokens.length
decreasing_by
  rw [not_or, ← List.length_eq_zero_iff] at *
  rw [List.length_drop]
  omega

/-- What the iterations append to the result : the batches of the prompt, then the sampled
tokens. -/
def rounds (sampled : List Token) : List (List Token) :=
  batches params.nBatch.toNat embdInp ++ sampled.map fun id => [id]

/-- The tokens of the rounds up to and including the first that ends with the end of text. -/
def upToEos (eos : Token) : List (List Token) → List Token
  | [] => []
  | round :: rest => if round.getLast? = some eos then round else round ++ upToEos eos rest

/-- The tokens of a run : those of its rounds, up to the end of text. -/
def emitted (log : List Event) : List Token :=
  upToEos ctx.eos (rounds params embdInp (sampledTokens log))

/-- No `llama_eval` failed. -/
def EvalsSucceed (log : List Event) : Prop :=
  ∀ before tokens nEval nPast, before ++ [.eval tokens nEval nPast] <+: log →
    ctx.evalFails before tokens nPast = false

/-- After every iteration : while the loop runs, the result has the rounds so far and whatever is
sampled later follows the rest of the prompt. -/
structure TextInv (s : State) : Prop where
  running : s.status = .running → ∀ later,
    upToEos ctx.eos (rounds params embdInp (sampledTokens s.log ++ later)) =
      s.result ++ upToEos ctx.eos (rounds params (embdInp.drop s.nConsumed) later)
  ended : s.status = .ended →
    emitted ctx params embdInp s.log = s.result ∧ s.result.getLast? = some ctx.eos
  failed : s.status = .failed → ¬EvalsSucceed ctx s.log

variable {ctx params embdInp} {s t : State}

/-! ## Rounds -/

@[simp] theorem batches_nil (n : ℕ) : batches n [] = [] := by
  rw [batches, if_pos (.inl rfl)]

theorem batches_of_ne_nil {n : ℕ} {tokens : List Token} (hn : n ≠ 0) (h : tokens ≠ []) :
    batches n tokens = tokens.take n :: batches n (tokens.drop n) := by
  rw [batches, if_neg (not_or.2 ⟨h, hn⟩)]

theorem rounds_nil : rounds params [] [] = [] := by
  rw [rounds, batches_nil]
  rfl

/-- A batch of what is left of the prompt, before the others. -/
theorem rounds_drop (hbatch : 1 ≤ params.nBatch) {n : ℕ} (hn : n < embdInp.length)
    {tokens : List Token} (htokens : tokens = (embdInp.drop n).take params.nBatch.toNat)
    (sampled : List Token) :
    rounds params (embdInp.drop n) sampled =
      tokens :: rounds params (embdInp.drop (n + tokens.length)) sampled := by
  have hleft : embdInp.drop n ≠ [] := fun h => by
    have := List.drop_eq_nil_iff.1 h
    omega
  have hrest : (embdInp.drop n).drop params.nBatch.toNat = embdInp.drop (n + tokens.length) := by
    rw [htokens, List.length_take, ← List.drop_drop, List.drop_eq_drop_min]
  rw [rounds, batches_of_ne_nil (by omega) hleft, hrest, ← htokens]
  rfl

/-- With the prompt read, a sampled token is the next round. -/
theorem rounds_sampled {n : ℕ} (hn : embdInp.length ≤ n) (id : Token) (sampled : List Token) :
    rounds params (embdInp.drop n) (id :: sampled) =
      [id] :: rounds params (embdInp.drop n) sampled := by
  rw [List.drop_eq_nil_of_le hn, rounds, rounds, batches_nil]
  rfl

theorem flatten_batches {n : ℕ} (hn : n ≠ 0) (tokens : List Token) :
    (batches n tokens).flatten = tokens := by
  induction tokens using batches.induct n with
  | case1 tokens hnil =>
    rw [hnil.resolve_right hn, batches_nil]
    rfl
  | case2 tokens hne ih =>
    rw [batches_of_ne_nil hn (not_or.1 hne).1, List.flatten_cons, ih, List.take_append_drop]

/-- The rounds are the prompt and the sampled tokens, each once and in order. -/
theorem flatten_rounds (hbatch : 1 ≤ params.nBatch) (sampled : List Token) :
    (rounds params embdInp sampled).flatten = embdInp ++ sampled := by
  rw [rounds, List.flatten_append, flatten_batches (by omega), ← List.flatMap_def,
    List.flatMap_singleton']

theorem upToEos_initial (eos : Token) : ∀ rounds : List (List Token),
    upToEos eos rounds <+: rounds.flatten
  | [] => List.nil_prefix
  | round :: rest => by
    rw [upToEos, List.flatten_cons]
    split
    · exact List.prefix_append _ _
    · exact (List.prefix_append_right_inj _).2 (upToEos_initial eos rest)

/-- Up to the end of text they have no token twice, and none that a swap inserted. -/
theorem emitted_initial (hbatch : 1 ≤ params.nBatch) (log : List Event) :
    emitted ctx params embdInp log <+: embdInp ++ sampledTokens log := by
  rw [← flatten_rounds hbatch]
  exact upToEos_initial _ _

/-- A round that was appended keeps the invariant, if the loop was left exactly where it ends with
the end of text. -/
theorem TextInv.snoc (h : TextInv ctx params embdInp s) (hrun : s.status = .running)
    {round : List Token} (hresult : t.result = s.result ++ round)
    (hstatus : t.status = if round.getLast? = some ctx.eos then .ended else .running)
    (hround : ∀ later, ∃ next,
      sampledTokens t.log ++ later = sampledTokens s.log ++ next ∧
        rounds params (embdInp.drop s.nConsumed) next =
          round :: rounds params (embdInp.drop t.nConsumed) later) :
    TextInv ctx params embdInp t := by
  have hnext : ∀ later, upToEos ctx.eos (rounds params embdInp (sampledTokens t.log ++ later)) =
      s.result ++ upToEos ctx.eos
        (round :: rounds params (embdInp.drop t.nConsumed) later) := fun later => by
    obtain ⟨next, hsampled, hrounds⟩ := hround later
    rw [hsampled, h.running hrun, hrounds]
  by_cases heos : round.getLast? = some ctx.eos
  · rw [if_pos heos] at hstatus
    refine ⟨fun hs => Status.noConfusion (hstatus.symm.trans hs), fun _ => ⟨?_, ?_⟩,
      fun hs => Status.noConfusion (hstatus.symm.trans hs)⟩
    · have hnil := hnext []
      rwa [List.append_nil, upToEos, if_pos heos, ← hresult] at hnil
    · rw [hresult, List.getLast?_append, heos]
      rfl
  · rw [if_neg heos] at hstatus
    refine ⟨fun _ later => ?_, fun hs => Status.noConfusion (hstatus.symm.trans hs),
      fun hs => Status.noConfusion (hstatus.symm.trans hs)⟩
    rw [hnext, upToEos, if_neg heos, hresult, List.append_assoc]

/-! ## The status -/

theorem not_evalsSucceed {log : List Event} {tokens : List Token} {nEval nPast : ℤ}
    (h : ctx.evalFails log tokens nPast = true) :
    ¬EvalsSucceed ctx (log ++ [.eval tokens nEval nPast]) := fun hevals => by
  have hsucceeds := hevals log tokens nEval nPast (List.prefix_refl _)
  rw [h] at hsucceeds
  cases hsucceeds

/-- Evaluation ends with an evaluation that failed, or the loop goes on. -/
theorem status_evalBatches : ∀ (n : ℕ) (tokens : List Token) {s : State}, s.status = .running →
    (evalBatches ctx params n tokens s).status = .running ∨
      (evalBatches ctx params n tokens s).status = .failed ∧
        ¬EvalsSucceed ctx (evalBatches ctx params n tokens s).log
  | 0, _, _, hrun => .inl hrun
  | n + 1, tokens, s, hrun => by
    rw [evalBatches]
    generalize (if tokens.length > params.nBatch then params.nBatch
      else (tokens.length : ℤ)) = nEval
    by_cases hnil : tokens = []
    · rw [if_pos hnil]
      exact .inl hrun
    rw [if_neg hnil]
    dsimp only
    by_cases hfails : ctx.evalFails s.log (tokens.take nEval.toNat) s.nPast = true
    · rw [if_pos hfails]
      exact .inr ⟨rfl, not_evalsSucceed hfails⟩
    · rw [if_neg hfails]
      exact status_evalBatches n _ hrun

theorem status_predict (hl : Limits ctx params embdInp) (hrun : s.status = .running) :
    (predict ctx params s).status = .running ∨
      (predict ctx params s).status = .failed ∧
        ¬EvalsSucceed ctx (predict ctx params s).log := by
  have hpredict := hl.nPredict
  rw [predict]
  split
  · exact .inl hrun
  · dsimp only
    rw [if_neg (show params.nPredict ≠ -2 by omega)]
    split
    · exact status_evalBatches _ _ hrun
    · exact status_evalBatches _ _ hrun

variable (ctx embdInp) in
theorem status_advance (hbatch : 1 ≤ params.nBatch) (s : State) :
    (advance ctx params embdInp s).status =
      if (advance ctx params embdInp s).embd.getLast? = some ctx.eos then .ended
      else s.status := by
  have hempty : (({ s with embd := [] } : State).embd.length : ℤ) < params.nBatch :=
    Int.lt_of_lt_of_le Int.zero_lt_one hbatch
  obtain ⟨tokens, -, heq⟩ := consume_eq (embdInp.drop s.nConsumed) { s with embd := [] } hempty
  rw [advance]
  by_cases hread : embdInp.length ≤ s.nConsumed
  · simp only [if_pos hread]
    rfl
  · simp only [if_neg hread, heq]

/-! ## The loop -/

/-- The second part appends the next round. -/
theorem TextInv.advance (hbatch : 1 ≤ params.nBatch) (h : TextInv ctx params embdInp s)
    (hrun : s.status = .running) (hp : Predicted ctx params embdInp s t)
    (hrunning : t.status = .running) :
    TextInv ctx params embdInp (advance ctx params embdInp t) := by
  obtain ⟨-, hconsumed, -, -, hresult⟩ := hp.frame
  have hsampled := sampledTokens_predicted hp
  have hstatus := status_advance ctx embdInp hbatch t
  rcases advance_cases ctx embdInp hbatch t with
    ⟨hread, id, status, heq⟩ | ⟨hunread, tokens, status, htokens, heq⟩ <;>
    rw [heq] at hstatus ⊢ <;> rw [hrunning] at hstatus
  · refine h.snoc hrun (congrArg (· ++ [id]) hresult) hstatus fun later => ⟨id :: later, ?_, ?_⟩
    · rw [sampledTokens_append, hsampled, List.append_assoc]
      rfl
    · rw [hconsumed] at hread ⊢
      exact rounds_sampled hread id later
  · refine h.snoc hrun (congrArg (· ++ tokens) hresult) hstatus fun later => ⟨later, ?_, ?_⟩
    · rw [hsampled]
    · rw [hconsumed] at hunread htokens ⊢
      exact rounds_drop hbatch hunread htokens later

theorem textInv_start : TextInv ctx params embdInp (start ctx params) where
  running _ _ := rfl
  ended hs := Status.noConfusion hs
  failed hs := Status.noConfusion hs

theorem textInv_iteration (hl : Limits ctx params embdInp)
    (hkeep : 0 ≤ params.nKeep ∧ params.nKeep ≤ ctx.nCtx - 4)
    (hrun : RunInv ctx params embdInp s) (h : TextInv ctx params embdInp s)
    (hst : iteration ctx params embdInp s = some t) : TextInv ctx params embdInp t := by
  obtain ⟨hstatus, -, hcases⟩ := iteration_eq_some hst
  have hp := predict_spec hl hkeep (hrun.loop hstatus)
  rcases hcases with ⟨hstopped, rfl⟩ | ⟨hrunning, rfl⟩
  · obtain ⟨hfailed, hevals⟩ := (status_predict hl hstatus).resolve_left hstopped
    exact ⟨fun hs => absurd hs hstopped,
      fun hs => Status.noConfusion (hfailed.symm.trans hs), fun _ => hevals⟩
  · exact h.advance hl.nBatch hstatus hp hrunning

/-- With all tokens predicted, the prompt was read. -/
theorem consumed_of_remain (hpredict : 1 ≤ params.nPredict)
    (hist : HistoryInv ctx params embdInp s) (hremain : s.nRemain = 0) :
    embdInp.length ≤ s.nConsumed := by
  by_contra hunread
  have hbudget := hist.budget
  rw [hist.unread (Nat.lt_of_not_le hunread), hremain] at hbudget
  simp at hbudget
  omega

/-- Where the loop ends without a failed evaluation, the result has all rounds up to the end of
text, which was reached unless all tokens were predicted. -/
theorem result_of_end (hpredict : 1 ≤ params.nPredict) (h : SwapInv ctx params embdInp s)
    (htext : TextInv ctx params embdInp s) (hend : iteration ctx params embdInp s = none)
    (hevals : EvalsSucceed ctx s.log) :
    s.status ≠ .failed ∧
      s.result = emitted ctx params embdInp s.log ∧
      (s.result.getLast? = some ctx.eos ∨
        ((sampledTokens s.log).length : ℤ) = params.nPredict) := by
  have hnot : ¬(s.status = .running ∧ s.nRemain ≠ 0) := fun hgoes => by
    rw [iteration, if_pos hgoes] at hend
    cases hend
  cases hs : s.status with
  | running =>
    have hremain : s.nRemain = 0 := not_not.1 fun hne => hnot ⟨hs, hne⟩
    have hist := h.history hs
    have hbudget := hist.budget
    have hnil := htext.running hs []
    rw [List.append_nil, List.drop_eq_nil_of_le (consumed_of_remain hpredict hist hremain),
      rounds_nil, upToEos, List.append_nil] at hnil
    exact ⟨Status.noConfusion, hnil.symm, .inr (by omega)⟩
  | ended =>
    obtain ⟨hresult, hlast⟩ := htext.ended hs
    exact ⟨Status.noConfusion, hresult.symm, .inl hlast⟩
  | failed => exact absurd hevals (htext.failed hs)

/-- For every prompt within the limit, the loop ends, and if no evaluation failed `exec_llama`
returns the text of the prompt and then of the sampled tokens, each once, up to the first iteration
that ends with the end of text. It ends so or with all tokens predicted. -/
theorem exec_llama_text (hctx : 8 ≤ ctx.nCtx) (hbatch : 1 ≤ params.nBatch)
    (hpredict : 1 ≤ params.nPredict) (prompt : Bytes)
    (hfits : ((ctx.tokenize prompt).length : ℤ) ≤ ctx.nCtx - 4) :
    ∃ n last, mainLoop ctx params (ctx.tokenize prompt) n = some last ∧
      (EvalsSucceed ctx last.log →
        execLlama ctx params n prompt =
            some ((emitted ctx params (ctx.tokenize prompt) last.log).flatMap ctx.tokenToPiece) ∧
          emitted ctx params (ctx.tokenize prompt) last.log <+:
            ctx.tokenize prompt ++ sampledTokens last.log ∧
          ((emitted ctx params (ctx.tokenize prompt) last.log).getLast? = some ctx.eos ∨
            ((sampledTokens last.log).length : ℤ) = params.nPredict)) := by
  have hl : Limits ctx params (ctx.tokenize prompt) := ⟨hctx, hbatch, by omega, hfits⟩
  obtain ⟨hl', hkeep⟩ := hl.keep
  obtain ⟨last, hlast, -⟩ := mainLoop_ends hl
  refine ⟨_, last, hlast, fun hevals => ?_⟩
  have hinv := chase_mem
    (S := { s | SwapInv ctx { params with nKeep := keep params (ctx.tokenize prompt) }
        (ctx.tokenize prompt) s ∧
      TextInv ctx { params with nKeep := keep params (ctx.tokenize prompt) }
        (ctx.tokenize prompt) s })
    (fun s hs t hst => ⟨swapInv_iteration hl' hkeep hs.1 hst,
      textInv_iteration hl' hkeep hs.1.run hs.2 hst⟩)
    ⟨swapInv_start hl', textInv_start⟩ hlast
  have hend := (StateTransition.mem_eval.1 (mem_eval_of_chase hlast)).2
  obtain ⟨hstatus, hresult, hdone⟩ := result_of_end (by exact hpredict) hinv.1 hinv.2 hend hevals
  have hemitted : last.result = emitted ctx params (ctx.tokenize prompt) last.log := hresult
  rw [← hemitted]
  refine ⟨?_, hemitted ▸ emitted_initial hbatch last.log, hdone⟩
  rw [execLlama, if_neg (by omega), hlast, Option.map_some, text]
  cases hs : last.status with
  | running => rfl
  | ended => rfl
  | failed => exact absurd hs hstatus

/-- The token 1 and nine fives, with a swap before the last. -/
theorem exec_llama_text_fives :
    ∃ n last, mainLoop fives ⟨0, 8, 9, false⟩ [1] n = some last ∧
      execLlama fives ⟨0, 8, 9, false⟩ n [1] =
        some ((emitted fives ⟨0, 8, 9, false⟩ [1] last.log).flatMap fives.tokenToPiece) := by
  have hbatch : 1 ≤ (⟨0, 8, 9, false⟩ : Params).nBatch := by decide
  obtain ⟨n, last, hlast, htext⟩ :=
    exec_llama_text (show 8 ≤ fives.nCtx by decide) hbatch (by decide) [1] (by decide)
  exact ⟨n, last, hlast, (htext fun _ _ _ _ _ => rfl).1⟩

end Llama

end TinyKvm
