import TinyKvm.Api
import TinyKvm.Chase
import Mathlib.Algebra.Order.Floor.Div

/-!
# Generating text with LLaMA

The loop of `exec_llama` reads the prompt in batches and then samples one token
for each iteration. Before that it evaluates the tokens it was left with, and
when these do not fit in the context any more it swaps : it goes back to the
tokens to keep, and inserts half of the others again, from `last_n_tokens`.

Between two iterations everything read is evaluated or about to be, or there is
one sampled token to be evaluated (`LoopInv`). So the context can only be full
with one token left, which fixes the sizes of a swap (`swapOf_spec`). Every
iteration takes a batch of the prompt or a token to predict, so the loop ends, and
all it does on the way is safe (`main_loop_safe`).
-/

namespace TinyKvm

namespace Llama

/-- `llama_token`. -/
abbrev Token := BitVec 32

/-- The parameters that `exec_llama` uses. -/
structure Params where
  nKeep : ℤ
  nBatch : ℤ
  nPredict : ℤ
  instruct : Bool

/-- A context swap : the tokens counted as left, those about to be evaluated, and those inserted
in front of them. -/
structure Swap where
  nLeft : ℤ
  embd : List Token
  inserted : List Token
  deriving DecidableEq

/-- What the loop does besides moving its counters : it calls `llama_eval`, swaps, or samples a
token. -/
inductive Event where
  | eval (tokens : List Token) (nEval nPast : ℤ)
  | swap (swap : Swap)
  | sampled (id : Token)
  deriving DecidableEq

/-- A context of the library, which is not part of the repository. What a call gives may depend on
all that happened before it. -/
structure Context where
  nCtx : ℤ
  eos : Token
  tokenize : Bytes → List Token
  tokenToPiece : Token → Bytes
  /-- Whether `llama_eval` fails. -/
  evalFails : List Event → List Token → ℤ → Bool
  /-- `llama_sample_token`, given the last tokens. -/
  sampleToken : List Event → List Token → Token

/-- Whether the loop goes on, was left with `break`, or with an evaluation that failed. -/
inductive Status where
  | running
  | ended
  | failed
  deriving DecidableEq

/-- The local variables of the loop, with the tokens of the result and what happened. -/
structure State where
  nPast : ℤ
  nRemain : ℤ
  nConsumed : ℕ
  embd : List Token
  lastNTokens : List Token
  lastTokens : List Token
  result : List Token
  log : List Event
  status : Status
  deriving DecidableEq

variable (ctx : Context) (params : Params) (embdInp : List Token)

/-- The tokens to keep when the context is reset. -/
def keep : ℤ :=
  if params.nKeep < 0 ∨ params.nKeep > embdInp.length ∨ params.instruct = true then embdInp.length
  else params.nKeep

/-- Before the loop. -/
def start : State where
  nPast := 0
  nRemain := params.nPredict
  nConsumed := 0
  embd := []
  lastNTokens := List.replicate ctx.nCtx.toNat 0
  lastTokens := List.replicate ctx.nCtx.toNat 0
  result := []
  log := []
  status := .running

/-- `embd`, truncated to `max_embd_size`. -/
def truncate (embd : List Token) : List Token :=
  if embd.length > ctx.nCtx - 4 then embd.take (ctx.nCtx - 4).toNat else embd

/-- Where the tokens to insert begin in `last_n_tokens`. -/
def swapFirst (nLeft : ℤ) (embd : List Token) : ℤ :=
  ctx.nCtx - nLeft.tdiv 2 - embd.length

/-- Where they end. -/
def swapLast (embd : List Token) : ℤ :=
  ctx.nCtx - embd.length

/-- The elements from `first` up to `last`. -/
def slice (tokens : List Token) (first last : ℤ) : List Token :=
  (tokens.drop first.toNat).take (last - first).toNat

/-- What is inserted where in a context swap. -/
def swapOf (s : State) : Swap :=
  let nLeft := s.nPast - params.nKeep
  ⟨nLeft, s.embd, slice s.lastNTokens (swapFirst ctx nLeft s.embd) (swapLast ctx s.embd)⟩

/-- The context swap. -/
def contextSwap (s : State) : State :=
  { s with
    nPast := max 1 params.nKeep
    embd := (swapOf ctx params s).inserted ++ s.embd
    log := s.log ++ [.swap (swapOf ctx params s)] }

/-- The loop that evaluates tokens in batches, for at most so many of them. -/
def evalBatches : ℕ → List Token → State → State
  | 0, _, s => s
  | n + 1, tokens, s =>
    if tokens = [] then s
    else
      let nEval := if tokens.length > params.nBatch then params.nBatch else tokens.length
      let batch := tokens.take nEval.toNat
      let log := s.log ++ [.eval batch nEval s.nPast]
      if ctx.evalFails s.log batch s.nPast then { s with log, status := .failed }
      else evalBatches n (tokens.drop params.nBatch.toNat) { s with log, nPast := s.nPast + nEval }

/-- The first part of an iteration : the tokens of `embd` are evaluated. -/
def predict (s : State) : State :=
  if s.embd = [] then s
  else
    let s := { s with embd := truncate ctx s.embd }
    if s.nPast + s.embd.length > ctx.nCtx then
      if params.nPredict = -2 then { s with status := .ended }
      else
        let s := contextSwap ctx params s
        evalBatches ctx params s.embd.length s.embd s
    else evalBatches ctx params s.embd.length s.embd s

/-- A token appended to `embd`, and to the last tokens. -/
def push (id : Token) (s : State) : State :=
  { s with embd := s.embd ++ [id], lastTokens := s.lastTokens.drop 1 ++ [id] }

/-- A token is sampled. -/
def sample (s : State) : State :=
  let id := ctx.sampleToken s.log s.lastTokens
  { push id s with nRemain := s.nRemain - 1, log := s.log ++ [.sampled id] }

/-- The rest of the prompt is forwarded, as far as it fits in a batch. -/
def consume : List Token → State → State
  | [], s => s
  | id :: rest, s =>
    let s := { push id s with nConsumed := s.nConsumed + 1 }
    if s.embd.length ≥ params.nBatch then s else consume rest s

/-- The second part of an iteration : the next tokens, and the end of text. -/
def advance (s : State) : State :=
  let s := { s with embd := [] }
  let s := if embdInp.length ≤ s.nConsumed then sample ctx s
    else consume params (embdInp.drop s.nConsumed) s
  { s with
    result := s.result ++ s.embd
    status := if s.embd.getLast? = some ctx.eos then .ended else s.status }

/-- An iteration of the loop, if there is one. -/
def iteration (s : State) : Option State :=
  if s.status = .running ∧ s.nRemain ≠ 0 then
    let s := predict ctx params s
    some (if s.status = .running then advance ctx params embdInp s else s)
  else none

/-- The loop, in fewer than `n` iterations. -/
def mainLoop (n : ℕ) : Option State :=
  let params := { params with nKeep := keep params embdInp }
  chase (iteration ctx params embdInp) n (start ctx params)

/-- What is returned from the loop : nothing after an evaluation that failed. -/
def text (s : State) : Bytes :=
  match s.status with
  | .failed => []
  | .running | .ended => s.result.flatMap ctx.tokenToPiece

/-- `exec_llama`, if its loop ends in fewer than `n` iterations. -/
def execLlama (n : ℕ) (prompt : Bytes) : Option Bytes :=
  let embdInp := ctx.tokenize prompt
  if embdInp.length > ctx.nCtx - 4 then some []
  else (mainLoop ctx params embdInp n).map (text ctx)

/-! ## Safety -/

/-- The arguments the loop is used with. -/
structure Limits : Prop where
  nCtx : 8 ≤ ctx.nCtx
  nBatch : 1 ≤ params.nBatch
  nPredict : 0 ≤ params.nPredict
  fits : embdInp.length ≤ ctx.nCtx - 4

/-- An evaluation of a batch that ends at `bound` or before. -/
def IsBatch (bound : ℤ) : Event → Prop
  | .eval tokens nEval nPast =>
    tokens.length = nEval ∧ 1 ≤ nEval ∧ nEval ≤ params.nBatch ∧ nPast + nEval ≤ bound
  | .swap _ | .sampled _ => False

/-- An evaluation is of a batch that ends inside the context, and what a swap inserts lies inside
`last_n_tokens`. -/
def Safe (e : Event) : Prop :=
  match e with
  | .eval .. => IsBatch params ctx.nCtx e
  | .swap sw => 0 ≤ swapFirst ctx sw.nLeft sw.embd ∧
      swapFirst ctx sw.nLeft sw.embd ≤ swapLast ctx sw.embd ∧ swapLast ctx sw.embd ≤ ctx.nCtx
  | .sampled _ => True

/-- The iterations that the prompt takes, and the tokens to predict. -/
def maxRounds : ℕ :=
  embdInp.length ⌈/⌉ params.nBatch.toNat + params.nPredict.toNat

/-- Between two iterations, the prompt is being read and all of it so far is evaluated or about to
be, or it was read and one more token is about to be. -/
structure LoopInv (s : State) : Prop where
  nPast_nonneg : 0 ≤ s.nPast
  nPast_le : s.nPast ≤ ctx.nCtx
  consumed_le : s.nConsumed ≤ embdInp.length
  phase : s.nPast + s.embd.length = s.nConsumed ∨
    s.embd.length = 1 ∧ s.nConsumed = embdInp.length
  remain_nonneg : 0 ≤ s.nRemain
  zeros : s.lastNTokens = List.replicate ctx.nCtx.toNat 0

/-! ## Evaluation -/

/-- What evaluation leaves as it is. -/
structure Untouched (s t : State) : Prop where
  nRemain : t.nRemain = s.nRemain
  nConsumed : t.nConsumed = s.nConsumed
  lastNTokens : t.lastNTokens = s.lastNTokens
  lastTokens : t.lastTokens = s.lastTokens
  result : t.result = s.result

/-- `tokens` were evaluated, in batches, unless that failed. -/
structure Evaluated (tokens : List Token) (s t : State) : Prop where
  frame : Untouched s t
  nPast_eq : t.status = .running → t.nPast = s.nPast + tokens.length
  log_eq : ∃ es, t.log = s.log ++ es ∧ ∀ e ∈ es, IsBatch params (s.nPast + tokens.length) e

/-- The tokens of `embd` were evaluated, unless that failed, and at most one swap was made before,
with the context full. -/
structure Predicted (s t : State) : Prop where
  frame : Untouched s t
  log_eq : ∃ sw es, t.log = s.log ++ sw ++ es ∧ (∀ e ∈ es, IsBatch params ctx.nCtx e) ∧
    (sw = [] ∨ s.nPast = ctx.nCtx ∧ s.embd.length = 1 ∧ s.nConsumed = embdInp.length ∧
      sw = [.swap (swapOf ctx params s)])
  nPast_nonneg : t.status = .running → 0 ≤ t.nPast
  nPast_le : t.status = .running → t.nPast ≤ ctx.nCtx ∧ t.nPast ≤ s.nPast + s.embd.length
  phase : t.status = .running → t.nPast = s.nConsumed ∨ s.nConsumed = embdInp.length

variable {ctx params embdInp}

theorem IsBatch.mono {b c : ℤ} (h : b ≤ c) : ∀ {e : Event}, IsBatch params b e → IsBatch params c e
  | .eval .., ⟨hlen, hpos, hle, hbound⟩ => ⟨hlen, hpos, hle, hbound.trans h⟩

theorem IsBatch.safe : ∀ {e : Event}, IsBatch params ctx.nCtx e → Safe ctx params e
  | .eval .., h => h

theorem Untouched.refl (s : State) : Untouched s s :=
  ⟨rfl, rfl, rfl, rfl, rfl⟩

theorem Evaluated.nil (s : State) : Evaluated params [] s s :=
  ⟨.refl s, fun _ => by simp, [], by simp, by simp⟩

/-- A batch, and then the rest. -/
theorem Evaluated.cons {tokens rest : List Token} {s t : State} {e : Event} {nEval : ℤ}
    (he : IsBatch params (s.nPast + tokens.length) e) (hrest : nEval + rest.length = tokens.length)
    (h : Evaluated params rest { s with log := s.log ++ [e], nPast := s.nPast + nEval } t) :
    Evaluated params tokens s t where
  frame := ⟨h.frame.nRemain, h.frame.nConsumed, h.frame.lastNTokens, h.frame.lastTokens,
    h.frame.result⟩
  nPast_eq hrunning := by
    have hnPast : t.nPast = s.nPast + nEval + rest.length := h.nPast_eq hrunning
    omega
  log_eq := by
    obtain ⟨es, hlog, hes⟩ := h.log_eq
    refine ⟨e :: es, hlog.trans (List.append_cons ..).symm, ?_⟩
    refine List.forall_mem_cons.2 ⟨he, fun e he => (hes e he).mono ?_⟩
    dsimp only
    omega

theorem evalBatches_spec (hbatch : 1 ≤ params.nBatch) :
    ∀ {n : ℕ} {tokens : List Token} (s : State), tokens.length ≤ n →
      Evaluated params tokens s (evalBatches ctx params n tokens s)
  | 0, [], s, _ | _ + 1, [], s, _ => .nil s
  | n + 1, id :: rest, s, hn => by
    rw [evalBatches, if_neg (List.cons_ne_nil _ _)]
    generalize htokens : id :: rest = tokens at hn
    have hpos : 0 < tokens.length := htokens ▸ Nat.succ_pos _
    set nEval := if tokens.length > params.nBatch then params.nBatch else (tokens.length : ℤ)
      with hnEval
    have hle : 1 ≤ nEval ∧ nEval ≤ params.nBatch ∧ nEval ≤ tokens.length := by
      rw [hnEval]
      split <;> omega
    have hbound : IsBatch params (s.nPast + tokens.length)
        (.eval (tokens.take nEval.toNat) nEval s.nPast) := by
      refine ⟨?_, hle.1, hle.2.1, by omega⟩
      rw [List.length_take]
      omega
    have hrest : nEval + (tokens.drop params.nBatch.toNat).length = tokens.length := by
      rw [List.length_drop, hnEval]
      split <;> omega
    dsimp only
    split
    · exact ⟨⟨rfl, rfl, rfl, rfl, rfl⟩, fun h => Status.noConfusion h, _, rfl,
        List.forall_mem_singleton.2 hbound⟩
    · exact .cons hbound hrest (evalBatches_spec hbatch _ (by omega))

/-! ## The first part of an iteration -/

theorem length_slice {tokens : List Token} {first last : ℤ} (h0 : 0 ≤ first)
    (hle : first ≤ last) (hlast : last ≤ tokens.length) :
    ((slice tokens first last).length : ℤ) = last - first := by
  rw [slice, List.length_take, List.length_drop]
  omega

/-- With the context full and one token to be evaluated, half of what is left fits, and the swap
makes room for it and the token. -/
theorem swapOf_spec (hkeep : 0 ≤ params.nKeep ∧ params.nKeep ≤ ctx.nCtx - 4) {s : State}
    (hfull : s.nPast = ctx.nCtx) (hone : s.embd.length = 1)
    (hlen : s.lastNTokens.length = ctx.nCtx.toNat) :
    Safe ctx params (.swap (swapOf ctx params s)) ∧
      ((swapOf ctx params s).inserted.length : ℤ) = (ctx.nCtx - params.nKeep) / 2 := by
  have hleft : (s.nPast - params.nKeep).tdiv 2 = (ctx.nCtx - params.nKeep) / 2 := by
    rw [hfull, Int.tdiv_eq_ediv_of_nonneg (by omega)]
  have hfirst : swapFirst ctx (s.nPast - params.nKeep) s.embd =
      ctx.nCtx - (ctx.nCtx - params.nKeep) / 2 - 1 := by
    rw [swapFirst, hleft, hone]
    rfl
  have hlast : swapLast ctx s.embd = ctx.nCtx - 1 := by
    rw [swapLast, hone]
    rfl
  refine ⟨⟨?_, ?_, ?_⟩, ?_⟩
  · exact hfirst ▸ by omega
  · exact hfirst ▸ hlast ▸ by omega
  · exact hlast ▸ by omega
  · rw [swapOf, hfirst, hlast, length_slice (by omega) (by omega) (by omega)]
    omega

variable {s t : State}

theorem truncate_of_inv (hl : Limits ctx params embdInp) (h : LoopInv ctx embdInp s) :
    truncate ctx s.embd = s.embd := by
  refine if_neg ?_
  have := hl.nCtx
  have := hl.fits
  have := h.nPast_nonneg
  have := h.consumed_le
  rcases h.phase with hphase | ⟨hone, -⟩ <;> omega

/-- More tokens than the context has room for are one token, with the context full. -/
theorem LoopInv.full (hl : Limits ctx params embdInp) (h : LoopInv ctx embdInp s)
    (hover : s.nPast + s.embd.length > ctx.nCtx) :
    s.nPast = ctx.nCtx ∧ s.embd.length = 1 ∧ s.nConsumed = embdInp.length := by
  have := hl.fits
  have := h.consumed_le
  have := h.nPast_le
  rcases h.phase with hphase | ⟨hone, hconsumed⟩
  · omega
  · exact ⟨by omega, hone, hconsumed⟩

theorem predicted_of_nil (h : LoopInv ctx embdInp s) (hnil : s.embd = []) :
    Predicted ctx params embdInp s s where
  frame := .refl s
  log_eq := ⟨[], [], by simp, by simp, .inl rfl⟩
  nPast_nonneg _ := h.nPast_nonneg
  nPast_le _ := ⟨h.nPast_le, by omega⟩
  phase _ := by
    rcases h.phase with hphase | ⟨-, hconsumed⟩
    · rw [hnil] at hphase
      exact .inl (by simpa using hphase)
    · exact .inr hconsumed

theorem predicted_of_fits (h : LoopInv ctx embdInp s)
    (hfits : s.nPast + s.embd.length ≤ ctx.nCtx) (he : Evaluated params s.embd s t) :
    Predicted ctx params embdInp s t where
  frame := he.frame
  log_eq := by
    obtain ⟨es, hlog, hes⟩ := he.log_eq
    exact ⟨[], es, by rw [hlog, List.append_nil], fun e he => (hes e he).mono hfits, .inl rfl⟩
  nPast_nonneg hrunning := by
    have := he.nPast_eq hrunning
    have := h.nPast_nonneg
    omega
  nPast_le hrunning := by
    have := he.nPast_eq hrunning
    omega
  phase hrunning := by
    have := he.nPast_eq hrunning
    rcases h.phase with hphase | ⟨-, hconsumed⟩
    · exact .inl (by omega)
    · exact .inr hconsumed

theorem predicted_of_full (hl : Limits ctx params embdInp)
    (hkeep : 0 ≤ params.nKeep ∧ params.nKeep ≤ ctx.nCtx - 4) (h : LoopInv ctx embdInp s)
    (hover : s.nPast + s.embd.length > ctx.nCtx)
    (he : Evaluated params (contextSwap ctx params s).embd (contextSwap ctx params s) t) :
    Predicted ctx params embdInp s t := by
  have hctx := hl.nCtx
  obtain ⟨hfull, hone, hconsumed⟩ := h.full hl hover
  have hzeros : s.lastNTokens.length = ctx.nCtx.toNat := by
    rw [h.zeros, List.length_replicate]
  obtain ⟨-, hinserted⟩ := swapOf_spec hkeep hfull hone hzeros
  have hnPast : (contextSwap ctx params s).nPast = max 1 params.nKeep := rfl
  have hembd : ((contextSwap ctx params s).embd.length : ℤ) =
      (ctx.nCtx - params.nKeep) / 2 + 1 := by
    rw [← hinserted, contextSwap, List.length_append, hone]
    rfl
  have hroom : (contextSwap ctx params s).nPast + (contextSwap ctx params s).embd.length ≤
      ctx.nCtx := by
    omega
  obtain ⟨es, hlog, hes⟩ := he.log_eq
  refine ⟨?_, ⟨_, es, hlog, fun e he => (hes e he).mono hroom, .inr ⟨hfull, hone, hconsumed, rfl⟩⟩,
    fun hrunning => ?_, fun hrunning => ?_, fun _ => .inr hconsumed⟩
  · exact ⟨he.frame.nRemain, he.frame.nConsumed, he.frame.lastNTokens, he.frame.lastTokens,
      he.frame.result⟩
  · have := he.nPast_eq hrunning
    omega
  · have := he.nPast_eq hrunning
    omega

/-- From between two iterations, the first part of the next evaluates inside the context. -/
theorem predict_spec (hl : Limits ctx params embdInp)
    (hkeep : 0 ≤ params.nKeep ∧ params.nKeep ≤ ctx.nCtx - 4) (h : LoopInv ctx embdInp s) :
    Predicted ctx params embdInp s (predict ctx params s) := by
  by_cases hnil : s.embd = []
  · rw [predict, if_pos hnil]
    exact predicted_of_nil h hnil
  · have hpredict : predict ctx params s =
        if s.nPast + s.embd.length > ctx.nCtx then
          if params.nPredict = -2 then { s with status := .ended }
          else evalBatches ctx params (contextSwap ctx params s).embd.length
            (contextSwap ctx params s).embd (contextSwap ctx params s)
        else evalBatches ctx params s.embd.length s.embd s := by
      rw [predict, if_neg hnil, truncate_of_inv hl h]
    have hpos := hl.nPredict
    have hnever : params.nPredict ≠ -2 := by omega
    rw [hpredict, if_neg hnever]
    by_cases hover : s.nPast + s.embd.length > ctx.nCtx
    · rw [if_pos hover]
      exact predicted_of_full hl hkeep h hover (evalBatches_spec hl.nBatch _ le_rfl)
    · rw [if_neg hover]
      exact predicted_of_fits h (by omega) (evalBatches_spec hl.nBatch _ le_rfl)

/-! ## The second part -/

/-- The last tokens, after `tokens` were pushed. -/
def slide (window tokens : List Token) : List Token :=
  tokens.foldl (fun window id => window.drop 1 ++ [id]) window

theorem slide_append (window xs ys : List Token) :
    slide window (xs ++ ys) = slide (slide window xs) ys :=
  List.foldl_append

/-- What is forwarded fills the batch, or is all that is left. -/
theorem consume_eq : ∀ (rest : List Token) (s : State), s.embd.length < params.nBatch →
    ∃ tokens, tokens = rest.take (params.nBatch.toNat - s.embd.length) ∧
      consume params rest s =
        { s with
          embd := s.embd ++ tokens
          lastTokens := slide s.lastTokens tokens
          nConsumed := s.nConsumed + tokens.length }
  | [], s, _ => ⟨[], by simp, by simp [consume, slide]⟩
  | id :: rest, s, hlt => by
    have hroom : params.nBatch.toNat - s.embd.length =
        params.nBatch.toNat - (s.embd.length + 1) + 1 := by
      omega
    by_cases hfull : ((s.embd ++ [id]).length : ℤ) ≥ params.nBatch
    · have hlen := hfull
      rw [List.length_append, List.length_singleton] at hlen
      refine ⟨[id], ?_, if_pos hfull⟩
      rw [hroom, List.take_succ_cons, Nat.sub_eq_zero_of_le (by omega), List.take_zero]
    · obtain ⟨tokens, htokens, heq⟩ := consume_eq rest
        { push id s with nConsumed := s.nConsumed + 1 } (Int.not_le.1 hfull)
      refine ⟨id :: tokens, ?_, (if_neg hfull).trans (heq.trans ?_)⟩
      · rw [hroom, List.take_succ_cons, htokens]
        simp [push]
      · simp [push, slide, Nat.add_assoc, Nat.add_comm]

variable (ctx embdInp) in
/-- The second part of an iteration samples a token, once the prompt was read, and else forwards
the next of it. -/
theorem advance_cases (hbatch : 1 ≤ params.nBatch) (s : State) :
    (embdInp.length ≤ s.nConsumed ∧ ∃ id status, advance ctx params embdInp s =
      { s with
        embd := [id]
        lastTokens := slide s.lastTokens [id]
        nRemain := s.nRemain - 1
        log := s.log ++ [.sampled id]
        result := s.result ++ [id]
        status }) ∨
    (s.nConsumed < embdInp.length ∧ ∃ tokens status,
      tokens = (embdInp.drop s.nConsumed).take params.nBatch.toNat ∧
      advance ctx params embdInp s =
        { s with
          embd := tokens
          lastTokens := slide s.lastTokens tokens
          nConsumed := s.nConsumed + tokens.length
          result := s.result ++ tokens
          status }) := by
  by_cases hread : embdInp.length ≤ s.nConsumed
  · refine .inl ⟨hread, ctx.sampleToken s.log s.lastTokens, ?_⟩
    rw [advance]
    simp only [if_pos hread]
    exact ⟨_, rfl⟩
  · have hempty : (({ s with embd := [] } : State).embd.length : ℤ) < params.nBatch :=
      Int.lt_of_lt_of_le Int.zero_lt_one hbatch
    obtain ⟨tokens, htokens, heq⟩ := consume_eq
      (embdInp.drop s.nConsumed) { s with embd := [] } hempty
    refine .inr ⟨Nat.lt_of_not_le hread, tokens, ?_⟩
    rw [advance]
    simp only [if_neg hread, heq]
    exact ⟨_, htokens, rfl⟩

/-! ## Iterations -/

theorem iteration_eq_some (h : iteration ctx params embdInp s = some t) :
    s.status = .running ∧ s.nRemain ≠ 0 ∧
      ((predict ctx params s).status ≠ .running ∧ t = predict ctx params s ∨
        (predict ctx params s).status = .running ∧
          t = advance ctx params embdInp (predict ctx params s)) := by
  rw [iteration] at h
  by_cases hrun : s.status = .running ∧ s.nRemain ≠ 0
  · rw [if_pos hrun] at h
    refine ⟨hrun.1, hrun.2, ?_⟩
    have ht := (Option.some.inj h).symm
    by_cases hrunning : (predict ctx params s).status = .running
    · exact .inr ⟨hrunning, ht.trans (if_pos hrunning)⟩
    · exact .inl ⟨hrunning, ht.trans (if_neg hrunning)⟩
  · rw [if_neg hrun] at h
    cases h

theorem Predicted.safe (hkeep : 0 ≤ params.nKeep ∧ params.nKeep ≤ ctx.nCtx - 4)
    (h : LoopInv ctx embdInp s) (hp : Predicted ctx params embdInp s t)
    (hsafe : ∀ e ∈ s.log, Safe ctx params e) : ∀ e ∈ t.log, Safe ctx params e := by
  obtain ⟨sw, es, hlog, hes, hsw⟩ := hp.log_eq
  rw [hlog, List.forall_mem_append, List.forall_mem_append]
  refine ⟨⟨hsafe, ?_⟩, fun e he => (hes e he).safe⟩
  rcases hsw with rfl | ⟨hfull, hone, -, rfl⟩
  · exact List.forall_mem_nil _
  · have hzeros : s.lastNTokens.length = ctx.nCtx.toNat := by
      rw [h.zeros, List.length_replicate]
    exact List.forall_mem_singleton.2 (swapOf_spec hkeep hfull hone hzeros).1

/-- The second part leads to between two iterations again. -/
theorem LoopInv.advance (hbatch : 1 ≤ params.nBatch) (h : LoopInv ctx embdInp s)
    (hp : Predicted ctx params embdInp s t) (hrunning : t.status = .running)
    (hremain : s.nRemain ≠ 0) : LoopInv ctx embdInp (advance ctx params embdInp t) := by
  obtain ⟨hremain_eq, hconsumed, hzeros, -, -⟩ := hp.frame
  have hle := h.consumed_le
  have hpos := h.remain_nonneg
  rcases advance_cases ctx embdInp hbatch t with
    ⟨hread, id, status, heq⟩ | ⟨hunread, tokens, status, htokens, heq⟩ <;> rw [heq]
  · exact {
      nPast_nonneg := hp.nPast_nonneg hrunning
      nPast_le := (hp.nPast_le hrunning).1
      consumed_le := hconsumed ▸ hle
      phase := .inr ⟨rfl, by dsimp only; omega⟩
      remain_nonneg := by dsimp only; omega
      zeros := hzeros.trans h.zeros }
  · have hlen : tokens.length ≤ embdInp.length - t.nConsumed := by
      rw [htokens, List.length_take, List.length_drop]
      exact min_le_right _ _
    have hnPast : t.nPast = s.nConsumed :=
      (hp.phase hrunning).resolve_right (by omega)
    exact {
      nPast_nonneg := hp.nPast_nonneg hrunning
      nPast_le := (hp.nPast_le hrunning).1
      consumed_le := by dsimp only; omega
      phase := .inl (by dsimp only; omega)
      remain_nonneg := hremain_eq ▸ hpos
      zeros := hzeros.trans h.zeros }

variable (ctx params embdInp)

/-- What holds after every iteration : the loop is between two iterations, or was left, and
everything so far was safe. -/
structure RunInv (s : State) : Prop where
  safe : ∀ e ∈ s.log, Safe ctx params e
  loop : s.status = .running → LoopInv ctx embdInp s

/-- The iterations left. -/
def roundsLeft (s : State) : ℕ :=
  if s.status = .running then
    (embdInp.length - s.nConsumed) ⌈/⌉ params.nBatch.toNat + s.nRemain.toNat
  else 0

variable {ctx params embdInp}

/-- A batch less takes a round less. -/
theorem ceilDiv_sub_lt {n b k : ℕ} (hb : 0 < b) (hk : k = min b n) (hn : 0 < n) :
    (n - k) ⌈/⌉ b < n ⌈/⌉ b := by
  have hle : n ≤ b * (n ⌈/⌉ b) := (ceilDiv_le_iff_le_mul hb).1 le_rfl
  have hpos : 0 < n ⌈/⌉ b := by
    by_contra h0
    rw [Nat.eq_zero_of_not_pos h0] at hle
    omega
  have hround : (n - k) ⌈/⌉ b ≤ n ⌈/⌉ b - 1 := by
    rw [ceilDiv_le_iff_le_mul hb, Nat.mul_sub, Nat.mul_one]
    have := Nat.le_mul_of_pos_right b hpos
    omega
  omega

theorem roundsLeft_le (s : State) : roundsLeft params embdInp s ≤
    (embdInp.length - s.nConsumed) ⌈/⌉ params.nBatch.toNat + s.nRemain.toNat := by
  unfold roundsLeft
  split
  · exact le_rfl
  · exact Nat.zero_le _

variable (ctx embdInp) in
/-- The second part takes a round, off the prompt or off the tokens to predict. -/
theorem roundsLeft_advance (hbatch : 1 ≤ params.nBatch) (hremain : 0 < s.nRemain) :
    roundsLeft params embdInp (advance ctx params embdInp s) <
      (embdInp.length - s.nConsumed) ⌈/⌉ params.nBatch.toNat + s.nRemain.toNat := by
  refine (roundsLeft_le _).trans_lt ?_
  rcases advance_cases ctx embdInp hbatch s with
    ⟨hread, id, status, heq⟩ | ⟨hunread, tokens, status, htokens, heq⟩ <;> rw [heq]
  · dsimp only
    omega
  · have hlen : tokens.length = min params.nBatch.toNat (embdInp.length - s.nConsumed) := by
      rw [htokens, List.length_take, List.length_drop]
    have hround := ceilDiv_sub_lt (b := params.nBatch.toNat) (by omega) hlen (by omega)
    dsimp only
    rw [Nat.sub_add_eq]
    omega

theorem safe_advance (hbatch : 1 ≤ params.nBatch) (hsafe : ∀ e ∈ s.log, Safe ctx params e) :
    ∀ e ∈ (advance ctx params embdInp s).log, Safe ctx params e := by
  rcases advance_cases ctx embdInp hbatch s with
    ⟨-, id, status, heq⟩ | ⟨-, tokens, status, -, heq⟩ <;> rw [heq]
  · exact List.forall_mem_append.2 ⟨hsafe, List.forall_mem_singleton.2 trivial⟩
  · exact hsafe

/-- An iteration keeps the invariant, and takes one of the rounds left. -/
theorem iteration_spec (hl : Limits ctx params embdInp)
    (hkeep : 0 ≤ params.nKeep ∧ params.nKeep ≤ ctx.nCtx - 4) (h : RunInv ctx params embdInp s)
    (hst : iteration ctx params embdInp s = some t) :
    RunInv ctx params embdInp t ∧ roundsLeft params embdInp t < roundsLeft params embdInp s := by
  obtain ⟨hrun, hremain, hcases⟩ := iteration_eq_some hst
  have hloop := h.loop hrun
  have hpos : 0 < s.nRemain := lt_of_le_of_ne hloop.remain_nonneg hremain.symm
  have hp := predict_spec hl hkeep hloop
  have hsafe := hp.safe hkeep hloop h.safe
  rw [roundsLeft.eq_def _ _ s, if_pos hrun]
  rcases hcases with ⟨hstopped, rfl⟩ | ⟨hrunning, rfl⟩
  · rw [roundsLeft, if_neg hstopped]
    exact ⟨⟨hsafe, fun h => absurd h hstopped⟩, by omega⟩
  · have hrounds := roundsLeft_advance ctx embdInp hl.nBatch
      (hp.frame.nRemain.symm ▸ hpos)
    rw [hp.frame.nConsumed, hp.frame.nRemain] at hrounds
    exact ⟨⟨safe_advance hl.nBatch hsafe, fun _ => hloop.advance hl.nBatch hp hrunning hremain⟩,
      hrounds⟩

/-! ## The loop -/

/-- With the tokens to keep counted, the limits are met as before, and they leave room. -/
theorem Limits.keep (hl : Limits ctx params embdInp) :
    Limits ctx { params with nKeep := keep params embdInp } embdInp ∧
      0 ≤ keep params embdInp ∧ keep params embdInp ≤ ctx.nCtx - 4 := by
  have hkeep : 0 ≤ Llama.keep params embdInp ∧ Llama.keep params embdInp ≤ embdInp.length := by
    rw [Llama.keep]
    split <;> omega
  exact ⟨⟨hl.nCtx, hl.nBatch, hl.nPredict, hl.fits⟩, hkeep.1, hkeep.2.trans hl.fits⟩

theorem runInv_start (hl : Limits ctx params embdInp) :
    RunInv ctx params embdInp (start ctx params) where
  safe := List.forall_mem_nil _
  loop _ :=
    { nPast_nonneg := le_rfl
      nPast_le := Int.le_trans (show (0 : ℤ) ≤ 8 by decide) hl.nCtx
      consumed_le := Nat.zero_le _
      phase := .inl rfl
      remain_nonneg := hl.nPredict
      zeros := rfl }

/-- The loop ends in as many iterations as the prompt has batches and tokens are to be predicted,
with the invariant. -/
theorem mainLoop_ends (hl : Limits ctx params embdInp) :
    ∃ last, mainLoop ctx params embdInp (maxRounds params embdInp + 1) = some last ∧
      RunInv ctx { params with nKeep := keep params embdInp } embdInp last := by
  obtain ⟨hl', hkeep⟩ := hl.keep
  exact chase_of_measure (fun h hst => iteration_spec hl' hkeep h hst) (runInv_start hl')
    (Nat.lt_succ_of_le (roundsLeft_le _))

/-- The loop ends within as many iterations as the prompt has batches and tokens are to be
predicted, every evaluation is of a batch that ends inside the context, and every swap inserts from
inside `last_n_tokens`. -/
theorem main_loop_safe (hl : Limits ctx params embdInp) :
    ∃ last, mainLoop ctx params embdInp (maxRounds params embdInp + 1) = some last ∧
      ∀ e ∈ last.log, Safe ctx params e := by
  obtain ⟨last, hlast, hinv⟩ := mainLoop_ends hl
  exact ⟨last, hlast, hinv.safe⟩

/-- A context of eight tokens in which 5 is sampled throughout. -/
def fives : Context where
  nCtx := 8
  eos := 2
  tokenize prompt := prompt.map (BitVec.setWidth 32)
  tokenToPiece id := [id.setWidth 8]
  evalFails _ _ _ := false
  sampleToken _ _ := 5

/-- One token of prompt and nine to predict take ten iterations. -/
theorem main_loop_safe_fives :
    ∃ last, mainLoop fives ⟨0, 8, 9, false⟩ [1] 11 = some last ∧
      ∀ e ∈ last.log, Safe fives ⟨0, 8, 9, false⟩ e :=
  main_loop_safe ⟨by decide, by decide, by decide, by decide⟩

/-- `exec_llama` returns, whatever the prompt. -/
theorem execLlama_returns (hctx : 8 ≤ ctx.nCtx) (hbatch : 1 ≤ params.nBatch)
    (hpredict : 0 ≤ params.nPredict) (prompt : Bytes) :
    (execLlama ctx params (maxRounds params (ctx.tokenize prompt) + 1) prompt).isSome := by
  rw [execLlama]
  by_cases hlong : (ctx.tokenize prompt).length > ctx.nCtx - 4
  · rw [if_pos hlong]
    rfl
  · obtain ⟨last, hlast, -⟩ := mainLoop_ends ⟨hctx, hbatch, hpredict, Int.not_lt.1 hlong⟩
    rw [if_neg hlong, hlast]
    rfl

end Llama

end TinyKvm
