import TinyKvm.Interleaving

/-!
# Requests that call a machine

Clients make requests, and each request makes at most one call of a machine that
all of them share. A request is started, makes its call, and sends its answer, and
other requests may do the same in between; the machine may also do something by
itself. The client sees when its request was invoked and how it was responded to.

What the clients see is what they would see if the calls were made one after
another, each at some moment between the invocation of its request and the
response to it (`Linearizes`). Every interleaving has such an order
(`linearizes_run`). So the call of a request that was responded to comes before
that of any request that is invoked later (`earlier_of_not_invoked`), and a machine
that answers the same calls in the same way may be put in place of the one that
is there (`Linearizes.of_answer_eq`).
-/

namespace TinyKvm

/-- What a request does : it is answered at once, or by a call of the machine and what comes of
it, in surroundings `E` that are found then. -/
inductive Service.Request (E ι ο A : Type*) where
  | direct (a : A)
  | call (i : E → ι) (reply : E → ο → A)

/-- A machine, the requests that call it, and what it does by itself. -/
structure Service (Q B E σ ι ο A : Type*) where
  machine : Machine σ ι ο
  request : Q → Service.Request E ι ο A
  background : B → ι

namespace Service

variable {κ Q B E σ ι ο A : Type*}

/-- A request on its way. -/
inductive Client (Q A : Type*) where
  | idle
  | started (q : Q)
  | answered (q : Q) (a : A)
  | done

/-- What the client of a request sees. -/
inductive Event (Q A : Type*) where
  | invoked (q : Q)
  | responded (a : A)

/-- What may happen next to a request, or to the machine. -/
inductive Move (Q B E : Type*) where
  | invoke (q : Q)
  | call (e : E)
  | respond
  | background (b : B)

variable (S : Service Q B E σ ι ο A)

/-- A step of a request. -/
def step (l : Client Q A) (s : σ) (m : Move Q B E) : Option (Client Q A × σ × List (Event Q A)) :=
  match m, l with
  | .invoke q, .idle => some (.started q, s, [.invoked q])
  | .call e, .started q =>
    match S.request q with
    | .direct a => some (.answered q a, s, [])
    | .call i reply =>
      let (s, o) := S.machine.step s (i e)
      some (.answered q (reply e o), s, [])
  | .respond, .answered _ a => some (.done, s, [.responded a])
  | .background b, l => some (l, (S.machine.step s (S.background b)).1, [])
  | _, _ => none

/-- The requests as interleaved processes. -/
def processes : Processes (Client Q A) σ (Move Q B E) (Event Q A) where
  start := .idle
  shared := S.machine.init
  step := S.step

/-- What a step does. -/
inductive Took : Client Q A → σ → Client Q A → σ → List (Event Q A) → Prop
  | invoke (q : Q) (s : σ) : Took .idle s (.started q) s [.invoked q]
  | direct {q : Q} {a : A} (h : S.request q = .direct a) (s : σ) :
      Took (.started q) s (.answered q a) s []
  | call {q : Q} {i : E → ι} {reply : E → ο → A} (h : S.request q = .call i reply) (e : E) (s : σ) :
      Took (.started q) s (.answered q (reply e (S.machine.step s (i e)).2))
        (S.machine.step s (i e)).1 []
  | respond (q : Q) (a : A) (s : σ) : Took (.answered q a) s .done s [.responded a]
  | background (b : B) (l : Client Q A) (s : σ) :
      Took l s l (S.machine.step s (S.background b)).1 []

theorem took_of_step {l l' : Client Q A} {s s' : σ} {m : Move Q B E} {os : List (Event Q A)}
    (h : S.step l s m = some (l', s', os)) : S.Took l s l' s' os := by
  cases m with
  | background b =>
    cases h
    exact .background b l s
  | invoke q =>
    cases l <;> cases h
    exact .invoke q s
  | respond =>
    cases l <;> cases h
    exact .respond _ _ s
  | call e =>
    cases l with
    | started q =>
      cases hq : S.request q with
      | direct a =>
        simp only [step, hq] at h
        cases h
        exact .direct hq s
      | call i reply =>
        simp only [step, hq] at h
        cases h
        exact .call hq e s
    | idle => cases h
    | answered q a => cases h
    | done => cases h

/-! ## Orders of the calls -/

/-- The request of client `k` was invoked. -/
def Invoked (es : List (κ × Event Q A)) (k : κ) : Prop :=
  ∃ q, (k, .invoked q) ∈ es

/-- The request `q` of client `k` is answered by its call among the calls `lin`. Every call before
it is of a request invoked in `es`. -/
inductive Answers (es : List (κ × Event Q A)) (lin : List (Option κ × ι)) (k : κ) (q : Q) (a : A) :
    Prop
  | direct (h : S.request q = .direct a)
  | call {i : E → ι} {reply : E → ο → A} (e : E) {pre post : List (Option κ × ι)}
      (h : S.request q = .call i reply) (hlin : lin = pre ++ (some k, i e) :: post)
      (ha : a = reply e (S.machine.answer (pre.map Prod.snd) (i e)))
      (hpre : ∀ k' i', (some k', i') ∈ pre → Invoked es k')

/-- What the clients see agrees with an order of the calls. A client invokes one request. The calls
are those of invoked requests, each made once, or what the machine does by itself. Every response is
the answer of a call before which no call was made of a request invoked after the response. -/
structure Linearizes (es : List (κ × Event Q A)) (lin : List (Option κ × ι)) : Prop where
  once : ∀ k q q', (k, .invoked q) ∈ es → (k, .invoked q') ∈ es → q = q'
  invoked : ∀ k i, (some k, i) ∈ lin →
    ∃ q i' reply e, (k, .invoked q) ∈ es ∧ S.request q = .call i' reply ∧ i = i' e
  background : ∀ i, (none, i) ∈ lin → ∃ b, i = S.background b
  nodup : (lin.filterMap Prod.fst).Nodup
  answered : ∀ before k a rest, es = before ++ (k, .responded a) :: rest →
    ∃ q, (k, .invoked q) ∈ before ∧ S.Answers before lin k q a

variable {S} {es : List (κ × Event Q A)} {lin : List (Option κ × ι)}

theorem Invoked.append {k : κ} (h : Invoked es k) (es' : List (κ × Event Q A)) :
    Invoked (es ++ es') k := by
  obtain ⟨q, hq⟩ := h
  exact ⟨q, List.mem_append_left _ hq⟩

/-- An answer stays one. -/
theorem Answers.append {es' : List (κ × Event Q A)} {k : κ} {q : Q} {a : A}
    (h : S.Answers es lin k q a) (hes : ∀ k', Invoked es k' → Invoked es' k')
    (lin' : List (Option κ × ι)) : S.Answers es' (lin ++ lin') k q a := by
  cases h with
  | direct h => exact .direct h
  | @call i reply e pre post h hlin ha hpre =>
    have hlin' : lin ++ lin' = pre ++ (some k, i e) :: (post ++ lin') := by
      rw [hlin, List.append_assoc, List.cons_append]
    exact .call e h hlin' ha fun k' i' hk' => hes k' (hpre k' i' hk')

/-- One more event : a first invocation, or a response that is an answer. -/
theorem Linearizes.append_event (h : S.Linearizes es lin) {k : κ} {o : Event Q A}
    (hinvoked : ∀ q, o = .invoked q → ¬Invoked es k)
    (ho : ∀ a, o = .responded a → ∃ q, (k, .invoked q) ∈ es ∧ S.Answers es lin k q a) :
    S.Linearizes (es ++ [(k, o)]) lin := by
  refine ⟨fun k' q q' hq hq' => ?_, fun k' i hk' => ?_, h.background, h.nodup,
    fun before k' a rest hes => ?_⟩
  · rcases List.mem_append.1 hq with hold | hnew <;>
      rcases List.mem_append.1 hq' with hold' | hnew'
    · exact h.once k' q q' hold hold'
    · obtain ⟨rfl, ho'⟩ := Prod.mk.inj (List.mem_singleton.1 hnew')
      exact absurd ⟨q, hold⟩ (hinvoked q' ho'.symm)
    · obtain ⟨rfl, ho'⟩ := Prod.mk.inj (List.mem_singleton.1 hnew)
      exact absurd ⟨q', hold'⟩ (hinvoked q ho'.symm)
    · have heq := (List.mem_singleton.1 hnew).trans (List.mem_singleton.1 hnew').symm
      exact Event.invoked.inj (Prod.mk.inj heq).2
  · obtain ⟨q, i', reply, e, hmem, hq, hi⟩ := h.invoked k' i hk'
    exact ⟨q, i', reply, e, List.mem_append_left _ hmem, hq, hi⟩
  · rcases List.eq_nil_or_concat' rest with rfl | ⟨rest, x, rfl⟩
    · obtain ⟨rfl, hx⟩ := List.append_inj' hes rfl
      obtain ⟨rfl, ho'⟩ := Prod.mk.inj (List.cons.inj hx).1
      exact ho a ho'
    · rw [← List.cons_append, ← List.append_assoc] at hes
      exact h.answered before k' a rest (List.append_inj' hes rfl).1

/-- One more call, of an invoked request that has made none or by the machine itself. -/
theorem Linearizes.append_call (h : S.Linearizes es lin) {x : Option κ × ι}
    (hinvoked : ∀ k, x.1 = some k → ∃ q i reply e, (k, .invoked q) ∈ es ∧
      S.request q = .call i reply ∧ x.2 = i e)
    (hbackground : x.1 = none → ∃ b, x.2 = S.background b)
    (hnew : ∀ k, x.1 = some k → ∀ i, (some k, i) ∉ lin) : S.Linearizes es (lin ++ [x]) := by
  refine ⟨h.once, fun k i hk => ?_, fun i hi => ?_, ?_, fun before k a rest hes => ?_⟩
  · rcases List.mem_append.1 hk with hk | hk
    · exact h.invoked k i hk
    · obtain rfl := List.mem_singleton.1 hk
      exact hinvoked k rfl
  · rcases List.mem_append.1 hi with hi | hi
    · exact h.background i hi
    · obtain rfl := List.mem_singleton.1 hi
      exact hbackground rfl
  · rw [List.filterMap_append]
    have hone : ([x].filterMap Prod.fst).Nodup := by
      obtain ⟨- | k, i⟩ := x
      · exact List.nodup_nil
      · exact List.nodup_singleton k
    refine h.nodup.append hone (List.disjoint_left.2 fun k hk hx => ?_)
    obtain ⟨⟨_, i⟩, hmem, rfl⟩ := List.mem_filterMap.1 hk
    obtain ⟨y, hy, hyk⟩ := List.mem_filterMap.1 hx
    rw [List.mem_singleton.1 hy] at hyk
    exact hnew k hyk i hmem
  · obtain ⟨q, hq, ha⟩ := h.answered before k a rest hes
    exact ⟨q, hq, ha.append (fun _ => id) [x]⟩

/-! ## Runs -/

/-- What is known of a request : before its call none was made, and after it the answer is one. -/
def Known (S : Service Q B E σ ι ο A) (es : List (κ × Event Q A)) (lin : List (Option κ × ι))
    (k : κ) : Client Q A → Prop
  | .idle => ¬Invoked es k ∧ ∀ i, (some k, i) ∉ lin
  | .started q => (k, .invoked q) ∈ es ∧ ∀ i, (some k, i) ∉ lin
  | .answered q a => (k, .invoked q) ∈ es ∧ S.Answers es lin k q a
  | .done => True

/-- A step of another request, or of the machine. -/
theorem Known.append {k : κ} {l : Client Q A} (h : S.Known es lin k l)
    {es' : List (κ × Event Q A)} {lin' : List (Option κ × ι)} (hes : ∀ o, (k, o) ∉ es')
    (hnew : ∀ i, (some k, i) ∉ lin') : S.Known (es ++ es') (lin ++ lin') k l := by
  have hnone : (∀ i, (some k, i) ∉ lin) → ∀ i, (some k, i) ∉ lin ++ lin' := by
    intro hk i hmem
    rcases List.mem_append.1 hmem with hmem | hmem
    · exact hk i hmem
    · exact hnew i hmem
  cases l with
  | idle =>
    refine ⟨fun ⟨q, hq⟩ => ?_, hnone h.2⟩
    rcases List.mem_append.1 hq with hq | hq
    · exact h.1 ⟨q, hq⟩
    · exact hes _ hq
  | started q => exact ⟨List.mem_append_left _ h.1, hnone h.2⟩
  | answered q a =>
    exact ⟨List.mem_append_left _ h.1, h.2.append (fun _ hk => hk.append es') lin'⟩
  | done => trivial

/-- What the calls `lin` have made of the machine and the requests. -/
structure Done (S : Service Q B E σ ι ο A) (c : Processes.Config κ (Client Q A) σ)
    (es : List (κ × Event Q A)) (lin : List (Option κ × ι)) : Prop where
  linearizes : S.Linearizes es lin
  shared : c.shared = S.machine.after (lin.map Prod.snd)
  known : ∀ k, S.Known es lin k (c.locals k)

variable [DecidableEq κ] {c : Processes.Config κ (Client Q A) σ}

theorem Done.set (h : S.Done c es lin) {k : κ} {l : Client Q A} {s : σ} {os : List (Event Q A)}
    {lin' : List (Option κ × ι)}
    (hlin : S.Linearizes (es ++ os.map (Prod.mk k)) (lin ++ lin'))
    (hs : s = S.machine.after ((lin ++ lin').map Prod.snd))
    (hl : S.Known (es ++ os.map (Prod.mk k)) (lin ++ lin') k l)
    (hother : ∀ k' i, (some k', i) ∈ lin' → k' = k) :
    S.Done (c.set k l s) (es ++ os.map (Prod.mk k)) (lin ++ lin') := by
  refine ⟨hlin, hs, fun k' => ?_⟩
  by_cases hk : k' = k
  · subst hk
    rw [Processes.Config.set_locals_self]
    exact hl
  · rw [Processes.Config.set_locals_of_ne c hk]
    refine (h.known k').append (fun o ho => ?_) fun i hi => hk (hother k' i hi)
    obtain ⟨_, _, heq⟩ := List.mem_map.1 ho
    exact hk (Prod.mk.inj heq).1.symm

theorem Done.set_of_eq (h : S.Done c es lin) {k : κ} {l : Client Q A} {os : List (Event Q A)}
    (hlin : S.Linearizes (es ++ os.map (Prod.mk k)) lin)
    (hl : S.Known (es ++ os.map (Prod.mk k)) lin k l) :
    S.Done (c.set k l c.shared) (es ++ os.map (Prod.mk k)) lin := by
  rw [← List.append_nil lin] at hlin hl ⊢
  exact h.set hlin (by rw [List.append_nil, h.shared]) hl fun _ _ => nofun

/-- A step adds at most one call to the order. -/
theorem Done.step (h : S.Done c es lin) {k : κ} {l₀ l : Client Q A} {s₀ s : σ}
    {os : List (Event Q A)} (ht : S.Took l₀ s₀ l s os) (hl : c.locals k = l₀)
    (hs : c.shared = s₀) :
    ∃ lin', S.Done (c.set k l s) (es ++ os.map (Prod.mk k)) lin' := by
  have hknown := h.known k
  rw [hl] at hknown
  subst hs
  cases ht with
  | invoke q =>
    have hlin := h.linearizes.append_event (o := .invoked q) (fun _ _ => hknown.1) fun _ => nofun
    exact ⟨lin, h.set_of_eq hlin ⟨List.mem_append_right _ List.mem_cons_self, hknown.2⟩⟩
  | @direct q a hq =>
    refine ⟨lin, h.set_of_eq ?_ ⟨List.mem_append_left _ hknown.1, .direct hq⟩⟩
    rw [List.map_nil, List.append_nil]
    exact h.linearizes
  | respond q a =>
    refine ⟨lin, h.set_of_eq (h.linearizes.append_event (fun _ => nofun) fun a' ha' => ?_) trivial⟩
    cases ha'
    exact ⟨q, hknown⟩
  | background b =>
    have hlin : S.Linearizes es (lin ++ [(none, S.background b)]) :=
      h.linearizes.append_call (fun _ => nofun) (fun _ => ⟨b, rfl⟩) fun _ => nofun
    refine ⟨lin ++ [(none, S.background b)], h.set ?_ ?_ ?_ fun k' i hi => ?_⟩
    · rw [List.map_nil, List.append_nil]
      exact hlin
    · rw [List.map_append, List.map_singleton, Machine.after_snoc, h.shared]
    · exact hknown.append (fun _ => nofun) fun i hi => nomatch List.mem_singleton.1 hi
    · cases List.mem_singleton.1 hi
  | @call q i reply hq e =>
    obtain ⟨hmem, hnew⟩ := hknown
    have hlin : S.Linearizes es (lin ++ [(some k, i e)]) := by
      refine h.linearizes.append_call (fun k' hk' => ?_) nofun fun k' hk' => ?_
      · obtain rfl := Option.some.inj hk'
        exact ⟨q, i, reply, e, hmem, hq, rfl⟩
      · obtain rfl := Option.some.inj hk'
        exact hnew
    have hanswers : S.Answers es (lin ++ [(some k, i e)]) k q
        (reply e (S.machine.step c.shared (i e)).2) := by
      refine .call e hq rfl (by rw [h.shared, Machine.answer]) fun k' i' hk' => ?_
      obtain ⟨q', -, -, -, hq', -⟩ := h.linearizes.invoked k' i' hk'
      exact ⟨q', hq'⟩
    refine ⟨lin ++ [(some k, i e)], h.set ?_ ?_ ?_ fun k' i' hi => ?_⟩
    · rw [List.map_nil, List.append_nil]
      exact hlin
    · rw [List.map_append, List.map_singleton, Machine.after_snoc, h.shared]
    · rw [List.map_nil, List.append_nil]
      exact ⟨hmem, hanswers⟩
    · exact Option.some.inj (Prod.mk.inj (List.mem_singleton.1 hi)).1

/-- Every interleaving has an order of the calls that agrees with what the clients see, and leads
the machine to where it is. -/
theorem linearizes_run (h : S.processes.Run c es) :
    ∃ lin, S.Linearizes es lin ∧ c.shared = S.machine.after (lin.map Prod.snd) := by
  have hdone : ∃ lin, S.Done c es lin := by
    induction h with
    | init =>
      refine ⟨[], ⟨⟨fun _ _ _ => nofun, fun _ _ => nofun, fun _ => nofun, List.nodup_nil, ?_⟩, rfl,
        fun _ => ⟨(fun ⟨_, hq⟩ => nomatch hq), fun _ => nofun⟩⟩⟩
      intro before k a rest hes
      cases before <;> cases hes
    | step _ k e hs ih =>
      obtain ⟨lin, hlin⟩ := ih
      exact hlin.step (took_of_step S hs) rfl rfl
  obtain ⟨lin, hlin⟩ := hdone
  exact ⟨lin, hlin.linearizes, hlin.shared⟩

theorem run_step (h : S.processes.Run c es) {k : κ} {l l' : Client Q A} {s : σ} {m : Move Q B E}
    {os : List (Event Q A)} (hk : c.locals k = l) (hs : S.step l c.shared m = some (l', s, os)) :
    S.processes.Run (c.set k l' s) (es ++ os.map (Prod.mk k)) := by
  subst hk
  exact h.step k m hs

/-- A request that nothing comes in between. -/
theorem run_serve (h : S.processes.Run c es) {k : κ} (hk : c.locals k = .idle) {q : Q} {i : E → ι}
    {reply : E → ο → A} (hq : S.request q = .call i reply) (e : E) :
    ∃ c', S.processes.Run c' (es ++ [(k, .invoked q),
        (k, .responded (reply e (S.machine.step c.shared (i e)).2))]) ∧
      c'.shared = (S.machine.step c.shared (i e)).1 ∧
      ∀ k', k' ≠ k → c'.locals k' = c.locals k' := by
  have hcall : S.step (.started q) c.shared (.call e) =
      some (.answered q (reply e (S.machine.step c.shared (i e)).2),
        (S.machine.step c.shared (i e)).1, []) := by
    simp only [step, hq]
  have hstarted := run_step h hk (m := .invoke q) rfl
  have hanswered := run_step hstarted (Processes.Config.set_locals_self ..) hcall
  have hdone := run_step hanswered (Processes.Config.set_locals_self ..) (m := .respond) rfl
  rw [List.map_nil, List.append_nil, List.append_assoc] at hdone
  refine ⟨_, hdone, rfl, fun k' hk' => ?_⟩
  simp only [Processes.Config.set_locals_of_ne _ hk']

/-! ## The order and what is seen -/

omit [DecidableEq κ]

/-- The call of a request that was responded to, in the order of the calls. -/
theorem Linearizes.answered_call (h : S.Linearizes es lin) {before rest : List (κ × Event Q A)}
    {k : κ} {q : Q} {a : A} (hes : es = before ++ (k, .responded a) :: rest)
    (hq : (k, .invoked q) ∈ es) {i : E → ι} {reply : E → ο → A}
    (hcall : S.request q = .call i reply) :
    ∃ pre e post, lin = pre ++ (some k, i e) :: post ∧
      a = reply e (S.machine.answer (pre.map Prod.snd) (i e)) ∧ Invoked before k ∧
      ∀ k' i', (some k', i') ∈ pre → Invoked before k' := by
  obtain ⟨q', hq', ha⟩ := h.answered before k a rest hes
  obtain rfl := h.once k q q' hq (by rw [hes]; exact List.mem_append_left _ hq')
  cases ha with
  | direct hdirect => exact nomatch hcall.symm.trans hdirect
  | call e hcall' hlin ha hpre =>
    obtain ⟨rfl, rfl⟩ := Request.call.inj (hcall.symm.trans hcall')
    exact ⟨_, e, _, hlin, ha, ⟨q, hq'⟩, hpre⟩

/-- Of two calls in an order, one comes before the other. -/
theorem total_of_append {pre pre' post post' : List (Option κ × ι)} {x y : Option κ × ι}
    (h : pre ++ x :: post = pre' ++ y :: post') :
    pre ++ [x] <+: pre' ∨ pre' ++ [y] <+: pre ∨ pre = pre' ∧ x = y := by
  rcases List.append_eq_append_iff.1 h with ⟨mid, rfl, hmid⟩ | ⟨mid, rfl, hmid⟩
  · cases mid with
    | nil => exact .inr (.inr ⟨(List.append_nil pre).symm, (List.cons.inj hmid).1⟩)
    | cons z mid =>
      obtain ⟨rfl, -⟩ := List.cons.inj hmid
      exact .inl ⟨mid, by simp⟩
  · cases mid with
    | nil => exact .inr (.inr ⟨List.append_nil pre', (List.cons.inj hmid).1.symm⟩)
    | cons z mid =>
      obtain ⟨rfl, -⟩ := List.cons.inj hmid
      exact .inr (.inl ⟨mid, by simp⟩)

/-- The call of a request that is not invoked yet comes after those before which no call was made
of a request that is not. -/
theorem earlier_of_not_invoked {before : List (κ × Event Q A)} {k k' : κ} {i i' : ι}
    {pre pre' post post' : List (Option κ × ι)} (hlin : lin = pre ++ (some k, i) :: post)
    (hlin' : lin = pre' ++ (some k', i') :: post')
    (hpre : ∀ k' i', (some k', i') ∈ pre → Invoked before k') (hk : Invoked before k)
    (hk' : ¬Invoked before k') : pre ++ [(some k, i)] <+: pre' := by
  rcases total_of_append (hlin.symm.trans hlin') with h | h | ⟨-, h⟩
  · exact h
  · exact absurd (hpre k' i' (h.subset (List.mem_append_right _ List.mem_cons_self))) hk'
  · obtain rfl := Option.some.inj (Prod.mk.inj h).1
    exact absurd hk hk'

/-- A service with a machine that answers the calls in the same way. -/
theorem Linearizes.of_answer_eq (h : S.Linearizes es lin) {σ' : Type*} (M : Machine σ' ι ο)
    (hanswer : ∀ pre i, pre ++ [i] <+: lin.map Prod.snd →
      M.answer pre i = S.machine.answer pre i) :
    Linearizes ⟨M, S.request, S.background⟩ es lin := by
  refine ⟨h.once, h.invoked, h.background, h.nodup, fun before k a rest hes => ?_⟩
  obtain ⟨q, hq, ha⟩ := h.answered before k a rest hes
  refine ⟨q, hq, ?_⟩
  cases ha with
  | direct hdirect => exact .direct hdirect
  | @call i reply e pre post hq' hlin ha hpre =>
    refine .call e hq' hlin (ha.trans (congrArg _ (hanswer _ _ ?_).symm)) hpre
    exact ⟨post.map Prod.snd, by simp [hlin]⟩

end Service

end TinyKvm
