import TicketBooking.RetryLoop
/-!
# RetryObservers — what the observers of a retry manager change

Two managers of one configuration, with observers of their own, run one function.  The callbacks are guarded and change
nothing.  The logger is not: `None`, which its type allows, is called at the first failure, and the call ends there.  So
the two agree exactly when both have a logger or neither, or when no invocation fails that may be retried
(`call_alike_iff`).
-/
namespace Ticket
namespace RetryManager

variable {ρ ε : Type}

/-- A returned value, or the kind of an exception. -/
inductive EndingKind (ρ ε : Type) where
  | returned (r : ρ)
  | raised (exc : ε)
  | retryError
  | typeError
  | valueError
  | loggerRaised
  deriving DecidableEq

def Ending.kind : Ending ρ ε → EndingKind ρ ε
  | .returned r => .returned r
  | .raised exc => .raised exc
  | .retryError _ _ => .retryError
  | .typeError => .typeError
  | .valueError => .valueError
  | .loggerRaised => .loggerRaised

/-- Two runs invoked the function as often and ended alike. -/
def RetryRun.Alike (r r' : RetryRun ρ ε) : Prop := r.invocations = r'.invocations ∧ r.ending.kind = r'.ending.kind

instance RetryRun.instDecidableAlike [DecidableEq ρ] [DecidableEq ε] (r r' : RetryRun ρ ε) : Decidable (r.Alike r') :=
  inferInstanceAs (Decidable (_ ∧ _))

instance instDecidablePasses (retryable : ε → Bool) : (o : FnOutcome ρ ε) → Decidable (Passes retryable o)
  | .returned _ => .isTrue trivial
  | .raised exc => inferInstanceAs (Decidable (retryable exc = false))

theorem invocations_after (es : List (RetryEvent ε)) (r : RetryRun ρ ε) :
    (r.after es).invocations = es.countP RetryEvent.isInvoked + r.invocations := List.countP_append

theorem countP_callBack (raises : Option Bool) {e : RetryEvent ε} (he : e.isInvoked = false) :
    (callBack raises e).countP RetryEvent.isInvoked = 0 := by
  rw [callBack_eq]
  split
  · simp [he]
  · rfl

theorem alike_after {r r' : RetryRun ρ ε} (h : r.Alike r') {es es' : List (RetryEvent ε)}
    (he : es.countP RetryEvent.isInvoked = es'.countP RetryEvent.isInvoked) : (r.after es).Alike (r'.after es') := by
  refine ⟨?_, h.2⟩
  rw [invocations_after, invocations_after, he, h.1]

section
variable {m : RetryManager} {obs obs' : Observers ε} {retryable : ε → Bool} {fn : ℕ → FnOutcome ρ ε} {draw : ℕ → Draw}

/-- Both have a logger that works, or neither has one. -/
def SameLogging (obs obs' : Observers ε) : Prop := (obs.Logs ∧ obs'.Logs) ∨ (obs.logger = none ∧ obs'.logger = none)

theorem sameLogging_iff (hs : obs.Sound) (hs' : obs'.Sound) :
    SameLogging obs obs' ↔ obs.logger.isSome = obs'.logger.isSome := by
  rcases hs.logs_or_none with ⟨f, hf, hnot⟩ | hn
  · rcases hs'.logs_or_none with ⟨f', hf', hnot'⟩ | hn'
    · exact iff_of_true (Or.inl ⟨⟨f, hf, hnot⟩, f', hf', hnot'⟩) (by rw [hf, hf']; rfl)
    · simp [SameLogging, Observers.Logs, hf, hn']
  · rcases hs'.logs_or_none with ⟨f', hf', hnot'⟩ | hn'
    · simp [SameLogging, Observers.Logs, hn, hf']
    · exact iff_of_true (Or.inr ⟨hn, hn'⟩) (by rw [hn, hn'])

theorem alike_log (h : SameLogging obs obs') (line : LogLine ε) {r r' : RetryRun ρ ε} (hr : r.Alike r') :
    (log obs line r).Alike (log obs' line r') := by
  rcases h with ⟨hl, hl'⟩ | ⟨hn, hn'⟩
  · rw [log_of_logs hl, log_of_logs hl']
    exact alike_after hr rfl
  · rw [log_of_none hn, log_of_none hn']
    exact ⟨rfl, rfl⟩

theorem alike_sleep (delay : ℚ) {r r' : RetryRun ρ ε} (hr : r.Alike r') : (sleep delay r).Alike (sleep delay r') := by
  unfold sleep
  split
  · exact ⟨rfl, rfl⟩
  · exact alike_after hr rfl

/-- **With the same logging, the callbacks change nothing.** -/
theorem loop_alike (h : SameLogging obs obs') : ∀ (left attempt : ℕ),
    (loop m obs retryable fn draw left attempt).Alike (loop m obs' retryable fn draw left attempt)
  | 0, _ => ⟨rfl, rfl⟩
  | left + 1, attempt => by
    cases ho : fn attempt with
    | returned r =>
      rw [loop_passes ho trivial, loop_passes ho trivial]
      exact ⟨rfl, rfl⟩
    | raised exc =>
      cases hr : retryable exc with
      | false =>
        rw [loop_passes ho hr, loop_passes ho hr]
        exact ⟨rfl, rfl⟩
      | true =>
        by_cases hlt : attempt + 1 < m.maxAttempts
        · rw [loop_fails ho hr hlt, loop_fails ho hr hlt]
          refine alike_after (alike_log h _ (alike_after (alike_sleep _ (loop_alike h left (attempt + 1))) ?_)) rfl
          rw [countP_callBack _ rfl, countP_callBack _ rfl]
        · rw [loop_last ho hr (not_lt.1 hlt), loop_last ho hr (not_lt.1 hlt)]
          refine alike_after (alike_log h _ ⟨rfl, rfl⟩) ?_
          rw [List.countP_cons, List.countP_cons, countP_callBack _ rfl, countP_callBack _ rfl]

theorem one_le_invocations (m : RetryManager) (obs : Observers ε) (retryable : ε → Bool) (fn : ℕ → FnOutcome ρ ε)
    (draw : ℕ → Draw) (left attempt : ℕ) : 1 ≤ (loop m obs retryable fn draw (left + 1) attempt).invocations := by
  have hone : ∀ (es : List (RetryEvent ε)) (r : RetryRun ρ ε), 1 ≤ (r.after (.invoked :: es)).invocations := by
    intro es r
    rw [invocations_after, List.countP_cons_of_pos rfl]
    omega
  cases ho : fn attempt with
  | returned r => rw [loop_passes ho trivial]; exact le_rfl
  | raised exc =>
    cases hr : retryable exc with
    | false => rw [loop_passes ho hr]; exact le_rfl
    | true =>
      by_cases hlt : attempt + 1 < m.maxAttempts
      · rw [loop_fails ho hr hlt]; exact hone _ _
      · rw [loop_last ho hr (not_lt.1 hlt)]; exact hone _ _

/-- **Without a logger the first failure that may be retried ends the call.** -/
theorem loop_noLogger (m : RetryManager) (draw : ℕ → Draw) (hn : obs.logger = none) {exc : ε}
    (ho : fn 0 = .raised exc) (hr : retryable exc = true) (left : ℕ) :
    (loop m obs retryable fn draw (left + 1) 0).invocations = 1 ∧
      (loop m obs retryable fn draw (left + 1) 0).ending = .typeError := by
  by_cases hlt : 0 + 1 < m.maxAttempts
  · simp only [loop_fails ho hr hlt, log_of_none hn]
    exact ⟨rfl, rfl⟩
  · rw [loop_last ho hr (not_lt.1 hlt), log_of_none hn, invocations_after, List.countP_cons_of_pos rfl,
      countP_callBack _ rfl]
    exact ⟨rfl, rfl⟩

/-- With one, the call goes on, or ends in another way. -/
theorem loop_logger (draw : ℕ → Draw) (hl : obs.Logs) {exc : ε} (ho : fn 0 = .raised exc) (hr : retryable exc = true)
    {left : ℕ} (hleft : m.maxAttempts = left + 1) : 2 ≤ (loop m obs retryable fn draw (left + 1) 0).invocations ∨
      (loop m obs retryable fn draw (left + 1) 0).ending.kind ≠ .typeError := by
  by_cases hlt : 0 + 1 < m.maxAttempts
  · by_cases hd : m.computeDelay (0 + 1) (draw (0 + 1)).1 < 0
    · refine Or.inr ?_
      simp only [loop_fails ho hr hlt, log_of_logs hl, sleep, if_pos hd, RetryRun.after, Ending.kind]
      simp
    · refine Or.inl ?_
      obtain ⟨l, rfl⟩ : ∃ l, left = l + 1 := ⟨left - 1, by omega⟩
      have hnext := one_le_invocations m obs retryable fn draw l (0 + 1)
      rw [loop_failedTurn ho hr hlt hl (not_lt.1 hd), invocations_after, countP_failedTurn]
      omega
  · refine Or.inr ?_
    rw [loop_lastTurn ho hr (not_lt.1 hlt) hl]
    simp [Ending.kind]

theorem not_alike (hn : obs.logger = none) (hl : obs'.Logs) {exc : ε} (ho : fn 0 = .raised exc)
    (hr : retryable exc = true) {left : ℕ} (hleft : m.maxAttempts = left + 1) :
    ¬ (loop m obs retryable fn draw (left + 1) 0).Alike (loop m obs' retryable fn draw (left + 1) 0) := by
  rintro ⟨hcount, hkind⟩
  obtain ⟨hone, htype⟩ := loop_noLogger m draw hn ho hr left
  rw [hone] at hcount
  rw [htype] at hkind
  rcases loop_logger draw hl ho hr hleft with h | h
  · omega
  · exact h hkind.symm

end

/-- **Observers do not influence a call exactly when they log alike or no retry is at stake**: of two managers that
differ in their observers alone, one may be without a logger when the other is not only if the first outcome is returned
or is no retryable exception. -/
theorem call_alike_iff (maxAttempts : ℤ) (baseDelay backoffFactor maxDelay : ℚ) (jitter : Bool) (obs obs' : Observers ε)
    (hs : obs.Sound) (hs' : obs'.Sound) (retryable : ε → Bool) (fn : ℕ → FnOutcome ρ ε) (draw : ℕ → Draw) :
    (call (new maxAttempts baseDelay backoffFactor maxDelay jitter) obs retryable fn draw).Alike
        (call (new maxAttempts baseDelay backoffFactor maxDelay jitter) obs' retryable fn draw) ↔
      (obs.logger.isSome = obs'.logger.isSome ∨ Passes retryable (fn 0)) := by
  generalize hm : new maxAttempts baseDelay backoffFactor maxDelay jitter = m
  obtain ⟨left, hleft⟩ : ∃ left, m.maxAttempts = left + 1 := by
    refine ⟨m.maxAttempts - 1, ?_⟩
    rw [← hm, new]
    dsimp only
    omega
  unfold call
  rw [hleft]
  constructor
  · intro h
    by_contra hnot
    rw [not_or, ← sameLogging_iff hs hs'] at hnot
    obtain ⟨hdiff, hfail⟩ := hnot
    obtain ⟨exc, ho, hr⟩ := raised_of_not_passes hfail
    rcases hs.logs_or_none with hl | hn
    · rcases hs'.logs_or_none with hl' | hn'
      · exact hdiff (Or.inl ⟨hl, hl'⟩)
      · exact not_alike hn' hl ho hr hleft ⟨h.1.symm, h.2.symm⟩
    · rcases hs'.logs_or_none with hl' | hn'
      · exact not_alike hn hl' ho hr hleft h
      · exact hdiff (Or.inr ⟨hn, hn'⟩)
  · rintro (hsame | hpass)
    · exact loop_alike ((sameLogging_iff hs hs').2 hsame) _ _
    · rw [loop_passes rfl hpass, loop_passes rfl hpass]
      exact ⟨rfl, rfl⟩

/-- Observers of which there are none. -/
def Observers.silent : Observers ε := ⟨none, none, none⟩

/-- A manager without a logger does not retry what its double retries. -/
theorem call_noLogger : ¬ (call (new 3 1 2 10 false) Observers.silent (fun _ => true)
      (fun k => if k = 0 then .raised "down" else .returned 7) (fun _ => Draw.half) : RetryRun ℕ String).Alike
    (call (new 3 1 2 10 false) Observers.raising (fun _ => true)
      (fun k => if k = 0 then .raised "down" else .returned 7) (fun _ => Draw.half)) := by
  decide +kernel

/-- Where the first attempt returns they do not differ. -/
theorem call_alike_iff_quiet : (call (new 3 1 2 10 false) Observers.silent (fun _ => true)
      (fun _ => .returned 7) (fun _ => Draw.half) : RetryRun ℕ String).Alike
    (call (new 3 1 2 10 false) Observers.raising (fun _ => true) (fun _ => .returned 7) (fun _ => Draw.half)) :=
  (call_alike_iff 3 1 2 10 false Observers.silent Observers.raising (fun _ h => by cases h)
    (fun f h _ => by cases h; rfl) (fun _ => true) (fun _ => .returned 7) (fun _ => Draw.half)).2 (Or.inr trivial)

end RetryManager
end Ticket
