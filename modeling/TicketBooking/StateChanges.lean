import TicketBooking.BreakerAutomaton
/-!
# StateChanges — what the breaker says of its state

Every call of `on_state_change` comes from `_transition`, which says what the state was and what it becomes.  So the
notifications always chain from `CLOSED` to the current state (`moved_run`), at whatever times the calls are made.  They
are changes only as long as no failure opens the circuit when it is open already: the state machine does that at the
consecutive threshold, and the rate rule after the state machine has opened it (`told_iff`).
-/
namespace Ticket

open Runs

/-- A call of the breaker with the readings it takes, in the order it takes them. -/
structure TimedBreakerCall where
  call : BreakerCall
  now : ℕ → ℚ

namespace StateChanges

/-- The notifications `l` lead from one state to another: each starts where the one before ended. -/
def Leads : CircuitState → List (CircuitState × CircuitState) → CircuitState → Prop
  | s, [], t => t = s
  | s, n :: l, t => n.1 = s ∧ Leads n.2 l t

theorem leads_append {t u : CircuitState} : ∀ {l l' : List (CircuitState × CircuitState)} {s : CircuitState},
    Leads s l t → Leads t l' u → Leads s (l ++ l') u
  | [], _, _, h, h' => by
    obtain rfl := h
    exact h'
  | _ :: _, _, _, h, h' => ⟨h.1, leads_append h.2 h'⟩

/-- Every notification is a change. -/
def Genuine (l : List (CircuitState × CircuitState)) : Prop := ∀ n ∈ l, n.1 ≠ n.2

instance (l : List (CircuitState × CircuitState)) : Decidable (Genuine l) := inferInstanceAs (Decidable (∀ n ∈ l, _))

theorem genuine_append {l l' : List (CircuitState × CircuitState)} : Genuine (l ++ l') ↔ Genuine l ∧ Genuine l' := by
  unfold Genuine
  rw [List.forall_mem_append]

theorem genuine_singleton {s t : CircuitState} : Genuine [(s, t)] ↔ s ≠ t := List.forall_mem_singleton

theorem genuine_nil : Genuine [] := List.forall_mem_nil _

end StateChanges

namespace CircuitBreaker

open StateChanges

/-- The machine gets from one state to another with the notifications `l`. -/
structure Moved (cb cb' : CircuitBreaker) (l : List (CircuitState × CircuitState)) : Prop where
  notified : cb'.notified = cb.notified ++ l
  leads : Leads cb.state l cb'.state

theorem Moved.trans {a b c : CircuitBreaker} {l l' : List (CircuitState × CircuitState)} (h : Moved a b l)
    (h' : Moved b c l') : Moved a c (l ++ l') :=
  ⟨by rw [h'.notified, h.notified, List.append_assoc], leads_append h.leads h'.leads⟩

theorem moved_of_eq {cb cb' : CircuitBreaker} (hn : cb'.notified = cb.notified) (hs : cb'.state = cb.state) :
    Moved cb cb' [] := ⟨by rw [hn, List.append_nil], hs⟩

theorem moved_transition (cb : CircuitBreaker) (s : CircuitState) (now : ℚ) :
    Moved cb (cb.transition s now) [(cb.state, s)] := by
  cases s <;> exact ⟨rfl, rfl, rfl⟩

/-! ## What each call says -/

theorem moved_readState (cb : CircuitBreaker) (now : ℚ) : Moved cb (cb.readState now).2
    (if cb.state = .opened ∧ cb.recovered now = true then [(.opened, .halfOpen)] else []) := by
  rw [readState_snd]
  split
  · rename_i h
    rw [← h.1]
    exact moved_transition cb .halfOpen now
  · exact moved_of_eq rfl rfl

theorem moved_recordSuccess (cb : CircuitBreaker) (now : ℚ) : Moved cb (cb.recordSuccess now)
    (if cb.state = .halfOpen ∧ cb.halfOpenSuccesses ≤ (cb.halfOpenSuccessCount + 1 : ℕ)
      then [(.halfOpen, .closed)] else []) := by
  by_cases hs : cb.state = .halfOpen
  · have hcounted : Moved cb { cb with halfOpenSuccessCount := cb.halfOpenSuccessCount + 1 } [] := moved_of_eq rfl rfl
    unfold recordSuccess
    rw [if_pos hs]
    dsimp only
    split
    · rename_i hle
      rw [if_pos ⟨hs, hle⟩, ← hs]
      exact hcounted.trans (moved_transition _ .closed now)
    · rename_i hle
      rw [if_neg fun h => hle h.2]
      exact hcounted
  · rw [recordSuccess_of_ne hs, if_neg fun h => hs h.1]
    exact moved_of_eq rfl rfl

theorem moved_recordFailure (cb : CircuitBreaker) (now later : ℚ) : Moved cb (cb.recordFailure now later)
    (if cb.state = .halfOpen ∨ cb.failureThreshold ≤ (cb.failureCount + 1 : ℕ)
      then [(cb.state, .opened)] else []) := by
  by_cases hs : cb.state = .halfOpen
  · rw [if_pos (Or.inl hs)]
    unfold recordFailure
    rw [if_pos hs]
    exact ⟨rfl, rfl, rfl⟩
  · have hcounted : Moved cb { cb with failureCount := cb.failureCount + 1, lastFailureTime := now } [] :=
      moved_of_eq rfl rfl
    rw [recordFailure_of_ne hs]
    by_cases hle : cb.failureThreshold ≤ (cb.failureCount + 1 : ℕ)
    · rw [if_pos hle, if_pos (Or.inr hle)]
      exact hcounted.trans (moved_transition _ .opened later)
    · rw [if_neg hle, if_neg fun h => h.elim hs hle]
      exact hcounted

end CircuitBreaker

namespace StateChanges

open CircuitBreaker

def step (b : Breaker) (e : TimedBreakerCall) : Unit × Breaker :=
  ((), match e.call with
    | .getState => (b.getState (e.now 0)).2
    | .allowRequest => (b.allowRequest (e.now 0)).2
    | .recordSuccess => b.recordSuccess e.now
    | .recordFailure => b.recordFailure e.now)

/-- **The breaker tells its changes**: every notification is a change, and they lead from `CLOSED` to the state. -/
def Told (b : Breaker) : Prop := Genuine b.cb.notified ∧ Leads .closed b.cb.notified b.cb.state

/-- The percentage of failures that `record_failure` compares with its threshold.  Nothing below depends on how it is
computed or rounded. -/
def rate (b : Breaker) (now : ℕ → ℚ) : ℚ := ((b.tracker.recordFailure (now 0)).failurePercentage (now 3)).1

/-- The failure does not open an open circuit: neither does the consecutive count reach its threshold while the circuit
is open, nor does the share exceed its own when the circuit is not closed or the count has just opened it. -/
def Changes (b : Breaker) (e : TimedBreakerCall) : Prop :=
  e.call = .recordFailure →
    ¬ (b.cb.state = .opened ∧ b.cb.failureThreshold ≤ (b.cb.failureCount + 1 : ℕ)) ∧
    ¬ (b.failureRateThreshold < rate b e.now ∧
      (b.cb.state ≠ .closed ∨ b.cb.failureThreshold ≤ (b.cb.failureCount + 1 : ℕ)))

theorem recordFailure_cb (b : Breaker) (now : ℕ → ℚ) : (b.recordFailure now).cb =
    if b.failureRateThreshold < rate b now then (b.cb.recordFailure (now 1) (now 2)).transition .opened (now 4)
    else b.cb.recordFailure (now 1) (now 2) := by
  unfold Breaker.recordFailure rate
  dsimp only
  split <;> rfl

theorem genuine_ite {p : Prop} [Decidable p] {s t : CircuitState} :
    Genuine (if p then [(s, t)] else []) ↔ (p → s ≠ t) := by
  by_cases hp : p
  · rw [if_pos hp, genuine_singleton]
    exact ⟨fun h _ => h, fun h => h hp⟩
  · rw [if_neg hp]
    exact iff_of_true genuine_nil fun h => absurd h hp

/-- **What one call says**: notifications that lead from the state before to the state after, and are changes exactly
when the call opens no open circuit. -/
theorem moved_step (b : Breaker) (e : TimedBreakerCall) :
    ∃ l, Moved b.cb (step b e).2.cb l ∧ (Genuine l ↔ Changes b e) := by
  obtain ⟨call, now⟩ := e
  cases call with
  | getState =>
    refine ⟨_, moved_readState b.cb (now 0), iff_of_true (genuine_ite.2 fun _ => by decide) fun h => (nomatch h)⟩
  | allowRequest =>
    have hmoved := moved_readState b.cb (now 0)
    rw [← allowRequest_snd] at hmoved
    exact ⟨_, hmoved, iff_of_true (genuine_ite.2 fun _ => by decide) fun h => (nomatch h)⟩
  | recordSuccess =>
    refine ⟨_, moved_recordSuccess b.cb (now 1), iff_of_true (genuine_ite.2 fun _ => by decide) fun h => (nomatch h)⟩
  | recordFailure =>
    have hown := moved_recordFailure b.cb (now 1) (now 2)
    have hcb : (step b ⟨.recordFailure, now⟩).2.cb = _ := recordFailure_cb b now
    have hstate := recordFailure_state b.cb (now 1) (now 2)
    by_cases hrate : b.failureRateThreshold < rate b now
    · rw [if_pos hrate] at hcb
      rw [hcb]
      refine ⟨_, hown.trans (moved_transition _ .opened (now 4)), ?_⟩
      rw [genuine_append, genuine_ite, genuine_singleton, hstate]
      unfold Changes
      generalize b.cb.state = s
      cases s <;> simp [hrate]
    · rw [if_neg hrate] at hcb
      rw [hcb]
      refine ⟨_, hown, ?_⟩
      rw [genuine_ite]
      unfold Changes
      generalize b.cb.state = s
      cases s <;> simp [hrate]

/-- **The notifications always lead from `CLOSED` to the state.** -/
theorem leads_run (p : BreakerParams) (es : List TimedBreakerCall) :
    Leads .closed (run step p.breaker es).cb.notified (run step p.breaker es).cb.state := by
  have hnew : Leads .closed p.breaker.cb.notified p.breaker.cb.state := rfl
  refine invariant (P := fun b : Breaker => Leads .closed b.cb.notified b.cb.state) hnew (fun b e h => ?_) es
  obtain ⟨l, hmoved, -⟩ := moved_step b e
  rw [hmoved.notified]
  exact leads_append h hmoved.leads

/-- **The notifications are real changes that chain**, after a run, exactly when no failure of it opens an open
circuit. -/
theorem told_iff (p : BreakerParams) (es : List TimedBreakerCall) :
    Told (run step p.breaker es) ↔ Along step Changes p.breaker es := by
  have hgenuine : Genuine (run step p.breaker es).cb.notified ↔ Along step Changes p.breaker es := by
    induction es using List.reverseRecOn with
    | nil => exact iff_of_true genuine_nil trivial
    | append_singleton es e ih =>
      obtain ⟨l, hmoved, hl⟩ := moved_step (run step p.breaker es) e
      rw [run_snoc, hmoved.notified, genuine_append, along_snoc, ih, hl]
  exact ⟨fun h => hgenuine.1 h.1, fun h => ⟨hgenuine.2 h, leads_run p es⟩⟩

/-- Two failures, and the thresholds of the app: the first alone is all of the window. -/
def twoFailures : List TimedBreakerCall := [⟨.recordFailure, fun _ => 1⟩, ⟨.recordFailure, fun _ => 2⟩]

/-- **The second failure opens the open circuit.** -/
theorem twoFailures_reopens :
    (run step BreakerAutomaton.appParams.breaker twoFailures).cb.notified = [(.closed, .opened), (.opened, .opened)] ∧
    ¬ Told (run step BreakerAutomaton.appParams.breaker twoFailures) := by
  have hnotified : (run step BreakerAutomaton.appParams.breaker twoFailures).cb.notified =
      [(.closed, .opened), (.opened, .opened)] := by decide +kernel
  refine ⟨hnotified, fun h => ?_⟩
  have hgenuine := h.1
  rw [hnotified] at hgenuine
  exact absurd hgenuine (by decide)

end StateChanges
end Ticket
