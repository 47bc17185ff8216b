import TicketBooking.Breaker
import TicketBooking.Runs
/-!
# BreakerAutomaton — the breaker against its documented automaton

The documentation speaks of histories: the failures since the last success, the share of failures in the window, the
time since the latest failure, the successes since the probing began.  They are read here off the calls made and the
states these left (`failuresSince`, `share`, `lastFailure`, `successesSince`), and `Documented` is the automaton.  The
breaker keeps counters instead, reset on some transitions only; along every run a counter is the history's number in
the state that reads it (`Follows`), whatever the stale ones hold, so every call moves as documented
(`implements_automaton`).
-/
namespace Ticket

inductive BreakerCall where
  | getState
  | allowRequest
  | recordSuccess
  | recordFailure
  deriving DecidableEq

structure BreakerEvent where
  call : BreakerCall
  now : ℚ

inductive BreakerAnswer where
  | state (s : CircuitState)
  | allowed (request : Bool)
  | recorded
  deriving DecidableEq

structure BreakerReply where
  answer : BreakerAnswer
  state : CircuitState

/-- The arguments of the constructor. -/
structure BreakerParams where
  failureThresholdConsecutive : ℤ
  failureRateThreshold : ℚ
  windowSeconds : ℚ
  recoveryTimeout : ℚ
  halfOpenSuccesses : ℤ

def BreakerParams.breaker (p : BreakerParams) : Breaker :=
  Breaker.new p.failureThresholdConsecutive p.failureRateThreshold p.windowSeconds p.recoveryTimeout p.halfOpenSuccesses

namespace BreakerAutomaton

open Runs

def step (b : Breaker) (e : BreakerEvent) : BreakerReply × Breaker :=
  match e.call with
  | .getState => (⟨.state (b.getState e.now).1, (b.getState e.now).2.cb.state⟩, (b.getState e.now).2)
  | .allowRequest => (⟨.allowed (b.allowRequest e.now).1, (b.allowRequest e.now).2.cb.state⟩, (b.allowRequest e.now).2)
  | .recordSuccess =>
    (⟨.recorded, (b.recordSuccess fun _ => e.now).cb.state⟩, b.recordSuccess fun _ => e.now)
  | .recordFailure =>
    (⟨.recorded, (b.recordFailure fun _ => e.now).cb.state⟩, b.recordFailure fun _ => e.now)

def Chronological (es : List BreakerEvent) : Prop := es.Pairwise (fun a b => a.now ≤ b.now)

/-! ## What the history says -/

abbrev History := List (BreakerEvent × BreakerReply)

def stateAfter (tr : History) : CircuitState := tr.foldl (fun _ e => e.2.state) .closed

/-- The calls up to which a count has been taken: the state they left, and the count. -/
abbrev Count := CircuitState × ℕ

def countFailure (c : Count) (e : BreakerEvent × BreakerReply) : Count :=
  (e.2.state,
    if c.1 ≠ .closed ∧ e.2.state = .closed then 0
    else match e.1.call with
      | .recordSuccess => 0
      | .recordFailure => c.2 + 1
      | _ => c.2)

/-- **The failures since the later of the last success and the last entry to `CLOSED`.** -/
def failuresSince (tr : History) : ℕ := (tr.foldl countFailure (.closed, 0)).2

def countSuccess (c : Count) (e : BreakerEvent × BreakerReply) : Count :=
  (e.2.state,
    if c.1 ≠ .halfOpen ∧ e.2.state = .halfOpen then 0
    else match e.1.call with
      | .recordSuccess => c.2 + 1
      | _ => c.2)

/-- **The successes since `HALF_OPEN` was last entered.** -/
def successesSince (tr : History) : ℕ := (tr.foldl countSuccess (.closed, 0)).2

/-- The outcome a call records. -/
def outcome (e : BreakerEvent) : Option Outcome :=
  match e.call with
  | .recordSuccess => some ⟨e.now, false⟩
  | .recordFailure => some ⟨e.now, true⟩
  | _ => none

def outcomes (es : List BreakerEvent) : List Outcome := es.filterMap outcome

/-- **The percentage of failures among the outcomes of the last `windowSeconds`.** -/
def share (windowSeconds now : ℚ) (log : List Outcome) : ℚ :=
  let recent := Window.since Outcome.at_ (now - windowSeconds) log
  FailureTracker.percentage (recent.countP (fun e => !e.isFailure)) (recent.countP Outcome.isFailure)

def lastFailure (tr : History) : Option ℚ :=
  tr.foldl (fun t e => if e.1.call = .recordFailure then some e.1.now else t) none

/-- **The documented automaton**: how a call made after a history is answered, and the state it leaves. -/
structure Documented (p : BreakerParams) (tr : History) (e : BreakerEvent) (r : BreakerReply) : Prop where
  leaves_closed : stateAfter tr = .closed → (r.state ≠ .closed ↔ e.call = .recordFailure ∧
    (p.failureThresholdConsecutive ≤ (failuresSince tr + 1 : ℕ) ∨
      p.failureRateThreshold < share p.windowSeconds e.now (outcomes (tr.map Prod.fst ++ [e]))))
  opens : stateAfter tr = .closed → r.state ≠ .closed → r.state = .opened
  stays_open : stateAfter tr = .opened → e.call = .recordSuccess ∨ e.call = .recordFailure → r.state = .opened
  refuses : stateAfter tr = .opened → e.call = .allowRequest →
    ∃ t, lastFailure tr = some t ∧ r.answer = .allowed (decide (p.recoveryTimeout ≤ e.now - t))
  probes : stateAfter tr = .opened → e.call = .getState ∨ e.call = .allowRequest →
    ∃ t, lastFailure tr = some t ∧ r.state = if p.recoveryTimeout ≤ e.now - t then .halfOpen else .opened
  reopens : stateAfter tr = .halfOpen → e.call = .recordFailure → r.state = .opened
  closes : stateAfter tr = .halfOpen →
    (r.state = .closed ↔ e.call = .recordSuccess ∧ p.halfOpenSuccesses = (successesSince tr + 1 : ℕ))
  stays_half_open : stateAfter tr = .halfOpen → e.call ≠ .recordFailure → r.state ≠ .closed → r.state = .halfOpen
  admits : stateAfter tr ≠ .opened → e.call = .allowRequest → r.answer = .allowed true
  reports : e.call = .getState → r.answer = .state r.state

theorem stateAfter_snoc (tr : History) (e : BreakerEvent × BreakerReply) : stateAfter (tr ++ [e]) = e.2.state := by
  unfold stateAfter
  rw [List.foldl_append]
  rfl

theorem foldl_countFailure_fst : ∀ (tr : History) (c : Count),
    (tr.foldl countFailure c).1 = tr.foldl (fun _ e => e.2.state) c.1
  | [], _ => rfl
  | _ :: tr, _ => foldl_countFailure_fst tr _

theorem foldl_countSuccess_fst : ∀ (tr : History) (c : Count),
    (tr.foldl countSuccess c).1 = tr.foldl (fun _ e => e.2.state) c.1
  | [], _ => rfl
  | _ :: tr, _ => foldl_countSuccess_fst tr _

theorem failuresSince_snoc (tr : History) (e : BreakerEvent × BreakerReply) :
    failuresSince (tr ++ [e]) = (countFailure (stateAfter tr, failuresSince tr) e).2 := by
  have hfst := foldl_countFailure_fst tr (.closed, 0)
  unfold failuresSince
  rw [List.foldl_append]
  unfold stateAfter
  rw [← hfst]
  rfl

theorem successesSince_snoc (tr : History) (e : BreakerEvent × BreakerReply) :
    successesSince (tr ++ [e]) = (countSuccess (stateAfter tr, successesSince tr) e).2 := by
  have hfst := foldl_countSuccess_fst tr (.closed, 0)
  unfold successesSince
  rw [List.foldl_append]
  unfold stateAfter
  rw [← hfst]
  rfl

theorem lastFailure_snoc (tr : History) (e : BreakerEvent × BreakerReply) :
    lastFailure (tr ++ [e]) = if e.1.call = .recordFailure then some e.1.now else lastFailure tr := by
  unfold lastFailure
  rw [List.foldl_append]
  rfl

theorem outcomes_snoc (es : List BreakerEvent) (e : BreakerEvent) :
    outcomes (es ++ [e]) = outcomes es ++ (outcome e).toList := by
  unfold outcomes
  rw [List.filterMap_append]
  cases h : outcome e <;> simp [h]

/-! ## The counters -/

/-- **A counter is the history's number in the state that reads it.** -/
structure Follows (p : BreakerParams) (tr : History) (b : Breaker) : Prop where
  config : b.cb.config = (p.failureThresholdConsecutive, p.recoveryTimeout, p.halfOpenSuccesses)
  rate : b.failureRateThreshold = p.failureRateThreshold
  state : b.cb.state = stateAfter tr
  failures : b.cb.state = .closed → b.cb.failureCount = failuresSince tr
  failure : b.cb.state = .opened → lastFailure tr = some b.cb.lastFailureTime
  successes : b.cb.state = .halfOpen → b.cb.halfOpenSuccessCount = successesSince tr
  few : b.cb.state = .halfOpen → (b.cb.halfOpenSuccessCount : ℤ) < p.halfOpenSuccesses

/-- The window's queue covers the outcomes recorded, from a cutoff that any later call has reached. -/
structure Tracks (p : BreakerParams) (log : List Outcome) (now : ℚ) (t : FailureTracker) : Prop where
  window : t.window = p.windowSeconds
  covers : ∃ cutoff, cutoff ≤ now - p.windowSeconds ∧ Window.Covers Outcome.at_ cutoff t.events log

section
variable {p : BreakerParams} {log : List Outcome} {now now' : ℚ} {t : FailureTracker}

theorem Tracks.later (h : Tracks p log now t) (hn : now ≤ now') : Tracks p log now' t := by
  obtain ⟨cutoff, hc, hcov⟩ := h.covers
  exact ⟨h.window, cutoff, le_trans hc (sub_le_sub_right hn _), hcov⟩

theorem Tracks.record (h : Tracks p log now t) (hl : ∀ o ∈ log, o.at_ ≤ now) (isFailure : Bool) :
    Tracks p (log ++ [⟨now, isFailure⟩]) now (t.record isFailure now) := by
  obtain ⟨cutoff, hc, hcov⟩ := h.covers
  refine ⟨h.window, now - t.window, by rw [h.window], ?_⟩
  exact hcov.push (a := ⟨now, isFailure⟩) hl (by rw [h.window]; exact hc)

theorem Tracks.prune (h : Tracks p log now t) : Tracks p log now (t.prune now) := by
  obtain ⟨cutoff, hc, hcov⟩ := h.covers
  exact ⟨h.window, now - t.window, by rw [h.window], hcov.prune (by rw [h.window]; exact hc)⟩

/-- **A query of the window is the history's share.** -/
theorem Tracks.percentage (h : Tracks p log now t) : (t.failurePercentage now).1 = share p.windowSeconds now log := by
  obtain ⟨cutoff, hc, hcov⟩ := h.covers
  have hle : cutoff ≤ now - t.window := by rw [h.window]; exact hc
  have hnow := (hcov.prune hle).2
  unfold FailureTracker.failurePercentage FailureTracker.getCounts FailureTracker.prune share
  simp only [hnow]
  rw [h.window]

end

theorem tracks_step {p : BreakerParams} {log : List Outcome} {b : Breaker} {e : BreakerEvent}
    (h : Tracks p log e.now b.tracker) (hl : ∀ o ∈ log, o.at_ ≤ e.now) :
    Tracks p (log ++ (outcome e).toList) e.now (step b e).2.tracker := by
  obtain ⟨call, now⟩ := e
  cases call with
  | getState => simpa [step, outcome, Breaker.getState] using h
  | allowRequest => simpa [step, outcome, Breaker.allowRequest] using h
  | recordSuccess => exact h.record hl false
  | recordFailure =>
    have ht := (h.record hl true).prune
    simp only [step, Breaker.recordFailure]
    split <;> exact ht

/-- **The state machine after `recordFailure`**: forced open when the share in the window is too high. -/
theorem recordFailure_cb {p : BreakerParams} {log : List Outcome} {b : Breaker} {now : ℚ}
    (h : Tracks p log now b.tracker) (hl : ∀ o ∈ log, o.at_ ≤ now)
    (hr : b.failureRateThreshold = p.failureRateThreshold) :
    (b.recordFailure fun _ => now).cb =
      if p.failureRateThreshold < share p.windowSeconds now (log ++ [⟨now, true⟩]) then
        (b.cb.recordFailure now now).transition .opened now
      else b.cb.recordFailure now now := by
  have hp := (h.record hl true).percentage
  simp only [Breaker.recordFailure, FailureTracker.recordFailure, hp, hr]
  split <;> rfl

theorem rate_step (b : Breaker) (e : BreakerEvent) : (step b e).2.failureRateThreshold = b.failureRateThreshold := by
  obtain ⟨call, now⟩ := e
  cases call with
  | recordFailure =>
    simp only [step, Breaker.recordFailure]
    split <;> rfl
  | _ => rfl

theorem config_step (b : Breaker) (e : BreakerEvent) : (step b e).2.cb.config = b.cb.config := by
  obtain ⟨call, now⟩ := e
  cases call with
  | getState => exact CircuitBreaker.readState_config _ _
  | allowRequest => exact CircuitBreaker.allowRequest_config _ _
  | recordSuccess => exact CircuitBreaker.recordSuccess_config _ _
  | recordFailure =>
    simp only [step, Breaker.recordFailure]
    split
    · exact (CircuitBreaker.transition_config _ _ _).trans (CircuitBreaker.recordFailure_config _ _ _)
    · exact CircuitBreaker.recordFailure_config _ _ _

section
variable {p : BreakerParams} {tr : History} {b : Breaker}

theorem Follows.thresholds (h : Follows p tr b) : b.cb.failureThreshold = p.failureThresholdConsecutive ∧
    b.cb.recoveryTimeout = p.recoveryTimeout ∧ b.cb.halfOpenSuccesses = p.halfOpenSuccesses := by
  have hc := h.config
  simpa [CircuitBreaker.config] using hc

/-- **The three ways a call moves the machine**: a query, a success and a failure with the share of the window. -/
theorem step_cb (h : Follows p tr b) (e : BreakerEvent)
    (ht : Tracks p (outcomes (tr.map Prod.fst)) e.now b.tracker)
    (hl : ∀ o ∈ outcomes (tr.map Prod.fst), o.at_ ≤ e.now) :
    ((e.call = .getState ∨ e.call = .allowRequest) ∧ (step b e).2.cb = (b.cb.readState e.now).2) ∨
    (e.call = .recordSuccess ∧ (step b e).2.cb = b.cb.recordSuccess e.now) ∨
    (e.call = .recordFailure ∧ (step b e).2.cb =
      if p.failureRateThreshold < share p.windowSeconds e.now (outcomes (tr.map Prod.fst ++ [e])) then
        (b.cb.recordFailure e.now e.now).transition .opened e.now
      else b.cb.recordFailure e.now e.now) := by
  rw [outcomes_snoc]
  obtain ⟨call, now⟩ := e
  cases call with
  | getState => exact Or.inl ⟨Or.inl rfl, rfl⟩
  | allowRequest => exact Or.inl ⟨Or.inr rfl, CircuitBreaker.allowRequest_snd _ _⟩
  | recordSuccess => exact Or.inr (Or.inl ⟨rfl, rfl⟩)
  | recordFailure => exact Or.inr (Or.inr ⟨rfl, recordFailure_cb ht hl h.rate⟩)

theorem failed_state (cb : CircuitBreaker) (now : ℚ) (forced : Prop) [Decidable forced] :
    (if forced then (cb.recordFailure now now).transition .opened now else cb.recordFailure now now).state =
      if cb.state = .closed ∧ ¬ (cb.failureThreshold ≤ (cb.failureCount + 1 : ℕ) ∨ forced) then .closed
      else .opened := by
  by_cases hf : forced
  · simp [hf]
  · rw [if_neg hf, CircuitBreaker.recordFailure_state]
    simp [hf]

theorem failed_time (cb : CircuitBreaker) (now : ℚ) (forced : Prop) [Decidable forced] :
    (if forced then (cb.recordFailure now now).transition .opened now
      else cb.recordFailure now now).lastFailureTime = now := by
  split
  · rfl
  · exact CircuitBreaker.recordFailure_time cb now

theorem failed_closed (cb : CircuitBreaker) (now : ℚ) (forced : Prop) [Decidable forced]
    (h : (if forced then (cb.recordFailure now now).transition .opened now
      else cb.recordFailure now now).state = .closed) :
    (if forced then (cb.recordFailure now now).transition .opened now
      else cb.recordFailure now now).failureCount = cb.failureCount + 1 := by
  split at h
  · rw [CircuitBreaker.transition_state] at h
    cases h
  · rename_i hf
    rw [if_neg hf]
    exact CircuitBreaker.recordFailure_closed h

theorem step_reply_state (b : Breaker) (e : BreakerEvent) : (step b e).1.state = (step b e).2.cb.state := by
  obtain ⟨call, now⟩ := e
  cases call <;> rfl

theorem follows_query (h : Follows p tr b) (hhos : 1 ≤ p.halfOpenSuccesses) {e : BreakerEvent} {r : BreakerReply}
    {b' : Breaker} (hconf : b'.cb.config = b.cb.config) (hrate : b'.failureRateThreshold = b.failureRateThreshold)
    (hr : r.state = b'.cb.state) (hq : e.call = .getState ∨ e.call = .allowRequest)
    (hcb : b'.cb = (b.cb.readState e.now).2) : Follows p (tr ++ [(e, r)]) b' := by
  have hnf : e.call ≠ .recordFailure := by rcases hq with hq | hq <;> simp [hq]
  have hsame : b'.cb.state = b.cb.state → b'.cb = b.cb → Follows p (tr ++ [(e, r)]) b' := by
    intro hst hb
    have hcount : ∀ c : Count, c.1 = r.state → (countFailure c (e, r)).2 = c.2 ∧ (countSuccess c (e, r)).2 = c.2 := by
      intro c hc
      unfold countFailure countSuccess
      rcases hq with hq | hq <;> simp [hq, hc]
    obtain ⟨hcf, hcs⟩ := hcount (stateAfter tr, failuresSince tr) (by rw [hr, hst]; exact h.state.symm)
    obtain ⟨-, hcs⟩ := hcount (stateAfter tr, successesSince tr) (by rw [hr, hst]; exact h.state.symm)
    refine ⟨hconf.trans h.config, hrate.trans h.rate, by rw [stateAfter_snoc, hr], ?_, ?_, ?_, ?_⟩
    · rw [failuresSince_snoc, hcf, hb]
      exact h.failures
    · rw [lastFailure_snoc, if_neg hnf, hb]
      exact h.failure
    · rw [successesSince_snoc, hcs, hb]
      exact h.successes
    · rw [hb]
      exact h.few
  by_cases hs : b.cb.state = .opened
  · rw [CircuitBreaker.readState_of_opened hs] at hcb
    split at hcb
    · have hst : b'.cb.state = .halfOpen := by rw [hcb, CircuitBreaker.transition_state]
      have hzero : b'.cb.halfOpenSuccessCount = 0 := by rw [hcb]; rfl
      have hprev : stateAfter tr = .opened := h.state.symm.trans hs
      refine ⟨hconf.trans h.config, hrate.trans h.rate, by rw [stateAfter_snoc, hr], ?_, ?_, ?_, ?_⟩
      · intro hc
        rw [hst] at hc
        cases hc
      · intro hc
        rw [hst] at hc
        cases hc
      · intro _
        rw [successesSince_snoc, hzero]
        simp [countSuccess, hprev, hr, hst]
      · intro _
        rw [hzero]
        omega
    · exact hsame (by rw [hcb]) hcb
  · rw [CircuitBreaker.readState_of_not_opened hs] at hcb
    exact hsame (by rw [hcb]) hcb

theorem follows_success (h : Follows p tr b) {e : BreakerEvent} {r : BreakerReply} {b' : Breaker}
    (hconf : b'.cb.config = b.cb.config) (hrate : b'.failureRateThreshold = b.failureRateThreshold)
    (hr : r.state = b'.cb.state) (hc : e.call = .recordSuccess) (hcb : b'.cb = b.cb.recordSuccess e.now) :
    Follows p (tr ++ [(e, r)]) b' := by
  obtain ⟨-, -, hhos⟩ := h.thresholds
  have hnf : e.call ≠ .recordFailure := by simp [hc]
  have hzero : r.state = .closed → failuresSince (tr ++ [(e, r)]) = 0 := by
    intro _
    rw [failuresSince_snoc]
    simp [countFailure, hc]
  refine ⟨hconf.trans h.config, hrate.trans h.rate, by rw [stateAfter_snoc, hr], ?_, ?_, ?_, ?_⟩
  · intro hst
    rw [hzero (hr.trans hst), hcb]
    by_cases hs : b.cb.state = .halfOpen
    · rw [CircuitBreaker.recordSuccess_of_halfOpen hs]
      rw [hcb, CircuitBreaker.recordSuccess_of_halfOpen hs] at hst
      split at hst
      · rename_i hle
        rw [if_pos hle]
        rfl
      · exact absurd (hs.symm.trans hst) (by simp)
    · rw [CircuitBreaker.recordSuccess_of_ne hs]
  · intro hst
    rw [lastFailure_snoc, if_neg hnf, hcb]
    have hs : b.cb.state ≠ .halfOpen := by
      intro hs
      rw [hcb, CircuitBreaker.recordSuccess_of_halfOpen hs] at hst
      split at hst
      · rw [CircuitBreaker.transition_state] at hst
        cases hst
      · exact absurd (hs.symm.trans hst) (by simp)
    rw [hcb, CircuitBreaker.recordSuccess_of_ne hs] at hst
    rw [CircuitBreaker.recordSuccess_of_ne hs]
    exact h.failure hst
  all_goals
    intro hst
    have hs : b.cb.state = .halfOpen := by
      by_contra hs
      rw [hcb, CircuitBreaker.recordSuccess_of_ne hs] at hst
      exact hs hst
    have hcount := h.successes hs
    rw [hcb, CircuitBreaker.recordSuccess_of_halfOpen hs] at hst
    split at hst
    · rw [CircuitBreaker.transition_state] at hst
      cases hst
    rename_i hlt
    rw [hcb, CircuitBreaker.recordSuccess_of_halfOpen hs, if_neg hlt]
  · rw [successesSince_snoc]
    have hprev : stateAfter tr = .halfOpen := h.state.symm.trans hs
    simp [countSuccess, hprev, hc, hcount]
  · rw [← hhos]
    exact lt_of_not_ge hlt

theorem follows_failure (h : Follows p tr b) {e : BreakerEvent} {r : BreakerReply} {b' : Breaker} {forced : Prop}
    [Decidable forced] (hconf : b'.cb.config = b.cb.config)
    (hrate : b'.failureRateThreshold = b.failureRateThreshold) (hr : r.state = b'.cb.state)
    (hc : e.call = .recordFailure)
    (hcb : b'.cb = if forced then (b.cb.recordFailure e.now e.now).transition .opened e.now
      else b.cb.recordFailure e.now e.now) : Follows p (tr ++ [(e, r)]) b' := by
  have hstate := failed_state b.cb e.now forced
  have htime := failed_time b.cb e.now forced
  have hclosed := failed_closed b.cb e.now forced
  rw [← hcb] at hstate htime hclosed
  refine ⟨hconf.trans h.config, hrate.trans h.rate, by rw [stateAfter_snoc, hr], ?_, ?_, ?_, ?_⟩
  · intro hst
    rw [hclosed hst]
    rw [hst] at hstate
    split at hstate
    · rename_i hs
      have hprev : stateAfter tr = .closed := h.state.symm.trans hs.1
      rw [failuresSince_snoc, h.failures hs.1]
      simp [countFailure, hprev, hc]
    · cases hstate
  · intro _
    rw [lastFailure_snoc, if_pos hc, htime]
  all_goals
    intro hst
    rw [hst] at hstate
    split at hstate <;> cases hstate

/-- **Every call keeps the counters the history's.** -/
theorem follows_step (h : Follows p tr b) (hhos : 1 ≤ p.halfOpenSuccesses) (e : BreakerEvent)
    (ht : Tracks p (outcomes (tr.map Prod.fst)) e.now b.tracker)
    (hl : ∀ o ∈ outcomes (tr.map Prod.fst), o.at_ ≤ e.now) :
    Follows p (tr ++ [(e, (step b e).1)]) (step b e).2 := by
  have hconf := config_step b e
  have hrate := rate_step b e
  have hr := step_reply_state b e
  rcases step_cb h e ht hl with ⟨hc, hcb⟩ | ⟨hc, hcb⟩ | ⟨hc, hcb⟩
  · exact follows_query h hhos hconf hrate hr hc hcb
  · exact follows_success h hconf hrate hr hc hcb
  · exact follows_failure h hconf hrate hr hc hcb

theorem documented_query (h : Follows p tr b) {e : BreakerEvent} {r : BreakerReply}
    (hq : e.call = .getState ∨ e.call = .allowRequest) (hr : r.state = (b.cb.readState e.now).2.state)
    (hget : e.call = .getState → r.answer = .state r.state)
    (hallow : e.call = .allowRequest → r.answer = .allowed (decide (r.state ≠ .opened))) : Documented p tr e r := by
  obtain ⟨-, htimeout, -⟩ := h.thresholds
  have hnf : e.call ≠ .recordFailure := by rcases hq with hq | hq <;> simp [hq]
  have hns : e.call ≠ .recordSuccess := by rcases hq with hq | hq <;> simp [hq]
  have hstay : b.cb.state ≠ .opened → r.state = stateAfter tr := by
    intro hs
    rw [hr, CircuitBreaker.readState_of_not_opened hs, h.state]
  have hopen : b.cb.state = .opened → ∃ t, lastFailure tr = some t ∧
      r.state = if p.recoveryTimeout ≤ e.now - t then .halfOpen else .opened := by
    intro hs
    refine ⟨b.cb.lastFailureTime, h.failure hs, ?_⟩
    rw [hr, CircuitBreaker.readState_of_opened hs, htimeout]
    split
    · exact CircuitBreaker.transition_state _ _ _
    · exact hs
  rw [h.state] at hstay hopen
  refine ⟨fun hs => ?_, fun hs hn => ?_, fun _ hc => ?_, fun hs hc => ?_, fun hs _ => hopen hs,
    fun _ hc => absurd hc hnf, fun hs => ?_, fun hs _ _ => ?_, fun hs hc => ?_, hget⟩
  · rw [hstay (by simp [hs]), hs]
    exact ⟨fun hn => absurd rfl hn, fun hc => absurd hc.1 hnf⟩
  · exact absurd ((hstay (by simp [hs])).trans hs) hn
  · exact hc.elim (fun hc => absurd hc hns) (fun hc => absurd hc hnf)
  · obtain ⟨t, ht, hst⟩ := hopen hs
    refine ⟨t, ht, ?_⟩
    rw [hallow hc, hst]
    by_cases hle : p.recoveryTimeout ≤ e.now - t <;> simp [hle]
  · rw [hstay (by simp [hs]), hs]
    exact ⟨fun hn => (nomatch hn), fun hc => absurd hc.1 hns⟩
  · exact (hstay (by simp [hs])).trans hs
  · rw [hallow hc, hstay hs]
    simp [hs]

theorem documented_success (h : Follows p tr b) {e : BreakerEvent} {r : BreakerReply} (hc : e.call = .recordSuccess)
    (hr : r.state = (b.cb.recordSuccess e.now).state) : Documented p tr e r := by
  obtain ⟨-, -, hhos⟩ := h.thresholds
  have hkeep : b.cb.state ≠ .halfOpen → r.state = stateAfter tr := by
    intro hs
    rw [hr, CircuitBreaker.recordSuccess_of_ne hs, ← h.state]
  have hprobe : b.cb.state = .halfOpen →
      r.state = if p.halfOpenSuccesses = (successesSince tr + 1 : ℕ) then .closed else .halfOpen := by
    intro hs
    have hfew := h.few hs
    rw [hr, CircuitBreaker.recordSuccess_of_halfOpen hs, hhos, ← h.successes hs]
    have hiff : p.halfOpenSuccesses ≤ (b.cb.halfOpenSuccessCount + 1 : ℕ) ↔
        p.halfOpenSuccesses = (b.cb.halfOpenSuccessCount + 1 : ℕ) := by omega
    by_cases hle : p.halfOpenSuccesses ≤ (b.cb.halfOpenSuccessCount + 1 : ℕ)
    · rw [if_pos hle, if_pos (hiff.1 hle), CircuitBreaker.transition_state]
    · rw [if_neg hle, if_neg (fun he => hle (hiff.2 he))]
      exact hs
  rw [h.state] at hkeep hprobe
  refine ⟨fun hs => ?_, fun hs hn => ?_, fun hs _ => ?_, fun _ he => ?_, fun _ he => ?_, fun _ he => ?_, fun hs => ?_,
    fun hs _ hn => ?_, fun _ he => ?_, fun he => ?_⟩
  · rw [hkeep (by simp [hs]), hs]
    simp [hc]
  · exact absurd ((hkeep (by simp [hs])).trans hs) hn
  · exact (hkeep (by simp [hs])).trans hs
  · rw [hc] at he
    cases he
  · rcases he with he | he <;> rw [hc] at he <;> cases he
  · rw [hc] at he
    cases he
  · rw [hprobe hs]
    by_cases he : p.halfOpenSuccesses = (successesSince tr + 1 : ℕ) <;> simp [he, hc]
  · rw [hprobe hs] at hn ⊢
    split
    · rename_i he
      exact absurd (if_pos he) hn
    · rfl
  · rw [hc] at he
    cases he
  · rw [hc] at he
    cases he

theorem documented_failure (h : Follows p tr b) {e : BreakerEvent} {r : BreakerReply} (hc : e.call = .recordFailure)
    (hr : r.state = if b.cb.state = .closed ∧ ¬ (b.cb.failureThreshold ≤ (b.cb.failureCount + 1 : ℕ) ∨
      p.failureRateThreshold < share p.windowSeconds e.now (outcomes (tr.map Prod.fst ++ [e]))) then .closed
      else .opened) : Documented p tr e r := by
  obtain ⟨hthr, -, -⟩ := h.thresholds
  have hleft : stateAfter tr ≠ .closed → r.state = .opened := by
    intro hs
    rw [hr, if_neg]
    rintro ⟨hcl, -⟩
    exact hs (h.state ▸ hcl)
  refine ⟨fun hs => ?_, fun _ hn => ?_, fun hs _ => hleft (by simp [hs]), fun _ he => ?_, fun _ he => ?_,
    fun hs _ => hleft (by simp [hs]), fun hs => ?_, fun _ he => absurd hc he, fun _ he => ?_, fun he => ?_⟩
  · have hcl : b.cb.state = .closed := h.state.trans hs
    rw [hr, hthr, h.failures hcl]
    simp only [hcl, hc, true_and]
    split
    · rename_i hlow
      exact ⟨fun hn => absurd rfl hn, fun ho => absurd ho hlow⟩
    · rename_i hhigh
      exact ⟨fun _ => not_not.1 hhigh, fun _ => by simp⟩
  · rw [hr] at hn ⊢
    split
    · rename_i hlow
      exact absurd (if_pos hlow) hn
    · rfl
  · rw [hc] at he
    cases he
  · rcases he with he | he <;> rw [hc] at he <;> cases he
  · rw [hleft (by simp [hs])]
    simp [hc]
  · rw [hc] at he
    cases he
  · rw [hc] at he
    cases he

/-- **Every call is documented.** -/
theorem documented_of_follows (h : Follows p tr b) (e : BreakerEvent)
    (ht : Tracks p (outcomes (tr.map Prod.fst)) e.now b.tracker)
    (hl : ∀ o ∈ outcomes (tr.map Prod.fst), o.at_ ≤ e.now) :
    Documented p tr e (step b e).1 := by
  have hr := step_reply_state b e
  rcases step_cb h e ht hl with ⟨hc, hcb⟩ | ⟨hc, hcb⟩ | ⟨hc, hcb⟩
  · rw [hcb] at hr
    refine documented_query h hc hr (fun hg => ?_) (fun ha => ?_)
    · rw [hr, ← CircuitBreaker.readState_fst]
      simp [step, hg, Breaker.getState]
    · rw [hr, ← CircuitBreaker.allowRequest_snd, ← CircuitBreaker.allowRequest_fst]
      simp [step, ha, Breaker.allowRequest]
  · rw [hcb] at hr
    exact documented_success h hc hr
  · rw [hcb, failed_state] at hr
    exact documented_failure h hc hr

end

/-! ## A run of calls -/

/-- The history of a run of calls on a fresh breaker, and the breaker after it. -/
abbrev history (p : BreakerParams) (es : List BreakerEvent) : History := trace step p.breaker es

abbrev after (p : BreakerParams) (es : List BreakerEvent) : Breaker := run step p.breaker es

theorem outcomes_le {es : List BreakerEvent} {now : ℚ} (h : ∀ e ∈ es, e.now ≤ now) :
    ∀ o ∈ outcomes es, o.at_ ≤ now := by
  intro o ho
  obtain ⟨e, he, heo⟩ := List.mem_filterMap.1 ho
  have hat : o.at_ = e.now := by
    unfold outcome at heo
    split at heo <;> cases heo <;> rfl
  rw [hat]
  exact h e he

theorem tracks_run (p : BreakerParams) (es : List BreakerEvent) (hc : Chronological es) (now : ℚ)
    (hn : ∀ e ∈ es, e.now ≤ now) : Tracks p (outcomes es) now (after p es).tracker := by
  induction es using List.reverseRecOn generalizing now with
  | nil => exact ⟨rfl, now - p.windowSeconds, le_rfl, List.Pairwise.nil, rfl⟩
  | append_singleton es e ih =>
    obtain ⟨hc', -, hle⟩ := List.pairwise_append.1 hc
    have hle' : ∀ e' ∈ es, e'.now ≤ e.now := fun e' he' => hle e' he' e (by simp)
    have ht := tracks_step (ih hc' e.now hle') (outcomes_le hle')
    unfold after
    rw [run_snoc, outcomes_snoc]
    exact ht.later (hn e (by simp))

/-- What a run leaves for the call after it: the window covers the outcomes, none of them later than the call. -/
theorem window_run (p : BreakerParams) (es : List BreakerEvent) (e : BreakerEvent) (hc : Chronological (es ++ [e])) :
    Chronological es ∧ Tracks p (outcomes ((history p es).map Prod.fst)) e.now (after p es).tracker ∧
      ∀ o ∈ outcomes ((history p es).map Prod.fst), o.at_ ≤ e.now := by
  obtain ⟨hc', -, hle⟩ := List.pairwise_append.1 hc
  have hle' : ∀ e' ∈ es, e'.now ≤ e.now := fun e' he' => hle e' he' e (by simp)
  have hmap : (history p es).map Prod.fst = es := trace_map_fst es p.breaker
  rw [hmap]
  exact ⟨hc', tracks_run p es hc' e.now hle', outcomes_le hle'⟩

theorem follows_run (p : BreakerParams) (hhos : 1 ≤ p.halfOpenSuccesses) (es : List BreakerEvent)
    (hc : Chronological es) : Follows p (history p es) (after p es) := by
  induction es using List.reverseRecOn with
  | nil => exact ⟨rfl, rfl, rfl, fun _ => rfl, fun h => (nomatch h), fun h => (nomatch h), fun h => (nomatch h)⟩
  | append_singleton es e ih =>
    obtain ⟨hc', ht, hl⟩ := window_run p es e hc
    have h := follows_step (ih hc') hhos e ht hl
    unfold after history at h ⊢
    rwa [run_snoc, trace_snoc]

/-- **The breaker implements its documented automaton**: after any run of calls at readings that never go back, the
next call moves and answers as documented. -/
theorem implements_automaton (p : BreakerParams) (hhos : 1 ≤ p.halfOpenSuccesses) (es : List BreakerEvent)
    (e : BreakerEvent) (hc : Chronological (es ++ [e])) : Documented p (history p es) e (step (after p es) e).1 := by
  obtain ⟨hc', ht, hl⟩ := window_run p es e hc
  exact documented_of_follows (follows_run p hhos es hc') e ht hl

/-- The application's parameters. -/
def appParams : BreakerParams := ⟨3, 60, 60, 8, 1⟩

theorem implements_automaton_app : Documented appParams (history appParams [⟨.recordFailure, 1⟩]) ⟨.allowRequest, 9⟩
    (step (after appParams [⟨.recordFailure, 1⟩]) ⟨.allowRequest, 9⟩).1 :=
  implements_automaton appParams (by decide) [⟨.recordFailure, 1⟩] ⟨.allowRequest, 9⟩
    (by simp only [Chronological, List.singleton_append, List.pairwise_pair]; decide +kernel)

end BreakerAutomaton
end Ticket
