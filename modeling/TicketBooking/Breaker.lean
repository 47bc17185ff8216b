import Mathlib.Algebra.Order.Ring.Rat
import TicketBooking.Window
/-!
# Breaker — the circuit breaker (`circuit_breaker/`)

`CircuitBreaker` is the state machine of `state_machine.py`, `FailureTracker` the sliding window of
`failure_tracker.py`, and `Breaker` the two together.  Clock readings are arguments, in the order the code takes them;
a method that takes several has them as a stream `now`.  The counts are never negative and so are naturals; the
thresholds are whatever integers the constructor was given.
-/
namespace Ticket

inductive CircuitState where
  | closed
  | opened
  | halfOpen
  deriving DecidableEq, Repr

def CircuitState.value : CircuitState → String
  | .closed => "CLOSED"
  | .opened => "OPEN"
  | .halfOpen => "HALF_OPEN"

/-! ## The state machine -/

structure CircuitBreaker where
  failureThreshold : ℤ
  recoveryTimeout : ℚ
  halfOpenSuccesses : ℤ
  state : CircuitState
  failureCount : ℕ
  lastFailureTime : ℚ
  halfOpenSuccessCount : ℕ
  /-- the calls made of `on_state_change`, latest last -/
  notified : List (CircuitState × CircuitState)
  deriving DecidableEq

namespace CircuitBreaker

def new (failureThreshold : ℤ) (recoveryTimeout : ℚ) (halfOpenSuccesses : ℤ) : CircuitBreaker :=
  ⟨failureThreshold, recoveryTimeout, halfOpenSuccesses, .closed, 0, 0, 0, []⟩

/-- `_transition`: `now` is the reading it takes when it opens. -/
def transition (cb : CircuitBreaker) (newState : CircuitState) (now : ℚ) : CircuitBreaker :=
  let cb := { cb with state := newState, notified := cb.notified ++ [(cb.state, newState)] }
  match newState with
  | .closed => { cb with failureCount := 0, halfOpenSuccessCount := 0 }
  | .opened => { cb with halfOpenSuccessCount := 0, lastFailureTime := now }
  | .halfOpen => { cb with halfOpenSuccessCount := 0 }

/-- Whether `recovery_timeout` has passed since the last failure. -/
def recovered (cb : CircuitBreaker) (now : ℚ) : Bool := decide (cb.recoveryTimeout ≤ now - cb.lastFailureTime)

/-- The property `state`, which moves an overdue `OPEN` to `HALF_OPEN` before it answers. -/
def readState (cb : CircuitBreaker) (now : ℚ) : CircuitState × CircuitBreaker :=
  if cb.state = .opened ∧ cb.recovered now = true then (.halfOpen, cb.transition .halfOpen now) else (cb.state, cb)

def allowRequest (cb : CircuitBreaker) (now : ℚ) : Bool × CircuitBreaker :=
  if cb.state = .opened then
    if cb.recovered now = true then (true, cb.transition .halfOpen now) else (false, cb)
  else (true, cb)

/-- `record_success`: it closes without reading the clock, so any `now` will do. -/
def recordSuccess (cb : CircuitBreaker) (now : ℚ) : CircuitBreaker :=
  if cb.state = .halfOpen then
    let cb := { cb with halfOpenSuccessCount := cb.halfOpenSuccessCount + 1 }
    if cb.halfOpenSuccesses ≤ cb.halfOpenSuccessCount then cb.transition .closed now else cb
  else { cb with failureCount := 0 }

def recordFailure (cb : CircuitBreaker) (now later : ℚ) : CircuitBreaker :=
  if cb.state = .halfOpen then { cb.transition .opened now with lastFailureTime := later }
  else
    let cb := { cb with failureCount := cb.failureCount + 1, lastFailureTime := now }
    if cb.failureThreshold ≤ cb.failureCount then cb.transition .opened later else cb

/-- The parameters of the constructor, which nothing writes later. -/
def config (cb : CircuitBreaker) : ℤ × ℚ × ℤ := (cb.failureThreshold, cb.recoveryTimeout, cb.halfOpenSuccesses)

@[simp] theorem transition_state (cb : CircuitBreaker) (s : CircuitState) (now : ℚ) :
    (cb.transition s now).state = s := by
  cases s <;> rfl

@[simp] theorem transition_config (cb : CircuitBreaker) (s : CircuitState) (now : ℚ) :
    (cb.transition s now).config = cb.config := by
  cases s <;> rfl

theorem readState_config (cb : CircuitBreaker) (now : ℚ) : (cb.readState now).2.config = cb.config := by
  unfold readState
  split
  · exact transition_config _ _ _
  · rfl

theorem allowRequest_config (cb : CircuitBreaker) (now : ℚ) : (cb.allowRequest now).2.config = cb.config := by
  unfold allowRequest
  split
  · split
    · exact transition_config _ _ _
    · rfl
  · rfl

theorem recordSuccess_config (cb : CircuitBreaker) (now : ℚ) : (cb.recordSuccess now).config = cb.config := by
  unfold recordSuccess
  split
  · dsimp only
    split
    · exact transition_config _ _ _
    · rfl
  · rfl

theorem recordFailure_config (cb : CircuitBreaker) (now later : ℚ) :
    (cb.recordFailure now later).config = cb.config := by
  unfold recordFailure
  split
  · exact transition_config cb .opened now
  · dsimp only
    split
    · exact transition_config _ _ _
    · rfl

/-! ### What each call does to the state -/

theorem readState_snd (cb : CircuitBreaker) (now : ℚ) : (cb.readState now).2 =
    if cb.state = .opened ∧ cb.recovered now = true then cb.transition .halfOpen now else cb := by
  unfold readState
  split <;> rfl

/-- Both queries move an overdue `OPEN` alike. -/
theorem allowRequest_snd (cb : CircuitBreaker) (now : ℚ) : (cb.allowRequest now).2 = (cb.readState now).2 := by
  rw [readState_snd]
  unfold allowRequest
  by_cases hs : cb.state = .opened
  · by_cases hr : cb.recovered now = true <;> simp [hs, hr]
  · simp [hs]

theorem readState_fst (cb : CircuitBreaker) (now : ℚ) : (cb.readState now).1 = (cb.readState now).2.state := by
  unfold readState
  split
  · rw [transition_state]
  · rfl

theorem allowRequest_fst (cb : CircuitBreaker) (now : ℚ) :
    (cb.allowRequest now).1 = decide ((cb.allowRequest now).2.state ≠ .opened) := by
  unfold allowRequest
  by_cases hs : cb.state = .opened
  · by_cases hr : cb.recovered now = true <;> simp [hs, hr]
  · simp [hs]

theorem readState_of_not_opened {cb : CircuitBreaker} (h : cb.state ≠ .opened) (now : ℚ) :
    (cb.readState now).2 = cb := by
  rw [readState_snd, if_neg fun hc => h hc.1]

theorem readState_of_opened {cb : CircuitBreaker} (h : cb.state = .opened) (now : ℚ) : (cb.readState now).2 =
    if cb.recoveryTimeout ≤ now - cb.lastFailureTime then cb.transition .halfOpen now else cb := by
  rw [readState_snd]
  simp [h, recovered]

theorem recordSuccess_of_ne {cb : CircuitBreaker} (h : cb.state ≠ .halfOpen) (now : ℚ) :
    cb.recordSuccess now = { cb with failureCount := 0 } := by
  unfold recordSuccess
  rw [if_neg h]

theorem recordSuccess_of_halfOpen {cb : CircuitBreaker} (h : cb.state = .halfOpen) (now : ℚ) :
    cb.recordSuccess now =
      if cb.halfOpenSuccesses ≤ (cb.halfOpenSuccessCount + 1 : ℕ) then
        { cb with halfOpenSuccessCount := cb.halfOpenSuccessCount + 1 }.transition .closed now
      else { cb with halfOpenSuccessCount := cb.halfOpenSuccessCount + 1 } := by
  unfold recordSuccess
  rw [if_pos h]

theorem recordFailure_of_ne {cb : CircuitBreaker} (h : cb.state ≠ .halfOpen) (now later : ℚ) :
    cb.recordFailure now later =
      if cb.failureThreshold ≤ (cb.failureCount + 1 : ℕ) then
        { cb with failureCount := cb.failureCount + 1, lastFailureTime := now }.transition .opened later
      else { cb with failureCount := cb.failureCount + 1, lastFailureTime := now } := by
  unfold recordFailure
  rw [if_neg h]

/-- A failure leaves `CLOSED` alone below the threshold, and `OPEN` behind it everywhere else. -/
theorem recordFailure_state (cb : CircuitBreaker) (now later : ℚ) : (cb.recordFailure now later).state =
    if cb.state = .closed ∧ ¬ cb.failureThreshold ≤ (cb.failureCount + 1 : ℕ) then .closed else .opened := by
  by_cases hs : cb.state = .halfOpen
  · unfold recordFailure
    rw [if_pos hs, if_neg (by simp [hs])]
    rfl
  · rw [recordFailure_of_ne hs]
    split
    · rw [transition_state, if_neg (by simp_all)]
    · cases hc : cb.state with
      | halfOpen => exact absurd hc hs
      | closed => simp_all
      | opened => simp_all

theorem recordFailure_closed {cb : CircuitBreaker} {now later : ℚ} (h : (cb.recordFailure now later).state = .closed) :
    (cb.recordFailure now later).failureCount = cb.failureCount + 1 := by
  rw [recordFailure_state] at h
  split at h
  · rename_i hc
    rw [recordFailure_of_ne (by simp [hc.1]), if_neg hc.2]
  · cases h

theorem recordFailure_time (cb : CircuitBreaker) (now : ℚ) : (cb.recordFailure now now).lastFailureTime = now := by
  unfold recordFailure
  split
  · rfl
  · dsimp only
    split <;> rfl

end CircuitBreaker

/-! ## The sliding window -/

/-- An outcome with its time: `isFailure` is the second component of the code's pairs. -/
structure Outcome where
  at_ : ℚ
  isFailure : Bool
  deriving DecidableEq

structure FailureTracker where
  window : ℚ
  events : List Outcome
  deriving DecidableEq

namespace FailureTracker

def new (window : ℚ) : FailureTracker := ⟨window, []⟩

def prune (t : FailureTracker) (now : ℚ) : FailureTracker :=
  { t with events := Window.prune Outcome.at_ (now - t.window) t.events }

def record (t : FailureTracker) (isFailure : Bool) (now : ℚ) : FailureTracker :=
  ({ t with events := t.events ++ [⟨now, isFailure⟩] } : FailureTracker).prune now

def recordSuccess (t : FailureTracker) (now : ℚ) : FailureTracker := t.record false now

def recordFailure (t : FailureTracker) (now : ℚ) : FailureTracker := t.record true now

/-- `get_counts`: successes, then failures. -/
def getCounts (t : FailureTracker) (now : ℚ) : (ℕ × ℕ) × FailureTracker :=
  let t := t.prune now
  ((t.events.countP (fun e => !e.isFailure), t.events.countP Outcome.isFailure), t)

def totalRequests (t : FailureTracker) (now : ℚ) : ℕ × FailureTracker :=
  let t := t.prune now
  (t.events.length, t)

def percentage (s f : ℕ) : ℚ := if s + f = 0 then 0 else (f : ℚ) / ((s + f : ℕ) : ℚ) * 100

def failurePercentage (t : FailureTracker) (now : ℚ) : ℚ × FailureTracker :=
  (percentage (t.getCounts now).1.1 (t.getCounts now).1.2, (t.getCounts now).2)

def reset (t : FailureTracker) : FailureTracker := { t with events := [] }

end FailureTracker

/-! ## The two together -/

structure Breaker where
  failureRateThreshold : ℚ
  tracker : FailureTracker
  cb : CircuitBreaker
  deriving DecidableEq

namespace Breaker

def new (failureThresholdConsecutive : ℤ) (failureRateThreshold windowSeconds recoveryTimeout : ℚ)
    (halfOpenSuccesses : ℤ) : Breaker :=
  ⟨failureRateThreshold, FailureTracker.new windowSeconds,
    CircuitBreaker.new failureThresholdConsecutive recoveryTimeout halfOpenSuccesses⟩

def getState (b : Breaker) (now : ℚ) : CircuitState × Breaker :=
  ((b.cb.readState now).1, { b with cb := (b.cb.readState now).2 })

def allowRequest (b : Breaker) (now : ℚ) : Bool × Breaker :=
  ((b.cb.allowRequest now).1, { b with cb := (b.cb.allowRequest now).2 })

def recordSuccess (b : Breaker) (now : ℕ → ℚ) : Breaker :=
  { b with tracker := b.tracker.recordSuccess (now 0), cb := b.cb.recordSuccess (now 1) }

/-- `record_failure`: the window's reading, two of the state machine, one to query the window, one to force it open. -/
def recordFailure (b : Breaker) (now : ℕ → ℚ) : Breaker :=
  let b := { b with tracker := b.tracker.recordFailure (now 0), cb := b.cb.recordFailure (now 1) (now 2) }
  let fp := b.tracker.failurePercentage (now 3)
  if b.failureRateThreshold < fp.1 then { b with tracker := fp.2, cb := b.cb.transition .opened (now 4) }
  else { b with tracker := fp.2 }

def failurePercentage (b : Breaker) (now : ℚ) : ℚ × Breaker :=
  ((b.tracker.failurePercentage now).1, { b with tracker := (b.tracker.failurePercentage now).2 })

def getCounts (b : Breaker) (now : ℚ) : (ℕ × ℕ) × Breaker :=
  ((b.tracker.getCounts now).1, { b with tracker := (b.tracker.getCounts now).2 })

end Breaker
end Ticket
