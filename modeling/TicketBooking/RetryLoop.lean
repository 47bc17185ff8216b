import Mathlib.Data.List.Basic
import Mathlib.Tactic.Linarith
import TicketBooking.Retry
/-!
# RetryLoop — `RetryManager.call` with its observers

A call runs the function until an outcome is no retryable exception or the attempts are used up.  What it does on the
way is a list of events: the invocations, the lines it logs, the callbacks it makes and the times it sleeps.  With a
logger that works and delays that can be slept, a call is some turns that fail and are followed by a sleep, and then
either one turn that passes its outcome on or one that gives up (`call_passes`, `call_givesUp`).  Without a logger the
first failure ends the call.
-/
namespace Ticket
namespace RetryManager

/-- The number behind a call of `random.uniform`. -/
abbrev Draw := { q : ℚ // 0 ≤ q ∧ q ≤ 1 }

inductive FnOutcome (ρ ε : Type) where
  | returned (r : ρ)
  | raised (exc : ε)
  deriving DecidableEq

/-- The two lines that are logged, `"RetryManager: attempt {attempt} failed with {exc}; retrying in {delay:.2f}s"` and
`"RetryManager: giving up after {attempt} attempts due to {exc}"`. -/
inductive LogLine (ε : Type) where
  | retrying (attempt : ℕ) (exc : ε) (delay : ℚ)
  | givingUp (attempt : ℕ) (exc : ε)
  deriving DecidableEq

inductive RetryEvent (ε : Type) where
  | invoked
  | logged (line : LogLine ε)
  | onRetry (attempt : ℕ) (exc : ε) (delay : ℚ)
  | onGiveup (exc : ε)
  | slept (delay : ℚ)
  deriving DecidableEq

inductive Ending (ρ ε : Type) where
  | returned (r : ρ)
  /-- an exception of the function, passed on -/
  | raised (exc : ε)
  | retryError (message : String) (cause : Option ε)
  /-- `None` was called for a logger -/
  | typeError
  /-- `time.sleep` of a negative number -/
  | valueError
  | loggerRaised
  deriving DecidableEq

/-- The three optional callables, each saying whether a call of it raises.  What a callback raises is an `Exception`:
the requests to exit that are none are left out. -/
structure Observers (ε : Type) where
  onRetry : Option (ℕ → ε → ℚ → Bool)
  onGiveup : Option (ε → Bool)
  logger : Option (LogLine ε → Bool)

/-- What a call does, and how it ends. -/
structure RetryRun (ρ ε : Type) where
  events : List (RetryEvent ε)
  ending : Ending ρ ε
  deriving DecidableEq

variable {ρ ε : Type}

def RetryRun.after (before : List (RetryEvent ε)) (r : RetryRun ρ ε) : RetryRun ρ ε :=
  { r with events := before ++ r.events }

/-- `self.logger(line)`, which is not guarded, and what comes after it. -/
def log (obs : Observers ε) (line : LogLine ε) (rest : RetryRun ρ ε) : RetryRun ρ ε :=
  match obs.logger with
  | none => ⟨[], .typeError⟩
  | some raises => if raises line = true then ⟨[.logged line], .loggerRaised⟩ else rest.after [.logged line]

/-- A callback that is there is called; whether it raises, the call goes on. -/
def callBack (raises : Option Bool) (e : RetryEvent ε) : List (RetryEvent ε) :=
  match raises with
  | none => []
  | some true => [e]
  | some false => [e]

/-- `time.sleep(delay)`, and what comes after it. -/
def sleep (delay : ℚ) (rest : RetryRun ρ ε) : RetryRun ρ ε :=
  if delay < 0 then ⟨[], .valueError⟩ else rest.after [.slept delay]

section
variable (m : RetryManager) (obs : Observers ε) (retryable : ε → Bool) (fn : ℕ → FnOutcome ρ ε) (draw : ℕ → Draw)

/-- The loop of `call`, after `attempt` failures.  The first argument is `max_attempts - attempt`: the loop is left when
it is 0.  `retryable` is `isinstance` of `retry_exceptions`, `fn k` the outcome of the invocation after `k` others and
`draw k` what lies behind the delay of the `k`-th retry. -/
def loop : ℕ → ℕ → RetryRun ρ ε
  | 0, _ => ⟨[], .retryError "Retries exhausted" none⟩
  | left + 1, attempt =>
    match fn attempt with
    | .returned r => ⟨[.invoked], .returned r⟩
    | .raised exc =>
      if retryable exc = false then ⟨[.invoked], .raised exc⟩
      else
        match m.afterFailure attempt (draw (attempt + 1)).1 with
        | .giveUp message =>
          RetryRun.after (.invoked :: callBack (obs.onGiveup.map (fun f => f exc)) (.onGiveup exc))
            (log obs (.givingUp (attempt + 1) exc) ⟨[], .retryError message (some exc)⟩)
        | .sleep attempt delay =>
          RetryRun.after [.invoked] (log obs (.retrying attempt exc delay)
            (RetryRun.after (callBack (obs.onRetry.map (fun f => f attempt exc delay)) (.onRetry attempt exc delay))
              (sleep delay (loop left attempt))))

def call : RetryRun ρ ε := loop m obs retryable fn draw m.maxAttempts 0

end

theorem RetryRun.after_append (es fs : List (RetryEvent ε)) (r : RetryRun ρ ε) :
    (r.after fs).after es = r.after (es ++ fs) := by
  simp only [RetryRun.after, List.append_assoc]

/-- A logger that is supplied and does not raise. -/
def Observers.Logs (obs : Observers ε) : Prop := ∃ raises, obs.logger = some raises ∧ ∀ line, raises line = false

/-- What a supplied logger does is not to raise. -/
def Observers.Sound (obs : Observers ε) : Prop := ∀ raises ∈ obs.logger, ∀ line, raises line = false

theorem Observers.Sound.logs_or_none {obs : Observers ε} (h : obs.Sound) : obs.Logs ∨ obs.logger = none := by
  cases hl : obs.logger with
  | none => exact Or.inr rfl
  | some raises => exact Or.inl ⟨raises, hl, h raises hl⟩

theorem log_of_logs {obs : Observers ε} (h : obs.Logs) (line : LogLine ε) (rest : RetryRun ρ ε) :
    log obs line rest = rest.after [.logged line] := by
  obtain ⟨raises, hl, hnot⟩ := h
  simp [log, hl, hnot]

theorem log_of_none {obs : Observers ε} (h : obs.logger = none) (line : LogLine ε) (rest : RetryRun ρ ε) :
    log obs line rest = ⟨[], .typeError⟩ := by
  simp [log, h]

/-- The delays of a manager that was given no negative parameter. -/
structure NonNegative (m : RetryManager) : Prop where
  baseDelay : 0 ≤ m.baseDelay
  backoffFactor : 0 ≤ m.backoffFactor
  maxDelay : 0 ≤ m.maxDelay

instance instDecidableNonNegative (m : RetryManager) : Decidable m.NonNegative :=
  decidable_of_iff (0 ≤ m.baseDelay ∧ 0 ≤ m.backoffFactor ∧ 0 ≤ m.maxDelay)
    ⟨fun h => ⟨h.1, h.2.1, h.2.2⟩, fun h => ⟨h.1, h.2, h.3⟩⟩

/-- **A delay without a negative parameter is not negative.** -/
theorem computeDelay_nonneg {m : RetryManager} (hm : m.NonNegative) (attempt : ℕ) (draw : Draw) :
    0 ≤ m.computeDelay attempt draw.1 := by
  have hdelay : 0 ≤ min m.maxDelay (m.baseDelay * m.backoffFactor ^ (attempt - 1)) :=
    le_min hm.maxDelay (mul_nonneg hm.baseDelay (pow_nonneg hm.backoffFactor _))
  unfold computeDelay
  generalize min m.maxDelay (m.baseDelay * m.backoffFactor ^ (attempt - 1)) = delay at hdelay
  dsimp only
  split
  · have hlow : max 0 (delay * (4 / 5)) = delay * (4 / 5) := max_eq_right (by linarith)
    rw [hlow]
    have hspread : 0 ≤ (delay * (6 / 5) - delay * (4 / 5)) * draw.1 := mul_nonneg (by linarith) draw.2.1
    linarith
  · exact hdelay

/-! ## One turn of the loop -/

section
variable {m : RetryManager} {obs : Observers ε} {retryable : ε → Bool} {fn : ℕ → FnOutcome ρ ε} {draw : ℕ → Draw}
  {exc : ε} {attempt left : ℕ}

/-- What a failed invocation, after `attempt` others, does before the next. -/
def failedTurn (m : RetryManager) (obs : Observers ε) (draw : ℕ → Draw) (exc : ε) (attempt : ℕ) :
    List (RetryEvent ε) :=
  let delay := m.computeDelay (attempt + 1) (draw (attempt + 1)).1
  [.invoked, .logged (.retrying (attempt + 1) exc delay)] ++
    callBack (obs.onRetry.map (fun f => f (attempt + 1) exc delay)) (.onRetry (attempt + 1) exc delay) ++ [.slept delay]

/-- What the last failed invocation does. -/
def lastTurn (obs : Observers ε) (exc : ε) (attempt : ℕ) : List (RetryEvent ε) :=
  .invoked :: callBack (obs.onGiveup.map (fun f => f exc)) (.onGiveup exc) ++ [.logged (.givingUp (attempt + 1) exc)]

/-- The outcome does not make the loop go on. -/
def Passes (retryable : ε → Bool) : FnOutcome ρ ε → Prop
  | .returned _ => True
  | .raised exc => retryable exc = false

theorem raised_of_not_passes {o : FnOutcome ρ ε} (h : ¬ Passes retryable o) :
    ∃ exc, o = .raised exc ∧ retryable exc = true := by
  cases o with
  | returned r => exact absurd trivial h
  | raised exc => exact ⟨exc, rfl, Bool.eq_true_of_not_eq_false h⟩

/-- How a call ends that passes the outcome on. -/
def FnOutcome.ending : FnOutcome ρ ε → Ending ρ ε
  | .returned r => .returned r
  | .raised exc => .raised exc

theorem loop_passes {o : FnOutcome ρ ε} (h : fn attempt = o) (hp : Passes retryable o) (left : ℕ) :
    loop m obs retryable fn draw (left + 1) attempt = ⟨[.invoked], o.ending⟩ := by
  cases o with
  | returned r => simp only [loop, h, FnOutcome.ending]
  | raised exc => simp only [loop, h, FnOutcome.ending, if_pos (show retryable exc = false from hp)]

theorem loop_fails (h : fn attempt = .raised exc) (hr : retryable exc = true) (hlt : attempt + 1 < m.maxAttempts)
    (left : ℕ) : loop m obs retryable fn draw (left + 1) attempt =
      let delay := m.computeDelay (attempt + 1) (draw (attempt + 1)).1
      RetryRun.after [.invoked] (log obs (.retrying (attempt + 1) exc delay)
        (RetryRun.after (callBack (obs.onRetry.map (fun f => f (attempt + 1) exc delay)) (.onRetry (attempt + 1) exc delay))
          (sleep delay (loop m obs retryable fn draw left (attempt + 1))))) := by
  have hf : ¬ retryable exc = false := by simp [hr]
  simp only [loop, h, if_neg hf, afterFailure, if_neg (not_le.2 hlt)]

theorem loop_last (h : fn attempt = .raised exc) (hr : retryable exc = true) (hle : m.maxAttempts ≤ attempt + 1)
    (left : ℕ) : loop m obs retryable fn draw (left + 1) attempt =
      RetryRun.after (.invoked :: callBack (obs.onGiveup.map (fun f => f exc)) (.onGiveup exc))
        (log obs (.givingUp (attempt + 1) exc)
          ⟨[], .retryError s!"Retries exhausted after {attempt + 1} attempts" (some exc)⟩) := by
  have hf : ¬ retryable exc = false := by simp [hr]
  simp only [loop, h, if_neg hf, afterFailure, if_pos hle]

/-- **A failed turn that logs and sleeps** goes on with the next. -/
theorem loop_failedTurn (h : fn attempt = .raised exc) (hr : retryable exc = true) (hlt : attempt + 1 < m.maxAttempts)
    (hl : obs.Logs) (hd : 0 ≤ m.computeDelay (attempt + 1) (draw (attempt + 1)).1) (left : ℕ) :
    loop m obs retryable fn draw (left + 1) attempt =
      (loop m obs retryable fn draw left (attempt + 1)).after (failedTurn m obs draw exc attempt) := by
  rw [loop_fails h hr hlt]
  simp only [log_of_logs hl, sleep, if_neg (not_lt.2 hd), RetryRun.after_append]
  rfl

theorem loop_lastTurn (h : fn attempt = .raised exc) (hr : retryable exc = true) (hle : m.maxAttempts ≤ attempt + 1)
    (hl : obs.Logs) (left : ℕ) : loop m obs retryable fn draw (left + 1) attempt =
      ⟨lastTurn obs exc attempt, .retryError s!"Retries exhausted after {attempt + 1} attempts" (some exc)⟩ := by
  rw [loop_last h hr hle, log_of_logs hl, RetryRun.after_append]
  simp only [RetryRun.after, List.append_nil]
  rfl

/-! ## Whole calls -/

variable {excs : ℕ → ε}

/-- The invocations after `attempt` others, up to `k`, all fail with retryable exceptions. -/
def FailsUpTo (retryable : ε → Bool) (fn : ℕ → FnOutcome ρ ε) (excs : ℕ → ε) (k : ℕ) : Prop :=
  ∀ j < k, fn j = .raised (excs j) ∧ retryable (excs j) = true

/-- **Failed turns, one after another.** -/
theorem loop_failedTurns (hl : obs.Logs) (hd : ∀ k, 0 ≤ m.computeDelay k (draw k).1) (left : ℕ) : ∀ (k attempt : ℕ),
    FailsUpTo retryable fn excs (attempt + k) → attempt + k < m.maxAttempts →
    loop m obs retryable fn draw (left + k) attempt = (loop m obs retryable fn draw left (attempt + k)).after
      ((List.range' attempt k).flatMap (fun j => failedTurn m obs draw (excs j) j))
  | 0, attempt, _, _ => rfl
  | k + 1, attempt, hf, hlt => by
    obtain ⟨hfn, hr⟩ := hf attempt (by omega)
    rw [← Nat.add_assoc, loop_failedTurn hfn hr (by omega) hl (hd _),
      loop_failedTurns hl hd left k (attempt + 1) (by rwa [show attempt + 1 + k = attempt + (k + 1) by omega]) (by omega),
      RetryRun.after_append, List.range'_succ, List.flatMap_cons, show attempt + 1 + k = attempt + (k + 1) by omega]

/-- **A call that passes an outcome on**: the invocations before it fail, and each is followed by its retry. -/
theorem call_passes (hl : obs.Logs) (hd : ∀ k, 0 ≤ m.computeDelay k (draw k).1) {k : ℕ} (hk : k < m.maxAttempts)
    (hf : FailsUpTo retryable fn excs k) (hp : Passes retryable (fn k)) : call m obs retryable fn draw =
      ⟨(List.range k).flatMap (fun j => failedTurn m obs draw (excs j) j) ++ [.invoked], (fn k).ending⟩ := by
  obtain ⟨left, hleft⟩ : ∃ left, m.maxAttempts = left + 1 + k := ⟨m.maxAttempts - 1 - k, by omega⟩
  have hturns := loop_failedTurns hl hd (left + 1) k 0 (by rwa [Nat.zero_add]) (by omega)
  rw [Nat.zero_add, loop_passes rfl hp left, ← List.range_eq_range'] at hturns
  unfold call
  rw [hleft, hturns]
  rfl

/-- **A call that gives up**: every invocation it may make fails. -/
theorem call_givesUp (hl : obs.Logs) (hd : ∀ k, 0 ≤ m.computeDelay k (draw k).1) {k : ℕ} (hk : m.maxAttempts = k + 1)
    (hf : FailsUpTo retryable fn excs (k + 1)) : call m obs retryable fn draw =
      ⟨(List.range k).flatMap (fun j => failedTurn m obs draw (excs j) j) ++ lastTurn obs (excs k) k,
        .retryError s!"Retries exhausted after {k + 1} attempts" (some (excs k))⟩ := by
  have hfk : FailsUpTo retryable fn excs (0 + k) := fun j hj => hf j (by omega)
  obtain ⟨hfn, hr⟩ := hf k (by omega)
  have hturns := loop_failedTurns hl hd (0 + 1) k 0 hfk (by omega)
  rw [Nat.zero_add k, loop_lastTurn hfn hr (by omega) hl, ← List.range_eq_range'] at hturns
  have hcall : call m obs retryable fn draw = loop m obs retryable fn draw (0 + 1 + k) 0 := by
    rw [call, hk, show k + 1 = 0 + 1 + k by omega]
  exact hcall.trans hturns

end

/-! ## What the events come to -/

namespace RetryEvent

def isInvoked : RetryEvent ε → Bool
  | .invoked => true
  | _ => false

def retry? : RetryEvent ε → Option (ℕ × ε × ℚ)
  | .onRetry attempt exc delay => some (attempt, exc, delay)
  | _ => none

def giveup? : RetryEvent ε → Option ε
  | .onGiveup exc => some exc
  | _ => none

def slept? : RetryEvent ε → Option ℚ
  | .slept delay => some delay
  | _ => none

end RetryEvent

namespace RetryRun

def invocations (r : RetryRun ρ ε) : ℕ := r.events.countP RetryEvent.isInvoked

/-- The calls of `on_retry`, in order. -/
def retries (r : RetryRun ρ ε) : List (ℕ × ε × ℚ) := r.events.filterMap RetryEvent.retry?

def giveups (r : RetryRun ρ ε) : List ε := r.events.filterMap RetryEvent.giveup?

def sleeps (r : RetryRun ρ ε) : List ℚ := r.events.filterMap RetryEvent.slept?

end RetryRun

theorem callBack_eq (raises : Option Bool) (e : RetryEvent ε) :
    callBack raises e = if raises.isSome = true then [e] else [] := by
  rcases raises with _ | _ | _ <;> rfl

section
variable (m : RetryManager) (obs : Observers ε) (draw : ℕ → Draw)

/-- A failed turn makes one invocation. -/
theorem countP_failedTurn (exc : ε) (j : ℕ) : (failedTurn m obs draw exc j).countP RetryEvent.isInvoked = 1 := by
  simp only [failedTurn, callBack_eq, List.countP_append]
  split <;> rfl

theorem retries_failedTurn (exc : ε) (j : ℕ) : (failedTurn m obs draw exc j).filterMap RetryEvent.retry? =
    if obs.onRetry.isSome = true then [(j + 1, exc, m.computeDelay (j + 1) (draw (j + 1)).1)] else [] := by
  simp only [failedTurn, callBack_eq, Option.isSome_map]
  split <;> rfl

theorem giveups_failedTurn (exc : ε) (j : ℕ) : (failedTurn m obs draw exc j).filterMap RetryEvent.giveup? = [] := by
  simp only [failedTurn, callBack_eq]
  split <;> rfl

theorem sleeps_failedTurn (exc : ε) (j : ℕ) :
    (failedTurn m obs draw exc j).filterMap RetryEvent.slept? = [m.computeDelay (j + 1) (draw (j + 1)).1] := by
  simp only [failedTurn, callBack_eq]
  split <;> rfl

variable (excs : ℕ → ε)

theorem countP_failedTurns (k : ℕ) :
    ((List.range k).flatMap (fun j => failedTurn m obs draw (excs j) j)).countP RetryEvent.isInvoked = k := by
  induction k with
  | zero => rfl
  | succ k ih =>
    rw [List.range_succ, List.flatMap_append, List.countP_append, ih, List.flatMap_singleton, countP_failedTurn]

theorem retries_failedTurns (k : ℕ) :
    ((List.range k).flatMap (fun j => failedTurn m obs draw (excs j) j)).filterMap RetryEvent.retry? =
      if obs.onRetry.isSome = true then
        (List.range k).map (fun j => (j + 1, excs j, m.computeDelay (j + 1) (draw (j + 1)).1))
      else [] := by
  rw [List.filterMap_flatMap]
  simp only [retries_failedTurn]
  by_cases ho : obs.onRetry.isSome = true
  · simp only [if_pos ho, List.map_eq_flatMap]
  · simp [ho]

theorem giveups_failedTurns (k : ℕ) :
    ((List.range k).flatMap (fun j => failedTurn m obs draw (excs j) j)).filterMap RetryEvent.giveup? = [] := by
  rw [List.filterMap_flatMap]
  simp [giveups_failedTurn]

theorem sleeps_failedTurns (k : ℕ) :
    ((List.range k).flatMap (fun j => failedTurn m obs draw (excs j) j)).filterMap RetryEvent.slept? =
      (List.range k).map (fun j => m.computeDelay (j + 1) (draw (j + 1)).1) := by
  rw [List.filterMap_flatMap]
  simp only [sleeps_failedTurn, List.map_eq_flatMap]

end

/-- **No call leaves its loop by the test**: a manager lets at least one attempt be made, and the last to fail gives up. -/
theorem loop_not_exhausted (m : RetryManager) (obs : Observers ε) (retryable : ε → Bool) (fn : ℕ → FnOutcome ρ ε)
    (draw : ℕ → Draw) : ∀ (left attempt : ℕ), attempt + (left + 1) = m.maxAttempts →
    (loop m obs retryable fn draw (left + 1) attempt).ending ≠ .retryError "Retries exhausted" none := by
  have hlog : ∀ (line : LogLine ε) (es : List (RetryEvent ε)) (rest : RetryRun ρ ε),
      rest.ending ≠ .retryError "Retries exhausted" none →
      ((log obs line rest).after es).ending ≠ .retryError "Retries exhausted" none := by
    intro line es rest h
    simp only [RetryRun.after, log]
    split
    · simp
    · split
      · simp
      · exact h
  intro left
  induction left with
  | zero =>
    intro attempt hleft
    cases h : fn attempt with
    | returned r => simp [loop_passes h trivial, FnOutcome.ending]
    | raised exc =>
      cases hr : retryable exc with
      | false => simp [loop_passes h hr, FnOutcome.ending]
      | true =>
        rw [loop_last h hr (by omega)]
        exact hlog _ _ _ (by simp)
  | succ left ih =>
    intro attempt hleft
    cases h : fn attempt with
    | returned r => simp [loop_passes h trivial, FnOutcome.ending]
    | raised exc =>
      cases hr : retryable exc with
      | false => simp [loop_passes h hr, FnOutcome.ending]
      | true =>
        rw [loop_fails h hr (by omega)]
        refine hlog _ _ _ ?_
        simp only [RetryRun.after, sleep]
        split
        · simp
        · exact ih (attempt + 1) (by omega)

/-- **The contract of the retry loop.**  Where the first outcome that is no retryable exception comes within the
attempts, the function is invoked that often and the outcome passed on; where it does not, the function is invoked
`max_attempts` times and the call gives up.  A failed attempt before another is told to `on_retry` with its number and
its delay, and slept for exactly that long before the next invocation (`failedTurn`). -/
theorem call_contract (m : RetryManager) (hN : 1 ≤ m.maxAttempts) (hm : m.NonNegative) (obs : Observers ε)
    (hl : obs.Logs) (retryable : ε → Bool) (fn : ℕ → FnOutcome ρ ε) (draw : ℕ → Draw) (excs : ℕ → ε) :
    (∀ k < m.maxAttempts, FailsUpTo retryable fn excs k → Passes retryable (fn k) →
      (call m obs retryable fn draw).invocations = k + 1 ∧
      (call m obs retryable fn draw).ending = (fn k).ending ∧
      (call m obs retryable fn draw).retries = (if obs.onRetry.isSome = true then
        (List.range k).map (fun j => (j + 1, excs j, m.computeDelay (j + 1) (draw (j + 1)).1)) else []) ∧
      (call m obs retryable fn draw).sleeps =
        (List.range k).map (fun j => m.computeDelay (j + 1) (draw (j + 1)).1) ∧
      (call m obs retryable fn draw).giveups = [] ∧
      (call m obs retryable fn draw).events =
        (List.range k).flatMap (fun j => failedTurn m obs draw (excs j) j) ++ [.invoked]) ∧
    (∀ k, m.maxAttempts = k + 1 → FailsUpTo retryable fn excs (k + 1) →
      (call m obs retryable fn draw).invocations = k + 1 ∧
      (call m obs retryable fn draw).ending =
        .retryError s!"Retries exhausted after {k + 1} attempts" (some (excs k)) ∧
      (call m obs retryable fn draw).retries = (if obs.onRetry.isSome = true then
        (List.range k).map (fun j => (j + 1, excs j, m.computeDelay (j + 1) (draw (j + 1)).1)) else []) ∧
      (call m obs retryable fn draw).sleeps =
        (List.range k).map (fun j => m.computeDelay (j + 1) (draw (j + 1)).1) ∧
      (call m obs retryable fn draw).giveups = (if obs.onGiveup.isSome = true then [excs k] else []) ∧
      (call m obs retryable fn draw).events =
        (List.range k).flatMap (fun j => failedTurn m obs draw (excs j) j) ++ lastTurn obs (excs k) k) ∧
    (call m obs retryable fn draw).ending ≠ .retryError "Retries exhausted" none := by
  have hd : ∀ k, 0 ≤ m.computeDelay k (draw k).1 := fun k => computeDelay_nonneg hm k (draw k)
  refine ⟨fun k hk hf hp => ?_, fun k hk hf => ?_, ?_⟩
  · rw [call_passes hl hd hk hf hp]
    refine ⟨?_, rfl, ?_, ?_, ?_, rfl⟩
    · rw [RetryRun.invocations, List.countP_append, countP_failedTurns]
      rfl
    · rw [RetryRun.retries, List.filterMap_append, retries_failedTurns]
      exact List.append_nil _
    · rw [RetryRun.sleeps, List.filterMap_append, sleeps_failedTurns]
      exact List.append_nil _
    · rw [RetryRun.giveups, List.filterMap_append, giveups_failedTurns]
      rfl
  · rw [call_givesUp hl hd hk hf]
    refine ⟨?_, rfl, ?_, ?_, ?_, rfl⟩
    · rw [RetryRun.invocations, List.countP_append, countP_failedTurns, lastTurn, callBack_eq]
      split <;> rfl
    · have hlast : (lastTurn obs (excs k) k).filterMap RetryEvent.retry? = [] := by
        rw [lastTurn, callBack_eq]
        split <;> rfl
      rw [RetryRun.retries, List.filterMap_append, retries_failedTurns, hlast, List.append_nil]
    · have hlast : (lastTurn obs (excs k) k).filterMap RetryEvent.slept? = [] := by
        rw [lastTurn, callBack_eq]
        split <;> rfl
      rw [RetryRun.sleeps, List.filterMap_append, sleeps_failedTurns, hlast, List.append_nil]
    · have hlast : (lastTurn obs (excs k) k).filterMap RetryEvent.giveup? =
          if obs.onGiveup.isSome = true then [excs k] else [] := by
        rw [lastTurn, callBack_eq, Option.isSome_map]
        split <;> rfl
      rw [RetryRun.giveups, List.filterMap_append, giveups_failedTurns, hlast, List.nil_append]
  · obtain ⟨left, hleft⟩ : ∃ left, m.maxAttempts = left + 1 := ⟨m.maxAttempts - 1, by omega⟩
    rw [call, hleft]
    exact loop_not_exhausted m obs retryable fn draw left 0 (by omega)

/-- A callback that raises, no callback for giving up, and a logger. -/
def Observers.raising : Observers ε := ⟨some (fun _ _ _ => true), none, some (fun _ => false)⟩

def Draw.half : Draw := ⟨1 / 2, by decide +kernel, by decide +kernel⟩

/-- Two failures and a result, and three failures. -/
theorem call_contract_three :
    ((call ⟨3, 1, 2, 10, false⟩ Observers.raising (fun _ => true)
        (fun k => if k = 2 then .returned 7 else .raised "down") (fun _ => Draw.half) : RetryRun ℕ String).invocations = 3 ∧
      (call ⟨3, 1, 2, 10, false⟩ Observers.raising (fun _ => true)
        (fun k => if k = 2 then .returned 7 else .raised "down") (fun _ => Draw.half) : RetryRun ℕ String).ending =
          .returned 7) ∧
    (call ⟨3, 1, 2, 10, false⟩ Observers.raising (fun _ => true) (fun _ => .raised "down")
      (fun _ => Draw.half) : RetryRun ℕ String).ending =
        .retryError "Retries exhausted after 3 attempts" (some "down") := by
  have hm : NonNegative ⟨3, 1, 2, 10, false⟩ := by decide +kernel
  have hl : (Observers.raising : Observers String).Logs := ⟨fun _ => false, rfl, fun _ => rfl⟩
  have hpass := (call_contract ⟨3, 1, 2, 10, false⟩ (by decide) hm Observers.raising hl (fun _ => true)
    (fun k => if k = 2 then .returned 7 else .raised "down") (fun _ => Draw.half) (fun _ => "down")).1 2 (by decide)
    (fun j hj => ⟨if_neg (by omega), rfl⟩) trivial
  have hgive := (call_contract ⟨3, 1, 2, 10, false⟩ (by decide) hm Observers.raising hl (fun _ => true)
    (fun _ => (.raised "down" : FnOutcome ℕ String)) (fun _ => Draw.half) (fun _ => "down")).2.1 2 rfl (fun _ _ => ⟨rfl, rfl⟩)
  exact ⟨⟨hpass.1, hpass.2.1⟩, hgive.2.1.trans rfl⟩

end RetryManager
end Ticket
