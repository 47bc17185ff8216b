import Mathlib.Algebra.Order.Ring.Rat
import Mathlib.Algebra.Order.Group.MinMax
/-!
# Retry — retries with backoff (`retry/retry_manager.py`)

`RetryManager.call` runs a function, and runs it again after a delay while it raises a retryable exception and attempts
are left.  `afterFailure` is one turn of its loop from such an exception on: it gives up, or says how long it sleeps.
-/
namespace Ticket

structure RetryManager where
  maxAttempts : ℕ
  baseDelay : ℚ
  backoffFactor : ℚ
  maxDelay : ℚ
  jitter : Bool
  deriving DecidableEq

namespace RetryManager

def new (maxAttempts : ℤ) (baseDelay backoffFactor maxDelay : ℚ) (jitter : Bool) : RetryManager :=
  ⟨(max 1 maxAttempts).toNat, baseDelay, backoffFactor, maxDelay, jitter⟩

/-- `_compute_delay`: `draw` is the number in `[0, 1]` behind `random.uniform`. -/
def computeDelay (m : RetryManager) (attempt : ℕ) (draw : ℚ) : ℚ :=
  let delay := min m.maxDelay (m.baseDelay * m.backoffFactor ^ (attempt - 1))
  if m.jitter = true then
    let low := max 0 (delay * (4 / 5))
    let high := delay * (6 / 5)
    low + (high - low) * draw
  else delay

/-- How the loop goes on after a retryable exception. -/
inductive Turn where
  /-- `RetryError`, with its text -/
  | giveUp (message : String)
  | sleep (attempt : ℕ) (delay : ℚ)
  deriving DecidableEq

/-- After `attempt` earlier failures, one more. -/
def afterFailure (m : RetryManager) (attempt : ℕ) (draw : ℚ) : Turn :=
  let attempt := attempt + 1
  if m.maxAttempts ≤ attempt then .giveUp s!"Retries exhausted after {attempt} attempts"
  else .sleep attempt (m.computeDelay attempt draw)

end RetryManager
end Ticket
