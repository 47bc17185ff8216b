import Mathlib.Algebra.Order.BigOperators.Group.List
import Mathlib.Tactic.Ring
import TicketBooking.RetryLoop
/-!
# DelayCap — how long a call sleeps

`max_delay` is documented as the cap for the delay between retries, and `_compute_delay` caps the delay before it adds
the jitter of a fifth.  A delay so exceeds the cap when its draw is over a half and the delay was at the cap, or close
below it (`computeDelay_le_iff`); a call keeps within the cap exactly when no retry it makes is of that kind
(`capped_iff`).
-/
namespace Ticket
namespace RetryManager

variable {ρ ε : Type}

/-- The retry after `j` others is not lifted over the cap by its draw. -/
def CapKept (m : RetryManager) (draw : ℚ) (j : ℕ) : Prop :=
  m.jitter = false ∨ m.maxDelay = 0 ∨ draw ≤ 1 / 2 ∨
    m.baseDelay * m.backoffFactor ^ j * (4 / 5 + 2 / 5 * draw) ≤ m.maxDelay

/-- Every delay that is slept or told to `on_retry` is within the cap, and so is what they sum to. -/
structure Capped (m : RetryManager) (r : RetryRun ρ ε) : Prop where
  slept : ∀ d ∈ r.sleeps, 0 ≤ d ∧ d ≤ m.maxDelay
  told : ∀ p ∈ r.retries, 0 ≤ p.2.2 ∧ p.2.2 ≤ m.maxDelay
  total : r.sleeps.sum ≤ ((m.maxAttempts - 1 : ℕ) : ℚ) * m.maxDelay

/-- A delay that has been capped, with its jitter. -/
theorem jittered_le_iff {delay cap c : ℚ} (hd : 0 ≤ delay) (hcap : 0 ≤ cap) (hc : 0 ≤ c) :
    min cap delay * c ≤ cap ↔ cap = 0 ∨ c ≤ 1 ∨ delay * c ≤ cap := by
  constructor
  · intro h
    by_cases hle : cap ≤ delay
    · rw [min_eq_left hle] at h
      rcases eq_or_lt_of_le hcap with h0 | hpos
      · exact Or.inl h0.symm
      · exact Or.inr (Or.inl (le_of_mul_le_mul_left (by rwa [mul_one]) hpos))
    · rw [min_eq_right (le_of_not_ge hle)] at h
      exact Or.inr (Or.inr h)
  · rintro (rfl | hone | hle)
    · rw [min_eq_left hd, zero_mul]
    · calc min cap delay * c ≤ min cap delay * 1 := mul_le_mul_of_nonneg_left hone (le_min hcap hd)
        _ ≤ cap := by rw [mul_one]; exact min_le_left _ _
    · exact le_trans (mul_le_mul_of_nonneg_right (min_le_right _ _) hc) hle

/-- **When a delay is within the cap.** -/
theorem computeDelay_le_iff {m : RetryManager} (hm : m.NonNegative) (draw : Draw) (j : ℕ) :
    m.computeDelay (j + 1) draw.1 ≤ m.maxDelay ↔ CapKept m draw.1 j := by
  obtain ⟨q, h0, h1⟩ := draw
  have hdelay : 0 ≤ m.baseDelay * m.backoffFactor ^ j := mul_nonneg hm.baseDelay (pow_nonneg hm.backoffFactor _)
  unfold computeDelay CapKept
  rw [Nat.add_sub_cancel]
  generalize m.baseDelay * m.backoffFactor ^ j = delay at hdelay
  cases hj : m.jitter with
  | false => simp
  | true =>
    have hmin : 0 ≤ min m.maxDelay delay := le_min hm.maxDelay hdelay
    have hlow : max 0 (min m.maxDelay delay * (4 / 5)) = min m.maxDelay delay * (4 / 5) := max_eq_right (by linarith)
    have hval : min m.maxDelay delay * (4 / 5) +
        (min m.maxDelay delay * (6 / 5) - min m.maxDelay delay * (4 / 5)) * q =
          min m.maxDelay delay * (4 / 5 + 2 / 5 * q) := by ring
    have hhalf : 4 / 5 + 2 / 5 * q ≤ 1 ↔ q ≤ 1 / 2 := by constructor <;> intro h <;> linarith
    simp only [reduceIte, hlow, hval, jittered_le_iff hdelay hm.maxDelay (show 0 ≤ 4 / 5 + 2 / 5 * q by linarith), hhalf,
      Bool.true_eq_false, false_or]

/-! ## The retries a call makes -/

section
variable {m : RetryManager} {obs : Observers ε} {retryable : ε → Bool} {fn : ℕ → FnOutcome ρ ε} {draw : ℕ → Draw}

/-- The invocation after `j` others fails and may be retried. -/
def Fails (retryable : ε → Bool) (fn : ℕ → FnOutcome ρ ε) (j : ℕ) : Prop :=
  ∃ exc, fn j = .raised exc ∧ retryable exc = true

/-- The retry after `j` others is made: every invocation so far failed, and an attempt is left. -/
def RetryMade (m : RetryManager) (retryable : ε → Bool) (fn : ℕ → FnOutcome ρ ε) (j : ℕ) : Prop :=
  j + 1 < m.maxAttempts ∧ ∀ i ≤ j, Fails retryable fn i

theorem passes_of_not_fails {j : ℕ} (h : ¬ Fails retryable fn j) : Passes retryable (fn j) := by
  by_contra hp
  exact h (raised_of_not_passes hp)

/-- **A turn either retries, or is the last.** -/
theorem loop_retries_or_ends (retryable : ε → Bool) (fn : ℕ → FnOutcome ρ ε) (hl : obs.Logs)
    (hd : ∀ k, 0 ≤ m.computeDelay k (draw k).1) (left attempt : ℕ) :
    (attempt + 1 < m.maxAttempts ∧ Fails retryable fn attempt ∧ ∃ exc,
      loop m obs retryable fn draw (left + 1) attempt =
        (loop m obs retryable fn draw left (attempt + 1)).after (failedTurn m obs draw exc attempt)) ∨
    (¬ (attempt + 1 < m.maxAttempts ∧ Fails retryable fn attempt) ∧
      (loop m obs retryable fn draw (left + 1) attempt).sleeps = [] ∧
      (loop m obs retryable fn draw (left + 1) attempt).retries = []) := by
  by_cases hf : Fails retryable fn attempt
  · obtain ⟨exc, ho, hr⟩ := hf
    by_cases hlt : attempt + 1 < m.maxAttempts
    · exact Or.inl ⟨hlt, ⟨exc, ho, hr⟩, exc, loop_failedTurn ho hr hlt hl (hd _) left⟩
    · refine Or.inr ⟨fun h => hlt h.1, ?_⟩
      rw [loop_lastTurn ho hr (not_lt.1 hlt) hl]
      simp only [RetryRun.sleeps, RetryRun.retries, lastTurn, callBack_eq]
      split <;> exact ⟨rfl, rfl⟩
  · refine Or.inr ⟨fun h => hf h.2, ?_⟩
    rw [loop_passes rfl (passes_of_not_fails hf)]
    exact ⟨rfl, rfl⟩

theorem sleeps_after (es : List (RetryEvent ε)) (r : RetryRun ρ ε) :
    (r.after es).sleeps = es.filterMap RetryEvent.slept? ++ r.sleeps := List.filterMap_append

theorem retries_after (es : List (RetryEvent ε)) (r : RetryRun ρ ε) :
    (r.after es).retries = es.filterMap RetryEvent.retry? ++ r.retries := List.filterMap_append

/-- **What is slept are the delays of the retries made.** -/
theorem mem_sleeps_loop (hl : obs.Logs) (hd : ∀ k, 0 ≤ m.computeDelay k (draw k).1) (d : ℚ) : ∀ (left attempt : ℕ),
    attempt + left = m.maxAttempts → (d ∈ (loop m obs retryable fn draw left attempt).sleeps ↔
      ∃ j, attempt ≤ j ∧ j + 1 < m.maxAttempts ∧ (∀ i, attempt ≤ i → i ≤ j → Fails retryable fn i) ∧
        d = m.computeDelay (j + 1) (draw (j + 1)).1)
  | 0, attempt, hleft => by
    refine iff_of_false List.not_mem_nil ?_
    rintro ⟨j, hj, hlt, -⟩
    omega
  | left + 1, attempt, hleft => by
    rcases loop_retries_or_ends retryable fn hl hd left attempt with
      ⟨hlt, hf, exc, heq⟩ | ⟨hnot, hnil, -⟩
    · rw [heq, sleeps_after, sleeps_failedTurn, List.singleton_append, List.mem_cons,
        mem_sleeps_loop hl hd d left (attempt + 1) (by omega)]
      constructor
      · rintro (hd | ⟨j, hj, hjlt, hfails, hd⟩)
        · refine ⟨attempt, le_rfl, hlt, fun i h1 h2 => ?_, hd⟩
          rwa [le_antisymm h2 h1]
        · refine ⟨j, by omega, hjlt, fun i h1 h2 => ?_, hd⟩
          rcases eq_or_lt_of_le h1 with rfl | h1
          · exact hf
          · exact hfails i h1 h2
      · rintro ⟨j, hj, hjlt, hfails, hd⟩
        rcases eq_or_lt_of_le hj with rfl | hj
        · exact Or.inl hd
        · exact Or.inr ⟨j, hj, hjlt, fun i h1 h2 => hfails i (by omega) h2, hd⟩
    · rw [hnil]
      refine iff_of_false List.not_mem_nil ?_
      rintro ⟨j, hj, hjlt, hfails, -⟩
      exact hnot ⟨by omega, hfails attempt le_rfl hj⟩

theorem length_sleeps_loop (hl : obs.Logs) (hd : ∀ k, 0 ≤ m.computeDelay k (draw k).1) : ∀ (left attempt : ℕ),
    attempt + left = m.maxAttempts → (loop m obs retryable fn draw left attempt).sleeps.length ≤ left - 1
  | 0, _, _ => le_rfl
  | left + 1, attempt, hleft => by
    rcases loop_retries_or_ends retryable fn hl hd left attempt with
      ⟨hlt, -, exc, heq⟩ | ⟨-, hnil, -⟩
    · have ih := length_sleeps_loop hl hd left (attempt + 1) (by omega)
      rw [heq, sleeps_after, sleeps_failedTurn, List.singleton_append, List.length_cons]
      omega
    · rw [hnil]
      exact Nat.zero_le _

/-- **What `on_retry` is told is slept.** -/
theorem sleeps_of_retries_loop (hl : obs.Logs) (hd : ∀ k, 0 ≤ m.computeDelay k (draw k).1) : ∀ (left attempt : ℕ),
    ∀ p ∈ (loop m obs retryable fn draw left attempt).retries,
      p.2.2 ∈ (loop m obs retryable fn draw left attempt).sleeps
  | 0, _, _, hp => absurd hp List.not_mem_nil
  | left + 1, attempt, p, hp => by
    rcases loop_retries_or_ends retryable fn hl hd left attempt with
      ⟨-, -, exc, heq⟩ | ⟨-, -, hnil⟩
    · rw [heq, retries_after, retries_failedTurn, List.mem_append] at hp
      rw [heq, sleeps_after, sleeps_failedTurn, List.singleton_append, List.mem_cons]
      rcases hp with hp | hp
      · split at hp
        · rw [List.mem_singleton.1 hp]
          exact Or.inl rfl
        · cases hp
      · exact Or.inr (sleeps_of_retries_loop hl hd left (attempt + 1) p hp)
    · rw [hnil] at hp
      cases hp

/-- Without a logger, nothing is slept. -/
theorem noLogger_sleeps (m : RetryManager) (retryable : ε → Bool) (fn : ℕ → FnOutcome ρ ε) (draw : ℕ → Draw)
    (hn : obs.logger = none) (left attempt : ℕ) :
    (loop m obs retryable fn draw left attempt).sleeps = [] ∧
      (loop m obs retryable fn draw left attempt).retries = [] := by
  cases left with
  | zero => exact ⟨rfl, rfl⟩
  | succ left =>
    by_cases hf : Fails retryable fn attempt
    · obtain ⟨exc, ho, hr⟩ := hf
      by_cases hlt : attempt + 1 < m.maxAttempts
      · simp only [loop_fails ho hr hlt, log_of_none hn]
        exact ⟨rfl, rfl⟩
      · rw [loop_last ho hr (not_lt.1 hlt), log_of_none hn, callBack_eq]
        simp only [RetryRun.sleeps, RetryRun.retries, RetryRun.after]
        split <;> exact ⟨rfl, rfl⟩
    · rw [loop_passes rfl (passes_of_not_fails hf)]
      exact ⟨rfl, rfl⟩

theorem mem_sleeps_call (hl : obs.Logs) (hd : ∀ k, 0 ≤ m.computeDelay k (draw k).1) (d : ℚ) :
    d ∈ (call m obs retryable fn draw).sleeps ↔
      ∃ j, RetryMade m retryable fn j ∧ d = m.computeDelay (j + 1) (draw (j + 1)).1 := by
  rw [call, mem_sleeps_loop hl hd d m.maxAttempts 0 (Nat.zero_add _)]
  constructor
  · rintro ⟨j, -, hlt, hfails, hd⟩
    exact ⟨j, ⟨hlt, fun i hi => hfails i (Nat.zero_le i) hi⟩, hd⟩
  · rintro ⟨j, ⟨hlt, hfails⟩, hd⟩
    exact ⟨j, Nat.zero_le j, hlt, fun i _ hi => hfails i hi, hd⟩

/-- **A call whose sleeps keep within the cap keeps within it altogether.** -/
theorem capped_of_slept (hm : m.NonNegative) (hl : obs.Logs)
    (hslept : ∀ d ∈ (call m obs retryable fn draw).sleeps, 0 ≤ d ∧ d ≤ m.maxDelay) :
    Capped m (call m obs retryable fn draw) := by
  have hd : ∀ k, 0 ≤ m.computeDelay k (draw k).1 := fun k => computeDelay_nonneg hm k (draw k)
  refine ⟨hslept, fun p hp => hslept _ (sleeps_of_retries_loop hl hd _ _ p hp), ?_⟩
  have hlen : (call m obs retryable fn draw).sleeps.length ≤ m.maxAttempts - 1 :=
    length_sleeps_loop hl hd m.maxAttempts 0 (Nat.zero_add _)
  calc (call m obs retryable fn draw).sleeps.sum
      ≤ (call m obs retryable fn draw).sleeps.length • m.maxDelay :=
        List.sum_le_card_nsmul _ _ fun d hdm => (hslept d hdm).2
    _ ≤ ((m.maxAttempts - 1 : ℕ) : ℚ) * m.maxDelay := by
        rw [nsmul_eq_mul]
        exact mul_le_mul_of_nonneg_right (by exact_mod_cast hlen) hm.maxDelay

theorem noLogger_capped (hm : m.NonNegative) (hn : obs.logger = none) : Capped m (call m obs retryable fn draw) := by
  obtain ⟨hsleeps, hretries⟩ := noLogger_sleeps m retryable fn draw hn m.maxAttempts 0
  refine ⟨fun d hdm => ?_, fun p hp => ?_, ?_⟩
  · rw [call, hsleeps] at hdm
    cases hdm
  · rw [call, hretries] at hp
    cases hp
  · rw [call, hsleeps]
    exact mul_nonneg (Nat.cast_nonneg _) hm.maxDelay

end

/-- **When a call keeps within the cap**: each retry it makes has no jitter, or a cap of 0, or a draw of at most a half,
or a delay that its jitter leaves within the cap.  (Without a logger no retry is made.) -/
theorem capped_iff (m : RetryManager) (hm : m.NonNegative) (obs : Observers ε) (hs : obs.Sound) (retryable : ε → Bool)
    (fn : ℕ → FnOutcome ρ ε) (draw : ℕ → Draw) : Capped m (call m obs retryable fn draw) ↔
      ∀ j, obs.logger.isSome = true → RetryMade m retryable fn j → CapKept m (draw (j + 1)).1 j := by
  have hd : ∀ k, 0 ≤ m.computeDelay k (draw k).1 := fun k => computeDelay_nonneg hm k (draw k)
  rcases hs.logs_or_none with hl | hn
  · have hsome : obs.logger.isSome = true := by
      obtain ⟨f, hf, -⟩ := hl
      rw [hf]
      rfl
    constructor
    · intro h j _ hmade
      exact (computeDelay_le_iff hm (draw (j + 1)) j).1 (h.slept _ ((mem_sleeps_call hl hd _).2 ⟨j, hmade, rfl⟩)).2
    · intro h
      refine capped_of_slept hm hl fun d hdm => ?_
      obtain ⟨j, hmade, rfl⟩ := (mem_sleeps_call hl hd d).1 hdm
      exact ⟨hd _, (computeDelay_le_iff hm (draw (j + 1)) j).2 (h j hsome hmade)⟩
  · refine iff_of_true (noLogger_capped hm hn) fun j hsome => ?_
    rw [hn] at hsome
    cases hsome

/-- Two attempts whose first delay is at the cap, and the largest draw. -/
def Draw.one : Draw := ⟨1, by decide +kernel, by decide +kernel⟩

theorem not_capped_two : ¬ Capped ⟨2, 1, 2, 1, true⟩ (call ⟨2, 1, 2, 1, true⟩ Observers.raising (fun _ => true)
    (fun _ => .raised "down") (fun _ => Draw.one) : RetryRun ℕ String) := by
  intro h
  have hmem : (6 / 5 : ℚ) ∈ (call ⟨2, 1, 2, 1, true⟩ Observers.raising (fun _ => true)
      (fun _ => .raised "down") (fun _ => Draw.one) : RetryRun ℕ String).sleeps := by decide +kernel
  exact absurd (h.slept _ hmem).2 (by decide +kernel)

theorem capped_iff_half : Capped ⟨2, 1, 2, 1, true⟩ (call ⟨2, 1, 2, 1, true⟩ Observers.raising (fun _ => true)
    (fun _ => .raised "down") (fun _ => Draw.half) : RetryRun ℕ String) :=
  (capped_iff ⟨2, 1, 2, 1, true⟩ (by decide +kernel) Observers.raising (fun f h _ => by cases h; rfl) (fun _ => true)
    (fun _ => .raised "down") (fun _ => Draw.half)).2 fun _ _ _ => Or.inr (Or.inr (Or.inl le_rfl))

end RetryManager
end Ticket
