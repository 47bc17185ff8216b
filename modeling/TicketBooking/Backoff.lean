import Mathlib.Tactic.Ring
import TicketBooking.Parties
import TicketBooking.Retry
import TicketBooking.Runs
/-!
# Backoff — the generator of delays (`retry/exponential_backoff.py`)

`exponential_backoff_delays` multiplies its delay after every value and caps what it yields, not what it keeps, where
`_compute_delay` takes a power: the `k`-th values are equal (`next_reached`).  Every iteration over an
`ExponentialBackoff` starts a generator of its own, so however the iterations of one object interleave, each yields the
same `n` values.
-/
namespace Ticket

/-- A generator between two of its values: `left` turns of `range` are to come. -/
structure BackoffDelays where
  delay : ℚ
  left : ℕ
  factor : ℚ
  maxDelay : Option ℚ

/-- `exponential_backoff_delays`: `range` of a negative number is empty. -/
def exponentialBackoffDelays (maxAttempts : ℤ) (baseDelay factor : ℚ) (maxDelay : Option ℚ) : BackoffDelays :=
  ⟨baseDelay, maxAttempts.toNat, factor, maxDelay⟩

namespace BackoffDelays

/-- One turn: the value yielded and the generator after it, or `none` for `StopIteration`. -/
def next (g : BackoffDelays) : Option (ℚ × BackoffDelays) :=
  match g.left with
  | 0 => none
  | left + 1 =>
    let value := match g.maxDelay with
      | some cap => min g.delay cap
      | none => g.delay
    some (value, { g with delay := g.delay * g.factor, left := left })

/-- The values of up to `turns` turns. -/
def values : ℕ → BackoffDelays → List ℚ
  | 0, _ => []
  | turns + 1, g =>
    match g.next with
    | none => []
    | some r => r.1 :: values turns r.2

/-- The generator once it has yielded `k` values. -/
def reached (maxAttempts : ℤ) (baseDelay factor cap : ℚ) (k : ℕ) : BackoffDelays :=
  ⟨baseDelay * factor ^ k, maxAttempts.toNat - k, factor, some cap⟩

variable {maxAttempts attempts : ℤ} {baseDelay factor cap draw : ℚ}

theorem reached_zero (maxAttempts : ℤ) (baseDelay factor cap : ℚ) :
    reached maxAttempts baseDelay factor cap 0 = exponentialBackoffDelays maxAttempts baseDelay factor (some cap) := by
  simp [reached, exponentialBackoffDelays]

/-- The delay a manager without jitter computes for its `k + 1`-st retry. -/
theorem computeDelay_noJitter (attempts : ℤ) (baseDelay factor cap draw : ℚ) (k : ℕ) :
    (RetryManager.new attempts baseDelay factor cap false).computeDelay (k + 1) draw = min cap (baseDelay * factor ^ k) :=
  rfl

/-- **The value after `k` others is the manager's delay.** -/
theorem next_reached (attempts : ℤ) (draw : ℚ) {k : ℕ} (hk : k < maxAttempts.toNat) :
    (reached maxAttempts baseDelay factor cap k).next =
      some ((RetryManager.new attempts baseDelay factor cap false).computeDelay (k + 1) draw,
        reached maxAttempts baseDelay factor cap (k + 1)) := by
  obtain ⟨left, hleft⟩ : ∃ left, maxAttempts.toNat - k = left + 1 := ⟨maxAttempts.toNat - k - 1, by omega⟩
  have hrest : maxAttempts.toNat - (k + 1) = left := by omega
  have hpow : baseDelay * factor ^ k * factor = baseDelay * factor ^ (k + 1) := by ring
  rw [computeDelay_noJitter, min_comm]
  simp only [next, reached, hleft, hrest, hpow]

theorem next_reached_end (baseDelay factor cap : ℚ) {k : ℕ} (hk : maxAttempts.toNat ≤ k) :
    (reached maxAttempts baseDelay factor cap k).next = none := by
  have hleft : maxAttempts.toNat - k = 0 := by omega
  simp only [next, reached, hleft]

theorem values_reached (attempts : ℤ) (draw : ℚ) : ∀ (turns k : ℕ),
    values turns (reached maxAttempts baseDelay factor cap k) =
      (List.range' k (min turns (maxAttempts.toNat - k))).map
        (fun j => (RetryManager.new attempts baseDelay factor cap false).computeDelay (j + 1) draw)
  | 0, k => by simp [values]
  | turns + 1, k => by
    by_cases hk : k < maxAttempts.toNat
    · have hmin : min (turns + 1) (maxAttempts.toNat - k) = min turns (maxAttempts.toNat - (k + 1)) + 1 := by omega
      rw [values, next_reached attempts draw hk, hmin, List.range'_succ, List.map_cons]
      exact congrArg _ (values_reached attempts draw turns (k + 1))
    · have hmin : min (turns + 1) (maxAttempts.toNat - k) = 0 := by omega
      rw [values, next_reached_end _ _ _ (not_lt.1 hk), hmin]
      rfl

end BackoffDelays

structure ExponentialBackoff where
  maxAttempts : ℤ
  baseDelay : ℚ
  factor : ℚ
  maxDelay : Option ℚ

/-- `__iter__`. -/
def ExponentialBackoff.iter (b : ExponentialBackoff) : BackoffDelays :=
  exponentialBackoffDelays b.maxAttempts b.baseDelay b.factor b.maxDelay

/-! ## Iterations of one object -/

inductive IterEvent where
  | iter
  /-- `next` of the iterator that was made after `i` others -/
  | next (i : ℕ)
  deriving DecidableEq

inductive IterAnswer where
  | iterator
  | value (v : ℚ)
  | stopIteration
  | missing
  deriving DecidableEq

/-- An object and the iterators made of it. -/
structure Iterations where
  backoff : ExponentialBackoff
  iterators : List BackoffDelays

namespace Iterations

open Runs BackoffDelays

def step (s : Iterations) : IterEvent → IterAnswer × Iterations
  | .iter => (.iterator, { s with iterators := s.iterators ++ [s.backoff.iter] })
  | .next i =>
    match s.iterators[i]? with
    | none => (.missing, s)
    | some g =>
      match g.next with
      | none => (.stopIteration, s)
      | some r => (.value r.1, { s with iterators := s.iterators.set i r.2 })

/-- The values an iterator has yielded. -/
def valuesOf (i : ℕ) (tr : List (IterEvent × IterAnswer)) : List ℚ :=
  tr.filterMap (fun p => match p.2 with
    | .value v => if p.1 = .next i then some v else none
    | _ => none)

/-- How many iterators have been made. -/
def made (es : List IterEvent) : ℕ := es.count .iter

theorem valuesOf_snoc (i : ℕ) (tr : List (IterEvent × IterAnswer)) (e : IterEvent) (a : IterAnswer) :
    valuesOf i (tr ++ [(e, a)]) = valuesOf i tr ++ match a with
      | .value v => if e = .next i then [v] else []
      | _ => [] := by
  rw [valuesOf, List.filterMap_append]
  cases a with
  | value v => by_cases he : e = .next i <;> simp [valuesOf, he]
  | _ => rfl

section
variable (maxAttempts attempts : ℤ) (baseDelay factor cap draw : ℚ)

/-- **Every iterator has yielded the manager's first delays**, and stands after them. -/
structure Yielded (tr : List (IterEvent × IterAnswer)) (s : Iterations) : Prop where
  backoff : s.backoff = ⟨maxAttempts, baseDelay, factor, some cap⟩
  made : s.iterators.length = (tr.map Prod.fst).count .iter
  reached : ∀ i, ∃ k ≤ maxAttempts.toNat,
    (∀ g ∈ s.iterators[i]?, g = reached maxAttempts baseDelay factor cap k) ∧
    (s.iterators[i]? = none → k = 0) ∧
    valuesOf i tr = (List.range k).map
      (fun j => (RetryManager.new attempts baseDelay factor cap false).computeDelay (j + 1) draw)

variable {maxAttempts attempts baseDelay factor cap draw} {tr : List (IterEvent × IterAnswer)} {s : Iterations}

theorem yielded_new : Yielded maxAttempts attempts baseDelay factor cap draw []
    ⟨⟨maxAttempts, baseDelay, factor, some cap⟩, []⟩ := by
  refine ⟨rfl, rfl, fun i => ⟨0, Nat.zero_le _, fun g hg => ?_, fun _ => rfl, rfl⟩⟩
  simp at hg

theorem yielded_iter (h : Yielded maxAttempts attempts baseDelay factor cap draw tr s) :
    Yielded maxAttempts attempts baseDelay factor cap draw (tr ++ [(.iter, .iterator)]) (step s .iter).2 := by
  have hiter : s.backoff.iter = BackoffDelays.reached maxAttempts baseDelay factor cap 0 := by
    rw [h.backoff, BackoffDelays.reached_zero]
    rfl
  refine ⟨h.backoff, ?_, fun i => ?_⟩
  · simp [step, h.made]
  · obtain ⟨k, hk, hat, hnone, hvals⟩ := h.reached i
    refine ⟨k, hk, fun g hg => ?_, fun hn => ?_, ?_⟩
    · rcases Parties.getElem?_concat_cases hg with ⟨rfl, rfl⟩ | hg
      · rw [hnone (List.getElem?_eq_none le_rfl), hiter]
      · exact hat g hg
    · refine hnone (List.getElem?_eq_none ?_)
      have hlen := List.getElem?_eq_none_iff.1 hn
      rw [step, List.length_append] at hlen
      omega
    · rw [valuesOf_snoc, hvals]
      exact List.append_nil _

/-- **What an iterator answers next.** -/
theorem step_next (h : Yielded maxAttempts attempts baseDelay factor cap draw tr s) {i : ℕ}
    (hi : i < s.iterators.length) : ∃ k ≤ maxAttempts.toNat,
    s.iterators[i]? = some (BackoffDelays.reached maxAttempts baseDelay factor cap k) ∧
    valuesOf i tr = (List.range k).map
      (fun j => (RetryManager.new attempts baseDelay factor cap false).computeDelay (j + 1) draw) ∧
    step s (.next i) = if k < maxAttempts.toNat then
        (.value ((RetryManager.new attempts baseDelay factor cap false).computeDelay (k + 1) draw),
          { s with iterators := s.iterators.set i (BackoffDelays.reached maxAttempts baseDelay factor cap (k + 1)) })
      else (.stopIteration, s) := by
  obtain ⟨k, hk, hat, -, hvals⟩ := h.reached i
  have hg : s.iterators[i]? = some (BackoffDelays.reached maxAttempts baseDelay factor cap k) := by
    rw [List.getElem?_eq_getElem hi]
    exact congrArg some (hat _ (List.getElem?_eq_getElem hi))
  refine ⟨k, hk, hg, hvals, ?_⟩
  by_cases hlt : k < maxAttempts.toNat
  · simp only [step, hg, next_reached attempts draw hlt, if_pos hlt]
  · simp only [step, hg, next_reached_end _ _ _ (not_lt.1 hlt), if_neg hlt]

/-- An answer that is no value leaves every iterator as it was. -/
theorem yielded_same (h : Yielded maxAttempts attempts baseDelay factor cap draw tr s) (i : ℕ) {a : IterAnswer}
    (ha : ∀ v, a ≠ .value v) : Yielded maxAttempts attempts baseDelay factor cap draw (tr ++ [(.next i, a)]) s := by
  refine ⟨h.backoff, by simpa using h.made, fun j => ?_⟩
  obtain ⟨k, hk, hat, hnone, hvals⟩ := h.reached j
  refine ⟨k, hk, hat, hnone, ?_⟩
  rw [valuesOf_snoc, hvals]
  cases a with
  | value v => exact absurd rfl (ha v)
  | _ => exact List.append_nil _

/-- **A value is the manager's next delay**, and the other iterators stay where they were. -/
theorem yielded_value (h : Yielded maxAttempts attempts baseDelay factor cap draw tr s) {i k : ℕ}
    (hi : i < s.iterators.length) (hlt : k < maxAttempts.toNat) (hvals : valuesOf i tr = (List.range k).map
      (fun j => (RetryManager.new attempts baseDelay factor cap false).computeDelay (j + 1) draw)) :
    Yielded maxAttempts attempts baseDelay factor cap draw
      (tr ++ [(.next i, .value ((RetryManager.new attempts baseDelay factor cap false).computeDelay (k + 1) draw))])
      { s with iterators := s.iterators.set i (BackoffDelays.reached maxAttempts baseDelay factor cap (k + 1)) } := by
  refine ⟨h.backoff, by simpa using h.made, fun j => ?_⟩
  by_cases hj : j = i
  · subst hj
    refine ⟨k + 1, hlt, fun g hg => ?_, fun hn => ?_, ?_⟩
    · rw [List.getElem?_set_self hi] at hg
      exact (Option.some.inj hg).symm
    · rw [List.getElem?_set_self hi] at hn
      cases hn
    · rw [valuesOf_snoc, hvals, List.range_succ, List.map_append]
      simp
  · obtain ⟨k', hk', hat', hnone', hvals'⟩ := h.reached j
    refine ⟨k', hk', ?_, ?_, ?_⟩
    · rwa [List.getElem?_set_ne (Ne.symm hj)]
    · rwa [List.getElem?_set_ne (Ne.symm hj)]
    · have hne : IterEvent.next i ≠ .next j := fun he => hj (IterEvent.next.inj he).symm
      rw [valuesOf_snoc, hvals']
      simp [hne]

theorem yielded_next (h : Yielded maxAttempts attempts baseDelay factor cap draw tr s) (i : ℕ) :
    Yielded maxAttempts attempts baseDelay factor cap draw (tr ++ [(.next i, (step s (.next i)).1)])
      (step s (.next i)).2 := by
  by_cases hi : i < s.iterators.length
  · obtain ⟨k, -, -, hvals, hstep⟩ := step_next h hi
    rw [hstep]
    by_cases hlt : k < maxAttempts.toNat
    · rw [if_pos hlt]
      exact yielded_value h hi hlt hvals
    · rw [if_neg hlt]
      exact yielded_same h i (by simp)
  · have hg : s.iterators[i]? = none := List.getElem?_eq_none (not_lt.1 hi)
    have hstep : step s (.next i) = (.missing, s) := by simp only [step, hg]
    rw [hstep]
    exact yielded_same h i (by simp)

theorem yielded_run (es : List IterEvent) : Yielded maxAttempts attempts baseDelay factor cap draw
    (trace step ⟨⟨maxAttempts, baseDelay, factor, some cap⟩, []⟩ es)
    (run step ⟨⟨maxAttempts, baseDelay, factor, some cap⟩, []⟩ es) := by
  induction es using List.reverseRecOn with
  | nil => exact yielded_new
  | append_singleton es e ih =>
    rw [trace_snoc, run_snoc]
    cases e with
    | iter => exact yielded_iter ih
    | next i => exact yielded_next ih i

end

/-- **The two implementations of the backoff agree.**  A generator yields the delays a manager without jitter computes
for its first `n` retries, and no more; and so does each iterator of an `ExponentialBackoff`, however the iterations
interleave: after `k` values its next answer is the `k + 1`-st delay, or the end once `k` is `n`. -/
theorem backoff_agrees (n attempts : ℤ) (baseDelay factor cap draw : ℚ) :
    (∀ turns, values turns (exponentialBackoffDelays n baseDelay factor (some cap)) =
      (List.range (min turns n.toNat)).map
        (fun j => (RetryManager.new attempts baseDelay factor cap false).computeDelay (j + 1) draw)) ∧
    ∀ (es : List IterEvent) (i : ℕ), i < made es → ∃ k ≤ n.toNat,
      valuesOf i (trace step ⟨⟨n, baseDelay, factor, some cap⟩, []⟩ es) = (List.range k).map
        (fun j => (RetryManager.new attempts baseDelay factor cap false).computeDelay (j + 1) draw) ∧
      (step (run step ⟨⟨n, baseDelay, factor, some cap⟩, []⟩ es) (.next i)).1 = if k < n.toNat then
          .value ((RetryManager.new attempts baseDelay factor cap false).computeDelay (k + 1) draw)
        else .stopIteration := by
  refine ⟨fun turns => ?_, fun es i hi => ?_⟩
  · rw [← reached_zero, values_reached attempts draw turns 0, Nat.sub_zero, List.range_eq_range']
  · have h : Yielded n attempts baseDelay factor cap draw (trace step ⟨⟨n, baseDelay, factor, some cap⟩, []⟩ es)
        (run step ⟨⟨n, baseDelay, factor, some cap⟩, []⟩ es) := yielded_run es
    have hlen := h.made
    rw [trace_map_fst] at hlen
    obtain ⟨k, hk, -, hvals, hstep⟩ := step_next h (hlen.symm ▸ hi : i < _)
    refine ⟨k, hk, hvals, ?_⟩
    rw [hstep]
    split <;> rfl

end Iterations
end Ticket
