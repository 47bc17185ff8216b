import TicketBooking.BookingCount
import TicketBooking.RetryLoop
/-!
# BookCalls — `book_with_retry` among other calls (`dashboard.py`, `retry/retry_manager.py`)

The site runs a call of `book_with_retry` attempt by attempt, with anything between two attempts of it; the source runs
it as one `RetryManager.call` of `_book_once`.  The two agree (`books_with_retry`): whatever happens in between, a call
gets the answer that one `RetryManager.call` gives it on the outcomes of its own attempts, and while it has none it
stands where that loop stands.
-/
namespace Ticket

open Runs RetryManager

/-! ## The call in one piece -/

namespace App

/-- The `on_retry`, the `on_giveup` and the logger of `book_with_retry`, none of which raises. -/
def bookObservers : Observers BookingError := ⟨some fun _ _ _ => false, some fun _ => false, some fun _ => false⟩

/-- `retry_exceptions=(TransientBookingError,)`. -/
def retryable : BookingError → Bool
  | .transient _ => true
  | .nonRetryable _ => false

/-- What `book_with_retry` returns by the way `manager.call` ends; `none` is an exception that it passes on. -/
def answer : Ending Response BookingError → Option Response
  | .returned r => some r
  | .raised (.nonRetryable message) => some (.failed "not_retryable" message)
  | .retryError message _ => some (.failed "retry_failed" message)
  | _ => none

/-- `manager.call(lambda: self._book_once(seat_id, requester))`, by the outcomes of `_book_once`. -/
def bookWithRetry (once : ℕ → FnOutcome Response BookingError) (draw : ℕ → Draw) : RetryRun Response BookingError :=
  call retryManager bookObservers retryable once draw

end App

/-- The outcome of an attempt as one of `_book_once`. -/
def attemptOutcome : Except BookingError Response → FnOutcome Response BookingError
  | .ok r => .returned r
  | .error e => .raised e

/-- `_book_once` with the outcomes `outs`, and any others after them. -/
def follow (outs : List (Except BookingError Response)) (rest : ℕ → FnOutcome Response BookingError) (j : ℕ) :
    FnOutcome Response BookingError := ((outs[j]?).map attemptOutcome).getD (rest j)

namespace Site

/-- The outcome of a step that is an attempt of call `k`. -/
def outcomeOf (k : ℕ) (s : Site) (e : Event) : Option (Except BookingError Response) :=
  match e with
  | .attempt call env _ => if call = k then (s.running k).map (fun c => (s.attempted env c).1) else none
  | _ => none

/-- The outcomes of the attempts of call `k` in a run, in order. -/
def outcomesOf (k : ℕ) (s : Site) : List Event → List (Except BookingError Response)
  | [] => []
  | e :: es => (outcomeOf k s e).toList ++ outcomesOf k (step s e).2 es

theorem outcomesOf_snoc (k : ℕ) (e : Event) : ∀ (es : List Event) (s : Site),
    outcomesOf k s (es ++ [e]) = outcomesOf k s es ++ (outcomeOf k (run step s es) e).toList
  | [], s => by simp [outcomesOf]
  | e' :: es, s => by
    rw [List.cons_append, outcomesOf, outcomesOf, outcomesOf_snoc k e es, run_cons, List.append_assoc]

/-! ## How a call has fared -/

/-- What the last outcome of a call makes it return, after `n` failures. -/
def Ends (n : ℕ) (r : Response) : Except BookingError Response → Prop
  | .ok r' => r = r'
  | .error (.nonRetryable m) => r = .failed "not_retryable" m
  | .error (.transient _) => n = 2 ∧ r = .failed "retry_failed" s!"Retries exhausted after {n + 1} attempts"

/-- Failures that are retried. -/
def failed (ms : List String) : List (Except BookingError Response) := ms.map (fun m => .error (.transient m))

/-- **A call by the outcomes of its attempts**: two failures at most, and once it has returned, the outcome by which. -/
inductive Fared (c : BookCall) (outs : List (Except BookingError Response)) : Prop
  | running (ms : List String) (outs_eq : outs = failed ms) (none : c.response = none)
      (failures : c.failures = ms.length) (le : ms.length ≤ 2)
  | done (ms : List String) (last : Except BookingError Response) (r : Response) (outs_eq : outs = failed ms ++ [last])
      (some : c.response = some r) (le : ms.length ≤ 2) (ends : Ends ms.length r last)

/-- **An attempt settles its call by its outcome.** -/
theorem fared_settle {c : BookCall} {outs : List (Except BookingError Response)} (h : Fared c outs)
    (hc : c.response = none) (outcome : Except BookingError Response) (draw : ℚ) :
    Fared (settle c outcome draw) (outs ++ [outcome]) := by
  have hresponse := settle_response c hc outcome draw
  cases h with
  | done _ _ r _ hr => rw [hc] at hr; cases hr
  | running ms houts _ hfailures hle =>
    subst houts
    cases outcome with
    | ok r => exact .done ms (.ok r) r rfl hresponse hle rfl
    | error e =>
      cases e with
      | nonRetryable m => exact .done ms (.error (.nonRetryable m)) _ rfl hresponse hle rfl
      | transient m =>
        dsimp only at hresponse
        by_cases hlast : 2 ≤ c.failures
        · rw [if_pos hlast, hfailures] at hresponse
          exact .done ms (.error (.transient m)) _ rfl hresponse hle ⟨by omega, rfl⟩
        · rw [if_neg hlast] at hresponse
          have hmore : (settle c (.error (.transient m)) draw).failures = c.failures + 1 := by
            have hmax : App.retryManager.maxAttempts = 3 := by decide
            simp only [settle, afterFailure, hmax, if_neg (show ¬ 3 ≤ c.failures + 1 by omega)]
          refine .running (ms ++ [m]) ?_ hresponse ?_ ?_
          · unfold failed
            rw [List.map_append, List.map_singleton]
          · rw [hmore, hfailures, List.length_append, List.length_singleton]
          · rw [List.length_append, List.length_singleton]
            omega

theorem outcomeOf_of_not {k : ℕ} {s : Site} {e : Event} (h : ∀ env draw c, ¬ s.Attempts e k env draw c) :
    outcomeOf k s e = none := by
  cases e with
  | attempt call env draw =>
    unfold outcomeOf
    dsimp only
    by_cases hk : call = k
    · subst hk
      rw [if_pos rfl]
      cases hc : s.running call with
      | none => rfl
      | some c => exact absurd ⟨rfl, hc⟩ (h env draw c)
    · rw [if_neg hk]
  | _ => rfl

/-- Before it is made, a call has no outcomes; then it has fared by them. -/
theorem fared_run (b : Boot) (k : ℕ) (es : List Event) :
    ((run step b.site es).calls[k]? = none → outcomesOf k b.site es = []) ∧
    ∀ c, (run step b.site es).calls[k]? = some c → Fared c (outcomesOf k b.site es) := by
  induction es using List.reverseRecOn with
  | nil => exact ⟨fun _ => rfl, fun c hc => by simp [run, Boot.site] at hc⟩
  | append_singleton es e ih =>
    rw [run_snoc, outcomesOf_snoc]
    generalize run step b.site es = s at ih ⊢
    cases hc : s.calls[k]? with
    | none =>
      have hnone : outcomeOf k s e = none := outcomeOf_of_not fun env draw c ha => by
        have hnot := (calls_step_none hc e).2
        rw [Bool.eq_false_iff, ne_eq, isAttempt_iff] at hnot
        exact hnot ⟨env, draw, c, ha⟩
      rw [hnone, ih.1 hc]
      refine ⟨fun _ => rfl, fun c hnew => ?_⟩
      cases e with
      | book seatId requester =>
        have hlen := List.getElem?_eq_none_iff.1 hc
        simp only [step, List.getElem?_append_right hlen] at hnew
        obtain rfl : c = ⟨seatId, requester, 0, none⟩ := by
          cases hd : k - s.calls.length with
          | zero => rw [hd] at hnew; exact (Option.some.inj hnew).symm
          | succ d => rw [hd] at hnew; cases hnew
        exact .running [] rfl rfl rfl (Nat.zero_le 2)
      | attempt call env draw =>
        simp only [step] at hnew
        cases hr : s.running call with
        | none =>
          rw [hr] at hnew
          rw [hc] at hnew
          cases hnew
        | some c' =>
          rw [hr] at hnew
          dsimp only at hnew
          rw [List.getElem?_eq_none_iff.2 (by rw [List.length_set]; exact List.getElem?_eq_none_iff.1 hc)] at hnew
          cases hnew
      | _ => exact absurd (hc.symm.trans hnew) (Option.some_ne_none c).symm
    | some c =>
      have hfared := ih.2 c hc
      rcases calls_step hc e with ⟨hsame, hnever⟩ | ⟨env, draw, ha, hnext⟩
      · rw [hsame, outcomeOf_of_not hnever, Option.toList_none, List.append_nil]
        refine ⟨fun hnone => absurd hnone (Option.some_ne_none _), fun c' hc' => ?_⟩
        rw [← Option.some.inj hc']
        exact hfared
      · have hout : outcomeOf k s e = some (s.attempted env c).1 := by
          obtain ⟨rfl, hrunning⟩ := ha
          simp only [outcomeOf, if_true, hrunning, Option.map_some]
        rw [hnext, hout, Option.toList_some]
        refine ⟨fun hnone => absurd hnone (Option.some_ne_none _), fun c' hc' => ?_⟩
        rw [← Option.some.inj hc']
        exact fared_settle hfared (running_some ha.2).2 _ _

/-! ## The two agree -/

section
variable (ms : List String) (rest : ℕ → FnOutcome Response BookingError) (draw : ℕ → Draw)

/-- The exceptions of failures that are retried. -/
def exceptions (ms : List String) (j : ℕ) : BookingError := .transient (ms.getD j "")

theorem follow_failed {ms : List String} (tail : List (Except BookingError Response)) {n : ℕ} (hn : n ≤ ms.length) :
    FailsUpTo App.retryable (follow (failed ms ++ tail) rest) (exceptions ms) n := by
  intro j hj
  have hlt : j < ms.length := by omega
  refine ⟨?_, rfl⟩
  unfold follow failed exceptions
  rw [List.getElem?_append_left (by rwa [List.length_map]), List.getElem?_map, List.getElem?_eq_getElem hlt,
    List.getD_eq_getElem _ _ hlt]
  rfl

theorem follow_last (last : Except BookingError Response) :
    follow (failed ms ++ [last]) rest ms.length = attemptOutcome last := by
  have hlen : (failed ms).length = ms.length := List.length_map ..
  unfold follow
  rw [← hlen, List.getElem?_append_right le_rfl, Nat.sub_self]
  rfl

theorem bookObservers_logs : App.bookObservers.Logs := ⟨_, rfl, fun _ => rfl⟩

theorem retryManager_delays (draw : ℕ → Draw) (k : ℕ) : 0 ≤ App.retryManager.computeDelay k (draw k).1 :=
  computeDelay_nonneg (by decide +kernel) k (draw k)

/-- **A call in one piece that fails and then passes an outcome on.** -/
theorem bookWithRetry_passes (last : Except BookingError Response) (hle : ms.length ≤ 2)
    (hp : Passes App.retryable (attemptOutcome last)) :
    App.bookWithRetry (follow (failed ms ++ [last]) rest) draw =
      ⟨(List.range ms.length).flatMap
          (fun j => failedTurn App.retryManager App.bookObservers draw (exceptions ms j) j) ++ [.invoked],
        (attemptOutcome last).ending⟩ := by
  have hmax : App.retryManager.maxAttempts = 3 := by decide
  rw [← follow_last ms rest] at hp
  have hcall := call_passes bookObservers_logs (retryManager_delays draw) (by rw [hmax]; omega)
    (follow_failed rest [last] le_rfl) hp
  rw [follow_last] at hcall
  exact hcall

/-- A call in one piece that fails three times. -/
theorem bookWithRetry_givesUp (hlen : ms.length = 3) : App.bookWithRetry (follow (failed ms) rest) draw =
    ⟨(List.range 2).flatMap (fun j => failedTurn App.retryManager App.bookObservers draw (exceptions ms j) j) ++
      lastTurn App.bookObservers (exceptions ms 2) 2,
      .retryError s!"Retries exhausted after {2 + 1} attempts" (some (exceptions ms 2))⟩ := by
  have hmax : App.retryManager.maxAttempts = 2 + 1 := by decide
  have hf := follow_failed rest [] hlen.ge
  rw [List.append_nil] at hf
  exact call_givesUp bookObservers_logs (retryManager_delays draw) hmax hf

/-- A call in one piece that has failed and goes on. -/
theorem bookWithRetry_running (hle : ms.length ≤ 2) : App.bookWithRetry (follow (failed ms) rest) draw =
    (loop App.retryManager App.bookObservers App.retryable (follow (failed ms) rest) draw (3 - ms.length)
      ms.length).after
      ((List.range ms.length).flatMap
        (fun j => failedTurn App.retryManager App.bookObservers draw (exceptions ms j) j)) := by
  have hmax : App.retryManager.maxAttempts = 3 := by decide
  have hf := follow_failed rest [] (le_refl ms.length)
  rw [List.append_nil, ← Nat.zero_add ms.length] at hf
  have hturns := loop_failedTurns (m := App.retryManager) bookObservers_logs (retryManager_delays draw)
    (3 - ms.length) ms.length 0 hf (by rw [hmax]; omega)
  rw [Nat.zero_add, ← List.range_eq_range', show 3 - ms.length + ms.length = App.retryManager.maxAttempts by omega]
    at hturns
  exact hturns

end

/-- The first retry is after at most 0.3 seconds and the second after at most 0.6. -/
theorem retryManager_delay_le (q : Draw) : App.retryManager.computeDelay 1 q.1 ≤ 3 / 10 ∧
    App.retryManager.computeDelay 2 q.1 ≤ 6 / 10 := by
  have hq := q.2.2
  unfold computeDelay
  have hjitter : App.retryManager.jitter = true := rfl
  have hfirst : min App.retryManager.maxDelay (App.retryManager.baseDelay * App.retryManager.backoffFactor ^ (1 - 1)) =
      1 / 4 := by decide +kernel
  have hsecond : min App.retryManager.maxDelay (App.retryManager.baseDelay * App.retryManager.backoffFactor ^ (2 - 1)) =
      1 / 2 := by decide +kernel
  simp only [hjitter, hfirst, hsecond, if_true]
  norm_num
  constructor <;> linarith

/-- What a call comes to that fails `n` times before its last invocation. -/
theorem tally_of_turns {r : RetryRun Response BookingError} {draw : ℕ → Draw} {excs : ℕ → BookingError} {n : ℕ}
    {tail : List (RetryEvent BookingError)}
    (he : r.events = (List.range n).flatMap (fun j => failedTurn App.retryManager App.bookObservers draw (excs j) j) ++
      tail) (hn : n ≤ 2) (hinvoked : tail.countP RetryEvent.isInvoked = 1)
    (hretries : tail.filterMap RetryEvent.retry? = []) (hsleeps : tail.filterMap RetryEvent.slept? = []) :
    r.invocations = n + 1 ∧ r.retries.length = n ∧ r.sleeps.sum ≤ 9 / 10 := by
  refine ⟨?_, ?_, ?_⟩
  · unfold RetryRun.invocations
    rw [he, List.countP_append, countP_failedTurns, hinvoked]
  · unfold RetryRun.retries
    rw [he, List.filterMap_append, hretries, retries_failedTurns,
      if_pos (show App.bookObservers.onRetry.isSome = true from rfl), List.append_nil, List.length_map,
      List.length_range]
  · unfold RetryRun.sleeps
    rw [he, List.filterMap_append, hsleeps, sleeps_failedTurns, List.append_nil]
    have h1 := (retryManager_delay_le (draw 1)).1
    have h2 := (retryManager_delay_le (draw 2)).2
    have h0 := retryManager_delays draw 1
    interval_cases n
    · norm_num
    · simp only [List.range_one, List.map_cons, List.map_nil, List.sum_cons, List.sum_nil]
      linarith
    · have hrange : List.range 2 = [0, 1] := rfl
      simp only [hrange, List.map_cons, List.map_nil, List.sum_cons, List.sum_nil]
      norm_num at h1 h2 ⊢
      linarith

/-- **Every call is a `RetryManager.call`**, whatever is interleaved with its attempts.  It makes at most three of them.
Once it is answered, `RetryManager.call` on the outcomes of these attempts, with any others to follow and any draws,
gives the same answer after as many invocations, of which all but one were retried, and sleeps less than a second in
all.  Until then it has failed twice at most, and that call stands where the loop does after these failures. -/
theorem books_with_retry (b : Boot) (es : List Event) (k : ℕ) (c : BookCall)
    (hk : (run step b.site es).calls[k]? = some c) (rest : ℕ → FnOutcome Response BookingError) (draw : ℕ → Draw) :
    (∀ r, c.response = some r → (outcomesOf k b.site es).length ≤ 3 ∧
      App.answer (App.bookWithRetry (follow (outcomesOf k b.site es) rest) draw).ending = some r ∧
      (App.bookWithRetry (follow (outcomesOf k b.site es) rest) draw).invocations = (outcomesOf k b.site es).length ∧
      (App.bookWithRetry (follow (outcomesOf k b.site es) rest) draw).retries.length + 1 =
        (outcomesOf k b.site es).length ∧
      (App.bookWithRetry (follow (outcomesOf k b.site es) rest) draw).sleeps.sum ≤ 9 / 10) ∧
    (c.response = none → (outcomesOf k b.site es).length ≤ 2 ∧ ∃ before,
      before.countP RetryEvent.isInvoked = (outcomesOf k b.site es).length ∧
      App.bookWithRetry (follow (outcomesOf k b.site es) rest) draw =
        (loop App.retryManager App.bookObservers App.retryable (follow (outcomesOf k b.site es) rest) draw
          (3 - (outcomesOf k b.site es).length) (outcomesOf k b.site es).length).after before) := by
  have hfared := (fared_run b k es).2 c hk
  generalize outcomesOf k b.site es = outs at hfared ⊢
  cases hfared with
  | running ms houts hnone hfailures hle =>
    subst houts
    have hlen : (failed ms).length = ms.length := List.length_map ..
    refine ⟨fun r hr => absurd (hnone.symm.trans hr) nofun, fun _ => ?_⟩
    rw [hlen]
    exact ⟨hle, _, countP_failedTurns _ _ _ _ _, bookWithRetry_running ms rest draw hle⟩
  | done ms last r houts hr hle hends =>
    subst houts
    have hlen : (failed ms ++ [last]).length = ms.length + 1 := by
      rw [List.length_append, List.length_singleton]
      exact congrArg (· + 1) (List.length_map ..)
    refine ⟨fun r' hr' => ?_, fun hnone => absurd (hnone.symm.trans hr) nofun⟩
    obtain rfl := Option.some.inj (hr.symm.trans hr')
    rw [hlen]
    cases last with
    | ok r' =>
      obtain rfl : r = r' := hends
      have hcall := bookWithRetry_passes ms rest draw (.ok r) hle trivial
      obtain ⟨hinv, hret, hsl⟩ := tally_of_turns (congrArg RetryRun.events hcall) hle rfl rfl rfl
      exact ⟨by omega, by rw [hcall]; rfl, hinv, by rw [hret], hsl⟩
    | error e =>
      cases e with
      | nonRetryable m =>
        have hcall := bookWithRetry_passes ms rest draw (.error (.nonRetryable m)) hle rfl
        obtain ⟨hinv, hret, hsl⟩ := tally_of_turns (congrArg RetryRun.events hcall) hle rfl rfl rfl
        refine ⟨by omega, ?_, hinv, by rw [hret], hsl⟩
        rw [hcall, show r = _ from hends]
        rfl
      | transient m =>
        obtain ⟨htwo, hmessage⟩ := hends
        have hfailed : failed ms ++ [.error (.transient m)] = failed (ms ++ [m]) := by
          unfold failed
          rw [List.map_append, List.map_singleton]
        have hcall := bookWithRetry_givesUp (ms ++ [m]) rest draw (by simp [htwo])
        rw [← hfailed] at hcall
        obtain ⟨hinv, hret, hsl⟩ := tally_of_turns (congrArg RetryRun.events hcall) le_rfl rfl rfl rfl
        rw [htwo] at hmessage ⊢
        refine ⟨le_rfl, ?_, hinv, by rw [hret], hsl⟩
        rw [hcall, hmessage]
        rfl

/-- A call whose first attempt fails, and whose second books through another server. -/
def secondAttempt : List Event :=
  [.book 1 "Ann", .attempt 0 { Env.calm 0 idA with random := 0 } 0, .attempt 0 (.calm 1 idB) 0]

theorem books_with_retry_secondAttempt :
    App.answer (App.bookWithRetry (follow (outcomesOf 0 Boot.calm.site secondAttempt) fun _ => .raised (.transient ""))
      fun _ => ⟨0, le_rfl, zero_le_one⟩).ending = some (.booked 1 .server2 "seat-1") :=
  ((books_with_retry .calm secondAttempt 0 ⟨1, "Ann", 1, some (.booked 1 .server2 "seat-1")⟩ (by decide +kernel)
    (fun _ => .raised (.transient "")) fun _ => ⟨0, le_rfl, zero_le_one⟩).1 _ rfl).2.1

end Site
end Ticket
