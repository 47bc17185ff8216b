import TicketBooking.Attempts
/-!
# BookingCount — what a booking request adds to the counters (`dashboard.py`)

`success_count` is written by the attempt that books, under the lock; a call that gives up returns through `_fail`,
which is told not to count.  So a call that books is counted once and a call that fails not at all: a call is counted as
it should be exactly when no attempt of it gives up (`counted_once_iff`).
-/
namespace Ticket

open Runs

namespace Site

/-- `success_count` and `failure_count`. -/
def counts (s : Site) : ℤ × ℤ := (s.app.successCount, s.app.failureCount)

def isAttempt (s : Site) (k : ℕ) : Event → Bool
  | .attempt call _ _ => decide (call = k) && (s.running k).isSome
  | _ => false

/-- **What the steps of call `k` add to the counters** in a run. -/
def tally (k : ℕ) (s : Site) : List Event → ℤ × ℤ
  | [] => 0
  | e :: es => (if s.isAttempt k e = true then (step s e).2.counts - s.counts else 0) + tally k (step s e).2 es

/-- **The call is counted once**: as a success if it returns the booking, as a failure if it returns one. -/
def CountedOnce (b : Boot) (es : List Event) (k : ℕ) : Prop :=
  ∀ c, (run step b.site es).calls[k]? = some c →
    (∀ i server key, c.response = some (.booked i server key) → tally k b.site es = (1, 0)) ∧
    (∀ code m, c.response = some (.failed code m) → tally k b.site es = (0, 1))

/-- **The step is an attempt of call `k` that gives it up**: the seat may not be booked, or no server is offered, or the
authority has a live lease for the seat; or two attempts have failed before, and the failure is injected or a timer does
not start. -/
def GivesUp (s : Site) (e : Event) (k : ℕ) : Prop :=
  ∃ env draw c, s.Attempts e k env draw c ∧
    (¬ (s.swept env).tables.Bookable c.seatId ∨ (s.swept env).offers env c.seatId = none ∨
      (¬ env.random < 1 / 5 ∧ (s.swept env).Leased env c.seatId) ∨
      (2 ≤ c.failures ∧ (env.random < 1 / 5 ∨ ¬ env.Sends)))

theorem isAttempt_iff {s : Site} {k : ℕ} {e : Event} :
    s.isAttempt k e = true ↔ ∃ env draw c, s.Attempts e k env draw c := by
  constructor
  · intro h
    cases e with
    | attempt call env draw =>
      simp only [isAttempt, Bool.and_eq_true, decide_eq_true_eq] at h
      obtain ⟨rfl, hsome⟩ := h
      obtain ⟨c, hc⟩ := Option.isSome_iff_exists.1 hsome
      exact ⟨env, draw, c, rfl, hc⟩
    | _ => cases h
  · rintro ⟨env, draw, c, rfl, hc⟩
    simp [isAttempt, hc]

theorem tally_snoc (k : ℕ) (e : Event) : ∀ (es : List Event) (s : Site),
    tally k s (es ++ [e]) = tally k s es +
      if (run step s es).isAttempt k e = true then (run step s (es ++ [e])).counts - (run step s es).counts else 0
  | [], s => by
    simp only [tally, List.nil_append, run_nil, run_cons]
    abel
  | e' :: es, s => by
    rw [List.cons_append, tally, tally, tally_snoc k e es, run_cons, run_cons, add_assoc]

theorem counts_attempt {s : Site} {e : Event} {k : ℕ} {env : Env} {draw : ℚ} {c : BookCall}
    (h : s.Attempts e k env draw c) :
    (step s e).2.counts - s.counts = ((App.counted (s.attempted env c).1 : ℤ), 0) := by
  obtain ⟨hs, hf⟩ := App.bookSwept_counts (s.swept env) env c.seatId c.requester
  have hsuccess : (s.swept env).successCount = s.app.successCount := rfl
  have hfailure : (s.swept env).failureCount = s.app.failureCount := rfl
  unfold counts
  rw [h.app]
  unfold attempted
  rw [hs, hf, hsuccess, hfailure]
  simp

/-- What a call adds to the counters by what it has returned. -/
def paid : Option Response → ℤ × ℤ
  | some (.booked _ _ _) => (1, 0)
  | _ => 0

/-- A call not made yet is not attempted, and has not returned once it is made. -/
theorem calls_step_none {s : Site} {k : ℕ} (h : s.calls[k]? = none) (e : Event) :
    ((step s e).2.calls[k]?).bind BookCall.response = none ∧ s.isAttempt k e = false := by
  have hlen : s.calls.length ≤ k := List.getElem?_eq_none_iff.1 h
  have hnot : s.isAttempt k e = false := by
    rw [Bool.eq_false_iff, ne_eq, isAttempt_iff]
    rintro ⟨env, draw, c, -, hc⟩
    rw [(running_some hc).1] at h
    cases h
  refine ⟨?_, hnot⟩
  cases e with
  | book seatId requester =>
    simp only [step, List.getElem?_append_right hlen]
    cases k - s.calls.length <;> rfl
  | attempt call env draw =>
    simp only [step]
    cases s.running call with
    | none => exact congrArg (·.bind BookCall.response) h
    | some c =>
      rw [List.getElem?_eq_none_iff.2 (by rwa [List.length_set])]
      rfl
  | _ => exact congrArg (·.bind BookCall.response) h

/-- **A call that has booked is counted as one success, and no other call is counted.** -/
theorem tally_run (b : Boot) (k : ℕ) (es : List Event) :
    tally k b.site es = paid (((run step b.site es).calls[k]?).bind BookCall.response) := by
  induction es using List.reverseRecOn with
  | nil => rfl
  | append_singleton es e ih =>
    rw [tally_snoc, ih, run_snoc]
    have hfurnished := furnished_swept b es
    generalize run step b.site es = s at hfurnished ⊢
    cases hc : s.calls[k]? with
    | none =>
      obtain ⟨hnext, hnot⟩ := calls_step_none hc e
      rw [hnext, hnot]
      rfl
    | some c =>
      rcases calls_step hc e with ⟨hsame, hnever⟩ | ⟨env, draw, ha, hnext⟩
      · have hnot : ¬ s.isAttempt k e = true := fun h => by
          obtain ⟨env, draw, c', ha⟩ := isAttempt_iff.1 h
          exact hnever env draw c' ha
        rw [if_neg hnot, hsame, add_zero]
      · have hnone := (running_some ha.2).2
        rw [if_pos (isAttempt_iff.2 ⟨env, draw, c, ha⟩), counts_attempt ha, hnext, Option.bind_some, Option.bind_some,
          settle_response c hnone, hnone]
        cases ho : (s.attempted env c).1 with
        | ok r =>
          obtain ⟨server, key, rfl⟩ := App.booked_of_ok (hfurnished env) ho
          rfl
        | error e =>
          cases e with
          | nonRetryable m => rfl
          | transient m =>
            dsimp only
            split <;> rfl

/-- An attempt that is offered a server and gives up meets a live lease, or is the last one and fails. -/
theorem GivesUp.of_offered {s : Site} {e : Event} {k : ℕ} {env : Env} {draw : ℚ} {c : BookCall} {server : ServerId}
    (hg : s.GivesUp e k) (h : s.Attempts e k env draw c) (bookable : (s.swept env).tables.Bookable c.seatId)
    (offered : (s.swept env).offers env c.seatId = some server) :
    (¬ env.random < 1 / 5 ∧ (s.swept env).Leased env c.seatId) ∨
      (2 ≤ c.failures ∧ (env.random < 1 / 5 ∨ ¬ env.Sends)) := by
  obtain ⟨env', draw', c', h', hwhy⟩ := hg
  obtain ⟨-, rfl, -, rfl⟩ := h.unique h'
  rcases hwhy with hb | ho | hwhy
  · exact absurd bookable hb
  · rw [offered] at ho
    cases ho
  · exact hwhy

/-- **A call returns a failure exactly at an attempt that gives it up.** -/
theorem failed_iff_givesUp {s : Site} {e : Event} {k : ℕ} {env : Env} {draw : ℚ} {c : BookCall}
    (h : s.Attempts e k env draw c) (hf : (s.swept env).tables.Furnished) :
    (∃ code m, (settle c (s.attempted env c).1 draw).response = some (.failed code m)) ↔ s.GivesUp e k := by
  have hout := App.bookSwept_outcome hf env c.seatId c.requester
  rw [settle_response c (running_some h.2).2]
  unfold attempted
  constructor
  · rintro ⟨code, m, hfailed⟩
    refine ⟨env, draw, c, h, ?_⟩
    cases hout with
    | blocked why => exact why.imp_right Or.inl
    | injected _ _ hdraw raised =>
      rw [raised] at hfailed
      dsimp only at hfailed
      split at hfailed
      · exact Or.inr (Or.inr (Or.inr ⟨‹_›, Or.inl hdraw⟩))
      · cases hfailed
    | conflict reached leased => exact Or.inr (Or.inr (Or.inl ⟨(App.reaches_eq_some.1 reached).2.2, leased⟩))
    | notSent reached free stopped raised =>
      rw [raised] at hfailed
      dsimp only at hfailed
      split at hfailed
      · exact Or.inr (Or.inr (Or.inr ⟨‹_›, Or.inr stopped⟩))
      · cases hfailed
    | booked reached free sent ok =>
      rw [ok] at hfailed
      cases hfailed
  · intro hg
    cases hout with
    | blocked why raised =>
      rw [raised]
      exact ⟨_, _, rfl⟩
    | injected bookable offered hdraw raised =>
      have hlast : 2 ≤ c.failures := by
        rcases hg.of_offered h bookable offered with ⟨hn, -⟩ | ⟨hlast, -⟩
        · exact absurd hdraw hn
        · exact hlast
      rw [raised]
      exact ⟨_, _, if_pos hlast⟩
    | conflict reached leased raised =>
      rw [raised]
      exact ⟨_, _, rfl⟩
    | notSent reached free stopped raised =>
      obtain ⟨bookable, offered, -⟩ := App.reaches_eq_some.1 reached
      have hlast : 2 ≤ c.failures := by
        rcases hg.of_offered h bookable offered with ⟨-, hl⟩ | ⟨hlast, -⟩
        · exact absurd hl free
        · exact hlast
      rw [raised]
      exact ⟨_, _, if_pos hlast⟩
    | booked reached free sent ok =>
      obtain ⟨bookable, offered, hdraw⟩ := App.reaches_eq_some.1 reached
      rcases hg.of_offered h bookable offered with ⟨-, hl⟩ | ⟨-, hd | hs⟩
      · exact absurd hl free
      · exact absurd hd hdraw
      · exact absurd sent hs

/-- **A call has returned a failure exactly when some attempt of it has given it up.** -/
theorem failed_run (b : Boot) (k : ℕ) (es : List Event) :
    (∃ c code m, (run step b.site es).calls[k]? = some c ∧ c.response = some (.failed code m)) ↔
      ∃ pre e post, es = pre ++ e :: post ∧ (run step b.site pre).GivesUp e k := by
  constructor
  · induction es using List.reverseRecOn with
    | nil =>
      rintro ⟨c, code, m, hc, -⟩
      cases hc
    | append_singleton es e ih =>
      rintro ⟨c, code, m, hc, hfailed⟩
      rw [run_snoc] at hc
      have hsplit : (∃ pre e' post, es = pre ++ e' :: post ∧ (run step b.site pre).GivesUp e' k) →
          ∃ pre e' post, es ++ [e] = pre ++ e' :: post ∧ (run step b.site pre).GivesUp e' k :=
        fun ⟨pre, e', post, he, hg⟩ => ⟨pre, e', post ++ [e], by rw [he, List.append_assoc, List.cons_append], hg⟩
      cases hb : (run step b.site es).calls[k]? with
      | none =>
        have hnext := (calls_step_none hb e).1
        rw [hc, Option.bind_some, hfailed] at hnext
        cases hnext
      | some c' =>
        rcases calls_step hb e with ⟨hsame, -⟩ | ⟨env, draw, ha, hnext⟩
        · obtain rfl := Option.some.inj (hsame.symm.trans hc)
          exact hsplit (ih ⟨c', code, m, hb, hfailed⟩)
        · obtain rfl := Option.some.inj (hnext.symm.trans hc)
          exact ⟨es, e, [], rfl, (failed_iff_givesUp ha (furnished_swept b es env)).1 ⟨code, m, hfailed⟩⟩
  · rintro ⟨pre, e, post, rfl, hg⟩
    obtain ⟨env, draw, c, ha, -⟩ := id hg
    obtain ⟨code, m, hfailed⟩ := (failed_iff_givesUp ha (furnished_swept b pre env)).2 hg
    refine ⟨_, code, m, ?_, hfailed⟩
    rw [run_append, run_cons]
    exact answered_run ha.calls hfailed post

/-- **A call is counted once exactly when no attempt of it gives it up.** -/
theorem counted_once_iff (b : Boot) (es : List Event) (k : ℕ) :
    CountedOnce b es k ↔ ∀ pre e post, es = pre ++ e :: post → ¬ (run step b.site pre).GivesUp e k := by
  constructor
  · intro h pre e post he hg
    obtain ⟨c, code, m, hc, hfailed⟩ := (failed_run b k es).2 ⟨pre, e, post, he, hg⟩
    have htally := (h c hc).2 code m hfailed
    rw [tally_run, hc, Option.bind_some, hfailed] at htally
    exact absurd (congrArg Prod.snd htally) zero_ne_one
  · intro h c hc
    refine ⟨fun i server key hbooked => ?_, fun code m hfailed => ?_⟩
    · rw [tally_run, hc, Option.bind_some, hbooked]
      rfl
    · obtain ⟨pre, e, post, he, hg⟩ := (failed_run b k es).1 ⟨c, code, m, hc, hfailed⟩
      exact absurd hg (h pre e post he)

/-- A booking with every server offline. -/
def allOffline : List Event :=
  [.toggle "Server 1" (.calm 0 idA), .toggle "Server 2" (.calm 0 idA), .toggle "Server 3" (.calm 0 idA), .book 1 "Ann",
    .attempt 0 (.calm 0 idA) 0]

/-- **The call returns a failure, and no failure is counted.** -/
theorem allOffline_uncounted :
    (run step Boot.calm.site allOffline).calls =
      [⟨1, "Ann", 0, some (.failed "not_retryable" "No online server is available")⟩] ∧
    (run step Boot.calm.site allOffline).counts = (0, 0) ∧ ¬ CountedOnce Boot.calm allOffline 0 := by
  have hcalls : (run step Boot.calm.site allOffline).calls =
      [⟨1, "Ann", 0, some (.failed "not_retryable" "No online server is available")⟩] := by decide +kernel
  refine ⟨hcalls, by decide +kernel, fun h => ?_⟩
  have htally := (h _ (by rw [hcalls]; rfl)).2 _ _ rfl
  rw [tally_run, hcalls] at htally
  exact absurd htally (by decide)

end Site
end Ticket
