import TicketBooking.Breaker
import TicketBooking.Runs
/-!
# WindowCount — the failure tracker counts what a naive tracker would

Every call of a `FailureTracker` but `reset` drops overdue outcomes from the front of its queue.  A tracker that drops
nothing would keep every outcome since the last reset (`sinceReset`) and count those in the window when it is asked
(`naive`).  While the clock does not go back, the two answer alike (`answer_eq_naive`): the queue always covers the
naive log from a cutoff that no later call's window begins before (`Tracked`).
-/
namespace Ticket

/-- A call of the tracker with its reading: `reset` takes none. -/
inductive TrackerCall where
  | recordSuccess (now : ℚ)
  | recordFailure (now : ℚ)
  | getCounts (now : ℚ)
  | totalRequests (now : ℚ)
  | failurePercentage (now : ℚ)
  | reset
  deriving DecidableEq

inductive TrackerAnswer where
  | nothing
  | counts (successes failures : ℕ)
  | total (n : ℕ)
  | percentage (p : ℚ)
  deriving DecidableEq

namespace TrackerCall

def reading : TrackerCall → Option ℚ
  | .recordSuccess now => some now
  | .recordFailure now => some now
  | .getCounts now => some now
  | .totalRequests now => some now
  | .failurePercentage now => some now
  | .reset => none

/-- What the calls leave to be counted, by a tracker that never prunes. -/
def log (outcomes : List Outcome) : TrackerCall → List Outcome
  | .recordSuccess now => outcomes ++ [⟨now, false⟩]
  | .recordFailure now => outcomes ++ [⟨now, true⟩]
  | .reset => []
  | _ => outcomes

def sinceReset (calls : List TrackerCall) : List Outcome := calls.foldl log []

/-- The clock does not go back from one call to the next. -/
def Timed (calls : List TrackerCall) : Prop := (calls.filterMap reading).Pairwise (fun t t' => t ≤ t')

instance instDecidableTimed (calls : List TrackerCall) : Decidable (Timed calls) :=
  inferInstanceAs (Decidable (List.Pairwise (fun t t' : ℚ => t ≤ t') _))

end TrackerCall

namespace FailureTracker

open TrackerCall Runs

def step (t : FailureTracker) : TrackerCall → TrackerAnswer × FailureTracker
  | .recordSuccess now => (.nothing, t.recordSuccess now)
  | .recordFailure now => (.nothing, t.recordFailure now)
  | .getCounts now => (.counts (t.getCounts now).1.1 (t.getCounts now).1.2, (t.getCounts now).2)
  | .totalRequests now => (.total (t.totalRequests now).1, (t.totalRequests now).2)
  | .failurePercentage now => (.percentage (t.failurePercentage now).1, (t.failurePercentage now).2)
  | .reset => (.nothing, t.reset)

/-- The answer counted from the outcomes not before `now - window`. -/
def naive (window : ℚ) (outcomes : List Outcome) : TrackerCall → TrackerAnswer
  | .getCounts now =>
    let recent := Window.since Outcome.at_ (now - window) outcomes
    .counts (recent.countP (fun e => !e.isFailure)) (recent.countP Outcome.isFailure)
  | .totalRequests now => .total (Window.since Outcome.at_ (now - window) outcomes).length
  | .failurePercentage now =>
    let recent := Window.since Outcome.at_ (now - window) outcomes
    .percentage (FailureTracker.percentage (recent.countP (fun e => !e.isFailure)) (recent.countP Outcome.isFailure))
  | _ => .nothing

/-- **The queue covers the naive log** from a cutoff no later than that of any call to come. -/
structure Tracked (window : ℚ) (calls : List TrackerCall) (t : FailureTracker) : Prop where
  window_eq : t.window = window
  stamps : ∀ o ∈ sinceReset calls, o.at_ ∈ calls.filterMap reading
  covers : ∀ now, (∀ r ∈ calls.filterMap reading, r ≤ now) →
    ∃ cutoff ≤ now - window, Window.Covers Outcome.at_ cutoff t.events (sinceReset calls)

variable {window : ℚ} {calls : List TrackerCall} {t : FailureTracker}

theorem sinceReset_snoc (calls : List TrackerCall) (c : TrackerCall) :
    sinceReset (calls ++ [c]) = log (sinceReset calls) c := List.foldl_append

theorem tracked_new (window : ℚ) : Tracked window [] (new window) :=
  ⟨rfl, fun _ ho => absurd ho List.not_mem_nil, fun now _ => ⟨now - window, le_rfl, List.Pairwise.nil, rfl⟩⟩

/-- A call at `now` that leaves the queue covering the log from `now - window` on. -/
theorem tracked_of_covers {c : TrackerCall} {now : ℚ} {t' : FailureTracker} (hc : c.reading = some now)
    (hw : t'.window = window) (hs : ∀ o ∈ sinceReset (calls ++ [c]), o.at_ ∈ (calls ++ [c]).filterMap reading)
    (hcov : Window.Covers Outcome.at_ (now - window) t'.events (sinceReset (calls ++ [c]))) :
    Tracked window (calls ++ [c]) t' := by
  refine ⟨hw, hs, fun now' hle => ⟨now - window, ?_, hcov⟩⟩
  have hnow : now ≤ now' := hle now (List.mem_filterMap.2 ⟨c, List.mem_append_right calls List.mem_cons_self, hc⟩)
  exact sub_le_sub_right hnow window

theorem stamps_record (h : Tracked window calls t) {c : TrackerCall} {now : ℚ} (hc : c.reading = some now)
    {isFailure : Bool} (hlog : log (sinceReset calls) c = sinceReset calls ++ [⟨now, isFailure⟩]) :
    ∀ o ∈ sinceReset (calls ++ [c]), o.at_ ∈ (calls ++ [c]).filterMap reading := by
  intro o ho
  rw [List.filterMap_append]
  rw [sinceReset_snoc, hlog] at ho
  rcases List.mem_append.1 ho with ho | ho
  · exact List.mem_append_left _ (h.stamps o ho)
  · rw [List.mem_singleton.1 ho]
    exact List.mem_append_right _ (List.mem_filterMap.2 ⟨c, List.mem_cons_self, hc⟩)

theorem tracked_record (h : Tracked window calls t) {c : TrackerCall} {now : ℚ} {isFailure : Bool}
    (hc : c.reading = some now) (hlog : log (sinceReset calls) c = sinceReset calls ++ [⟨now, isFailure⟩])
    (hle : ∀ r ∈ calls.filterMap reading, r ≤ now) : Tracked window (calls ++ [c]) (t.record isFailure now) := by
  obtain ⟨cutoff, hcut, hcov⟩ := h.covers now hle
  refine tracked_of_covers hc h.window_eq (stamps_record h hc hlog) ?_
  rw [sinceReset_snoc, hlog]
  have hpush := hcov.push (a := ⟨now, isFailure⟩) (fun o ho => hle o.at_ (h.stamps o ho)) hcut
  rwa [← h.window_eq] at hpush ⊢

theorem tracked_query (h : Tracked window calls t) {c : TrackerCall} {now : ℚ} (hc : c.reading = some now)
    (hlog : log (sinceReset calls) c = sinceReset calls) (hle : ∀ r ∈ calls.filterMap reading, r ≤ now) :
    Tracked window (calls ++ [c]) (t.prune now) := by
  obtain ⟨cutoff, hcut, hcov⟩ := h.covers now hle
  refine tracked_of_covers hc h.window_eq (fun o ho => ?_) ?_
  · rw [sinceReset_snoc, hlog] at ho
    rw [List.filterMap_append]
    exact List.mem_append_left _ (h.stamps o ho)
  · have hprune := hcov.prune hcut
    rw [sinceReset_snoc, hlog]
    rwa [← h.window_eq] at hprune ⊢

theorem tracked_reset (h : Tracked window calls t) : Tracked window (calls ++ [.reset]) t.reset := by
  have hlog : sinceReset (calls ++ [.reset]) = [] := sinceReset_snoc calls .reset
  refine ⟨h.window_eq, fun o ho => ?_, fun now _ => ⟨now - window, le_rfl, ?_⟩⟩
  · rw [hlog] at ho
    exact absurd ho List.not_mem_nil
  · rw [hlog]
    exact ⟨List.Pairwise.nil, rfl⟩

theorem tracked_step (h : Tracked window calls t) (c : TrackerCall)
    (hle : ∀ now ∈ c.reading, ∀ r ∈ calls.filterMap reading, r ≤ now) : Tracked window (calls ++ [c]) (step t c).2 := by
  cases c with
  | recordSuccess now => exact tracked_record h rfl rfl (hle now rfl)
  | recordFailure now => exact tracked_record h rfl rfl (hle now rfl)
  | getCounts now => exact tracked_query h rfl rfl (hle now rfl)
  | totalRequests now => exact tracked_query h rfl rfl (hle now rfl)
  | failurePercentage now => exact tracked_query h rfl rfl (hle now rfl)
  | reset => exact tracked_reset h

theorem timed_snoc {c : TrackerCall} (h : Timed (calls ++ [c])) :
    Timed calls ∧ ∀ now ∈ c.reading, ∀ r ∈ calls.filterMap reading, r ≤ now := by
  unfold Timed at h
  rw [List.filterMap_append, List.pairwise_append] at h
  exact ⟨h.1, fun now hnow r hr => h.2.2 r hr now (List.mem_filterMap.2 ⟨c, List.mem_cons_self, hnow⟩)⟩

theorem tracked_run (window : ℚ) (calls : List TrackerCall) (h : Timed calls) :
    Tracked window calls (run step (new window) calls) := by
  induction calls using List.reverseRecOn with
  | nil => exact tracked_new window
  | append_singleton calls c ih =>
    obtain ⟨hcalls, hle⟩ := timed_snoc h
    rw [run_snoc]
    exact tracked_step (ih hcalls) c hle

/-- **What is left after pruning is the naive window.** -/
theorem Tracked.recent (h : Tracked window calls t) {now : ℚ} (hle : ∀ r ∈ calls.filterMap reading, r ≤ now) :
    (t.prune now).events = Window.since Outcome.at_ (now - window) (sinceReset calls) := by
  obtain ⟨cutoff, hcut, hcov⟩ := h.covers now hle
  have hprune := (hcov.prune hcut).2
  rwa [← h.window_eq] at hprune ⊢

theorem answer_of_tracked (h : Tracked window calls t) (c : TrackerCall)
    (hle : ∀ now ∈ c.reading, ∀ r ∈ calls.filterMap reading, r ≤ now) :
    (step t c).1 = naive window (sinceReset calls) c := by
  cases c with
  | recordSuccess now => rfl
  | recordFailure now => rfl
  | getCounts now => simp only [step, naive, getCounts, h.recent (hle now rfl)]
  | totalRequests now => simp only [step, naive, totalRequests, h.recent (hle now rfl)]
  | failurePercentage now => simp only [step, naive, failurePercentage, getCounts, h.recent (hle now rfl)]
  | reset => rfl

/-- **The sliding window equals the naive count**: after any calls made while the clock did not go back, a query answers
the count of the outcomes since the last reset that are not before its reading less the window, wherever the calls before
pruned. -/
theorem answer_eq_naive (window : ℚ) (calls : List TrackerCall) (c : TrackerCall) (h : Timed (calls ++ [c])) :
    (step (run step (new window) calls) c).1 = naive window (sinceReset calls) c := by
  obtain ⟨hcalls, hle⟩ := timed_snoc h
  exact answer_of_tracked (tracked_run window calls hcalls) c hle

/-- A window of ten seconds, asked when its first outcome is exactly one window old. -/
theorem answer_eq_naive_ten :
    (step (run step (new 10) [.recordFailure 0, .recordSuccess 4, .totalRequests 9]) (.failurePercentage 10)).1 =
      .percentage 50 := by
  have h := answer_eq_naive 10 [.recordFailure 0, .recordSuccess 4, .totalRequests 9] (.failurePercentage 10)
    (by decide +kernel)
  exact h.trans (by decide +kernel)

end FailureTracker
end Ticket
