import TicketBooking.FailureDetector
import TicketBooking.Streak
/-!
# DetectorStory — failure, recovery, failure

A turn reports a server exactly when it is down in one of the two lists and not in the other (`changesOf_changes`).
So a server's reports alternate from a failure on and the last says whether it is known to be down, along every run:
whatever is done to the monitor between the turns, and whichever turns are ended early.  Each callback is called with
every report of its kind.
-/
namespace Ticket

open Runs

/-- The reports go failure, recovery, failure. -/
def Alternates (story : List DetectorChange) : Prop := story.IsChain (· ≠ ·) ∧ ∀ c ∈ story.head?, c = .failure

namespace FailureDetector

variable {ι κ : Type} [LinearOrder ι]

/-- The changes of one server among those of a turn. -/
def changesOf (i : ι) (l : List (ι × DetectorChange)) : List DetectorChange :=
  (l.filter (fun entry => decide (entry.1 = i))).map Prod.snd

/-! ## What a turn reports of a server -/

theorem changesOf_append (i : ι) (l l' : List (ι × DetectorChange)) :
    changesOf i (l ++ l') = changesOf i l ++ changesOf i l' := by
  unfold changesOf
  rw [List.filter_append, List.map_append]

theorem changesOf_map (i : ι) (c : DetectorChange) {l : List ι} (hn : l.Nodup) :
    changesOf i (l.map (fun srv => (srv, c))) = if i ∈ l then [c] else [] := by
  induction l with
  | nil => rfl
  | cons j l ih =>
    obtain ⟨hj, hn⟩ := List.nodup_cons.1 hn
    rw [List.map_cons, ← List.singleton_append, changesOf_append, ih hn]
    by_cases hi : j = i
    · subst hi
      simp [changesOf, hj]
    · simp [changesOf, hi, Ne.symm hi]

/-- **A turn reports a server that is in one of the lists and not in the other.** -/
theorem changesOf_changes (d : FailureDetector ι κ) {currentDown : List ι} (hn : currentDown.Nodup) (i : ι) :
    changesOf i (d.changes currentDown) =
      if i ∈ currentDown ∧ i ∉ d.knownDown then [.failure]
      else if i ∈ d.knownDown ∧ i ∉ currentDown then [.recovery] else [] := by
  unfold changes
  dsimp only
  rw [changesOf_append, changesOf_map, changesOf_map]
  · simp only [List.mem_insertionSort, List.mem_filter, decide_eq_true_eq]
    by_cases hc : i ∈ currentDown <;> by_cases hk : i ∈ d.knownDown <;> simp [hc, hk]
  · exact (List.perm_insertionSort _ _).nodup_iff.2 (d.nodup.filter _)
  · exact (List.perm_insertionSort _ _).nodup_iff.2 (hn.filter _)

variable [ToString ι]

/-! ## Runs -/

/-- The changes of the server an event reports. -/
def reportedBy (i : ι) (answer : Option (DetectorTurn ι κ)) : List DetectorChange :=
  answer.elim [] (fun t => changesOf i t.changes)

/-- **The reports about a server** in a run. -/
def reports (i : ι) (d : FailureDetector ι κ) (es : List (DetectorEvent ι)) : List DetectorChange :=
  (trace step d es).flatMap (fun entry => reportedBy i entry.2)

/-- What is reported of a server says whether it is known to be down. -/
def Tracks (story : List DetectorChange) (d : FailureDetector ι κ) (i : ι) : Prop :=
  Alternates story ∧ (i ∈ d.getKnownDown ↔ story.getLast? = some .failure)

variable {d : FailureDetector ι κ} {i : ι} {story : List DetectorChange}

/-- **A step reports a server that it comes to know, or not to know any more, as down.** -/
theorem reportedBy_step (d : FailureDetector ι κ) (e : DetectorEvent ι) (i : ι) :
    reportedBy i (step d e).1 =
      if i ∈ (step d e).2.knownDown ∧ i ∉ d.knownDown then [.failure]
      else if i ∈ d.knownDown ∧ i ∉ (step d e).2.knownDown then [.recovery] else [] := by
  rcases step_cases d e with ⟨hnone, hsame⟩ | hturn
  · rw [hnone, hsame, if_neg (fun h => h.2 h.1), if_neg (fun h => h.2 h.1)]
    rfl
  · rw [hturn]
    exact d.changesOf_changes (step d e).2.nodup i

theorem tracks_step (h : Tracks story d i) (e : DetectorEvent ι) :
    Tracks (story ++ reportedBy i (step d e).1) (step d e).2 i := by
  obtain ⟨halt, hlast⟩ := h
  unfold getKnownDown at hlast
  unfold Tracks getKnownDown
  rw [reportedBy_step]
  by_cases hnew : i ∈ (step d e).2.knownDown
  · by_cases hold : i ∈ d.knownDown
    · simp [hnew, hold, halt, hlast.1 hold]
    · rw [if_pos ⟨hnew, hold⟩]
      have hne : story.getLast? ≠ some .failure := fun hc => hold (hlast.2 hc)
      exact ⟨Streak.alternates_snoc halt hne fun _ => rfl, iff_of_true hnew List.getLast?_concat⟩
  · by_cases hold : i ∈ d.knownDown
    · rw [if_neg fun hc => hnew hc.1, if_pos ⟨hold, hnew⟩]
      refine ⟨Streak.alternates_snoc halt ?_ fun hc => ?_, iff_of_false hnew ?_⟩
      · rw [hlast.1 hold]
        decide
      · rw [hlast.1 hold] at hc
        cases hc
      · rw [List.getLast?_concat]
        decide
    · rw [if_neg fun hc => hnew hc.1, if_neg fun hc => hold hc.1, List.append_nil]
      exact ⟨halt, iff_of_false hnew fun hc => hold (hlast.2 hc)⟩

theorem reports_snoc (i : ι) (d : FailureDetector ι κ) (es : List (DetectorEvent ι)) (e : DetectorEvent ι) :
    reports i d (es ++ [e]) = reports i d es ++ reportedBy i (step (run step d es) e).1 :=
  flatMap_trace_snoc _ es e

theorem tracks_run (monitor : HeartbeatMonitor ι) (failureCallbacks recoveryCallbacks : List κ)
    (es : List (DetectorEvent ι)) (i : ι) :
    Tracks (reports i (new monitor failureCallbacks recoveryCallbacks) es)
      (run step (new monitor failureCallbacks recoveryCallbacks) es) i := by
  induction es using List.reverseRecOn with
  | nil => exact ⟨⟨List.isChain_nil, fun c hc => nomatch hc⟩, iff_of_false List.not_mem_nil fun hc => nomatch hc⟩
  | append_singleton es e ih =>
    rw [reports_snoc, run_snoc]
    exact tracks_step ih e

/-! ## The callbacks -/

variable [DecidableEq κ]

/-- The calls of a callback with the server, in order. -/
def callsOf (callback : κ) (i : ι) (output : List (DetectorOutput ι κ)) : List DetectorChange :=
  output.filterMap fun
    | .logged _ => none
    | .called change callback' serverId => if callback' = callback ∧ serverId = i then some change else none

omit [ToString ι] in
theorem callsOf_map (callback : κ) (i j : ι) (c : DetectorChange) (l : List κ) :
    callsOf callback i (l.map fun cb => .called c cb j) =
      if j = i then List.replicate (l.count callback) c else [] := by
  induction l with
  | nil => simp [callsOf]
  | cons cb l ih =>
    unfold callsOf at ih ⊢
    rw [List.map_cons, List.filterMap_cons, ih]
    by_cases hi : j = i
    · by_cases hcb : cb = callback
      · simp [hi, hcb, List.replicate_succ]
      · simp [hi, hcb]
    · simp [hi]

/-- **Each callback registered for a change is called with it**, once for each time it is registered. -/
theorem callsOf_report (d : FailureDetector ι κ) (callback : κ) (i : ι) (entry : ι × DetectorChange) :
    callsOf callback i (d.report entry) =
      if entry.1 = i then List.replicate ((d.callbacks entry.2).count callback) entry.2 else [] :=
  callsOf_map callback i entry.1 entry.2 (d.callbacks entry.2)

theorem callsOf_reports (d : FailureDetector ι κ) (callback : κ) (i : ι) : ∀ (l : List (ι × DetectorChange)),
    callsOf callback i (l.flatMap d.report) =
      (changesOf i l).flatMap (fun change => List.replicate ((d.callbacks change).count callback) change)
  | [] => rfl
  | entry :: l => by
    have hsplit : callsOf callback i (d.report entry ++ l.flatMap d.report) =
        callsOf callback i (d.report entry) ++ callsOf callback i (l.flatMap d.report) := List.filterMap_append
    rw [List.flatMap_cons, hsplit, callsOf_report, callsOf_reports d callback i l]
    by_cases hi : entry.1 = i
    · simp [changesOf, hi]
    · simp [changesOf, hi]

/-- The calls of the callback with the server an event makes. -/
def calledBy (callback : κ) (i : ι) (answer : Option (DetectorTurn ι κ)) : List DetectorChange :=
  answer.elim [] (fun t => callsOf callback i t.output)

/-- The calls of a callback with the server in a run. -/
def calls (callback : κ) (i : ι) (d : FailureDetector ι κ) (es : List (DetectorEvent ι)) : List DetectorChange :=
  (trace step d es).flatMap (fun entry => calledBy callback i entry.2)

omit [DecidableEq κ] in
theorem callbacks_run (d : FailureDetector ι κ) (es : List (DetectorEvent ι)) (change : DetectorChange) :
    (run step d es).callbacks change = d.callbacks change :=
  invariant (P := fun s : FailureDetector ι κ => s.callbacks change = d.callbacks change) rfl
    (fun s e hs => (step_callbacks s e change).trans hs) es

theorem calledBy_step (d : FailureDetector ι κ) (e : DetectorEvent ι) (callback : κ) (i : ι) :
    calledBy callback i (step d e).1 = (reportedBy i (step d e).1).flatMap
      (fun change => List.replicate ((d.callbacks change).count callback) change) := by
  rcases step_cases d e with ⟨hnone, -⟩ | hturn
  · rw [hnone]
    rfl
  · rw [hturn]
    exact d.callsOf_reports callback i _

theorem calls_run (d : FailureDetector ι κ) (callback : κ) (i : ι) (es : List (DetectorEvent ι)) :
    calls callback i d es =
      (reports i d es).flatMap (fun change => List.replicate ((d.callbacks change).count callback) change) := by
  induction es using List.reverseRecOn with
  | nil => rfl
  | append_singleton es e ih =>
    rw [reports_snoc, List.flatMap_append, ← ih]
    unfold calls
    rw [flatMap_trace_snoc, calledBy_step]
    simp only [callbacks_run]

/-- **Each outage and each recovery is reported once.**  Whatever happens to the monitor between the turns of the loop,
and whichever turns an exception ends early: the reports about a server go failure, recovery, failure; it is known to be
down exactly when the last is a failure; and a callback is called with the server at each of its reports of the kinds
the callback is registered for, as often as it is. -/
theorem reports_alternate (monitor : HeartbeatMonitor ι) (failureCallbacks recoveryCallbacks : List κ)
    (es : List (DetectorEvent ι)) (i : ι) :
    let d := new monitor failureCallbacks recoveryCallbacks
    Alternates (reports i d es) ∧
    (i ∈ (run step d es).getKnownDown ↔ (reports i d es).getLast? = some .failure) ∧
    ∀ callback, calls callback i d es =
      (reports i d es).flatMap (fun change => List.replicate ((d.callbacks change).count callback) change) := by
  intro d
  obtain ⟨halt, hknown⟩ := tracks_run monitor failureCallbacks recoveryCallbacks es i
  exact ⟨halt, hknown, fun callback => calls_run d callback i es⟩

end FailureDetector
end Ticket
