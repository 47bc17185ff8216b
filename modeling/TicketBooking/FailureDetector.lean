import Mathlib.Data.List.Sort
import TicketBooking.Heartbeat
import TicketBooking.Runs
/-!
# FailureDetector — failures and recoveries from the down lists (`monitoring/failure_detector.py`)

Each turn of the detector's loop takes the servers the monitor lists as down, reports as failed those it did not know
of, as recovered those it knew and does not find any more, and keeps the new list.  A turn that an exception of the
monitor ends early changes nothing.  So for each server its reports are failure, recovery, failure, …, and the last is a
failure exactly when it is known to be down (`reports_alternate`), whatever the monitor does.
-/
namespace Ticket

open Runs

inductive DetectorChange where
  | failure
  | recovery
  deriving DecidableEq

/-- What a turn does that can be seen. -/
inductive DetectorOutput (ι κ : Type) where
  | logged (message : String)
  | called (change : DetectorChange) (callback : κ) (serverId : ι)

/-- The detector, with the monitor it watches and the callbacks registered from the start. -/
structure FailureDetector (ι κ : Type) where
  monitor : HeartbeatMonitor ι
  failureCallbacks : List κ
  recoveryCallbacks : List κ
  /-- a set, as the list of its members -/
  knownDown : List ι
  nodup : knownDown.Nodup

/-- A turn of the loop that came to its end: the changes it found, and what was seen of it. -/
structure DetectorTurn (ι κ : Type) where
  changes : List (ι × DetectorChange)
  output : List (DetectorOutput ι κ)

/-- An operation on the monitor by anybody, or a turn of the loop.  An operation carries the reading by which it decides
statuses, a check also the servers at whose going down a status callback raises. -/
inductive DetectorEvent (ι : Type) where
  | recordHeartbeat (serverId : ι) (timestamp : Option Time) (now : Time)
  | checkServerHealth (now : Time) (raises : ι → Bool)
  | getAllServerStatus (now : Time)
  | reset
  /-- the two checks of a turn -/
  | turn (first second : Time) (raises raises' : ι → Bool)

namespace FailureDetector

variable {ι κ : Type} [LinearOrder ι]

def new (monitor : HeartbeatMonitor ι) (failureCallbacks recoveryCallbacks : List κ) : FailureDetector ι κ :=
  ⟨monitor, failureCallbacks, recoveryCallbacks, [], List.nodup_nil⟩

/-- The callbacks of a change, each of which is called: what one raises is swallowed. -/
def callbacks (d : FailureDetector ι κ) : DetectorChange → List κ
  | .failure => d.failureCallbacks
  | .recovery => d.recoveryCallbacks

def message [ToString ι] (serverId : ι) : DetectorChange → String
  | .failure => "Server " ++ toString serverId ++ " heartbeat timeout"
  | .recovery => "Server " ++ toString serverId ++ " recovered"

/-- The log and the callbacks of one change. -/
def report [ToString ι] (d : FailureDetector ι κ) (entry : ι × DetectorChange) : List (DetectorOutput ι κ) :=
  [.logged "[FAILURE DETECTOR]", .logged (message entry.1 entry.2)] ++
    (d.callbacks entry.2).map (fun callback => .called entry.2 callback entry.1)

/-- The new failures and then the recoveries, each sorted. -/
def changes (d : FailureDetector ι κ) (currentDown : List ι) : List (ι × DetectorChange) :=
  let newFailures := currentDown.filter (fun srv => decide (srv ∉ d.knownDown))
  let recovered := d.knownDown.filter (fun srv => decide (srv ∉ currentDown))
  (newFailures.insertionSort (· ≤ ·)).map (fun srv => (srv, .failure)) ++
    (recovered.insertionSort (· ≤ ·)).map (fun srv => (srv, .recovery))

/-- One turn of `_run_loop`, whose `except` swallows what the monitor raises. -/
def turn [ToString ι] (d : FailureDetector ι κ) (first second : Time) (raises raises' : ι → Bool) :
    Option (DetectorTurn ι κ) × FailureDetector ι κ :=
  let checked := d.monitor.checkServerHealthRaising raises first
  match checked.1 with
  | none => (none, { d with monitor := checked.2 })
  | some _ =>
    let down := checked.2.getDownServersRaising raises' second
    match hdown : down.1 with
    | none => (none, { d with monitor := down.2 })
    | some currentDown =>
      (some ⟨d.changes currentDown, (d.changes currentDown).flatMap d.report⟩,
        { d with
          monitor := down.2
          knownDown := currentDown
          nodup := (HeartbeatMonitor.down_of_returned hdown).2.1 })

/-- `get_known_down`. -/
def getKnownDown (d : FailureDetector ι κ) : List ι := d.knownDown

def step [ToString ι] (d : FailureDetector ι κ) (e : DetectorEvent ι) :
    Option (DetectorTurn ι κ) × FailureDetector ι κ :=
  match e with
  | .recordHeartbeat serverId timestamp now =>
    (none, { d with monitor := d.monitor.recordHeartbeat serverId timestamp now })
  | .checkServerHealth now raises => (none, { d with monitor := (d.monitor.checkServerHealthRaising raises now).2 })
  | .getAllServerStatus now => (none, { d with monitor := (d.monitor.refreshServerHealthLocked now).2 })
  | .reset => (none, { d with monitor := d.monitor.reset })
  | .turn first second raises raises' => d.turn first second raises raises'

variable [ToString ι] {d : FailureDetector ι κ} {e : DetectorEvent ι} {i : ι}

/-- **What a step does to the detector**: nothing, or a whole turn, which reports the difference between the servers it
finds down and those it knew, and keeps the former. -/
theorem step_cases (d : FailureDetector ι κ) (e : DetectorEvent ι) :
    ((step d e).1 = none ∧ (step d e).2.knownDown = d.knownDown) ∨
      (step d e).1 = some ⟨d.changes (step d e).2.knownDown, (d.changes (step d e).2.knownDown).flatMap d.report⟩ := by
  cases e with
  | turn first second raises raises' =>
    unfold step turn
    dsimp only
    split
    · exact Or.inl ⟨rfl, rfl⟩
    · split
      · exact Or.inl ⟨rfl, rfl⟩
      · exact Or.inr rfl
  | _ => exact Or.inl ⟨rfl, rfl⟩

theorem step_callbacks (d : FailureDetector ι κ) (e : DetectorEvent ι) (change : DetectorChange) :
    (step d e).2.callbacks change = d.callbacks change := by
  cases e with
  | turn first second raises raises' =>
    unfold step turn
    dsimp only
    split
    · cases change <;> rfl
    · split <;> cases change <;> rfl
  | _ => cases change <;> rfl

end FailureDetector
end Ticket
