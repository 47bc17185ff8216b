import Mathlib
import TicketBooking.Balancer
/-!
# Failover — server health (`failover/failover_manager.py`)

A server is marked unhealthy after enough unhealthy updates in a row, and healthy again after enough healthy ones.
`updateHealth` also says which callbacks it runs: the recovery callbacks or the failure callbacks.
-/
namespace Ticket

structure ServerFailoverState where
  healthy : Bool
  lastSeen : Time
  failCount : ℕ
  recoverCount : ℕ
  reason : String
  deriving DecidableEq

/-- The defaults of the dataclass. -/
def ServerFailoverState.new : ServerFailoverState := ⟨true, 0, 0, 0, "ok"⟩

structure FailoverManager (ι : Type) where
  states : Dict ι ServerFailoverState
  healthyThreshold : ℤ
  unhealthyThreshold : ℤ

/-- The callbacks an update runs. -/
inductive FailoverCallback where
  | failure
  | recovery
  deriving DecidableEq

/-- The body of `update_health`, on the server's state. -/
def ServerFailoverState.update (state : ServerFailoverState) (healthyThreshold unhealthyThreshold : ℤ)
    (healthy : Bool) (timestamp : Time) (reason : String) : Option FailoverCallback × ServerFailoverState :=
  let state := { state with lastSeen := timestamp, reason := if reason = "" then state.reason else reason }
  if healthy then
    let state := { state with recoverCount := state.recoverCount + 1, failCount := 0 }
    if state.healthy = false ∧ healthyThreshold ≤ state.recoverCount then
      (some .recovery, { state with healthy := true, reason := "recovered" })
    else (none, state)
  else
    let state := { state with failCount := state.failCount + 1, recoverCount := 0 }
    if state.healthy = true ∧ unhealthyThreshold ≤ state.failCount then
      (some .failure, { state with healthy := false, reason := if reason = "" then "unhealthy" else reason })
    else (none, state)

namespace FailoverManager

variable {ι : Type} [DecidableEq ι]

def new (healthyThreshold unhealthyThreshold : ℤ) : FailoverManager ι :=
  ⟨Dict.empty, max 1 healthyThreshold, max 1 unhealthyThreshold⟩

def updateHealth (f : FailoverManager ι) (serverId : ι) (healthy : Bool) (timestamp : Time) (reason : String) :
    Option FailoverCallback × FailoverManager ι :=
  let r := ((f.states.get? serverId).getD .new).update f.healthyThreshold f.unhealthyThreshold healthy timestamp reason
  (r.1, { f with states := f.states.set serverId r.2 })

/-- `get_state`, which creates the state it does not find. -/
def getState (f : FailoverManager ι) (serverId : ι) : ServerFailoverState × FailoverManager ι :=
  match f.states.get? serverId with
  | some state => (state, f)
  | none => (.new, { f with states := f.states.set serverId .new })

def getHealthyServers (f : FailoverManager ι) (metrics : List (ServerMetrics ι)) : List ι :=
  (metrics.filter (fun m => decide (m.status = .online) &&
    ((f.states.get? m.serverId).map ServerFailoverState.healthy).getD true)).map ServerMetrics.serverId

def chooseFailoverTarget (f : FailoverManager ι) (metrics : List (ServerMetrics ι)) : Option ι :=
  (f.getHealthyServers metrics).head?

end FailoverManager
end Ticket
