import Mathlib.Data.List.Induction
import TicketBooking.Lease
import TicketBooking.Runs
/-!
# HealthChecker — health by the age of the last heartbeat (`monitoring/health_checker.py`)

`HealthChecker` records a state for each server, and decides under its lock which changes to report; the callbacks are
called after the lock is released.  `HealthSystem` is the checker with the calls that are in progress: the readings of
`update_states` calls that wait for the lock, and the notifications decided but not delivered yet, in the order they
were decided.  A notification is delivered in a step of its own, and any of them may be next.
-/
namespace Ticket

inductive ServerState where
  | online
  | degraded
  | offline
  deriving DecidableEq, Repr

/-- What the checker says of one server. -/
structure ServerHealth (ι : Type) where
  serverId : ι
  state : ServerState
  lastHeartbeatAgeSec : Option Time

structure HealthChecker (ι : Type) where
  degradedAfterSec : Time
  offlineAfterSec : Time
  checkIntervalSec : Time
  lastHeartbeat : Dict ι Time
  states : Dict ι ServerState

namespace HealthChecker

variable {ι : Type} [DecidableEq ι]

/-- A checker that knows no server. -/
def fresh (degradedAfterSec offlineAfterSec checkIntervalSec : Time) : HealthChecker ι :=
  ⟨degradedAfterSec, offlineAfterSec, checkIntervalSec, Dict.empty, Dict.empty⟩

/-- `__init__`, which refuses thresholds that make no sense. -/
def new (degradedAfterSec offlineAfterSec checkIntervalSec : Time) : Except String (HealthChecker ι) :=
  if degradedAfterSec < 0 then .error "degraded_after_sec must be non-negative"
  else if offlineAfterSec ≤ degradedAfterSec then .error "offline_after_sec must be greater than degraded_after_sec"
  else if checkIntervalSec ≤ 0 then .error "check_interval_sec must be greater than zero"
  else .ok (fresh degradedAfterSec offlineAfterSec checkIntervalSec)

/-- `register_server`, which does nothing to a server it knows. -/
def registerServer (h : HealthChecker ι) (serverId : ι) : HealthChecker ι :=
  match h.states.get? serverId with
  | some _ => h
  | none => { h with states := h.states.set serverId .offline }

def stateFor (h : HealthChecker ι) (serverId : ι) (now : Time) : ServerState :=
  match h.lastHeartbeat.get? serverId with
  | none => .offline
  | some heartbeatAt =>
    let age := max 0 (now - heartbeatAt)
    if age ≤ h.degradedAfterSec then .online
    else if age ≤ h.offlineAfterSec then .degraded
    else .offline

/-- What `record_heartbeat` does under the lock: the notification it decides on, and the checker. -/
def recordHeartbeat (h : HealthChecker ι) (serverId : ι) (now : Time) : List (ι × ServerState) × HealthChecker ι :=
  (if h.states.get? serverId ≠ some .online then [(serverId, .online)] else [],
    { h with lastHeartbeat := h.lastHeartbeat.set serverId now, states := h.states.set serverId .online })

/-- The servers with a state or a heartbeat.  The code has them in a set, whose order nothing depends on: each server
is there once, and the notifications may be delivered in any order. -/
def knownServers (h : HealthChecker ι) : List ι :=
  h.states.keys ++ h.lastHeartbeat.keys.filter (fun i => decide (i ∉ h.states.keys))

def updateOne (now : Time) (acc : List (ι × ServerState) × HealthChecker ι) (serverId : ι) :
    List (ι × ServerState) × HealthChecker ι :=
  let newState := acc.2.stateFor serverId now
  (acc.1 ++ if acc.2.states.get? serverId ≠ some newState then [(serverId, newState)] else [],
    { acc.2 with states := acc.2.states.set serverId newState })

/-- What `update_states` does under the lock: the notifications it decides on, and the checker, whose states it goes
on to return. -/
def updateStates (h : HealthChecker ι) (now : Time) : List (ι × ServerState) × HealthChecker ι :=
  h.knownServers.foldl (updateOne now) ([], h)

/-- What `get_state` looks up after its update. -/
def recordedState (h : HealthChecker ι) (serverId : ι) : ServerState := (h.states.get? serverId).getD .offline

/-- What `get_health` builds after its update, and `get_all_health` for each server. -/
def healthOf (h : HealthChecker ι) (serverId : ι) (state : ServerState) (now : Time) : ServerHealth ι :=
  ⟨serverId, state, (h.lastHeartbeat.get? serverId).map (fun heartbeatAt => max 0 (now - heartbeatAt))⟩

/-- What `get_all_health` builds after its update. -/
def allHealth (h : HealthChecker ι) (now : Time) : Dict ι (ServerHealth ι) :=
  h.states.items.foldl (fun d entry => d.set entry.1 (h.healthOf entry.1 entry.2 now)) Dict.empty

/-- What `get_servers_by_state` lists after its update. -/
def serversIn (h : HealthChecker ι) (state : ServerState) : List ι :=
  (h.states.items.filter (fun entry => decide (entry.2 = state))).map Prod.fst

end HealthChecker

/-- The checker and its calls in progress. -/
structure HealthSystem (ι : Type) where
  checker : HealthChecker ι
  /-- the readings of the `update_states` calls that do not have the lock yet -/
  waiting : List Time
  /-- the notifications decided and not delivered, in the order they were decided -/
  inFlight : List (ι × ServerState)
  /-- the notifications a callback registered from the start has received, latest last -/
  received : List (ι × ServerState)

/-- A step of some call. -/
inductive HealthEvent (ι : Type) where
  /-- `record_heartbeat` under the lock, where it reads the clock -/
  | heartbeat (serverId : ι) (now : Time)
  /-- an `update_states` reads the clock -/
  | read (now : Time)
  /-- an `update_states` that waits gets the lock -/
  | enter (call : ℕ)
  /-- one of the notifications in flight is delivered, to callbacks that do not raise -/
  | deliver (message : ℕ)

namespace HealthSystem

variable {ι : Type} [DecidableEq ι]

def new (checker : HealthChecker ι) : HealthSystem ι := ⟨checker, [], [], []⟩

def step (s : HealthSystem ι) (e : HealthEvent ι) : Unit × HealthSystem ι :=
  ((), match e with
    | .heartbeat serverId now =>
      let r := s.checker.recordHeartbeat serverId now
      { s with checker := r.2, inFlight := s.inFlight ++ r.1 }
    | .read now => { s with waiting := s.waiting ++ [now] }
    | .enter call =>
      match s.waiting[call]? with
      | none => s
      | some now =>
        let r := s.checker.updateStates now
        { s with checker := r.2, waiting := s.waiting.eraseIdx call, inFlight := s.inFlight ++ r.1 }
    | .deliver message =>
      match s.inFlight[message]? with
      | none => s
      | some n => { s with inFlight := s.inFlight.eraseIdx message, received := s.received ++ [n] })

def Quiet (s : HealthSystem ι) : Prop := s.waiting = [] ∧ s.inFlight = []

/-- The notifications about one server in a list of them. -/
def about (i : ι) (l : List (ι × ServerState)) : List ServerState :=
  (l.filter (fun n => decide (n.1 = i))).map Prod.snd

/-- **The notification received last about the server is the state recorded for it**, or there is neither. -/
def LatestWins (s : HealthSystem ι) (i : ι) : Prop := (about i s.received).getLast? = s.checker.states.get? i

end HealthSystem
end Ticket
