import TicketBooking.Breaker
import TicketBooking.Failover
import TicketBooking.Tables
/-!
# Cluster — the servers and how a booking is routed (`dashboard.py`)

The other part of `DistributedTicketWebApp`: the simulated servers, their circuit breakers, the load-balancing strategy
and the health the failover manager keeps.  It decides whether a booking attempt reaches the tables and through which
server.  Random draws and the hash are arguments, as the clock is.
-/
namespace Ticket

/-- `STRATEGIES`. -/
inductive StrategyName where
  | roundRobin
  | weightedRoundRobin
  | resourceAware
  | consistentHashing
  | adaptiveFeedback
  deriving DecidableEq, Repr

/-- A name that is not in `STRATEGIES` means round robin. -/
def StrategyName.ofString (name : String) : StrategyName :=
  if name = "Weighted Round Robin" then .weightedRoundRobin
  else if name = "Resource-Aware" then .resourceAware
  else if name = "Consistent Hashing" then .consistentHashing
  else if name = "Adaptive Feedback" then .adaptiveFeedback
  else .roundRobin

structure Server where
  online : Bool
  cpu : ℤ
  connections : ℤ
  responseTime : ℤ
  requests : ℤ
  deriving DecidableEq

/-- What `_book_locked` raises: `NonRetryableBookingError` or `TransientBookingError`. -/
inductive BookingError where
  | nonRetryable (message : String)
  | transient (message : String)
  deriving DecidableEq

structure Cluster where
  servers : ServerId → Server
  breakers : ServerId → Breaker
  strategyName : StrategyName
  strategy : Balancer.Strategy ServerId
  failover : FailoverManager ServerId

namespace Cluster

open Balancer

def index : ServerId → ℕ
  | .server1 => 0
  | .server2 => 1
  | .server3 => 2

def strategyFor : StrategyName → Strategy ServerId
  | .roundRobin => .roundRobin .new
  | .weightedRoundRobin =>
    .weightedRoundRobin (.new (((Dict.empty.set .server1 3).set .server2 2).set .server3 1))
  | .resourceAware => .resourceAware .new
  | .consistentHashing => .consistentHashing (.new 50)
  | .adaptiveFeedback => .adaptiveFeedback

def setStrategy (c : Cluster) (name : String) : Cluster :=
  { c with strategyName := .ofString name, strategy := strategyFor (.ofString name) }

def setBreaker (c : Cluster) (id : ServerId) (b : Breaker) : Cluster :=
  { c with breakers := Function.update c.breakers id b }

/-- One server's entry of `_current_metrics`; an offline server's breaker is not asked for its state. -/
def metric (id : ServerId) (server : Server) (b : Breaker) (now later : Time) : ServerMetrics ServerId × Breaker :=
  let asked := if server.online = true then b.getState now else (.opened, b)
  let fp := asked.2.failurePercentage later
  (⟨id, server.cpu, server.connections, server.responseTime, pyRound (fp.1 / 100 * 1000) / 1000, server.requests,
      if asked.1 ≠ .opened then .online else .offline⟩, fp.2)

/-- `_current_metrics`: two readings a server. -/
def currentMetrics (c : Cluster) (now : ℕ → Time) : List (ServerMetrics ServerId) × Cluster :=
  let entry := fun id => metric id (c.servers id) (c.breakers id) (now (2 * index id)) (now (2 * index id + 1))
  (serverIds.map (fun id => (entry id).1), { c with breakers := fun id => (entry id).2 })

def clamp (lo hi x : ℤ) : ℤ := max lo (min hi x)

/-- `_refresh_server_metrics`: three draws for each server that is online. -/
def refreshServerMetrics (c : Cluster) (randint : ℕ → ℤ) : Cluster :=
  { c with
    servers := fun id =>
      let server := c.servers id
      if server.online = true then
        { server with
          cpu := clamp 5 95 (server.cpu + randint (3 * index id))
          connections := clamp 0 30 (server.connections + randint (3 * index id + 1))
          responseTime := clamp 25 700 (server.responseTime + randint (3 * index id + 2)) }
      else server }

def selectCircuitSafeServer (c : Cluster) (selected : ServerId) (metrics : List (ServerMetrics ServerId))
    (now later : Time) : Except BookingError ServerId × Cluster :=
  let asked := (c.breakers selected).allowRequest now
  let c := c.setBreaker selected asked.2
  if asked.1 = true then (.ok selected, c)
  else
    let refused : Except BookingError ServerId := .error (.nonRetryable s!"Circuit is open for {selected}")
    match c.failover.chooseFailoverTarget metrics with
    | none => (refused, c)
    | some target =>
      if target = selected then (refused, c)
      else
        let asked := (c.breakers target).allowRequest later
        (if asked.1 = true then .ok target else refused, c.setBreaker target asked.2)

/-- The routing of an attempt: the metrics, the strategy's choice, and a breaker that admits it. -/
def route (c : Cluster) (md5 : String → ℕ) (routingKey : String) (now : ℕ → Time) :
    Except BookingError ServerId × Cluster :=
  let measured := c.currentMetrics now
  let chosen := measured.2.strategy.select md5 measured.1 (some routingKey)
  let c := { measured.2 with strategy := chosen.2 }
  match chosen.1 with
  | none => (.error (.nonRetryable "No online server is available"), c)
  | some selected => c.selectCircuitSafeServer selected measured.1 (now 6) (now 7)

/-- `toggle_server`, the replicas apart. -/
def toggle (c : Cluster) (id : ServerId) (now : Time) : Cluster :=
  let online := !(c.servers id).online
  { c with
    servers := Function.update c.servers id { c.servers id with online := online }
    failover :=
      (c.failover.updateHealth id online now (if online then "manual recovery" else "manual offline")).2 }

/-- What `snapshot` asks of each server besides its metrics. -/
def observe (c : Cluster) (now : ℕ → Time) : Cluster :=
  { c with
    breakers := fun id =>
      (((c.breakers id).getState (now (2 * index id))).2.failurePercentage (now (2 * index id + 1))).2
    failover := serverIds.foldl (fun f id => (f.getState id).2) c.failover }

/-- The cluster of `__init__`, with the first draws and the times of the first heartbeats. -/
def init (cpu connections responseTime : ServerId → ℤ) (seen : ServerId → Time) : Cluster :=
  { servers := fun id => ⟨true, cpu id, connections id, responseTime id, 0⟩
    breakers := fun _ => Breaker.new 3 60 60 8 1
    strategyName := .roundRobin
    strategy := strategyFor .roundRobin
    failover := serverIds.foldl (fun f id => (f.updateHealth id true (seen id) "initial heartbeat").2) (.new 2 2) }

end Cluster
end Ticket
