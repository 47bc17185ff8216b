import Mathlib.Algebra.Order.Ring.Rat
import Mathlib.Algebra.Order.Group.MinMax
import Mathlib.Data.List.MinMax
import TicketBooking.Lease
/-!
# Balancer — the load-balancing strategies (`load_balancer/`)

Each strategy is a state and a `select` that returns the chosen server and the next state; `Strategy` is the one the
`LoadBalancer` holds.  Scores are exact rationals, `max` and `min` take the first of equals as Python's do, and `md5`
is the number the hash of a text stands for.
-/
namespace Ticket

inductive ServerStatus where
  | online
  | offline
  | degraded
  deriving DecidableEq, Repr

structure ServerMetrics (ι : Type) where
  serverId : ι
  cpuUsage : ℚ
  activeConnections : ℤ
  responseTime : ℚ
  errorRate : ℚ
  requestCount : ℤ
  status : ServerStatus
  deriving DecidableEq

/-- An entry with no load. -/
def ServerMetrics.idle {ι : Type} (serverId : ι) (status : ServerStatus) : ServerMetrics ι :=
  ⟨serverId, 0, 0, 0, 0, 0, status⟩

namespace Balancer

variable {ι : Type}

def online (metrics : List (ServerMetrics ι)) : List (ServerMetrics ι) :=
  metrics.filter (fun m => decide (m.status = .online))

/-! ## Round robin -/

structure RoundRobin where
  rrIndex : ℤ
  deriving DecidableEq

def RoundRobin.new : RoundRobin := ⟨-1⟩

/-- The first online entry after the last one chosen, wrapping round. -/
def RoundRobin.select (s : RoundRobin) (metrics : List (ServerMetrics ι)) : Option ι × RoundRobin :=
  let next := (List.range metrics.length).findSome? (fun offset =>
    let idx := ((s.rrIndex + 1 + offset) % metrics.length).toNat
    (metrics[idx]?).bind (fun m => if m.status = .online then some (idx, m.serverId) else none))
  match next with
  | some (idx, serverId) => (some serverId, ⟨idx⟩)
  | none => (none, s)

/-! ## Smooth weighted round robin -/

structure WeightedRoundRobin (ι : Type) where
  weights : Dict ι ℤ
  current : Dict ι ℤ

section
variable [DecidableEq ι]

def WeightedRoundRobin.new (weights : Dict ι ℤ) : WeightedRoundRobin ι := ⟨weights, Dict.empty⟩

def WeightedRoundRobin.weightFor (s : WeightedRoundRobin ι) (serverId : ι) : ℤ :=
  max 0 ((s.weights.get? serverId).getD 1)

def WeightedRoundRobin.select (s : WeightedRoundRobin ι) (metrics : List (ServerMetrics ι)) :
    Option ι × WeightedRoundRobin ι :=
  let online := online metrics
  if online = [] then (none, s)
  else
    let present := online.foldl
      (fun c m => if (c.get? m.serverId).isSome then c else c.set m.serverId 0) s.current
    let total := (online.map (fun m => s.weightFor m.serverId)).sum
    if total ≤ 0 then (none, { s with current := present })
    else
      let raised := online.foldl
        (fun c m => c.set m.serverId ((c.get? m.serverId).getD 0 + s.weightFor m.serverId)) present
      match online.argmax (fun m => (((raised.get? m.serverId).getD 0 : ℤ) : ℚ)) with
      | none => (none, { s with current := raised })
      | some chosen =>
        (some chosen.serverId,
          { s with current := raised.set chosen.serverId ((raised.get? chosen.serverId).getD 0 - total) })

end

/-! ## The scores -/

structure ResourceAware where
  wConn : ℚ
  wCpu : ℚ
  wResp : ℚ
  deriving DecidableEq

def ResourceAware.new : ResourceAware := ⟨1 / 2, 3 / 10, 1 / 5⟩

def ResourceAware.computeScore (s : ResourceAware) (m : ServerMetrics ι) : ℚ :=
  m.activeConnections * s.wConn + m.cpuUsage * s.wCpu + m.responseTime * s.wResp

def ResourceAware.select (s : ResourceAware) (metrics : List (ServerMetrics ι)) : Option ι :=
  ((online metrics).argmin s.computeScore).map ServerMetrics.serverId

/-- `AdaptiveFeedbackStrategy._health_score`. -/
def healthScore (m : ServerMetrics ι) : ℚ :=
  100 - m.cpuUsage - m.activeConnections * 2 - m.responseTime * (1 / 2) - m.errorRate * 5

def selectAdaptive (metrics : List (ServerMetrics ι)) : Option ι :=
  ((online metrics).argmax healthScore).map ServerMetrics.serverId

/-! ## Consistent hashing -/

structure ConsistentHashing (ι : Type) where
  vnodeCount : ℕ
  ring : List (ℕ × ι)

def ConsistentHashing.new (vnodeCount : ℕ) : ConsistentHashing ι := ⟨max 1 vnodeCount, []⟩

section
variable [ToString ι] (md5 : String → ℕ)

/-- `_build_ring`: the vnodes of the online servers, sorted stably by hash. -/
def ConsistentHashing.buildRing (s : ConsistentHashing ι) (metrics : List (ServerMetrics ι)) : List (ℕ × ι) :=
  ((online metrics).flatMap (fun m =>
    (List.range s.vnodeCount).map (fun v => (md5 s!"{m.serverId}-vn-{v}", m.serverId)))).mergeSort
      (fun a b => decide (a.1 ≤ b.1))

/-- The first vnode at or after the key's hash, wrapping round; without a key, the first of the ring. -/
def ConsistentHashing.select (s : ConsistentHashing ι) (metrics : List (ServerMetrics ι))
    (routingKey : Option String) : Option ι × ConsistentHashing ι :=
  let ring := s.buildRing md5 metrics
  let key := routingKey.getD ""
  let idx := if key = "" then 0 else ring.findIdx (fun v => decide (md5 key ≤ v.1))
  ((ring[if idx = ring.length then 0 else idx]?).map Prod.snd, { s with ring := ring })

end

/-! ## The coordinator -/

/-- The strategy a `LoadBalancer` holds. -/
inductive Strategy (ι : Type) where
  | roundRobin (s : RoundRobin)
  | weightedRoundRobin (s : WeightedRoundRobin ι)
  | resourceAware (s : ResourceAware)
  | consistentHashing (s : ConsistentHashing ι)
  | adaptiveFeedback

def Strategy.select [DecidableEq ι] [ToString ι] (md5 : String → ℕ) (s : Strategy ι)
    (metrics : List (ServerMetrics ι)) (routingKey : Option String) : Option ι × Strategy ι :=
  match s with
  | .roundRobin s => ((s.select metrics).1, .roundRobin (s.select metrics).2)
  | .weightedRoundRobin s => ((s.select metrics).1, .weightedRoundRobin (s.select metrics).2)
  | .resourceAware s => (s.select metrics, .resourceAware s)
  | .consistentHashing s =>
    ((s.select md5 metrics routingKey).1, .consistentHashing (s.select md5 metrics routingKey).2)
  | .adaptiveFeedback => (selectAdaptive metrics, .adaptiveFeedback)

end Balancer
end Ticket
