import Mathlib.Algebra.Order.BigOperators.Group.List
import TicketBooking.Overtaking
import TicketBooking.RingLookup
/-!
# StrategyContract — no strategy misroutes or falsely reports the cluster down (`load_balancer/`)

Every strategy answers the id of an online entry, and answers nothing exactly when it has nothing to offer: when nobody
is online, and for the weighted rotation when the weights of the online entries sum to zero.  The hidden state of a
strategy matters in one place only, the number of vnodes, which is positive in every strategy that can be reached
(`Reachable.sound`).  So the coordinator keeps the contract with whatever strategy it holds (`select_contract`).
-/
namespace Ticket
namespace Balancer

variable {ι : Type}

/-- `LoadBalancer`: the coordinator and the strategy it holds, if any. -/
structure LoadBalancer (ι : Type) where
  strategy : Option (Strategy ι)

namespace LoadBalancer

def setStrategy (_ : LoadBalancer ι) (strategy : Strategy ι) : LoadBalancer ι := ⟨some strategy⟩

def select [DecidableEq ι] [ToString ι] (md5 : String → ℕ) (b : LoadBalancer ι) (metrics : List (ServerMetrics ι))
    (routingKey : Option String) : Except String (Option ι) × LoadBalancer ι :=
  match b.strategy with
  | none => (.error "No load balancing strategy configured", b)
  | some s => (.ok (s.select md5 metrics routingKey).1, ⟨some (s.select md5 metrics routingKey).2⟩)

end LoadBalancer

namespace Strategy

/-- A strategy as its constructor makes it. -/
inductive Fresh : Strategy ι → Prop where
  | roundRobin : Fresh (.roundRobin .new)
  | weightedRoundRobin (weights : Dict ι ℤ) : Fresh (.weightedRoundRobin (.new weights))
  | resourceAware (s : ResourceAware) : Fresh (.resourceAware s)
  | consistentHashing (vnodeCount : ℕ) : Fresh (.consistentHashing (.new vnodeCount))
  | adaptiveFeedback : Fresh .adaptiveFeedback

/-- All that the contract asks of the state. -/
def Sound : Strategy ι → Prop
  | .consistentHashing s => 0 < s.vnodeCount
  | _ => True

/-- The strategy has nothing to offer. -/
def Barren [DecidableEq ι] (s : Strategy ι) (metrics : List (ServerMetrics ι)) : Prop :=
  match s with
  | .weightedRoundRobin s => ((online metrics).map (fun m => s.weightFor m.serverId)).sum = 0
  | _ => ∀ m ∈ metrics, m.status ≠ .online

theorem online_eq_nil_iff {metrics : List (ServerMetrics ι)} :
    online metrics = [] ↔ ∀ m ∈ metrics, m.status ≠ .online := by
  unfold online
  simp only [List.filter_eq_nil_iff, decide_eq_true_eq, ne_eq]

theorem mem_online {metrics : List (ServerMetrics ι)} {m : ServerMetrics ι} :
    m ∈ online metrics ↔ m ∈ metrics ∧ m.status = .online := by
  unfold online
  rw [List.mem_filter, decide_eq_true_eq]

/-- The answer is the id of an online entry, and there is none exactly when `barren`. -/
def Keeps (metrics : List (ServerMetrics ι)) (barren : Prop) (answer : Option ι) : Prop :=
  (∀ i, answer = some i → ∃ m ∈ metrics, m.serverId = i ∧ m.status = .online) ∧ (answer = none ↔ barren)

/-- **An online entry that is best by some score keeps the contract.** -/
theorem keeps_best {best : Option (ServerMetrics ι)} {metrics : List (ServerMetrics ι)}
    (hmem : ∀ m, best = some m → m ∈ online metrics) (hnone : best = none ↔ online metrics = []) :
    Keeps metrics (∀ m ∈ metrics, m.status ≠ .online) (best.map ServerMetrics.serverId) := by
  constructor
  · intro i hi
    obtain ⟨m, hm, rfl⟩ := Option.map_eq_some_iff.1 hi
    obtain ⟨hin, hon⟩ := mem_online.1 (hmem m hm)
    exact ⟨m, hin, rfl, hon⟩
  · rw [Option.map_eq_none_iff, hnone, online_eq_nil_iff]

theorem keeps_roundRobin (s : RoundRobin) (metrics : List (ServerMetrics ι)) :
    Keeps metrics (∀ m ∈ metrics, m.status ≠ .online) (s.select metrics).1 := by
  rcases s.select_turn metrics with ⟨k, i, hsel, hid, hturn⟩ | ⟨hsel, hnone⟩
  · obtain ⟨m, hm, hon⟩ := Option.map_eq_some_iff.1 hturn.is_ready
    have hmem : m ∈ metrics := List.mem_of_getElem? hm
    rw [hm, Option.map_some, Option.some.injEq] at hid
    rw [hsel]
    refine ⟨fun j hj => ⟨m, hmem, hid.trans (Option.some.inj hj), hon⟩, iff_of_false (by simp) fun h => h m hmem hon⟩
  · rw [hsel]
    refine ⟨fun j hj => (nomatch hj), iff_of_true rfl fun m hm hon => ?_⟩
    obtain ⟨k, hk⟩ := List.mem_iff_getElem?.1 hm
    exact hnone k (by rw [RoundRobin.OnlineAt, hk, Option.map_some, hon])

theorem keeps_weightedRoundRobin [DecidableEq ι] (s : WeightedRoundRobin ι) (metrics : List (ServerMetrics ι)) :
    Keeps metrics (((online metrics).map (fun m => s.weightFor m.serverId)).sum = 0) (s.select metrics).1 := by
  have hnonneg : 0 ≤ ((online metrics).map (fun m => s.weightFor m.serverId)).sum :=
    List.sum_nonneg fun w hw => by
      obtain ⟨m, -, rfl⟩ := List.mem_map.1 hw
      exact le_max_left _ _
  unfold WeightedRoundRobin.select
  by_cases hnil : online metrics = []
  · simp only [if_pos hnil]
    exact ⟨fun i hi => (by cases hi), iff_of_true rfl (by rw [hnil]; rfl)⟩
  by_cases htotal : ((online metrics).map (fun m => s.weightFor m.serverId)).sum ≤ 0
  · simp only [if_neg hnil, if_pos htotal]
    exact ⟨fun i hi => (by cases hi), iff_of_true rfl (le_antisymm htotal hnonneg)⟩
  · simp only [if_neg hnil, if_neg htotal]
    split
    · rename_i hnone
      exact absurd (List.argmax_eq_none.1 hnone) hnil
    · rename_i chosen hchosen
      obtain ⟨hin, hon⟩ := mem_online.1 (List.argmax_mem hchosen)
      exact ⟨fun i hi => ⟨chosen, hin, Option.some.inj hi, hon⟩, iff_of_false (by simp) fun h => htotal (le_of_eq h)⟩

variable [ToString ι] {md5 : String → ℕ}

theorem keeps_consistentHashing {s : ConsistentHashing ι} (hs : 0 < s.vnodeCount) (metrics : List (ServerMetrics ι))
    (routingKey : Option String) :
    Keeps metrics (∀ m ∈ metrics, m.status ≠ .online) (s.select md5 metrics routingKey).1 := by
  refine ⟨fun i hi => ?_, s.select_eq_none_iff md5 hs⟩
  obtain ⟨v, hv⟩ := s.select_mem md5 hi
  exact ((ConsistentHashing.mem_vnodes s).1 hv).1

variable [DecidableEq ι]

theorem Sound.keeps {s : Strategy ι} (h : s.Sound) (metrics : List (ServerMetrics ι)) (routingKey : Option String) :
    Keeps metrics (s.Barren metrics) (s.select md5 metrics routingKey).1 := by
  cases s with
  | roundRobin s => exact keeps_roundRobin s metrics
  | weightedRoundRobin s => exact keeps_weightedRoundRobin s metrics
  | resourceAware s => exact keeps_best (fun m hm => List.argmin_mem hm) List.argmin_eq_none
  | consistentHashing s => exact keeps_consistentHashing h metrics routingKey
  | adaptiveFeedback => exact keeps_best (fun m hm => List.argmax_mem hm) List.argmax_eq_none

/-- A strategy after any calls, with any lists and keys. -/
inductive Reachable (md5 : String → ℕ) : Strategy ι → Prop where
  | fresh {s : Strategy ι} (h : Fresh s) : Reachable md5 s
  | select {s : Strategy ι} (h : Reachable md5 s) (metrics : List (ServerMetrics ι)) (routingKey : Option String) :
    Reachable md5 (s.select md5 metrics routingKey).2

theorem Reachable.sound {s : Strategy ι} (h : Reachable md5 s) : s.Sound := by
  induction h with
  | fresh h =>
    cases h with
    | consistentHashing vnodeCount => exact lt_of_lt_of_le Nat.one_pos (le_max_left 1 vnodeCount)
    | _ => trivial
  | @select s h metrics routingKey ih =>
    cases s with
    | consistentHashing s => exact ih
    | _ => trivial

/-- **No strategy misroutes or falsely reports the cluster down.**  With any strategy, after whatever calls it has had,
the coordinator it is given to answers the id of an online entry, and answers nothing exactly when there is nothing to
offer. -/
theorem select_contract {s : Strategy ι} (h : Reachable md5 s) (b : LoadBalancer ι) (metrics : List (ServerMetrics ι))
    (routingKey : Option String) :
    ∃ answer, ((b.setStrategy s).select md5 metrics routingKey).1 = .ok answer ∧
      (∀ i, answer = some i → ∃ m ∈ metrics, m.serverId = i ∧ m.status = .online) ∧
      (answer = none ↔ s.Barren metrics) :=
  ⟨_, rfl, h.sound.keeps metrics routingKey⟩

/-- Round robin after a call with three servers. -/
def afterThree : Strategy ℕ :=
  (Strategy.select (fun _ => 0) (.roundRobin .new) [.idle 1 .offline, .idle 2 .offline, .idle 3 .online] none).2

theorem select_contract_shrunk :
    ∃ answer, (((⟨none⟩ : LoadBalancer ℕ).setStrategy afterThree).select (fun _ => 0) [.idle 1 .online] (some "")).1 =
        .ok answer ∧
      (∀ i, answer = some i → ∃ m ∈ [ServerMetrics.idle 1 .online], m.serverId = i ∧ m.status = .online) ∧
      (answer = none ↔ afterThree.Barren [.idle 1 .online]) :=
  select_contract (.select (.fresh .roundRobin) [.idle 1 .offline, .idle 2 .offline, .idle 3 .online] none) ⟨none⟩
    [.idle 1 .online] (some "")

end Strategy
end Balancer
end Ticket
