import TicketBooking.Choice
import TicketBooking.Overtaking
import TicketBooking.Remapping
import TicketBooking.Servers
import TicketBooking.StrategyContract
import TicketBooking.WeightedRotation
/-!
# Routing — which server a booking is offered (`load_balancer/`, `dashboard.py`)

An attempt on a seat that may be booked asks the strategy, on the metrics it has just measured (`routing`); nothing else
asks it, and only `set_strategy` replaces it (`strategy_step`).  The strategies that score the servers, by load or by a
hash, choose as before when other servers are lost (`loses_others`).  Under consistent hashing, therefore, the bookings
of a seat stay with a server while it is measured online, whatever happens in between (`seat_affinity`); and under round
robin no server that is measured online is passed over more than twice in a row (`round_robin_fair`), and under weighted
round robin the servers get their shares (`weighted_shares`).
-/
namespace Ticket

open Runs

/-! ## Losing servers -/

namespace Balancer

variable {ι : Type} [DecidableEq ι] [ToString ι] (md5 : String → ℕ)

/-- The vnodes of a server. -/
def vnodesAt (vnodeCount : ℕ) (id : ι) : List (ℕ × ι) :=
  (List.range vnodeCount).map (fun v => (md5 s!"{id}-vn-{v}", id))

/-- The server a key goes to, of the servers with these ids. -/
def pick (vnodeCount : ℕ) (routingKey : Option String) (ids : List ι) : Option ι :=
  (ConsistentHashing.place md5 (Clockwise.around Prod.fst (ids.flatMap (vnodesAt md5 vnodeCount))) routingKey).map
    Prod.snd

omit [DecidableEq ι] in
/-- **Consistent hashing looks at nothing but who is online.** -/
theorem select_eq_pick (s : ConsistentHashing ι) (metrics : List (ServerMetrics ι)) (routingKey : Option String) :
    (s.select md5 metrics routingKey).1 =
      pick md5 s.vnodeCount routingKey ((online metrics).map ServerMetrics.serverId) := by
  rw [ConsistentHashing.select_eq, ConsistentHashing.buildRing_eq]
  unfold pick
  rw [List.flatMap_map]
  rfl

omit [DecidableEq ι] in
theorem independent_pick (vnodeCount : ℕ) (routingKey : Option String) :
    Choice.Independent (pick (ι := ι) md5 vnodeCount routingKey) := by
  have hplace : Choice.Independent (fun vs : List (ℕ × ι) =>
      ConsistentHashing.place md5 (Clockwise.around Prod.fst vs) routingKey) := by
    intro vs p v hv hp
    dsimp only at hv ⊢
    rw [Clockwise.around_filter, ConsistentHashing.place_filter md5 fun w hw => ?_, hv]
    rw [hv] at hw
    rw [← Option.some.inj hw, hp]
  refine hplace.owner fun id v hv => ?_
  obtain ⟨n, -, rfl⟩ := List.mem_map.1 hv
  rfl

/-- The strategies that go by a score of each server. -/
def Strategy.Scores : Strategy ι → Prop
  | .roundRobin _ => False
  | .weightedRoundRobin _ => False
  | _ => True

/-- **Losing others never moves a choice**: under a strategy that scores, in any state, the server chosen is still chosen
once the entries of other servers are offline or away. -/
theorem loses_others {s : Strategy ι} (hs : s.Scores) (metrics metrics' : List (ServerMetrics ι)) (p : ι → Bool)
    (hp : online metrics' = (online metrics).filter (fun m => p m.serverId)) (routingKey : Option String) {x : ι}
    (hx : (s.select md5 metrics routingKey).1 = some x) (hpx : p x = true) :
    (s.select md5 metrics' routingKey).1 = some x := by
  have hbest : ∀ choose : List (ServerMetrics ι) → Option (ServerMetrics ι), Choice.Independent choose →
      (choose (online metrics)).map ServerMetrics.serverId = some x →
      (choose (online metrics')).map ServerMetrics.serverId = some x := by
    intro choose hchoose h
    obtain ⟨m, hm, rfl⟩ := Option.map_eq_some_iff.1 h
    rw [hp, hchoose _ _ m hm hpx]
    rfl
  cases s with
  | roundRobin s => exact hs.elim
  | weightedRoundRobin s => exact hs.elim
  | resourceAware s => exact hbest _ (Choice.independent_argmin s.computeScore) hx
  | adaptiveFeedback => exact hbest _ (Choice.independent_argmax healthScore) hx
  | consistentHashing s =>
    have hids : (online metrics').map ServerMetrics.serverId =
        ((online metrics).map ServerMetrics.serverId).filter p := by
      rw [hp, List.filter_map]
      rfl
    have hpick : pick md5 s.vnodeCount routingKey ((online metrics).map ServerMetrics.serverId) = some x :=
      (select_eq_pick md5 s metrics routingKey).symm.trans hx
    refine (select_eq_pick md5 s metrics' routingKey).trans ?_
    rw [hids]
    exact independent_pick md5 s.vnodeCount routingKey _ p x hpick hpx

/-- Of two servers without load the first is chosen, and still is when the second is lost. -/
theorem loses_others_twoServers :
    (Strategy.select (fun _ => 0) (.resourceAware .new) [.idle 1 .online, .idle 2 .offline] none).1 = some 1 :=
  loses_others (fun _ => 0) (s := .resourceAware .new) trivial [.idle 1 .online, .idle 2 .online]
    [.idle 1 .online, .idle 2 .offline] (fun id => decide (id = 1)) (by decide) none (by decide +kernel) (by decide)

end Balancer

/-! ## What asks the strategy -/

/-- What an attempt asks the strategy: the seat it is for, the hash, and the metrics it measured. -/
structure Routing where
  seatId : ℤ
  md5 : String → ℕ
  metrics : List (ServerMetrics ServerId)

/-- The answer of a strategy, and the strategy then. -/
def Routing.ask (r : Routing) (t : Balancer.Strategy ServerId) : Option ServerId × Balancer.Strategy ServerId :=
  t.select r.md5 r.metrics (some s!"seat-{r.seatId}")

open Balancer

namespace App

theorem bookSwept_strategy (a : App) (env : Env) (i : ℤ) (requester : String) :
    (a.bookSwept env i requester).2.cluster.strategyName = a.cluster.strategyName ∧
    (a.bookSwept env i requester).2.cluster.strategy =
      if a.tables.Bookable i then ((⟨i, env.md5, (a.measured env).1⟩ : Routing).ask a.cluster.strategy).2
      else a.cluster.strategy := by
  by_cases hb : a.tables.Bookable i
  · rw [bookSwept_offered hb, if_pos hb]
    cases ho : a.offers env i with
    | none => exact ⟨rfl, rfl⟩
    | some server =>
      simp only [callBreaker_cluster (admits_of_offers ho) env i requester]
      exact ⟨rfl, rfl⟩
  · obtain ⟨m, hbook⟩ := bookSwept_unbookable hb env requester
    rw [hbook, if_neg hb]
    exact ⟨rfl, rfl⟩

end App

namespace Site

/-- **What a step asks the strategy**, if it is an attempt that gets as far. -/
def routing (s : Site) (e : Event) : Option Routing :=
  match e with
  | .attempt call env _ => (s.running call).bind (fun c =>
    if (s.swept env).tables.Bookable c.seatId then some ⟨c.seatId, env.md5, ((s.swept env).measured env).1⟩ else none)
  | _ => none

/-- The server a step offers its booking. -/
def offeredTo (s : Site) (e : Event) : Option ServerId :=
  (s.routing e).bind (fun r => (r.ask s.app.cluster.strategy).1)

/-- The strategy a step puts in place of the one there is. -/
def replaces : Event → Option StrategyName
  | .setStrategy name => some (.ofString name)
  | _ => none

/-- **What a step makes of the strategy.** -/
theorem strategy_step (s : Site) (e : Event) :
    (step s e).2.app.cluster.strategyName = (replaces e).getD s.app.cluster.strategyName ∧
    (step s e).2.app.cluster.strategy = ((replaces e).map Cluster.strategyFor).getD
      (((s.routing e).map (fun r => (r.ask s.app.cluster.strategy).2)).getD s.app.cluster.strategy) := by
  cases e with
  | attempt call env draw =>
    cases hc : s.running call with
    | none => simp [step, replaces, routing, hc]
    | some c =>
      obtain ⟨hname, hstrategy⟩ := (s.swept env).bookSwept_strategy env c.seatId c.requester
      simp only [step, replaces, routing, hc, App.bookLocked, Option.bind_some, Option.map_none, Option.getD_none]
      refine ⟨hname, hstrategy.trans ?_⟩
      split <;> rfl
  | toggle serverId env =>
    simp only [step, replaces, routing]
    rcases toggle_cluster s.app env serverId with ⟨id, -, hc⟩ | ⟨-, hc⟩ <;> rw [hc] <;> exact ⟨rfl, rfl⟩
  | confirm seatId env =>
    exact ⟨congrArg Cluster.strategyName (count_cluster _ _), congrArg Cluster.strategy (count_cluster _ _)⟩
  | cancel seatId =>
    exact ⟨congrArg Cluster.strategyName (count_cluster _ _), congrArg Cluster.strategy (count_cluster _ _)⟩
  | renew seatId env =>
    exact ⟨congrArg Cluster.strategyName (count_cluster _ _), congrArg Cluster.strategy (count_cluster _ _)⟩
  | _ => exact ⟨rfl, rfl⟩

/-! ## The strategy by its name -/

/-- The strategy is one that `_strategy_for` makes for the name, used or not. -/
def Fits : StrategyName → Strategy ServerId → Prop
  | .roundRobin, .roundRobin _ => True
  | .weightedRoundRobin, .weightedRoundRobin _ => True
  | .resourceAware, .resourceAware s => s = .new
  | .consistentHashing, .consistentHashing s => s.vnodeCount = 50
  | .adaptiveFeedback, .adaptiveFeedback => True
  | _, _ => False

theorem fits_strategyFor (name : StrategyName) : Fits name (Cluster.strategyFor name) := by
  cases name <;> trivial

theorem Fits.ask {name : StrategyName} {t : Strategy ServerId} (h : Fits name t) (r : Routing) :
    Fits name (r.ask t).2 := by
  cases name <;> cases t <;> first | exact h.elim | exact h

theorem fits_run (b : Boot) (es : List Event) :
    Fits (run step b.site es).app.cluster.strategyName (run step b.site es).app.cluster.strategy := by
  refine invariant (P := fun s : Site => Fits s.app.cluster.strategyName s.app.cluster.strategy)
    (fits_strategyFor .roundRobin) (fun s e h => ?_) es
  obtain ⟨hname, hstrategy⟩ := strategy_step s e
  rw [hname, hstrategy]
  cases replaces e with
  | some name => exact fits_strategyFor name
  | none =>
    cases s.routing e with
    | some r => exact h.ask r
    | none => exact h

/-! ## The seats of a server -/

/-- The metrics of an attempt are one entry for each server, in their order. -/
theorem routing_metrics {s : Site} {e : Event} {r : Routing} (h : s.routing e = some r) :
    ∃ entry : ServerId → ServerMetrics ServerId,
      (∀ id, (entry id).serverId = id) ∧ r.metrics = serverIds.map entry := by
  cases e with
  | attempt call env draw =>
    obtain ⟨c, -, hif⟩ := Option.bind_eq_some_iff.1 h
    split at hif
    · obtain rfl := Option.some.inj hif
      exact ⟨fun id => (Cluster.metric id (s.app.cluster.servers id) (s.app.cluster.breakers id)
        (env.time (2 + 2 * Cluster.index id)) (env.time (2 + (2 * Cluster.index id + 1)))).1, fun id => rfl, rfl⟩
    · cases hif
  | _ => cases h

/-- The hash of an attempt that asks is the one it is called with. -/
theorem routing_md5 {s : Site} {call : ℕ} {env : Env} {draw : ℚ} {r : Routing}
    (h : s.routing (.attempt call env draw) = some r) : r.md5 = env.md5 := by
  obtain ⟨c, -, hif⟩ := Option.bind_eq_some_iff.1 h
  split at hif
  · rw [← Option.some.inj hif]
  · cases hif

/-- The servers measured online, in their order. -/
theorem online_ids {r : Routing} {entry : ServerId → ServerMetrics ServerId} (hid : ∀ id, (entry id).serverId = id)
    (hr : r.metrics = serverIds.map entry) : (online r.metrics).map ServerMetrics.serverId =
      serverIds.filter (fun id => decide ((entry id).status = .online)) := by
  unfold online
  rw [hr, List.filter_map, List.map_map]
  refine (List.map_congr_left fun id _ => ?_).trans (List.map_id _)
  exact hid id

theorem measured_iff {r : Routing} {entry : ServerId → ServerMetrics ServerId} (hid : ∀ id, (entry id).serverId = id)
    (hr : r.metrics = serverIds.map entry) (id : ServerId) :
    Measured r.metrics id ↔ (entry id).status = .online := by
  unfold Measured
  rw [hr]
  constructor
  · rintro ⟨m, hm, hmid, hst⟩
    obtain ⟨id', -, rfl⟩ := List.mem_map.1 hm
    rw [hid] at hmid
    rw [← hmid, hst]
  · intro hst
    exact ⟨entry id, List.mem_map_of_mem (by cases id <;> decide), hid id, hst⟩

theorem Fits.consistentHashing {t : Strategy ServerId} (h : Fits .consistentHashing t) :
    ∃ c, t = .consistentHashing c ∧ c.vnodeCount = 50 := by
  cases t with
  | consistentHashing c => exact ⟨c, rfl, h⟩
  | _ => exact h.elim

/-- **Under consistent hashing the seat goes to the server of its key**, of those measured online. -/
theorem ask_eq_pick {t : Strategy ServerId} (h : Fits .consistentHashing t) (r : Routing) : (r.ask t).1 =
    pick r.md5 50 (some s!"seat-{r.seatId}") ((online r.metrics).map ServerMetrics.serverId) := by
  obtain ⟨c, rfl, hcount⟩ := h.consistentHashing
  rw [← hcount]
  exact select_eq_pick r.md5 c r.metrics _

/-- **The bookings of a seat stay with their server.**  Under consistent hashing, two attempts on one seat, at any points
of any runs and by one hash, are offered one server, unless the second did not measure the first's server online or the
first did not measure the second's. -/
theorem seat_affinity (b b' : Boot) (es es' : List Event) (e e' : Event) (r r' : Routing) (x y : ServerId)
    (hname : (run step b.site es).app.cluster.strategyName = .consistentHashing)
    (hname' : (run step b'.site es').app.cluster.strategyName = .consistentHashing)
    (hr : (run step b.site es).routing e = some r) (hr' : (run step b'.site es').routing e' = some r')
    (hseat : r'.seatId = r.seatId) (hmd5 : r'.md5 = r.md5)
    (hx : (run step b.site es).offeredTo e = some x) (hy : (run step b'.site es').offeredTo e' = some y)
    (hxm : Measured r'.metrics x) (hym : Measured r.metrics y) : x = y := by
  obtain ⟨entry, hid, hmetrics⟩ := routing_metrics hr
  obtain ⟨entry', hid', hmetrics'⟩ := routing_metrics hr'
  have hfits := fits_run b es
  have hfits' := fits_run b' es'
  rw [hname] at hfits
  rw [hname'] at hfits'
  unfold offeredTo at hx hy
  rw [hr, Option.bind_some, ask_eq_pick hfits, online_ids hid hmetrics] at hx
  rw [hr', Option.bind_some, ask_eq_pick hfits', online_ids hid' hmetrics', hseat, hmd5] at hy
  refine (independent_pick r.md5 50 _).agree hx hy ?_ ?_
  · exact decide_eq_true ((measured_iff hid' hmetrics' x).1 hxm)
  · exact decide_eq_true ((measured_iff hid hmetrics y).1 hym)

/-- The metrics have the server online. -/
def hasOnline (metrics : List (ServerMetrics ServerId)) (id : ServerId) : Bool :=
  metrics.any (fun m => decide (m.serverId = id ∧ m.status = .online))

theorem measured_of_hasOnline {metrics : List (ServerMetrics ServerId)} {id : ServerId}
    (h : hasOnline metrics id = true) : Measured metrics id := by
  obtain ⟨m, hm, hmid⟩ := List.any_eq_true.1 h
  exact ⟨m, hm, of_decide_eq_true hmid⟩

/-- Every server is measured online. -/
def allOnline (metrics : List (ServerMetrics ServerId)) : Bool := serverIds.all (hasOnline metrics)

theorem measured_of_all {metrics : List (ServerMetrics ServerId)} (h : allOnline metrics = true) (id : ServerId) :
    Measured metrics id :=
  measured_of_hasOnline (List.all_eq_true.1 h id (by cases id <;> decide))

/-- Two clients that want one seat. -/
def twoClients : List Event := [.setStrategy "Consistent Hashing", .book 1 "Ann", .book 1 "Bob"]

/-- Where a server is measured online, one is offered. -/
theorem offered_of_measured {t : Strategy ServerId} (h : Fits .consistentHashing t) (r : Routing) {id : ServerId}
    (hm : Measured r.metrics id) : ∃ x, (r.ask t).1 = some x ∧ Measured r.metrics x := by
  obtain ⟨c, rfl, hcount⟩ := h.consistentHashing
  have hpos : 0 < c.vnodeCount := by omega
  have hkeeps : Strategy.Keeps r.metrics (∀ m ∈ r.metrics, m.status ≠ .online) (r.ask (.consistentHashing c)).1 :=
    Strategy.keeps_consistentHashing hpos r.metrics _
  obtain ⟨m, hmem, -, hon⟩ := hm
  obtain ⟨x, hx⟩ := Option.ne_none_iff_exists'.1 fun h => hkeeps.2.1 h m hmem hon
  exact ⟨x, hx, hkeeps.1 x hx⟩

/-- One of the servers is turned off after the first attempt. -/
def lost (z : ServerId) : List Event := twoClients ++ [.toggle (toString z) (.calm 1 idB)]

/-- The second attempt still measures the others online. -/
theorem lost_routing {z x : ServerId} (h : z ≠ x) : ∃ r,
    (run step Boot.calm.site (lost z)).routing (.attempt 1 (.calm 1 idB) 0) = some r ∧ r.seatId = 1 ∧
      Measured r.metrics x := by
  have hkept : ((run step Boot.calm.site (lost z)).routing (.attempt 1 (.calm 1 idB) 0)).any
      (fun r => decide (r.seatId = 1) && hasOnline r.metrics x) = true := by
    cases z <;> cases x <;> first | exact absurd rfl h | decide +kernel
  generalize (run step Boot.calm.site (lost z)).routing (.attempt 1 (.calm 1 idB) 0) = answer at hkept ⊢
  obtain ⟨r, rfl, hr⟩ := (Option.any_eq_true _ _).1 hkept
  rw [Bool.and_eq_true, decide_eq_true_iff] at hr
  exact ⟨r, rfl, hr.1, measured_of_hasOnline hr.2⟩

/-- Whichever other server is turned off between their attempts, both clients are offered the same one. -/
theorem seat_affinity_twoClients : ∃ x,
    (run step Boot.calm.site twoClients).offeredTo (.attempt 0 (.calm 0 idA) 0) = some x ∧
    ∀ z, z ≠ x → (run step Boot.calm.site (lost z)).offeredTo (.attempt 1 (.calm 1 idB) 0) = some x := by
  have hname : (run step Boot.calm.site twoClients).app.cluster.strategyName = .consistentHashing := by decide +kernel
  have hfits := fits_run Boot.calm twoClients
  rw [hname] at hfits
  obtain ⟨r, hr⟩ := Option.isSome_iff_exists.1 (show ((run step Boot.calm.site twoClients).routing
    (.attempt 0 (.calm 0 idA) 0)).isSome = true by decide +kernel)
  have hall : ((run step Boot.calm.site twoClients).routing (.attempt 0 (.calm 0 idA) 0)).all
      (fun r => decide (r.seatId = 1) && allOnline r.metrics) = true := by decide +kernel
  rw [hr, Option.all_some, Bool.and_eq_true, decide_eq_true_iff] at hall
  have hm : ∀ id, Measured r.metrics id := measured_of_all hall.2
  obtain ⟨x, hask, -⟩ := offered_of_measured hfits r (hm .server1)
  have hx : (run step Boot.calm.site twoClients).offeredTo (.attempt 0 (.calm 0 idA) 0) = some x := by
    unfold offeredTo
    rw [hr]
    exact hask
  refine ⟨x, hx, fun z hz => ?_⟩
  obtain ⟨r', hr', hseat, hxm⟩ := lost_routing hz
  have hname' : (run step Boot.calm.site (lost z)).app.cluster.strategyName = .consistentHashing := by
    cases z <;> decide +kernel
  have hfits' := fits_run Boot.calm (lost z)
  rw [hname'] at hfits'
  obtain ⟨y, hask', -⟩ := offered_of_measured hfits' r' hxm
  have hy : (run step Boot.calm.site (lost z)).offeredTo (.attempt 1 (.calm 1 idB) 0) = some y := by
    unfold offeredTo
    rw [hr']
    exact hask'
  have hsame := seat_affinity .calm .calm twoClients (lost z) (.attempt 0 (.calm 0 idA) 0) (.attempt 1 (.calm 1 idB) 0)
    r r' x y hname hname' hr hr' (hseat.trans hall.1.symm) ((routing_md5 hr').trans (routing_md5 hr).symm) hx hy hxm
    (hm y)
  rw [hy, hsame]

/-! ## The turns of the servers -/

/-- What the attempts of a run asked the strategy, with its answers, in order. -/
def routings (s : Site) : List Event → List (Routing × Option ServerId)
  | [] => []
  | e :: es => ((s.routing e).map (fun r => (r, (r.ask s.app.cluster.strategy).1))).toList ++ routings (step s e).2 es

theorem routings_metrics : ∀ (es : List Event) (s : Site), ∀ x ∈ routings s es,
    ∃ entry : ServerId → ServerMetrics ServerId, (∀ id, (entry id).serverId = id) ∧ x.1.metrics = serverIds.map entry
  | [], _, _, hx => nomatch hx
  | e :: es, s, x, hx => by
    rcases List.mem_append.1 hx with hx | hx
    · obtain ⟨r, hr, rfl⟩ := Option.map_eq_some_iff.1 (Option.mem_toList.1 hx)
      exact routing_metrics hr
    · exact routings_metrics es (step s e).2 x hx

/-- **The answers are those of the strategy to one question after another**, until the strategy is set again. -/
theorem routings_answers : ∀ (es : List Event) (s : Site), (∀ name, Event.setStrategy name ∉ es) →
    (routings s es).map Prod.snd =
      (trace (fun t r => Routing.ask r t) s.app.cluster.strategy ((routings s es).map Prod.fst)).map Prod.snd
  | [], _, _ => rfl
  | e :: es, s, hset => by
    have hrest : ∀ name, Event.setStrategy name ∉ es := fun name hm => hset name (List.mem_cons_of_mem e hm)
    have hnone : replaces e = none := by
      cases e with
      | setStrategy name => exact absurd List.mem_cons_self (hset name)
      | _ => rfl
    have hnext := (strategy_step s e).2
    have ih := routings_answers es (step s e).2 hrest
    rw [hnone] at hnext
    rw [hnext] at ih
    unfold routings
    cases hr : s.routing e with
    | none =>
      rw [hr] at ih
      exact ih
    | some r =>
      rw [hr] at ih
      rw [Option.map_some, Option.toList_some, List.singleton_append, List.map_cons, List.map_cons, ih]
      rfl

/-- **Under round robin the answers are the choices of one rotation.** -/
theorem answers_roundRobin : ∀ (rs : List Routing) (t : RoundRobin),
    (trace (fun t r => Routing.ask r t) (.roundRobin t) rs).map Prod.snd = t.choices (rs.map Routing.metrics)
  | [], _ => rfl
  | r :: rs, t => congrArg ((t.select r.metrics).1 :: ·) (answers_roundRobin rs (t.select r.metrics).2)

/-- **Under weighted round robin they are those of one weighted rotation.** -/
theorem answers_weightedRoundRobin : ∀ (rs : List Routing) (t : WeightedRoundRobin ServerId),
    (trace (fun t r => Routing.ask r t) (.weightedRoundRobin t) rs).map Prod.snd = t.choices (rs.map Routing.metrics)
  | [], _ => rfl
  | r :: rs, t => congrArg ((t.select r.metrics).1 :: ·) (answers_weightedRoundRobin rs (t.select r.metrics).2)

theorem onlineAt_iff {r : Routing} {entry : ServerId → ServerMetrics ServerId} (hid : ∀ id, (entry id).serverId = id)
    (hr : r.metrics = serverIds.map entry) (id : ServerId) :
    RoundRobin.OnlineAt r.metrics (Cluster.index id) ↔ Measured r.metrics id := by
  rw [measured_iff hid hr, RoundRobin.OnlineAt, hr]
  cases id <;> simp [serverIds, Cluster.index]

theorem routing_ids {r : Routing} {entry : ServerId → ServerMetrics ServerId} (hid : ∀ id, (entry id).serverId = id)
    (hr : r.metrics = serverIds.map entry) : r.metrics.map ServerMetrics.serverId = serverIds := by
  rw [hr, List.map_map]
  exact (List.map_congr_left fun id _ => hid id).trans (List.map_id _)

/-- A list of two elements only is no longer than it has of each. -/
theorem length_le_counts {α : Type} [BEq α] [LawfulBEq α] {a b : α} : ∀ {l : List α}, (∀ x ∈ l, x = a ∨ x = b) →
    l.length ≤ l.count a + l.count b
  | [], _ => Nat.zero_le _
  | x :: l, h => by
    have ih := length_le_counts fun y hy => h y (List.mem_cons_of_mem x hy)
    rw [List.length_cons, List.count_cons, List.count_cons]
    rcases h x List.mem_cons_self with rfl | rfl
    · rw [if_pos (beq_self_eq_true _)]
      omega
    · rw [if_pos (beq_self_eq_true x)]
      omega

/-- The other two servers. -/
def others : ServerId → ServerId × ServerId
  | .server1 => (.server2, .server3)
  | .server2 => (.server1, .server3)
  | .server3 => (.server1, .server2)

theorem eq_others {id j : ServerId} (h : j ≠ id) : j = (others id).1 ∨ j = (others id).2 := by
  cases id <;> cases j <;> simp_all [others]

/-- Where a server is online throughout, every call chooses one. -/
theorem choices_some {t : RoundRobin} {calls : List (List (ServerMetrics ServerId))}
    (hids : ∀ metrics ∈ calls, metrics.map ServerMetrics.serverId = serverIds) {k : ℕ}
    (hon : ∀ metrics ∈ calls, RoundRobin.OnlineAt metrics k) {o : Option ServerId} (ho : o ∈ t.choices calls) :
    ∃ j, o = some j := by
  obtain ⟨l, hturns, -, hchoices⟩ := RoundRobin.turns_run calls t hids fun metrics hm => ⟨k, hon metrics hm⟩
  rw [hchoices] at ho
  obtain ⟨q, hq, rfl⟩ := List.mem_map.1 ho
  obtain ⟨turn, hturn, rfl⟩ := List.mem_map.1 hq
  exact ⟨_, List.getElem?_eq_getElem (Rotation.turns_ready hturns turn hturn).1⟩

section

/-! Attempts that asked a round robin, and what they were answered. -/

variable {t : RoundRobin} {rs : List (Routing × Option ServerId)}
  (hmetrics : ∀ x ∈ rs, ∃ entry : ServerId → ServerMetrics ServerId, (∀ id, (entry id).serverId = id) ∧
    x.1.metrics = serverIds.map entry)
  (hchoices : rs.map Prod.snd = t.choices (rs.map (fun x => x.1.metrics)))
include hmetrics hchoices

/-- **A server measured online is passed over at most twice in a row.** -/
theorem passed_over {id : ServerId} (hwait : ∀ x ∈ rs, Measured x.1.metrics id ∧ x.2 ≠ some id) : rs.length ≤ 2 := by
  have hk : serverIds[Cluster.index id]? = some id := by cases id <;> rfl
  have hids : ∀ metrics ∈ rs.map (fun x => x.1.metrics), metrics.map ServerMetrics.serverId = serverIds := by
    intro metrics hm
    obtain ⟨x, hx, rfl⟩ := List.mem_map.1 hm
    obtain ⟨entry, hid, hr⟩ := hmetrics x hx
    exact routing_ids hid hr
  have hon : ∀ metrics ∈ rs.map (fun x => x.1.metrics), RoundRobin.OnlineAt metrics (Cluster.index id) := by
    intro metrics hm
    obtain ⟨x, hx, rfl⟩ := List.mem_map.1 hm
    obtain ⟨entry, hid, hr⟩ := hmetrics x hx
    exact (onlineAt_iff hid hr id).2 (hwait x hx).1
  have hnot : some id ∉ t.choices (rs.map (fun x => x.1.metrics)) := by
    rw [← hchoices]
    intro hm
    obtain ⟨x, hx, he⟩ := List.mem_map.1 hm
    exact (hwait x hx).2 he
  -- only the other two are chosen, each once at most
  have hother : ∀ o ∈ rs.map Prod.snd, o = some (others id).1 ∨ o = some (others id).2 := by
    intro o ho
    rw [hchoices] at ho
    obtain ⟨j, rfl⟩ := choices_some hids hon ho
    have hne : j ≠ id := fun h => hnot (h ▸ ho)
    exact (eq_others hne).imp (congrArg some) (congrArg some)
  have hone : ∀ j, (rs.map Prod.snd).count (some j) ≤ 1 := by
    intro j
    rw [hchoices]
    refine (RoundRobin.count_le_of_waiting hids hk hon hnot j).trans ?_
    cases j <;> decide
  have hlength := length_le_counts hother
  rw [List.length_map] at hlength
  have h1 := hone (others id).1
  have h2 := hone (others id).2
  omega

/-- **In one round over the same servers each is chosen once.** -/
theorem chosen_once {ids : Finset ServerId} (hsame : ∀ x ∈ rs, ∀ id, Measured x.1.metrics id ↔ id ∈ ids)
    (hlen : rs.length = ids.card) {id : ServerId} (hid : id ∈ ids) : (rs.map Prod.snd).count (some id) = 1 := by
  have hentries : ∀ metrics ∈ rs.map (fun x => x.1.metrics),
      metrics.map (fun m => (m.serverId, decide (m.status = .online))) =
        serverIds.map (fun id => (id, decide (id ∈ ids))) := by
    intro metrics hm
    obtain ⟨x, hx, rfl⟩ := List.mem_map.1 hm
    obtain ⟨entry, hentry, hr⟩ := hmetrics x hx
    rw [hr, List.map_map]
    refine List.map_congr_left fun j _ => ?_
    rw [Function.comp_apply, hentry, decide_eq_decide.2 ((measured_iff hentry hr j).symm.trans (hsame x hx j))]
  have hfilter : (serverIds.map (fun id => (id, decide (id ∈ ids)))).filter Prod.snd =
      (serverIds.filter (fun id => decide (id ∈ ids))).map (fun id => (id, decide (id ∈ ids))) := List.filter_map
  have hnodup : (serverIds.filter (fun id => decide (id ∈ ids))).Nodup := (by decide : serverIds.Nodup).filter _
  have hmem : ∀ j, j ∈ serverIds.filter (fun id => decide (id ∈ ids)) ↔ j ∈ ids := by
    intro j
    rw [List.mem_filter, decide_eq_true_iff]
    exact and_iff_right (by cases j <;> decide)
  have hcard : (serverIds.filter (fun id => decide (id ∈ ids))).length = ids.card := by
    rw [← List.toFinset_card_of_nodup hnodup]
    exact congrArg Finset.card (Finset.ext fun j => List.mem_toFinset.trans (hmem j))
  have hperm := RoundRobin.choices_perm (s := t) hentries
    (by rw [List.length_map, hlen, hfilter, List.length_map, hcard])
  rw [hchoices, hperm.count_eq, hfilter, List.map_map]
  have hsome := List.count_map_of_injective (serverIds.filter (fun id => decide (id ∈ ids))) some
    (Option.some_injective ServerId) id
  exact hsome.trans (List.count_eq_one_of_mem hnodup ((hmem id).2 hid))

end

/-- **Round robin in the application is fair.**  In a stretch of a run that begins under round robin and sets no
strategy, whatever else happens: attempts that all measure a server online pass it over at most twice in a row, and when
as many attempts as there are servers online measure the same ones, each of these is offered once. -/
theorem round_robin_fair (b : Boot) (pre mid : List Event)
    (hname : (run step b.site pre).app.cluster.strategyName = .roundRobin)
    (hset : ∀ name, Event.setStrategy name ∉ mid) :
    (∀ id, (∀ x ∈ routings (run step b.site pre) mid, Measured x.1.metrics id ∧ x.2 ≠ some id) →
      (routings (run step b.site pre) mid).length ≤ 2) ∧
    ∀ ids : Finset ServerId, (∀ x ∈ routings (run step b.site pre) mid, ∀ id, Measured x.1.metrics id ↔ id ∈ ids) →
      (routings (run step b.site pre) mid).length = ids.card →
      ∀ id ∈ ids, ((routings (run step b.site pre) mid).map Prod.snd).count (some id) = 1 := by
  have hfits := fits_run b pre
  rw [hname] at hfits
  have hmetrics := routings_metrics mid (run step b.site pre)
  obtain ⟨t, ht⟩ : ∃ t, (run step b.site pre).app.cluster.strategy = .roundRobin t := by
    cases hs : (run step b.site pre).app.cluster.strategy with
    | roundRobin t => exact ⟨t, rfl⟩
    | _ => rw [hs] at hfits; exact hfits.elim
  have hchoices := routings_answers mid (run step b.site pre) hset
  rw [ht, answers_roundRobin, List.map_map] at hchoices
  exact ⟨fun id hwait => passed_over hmetrics hchoices hwait,
    fun ids hsame hlen id hid => chosen_once hmetrics hchoices hsame hlen hid⟩

/-- The weights the application gives its servers. -/
def weight : ServerId → ℤ
  | .server1 => 3
  | .server2 => 2
  | .server3 => 1

/-- **Weighted round robin in the application is proportional.**  In a stretch of a run that begins with the choice of
the strategy and sets no other, whatever else happens: when all the attempts measure the same servers online, each of
these is offered less than a whole turn more than its share, and exactly its share over whole rounds. -/
theorem weighted_shares (b : Boot) (pre mid : List Event) (hset : ∀ name, Event.setStrategy name ∉ mid)
    (ids : Finset ServerId)
    (hsame : ∀ x ∈ routings (run step b.site (pre ++ [.setStrategy "Weighted Round Robin"])) mid,
      ∀ id, Measured x.1.metrics id ↔ id ∈ ids) (id : ServerId) (hid : id ∈ ids) :
    (∑ j ∈ ids, weight j) *
        (((routings (run step b.site (pre ++ [.setStrategy "Weighted Round Robin"])) mid).map Prod.snd).count (some id)) <
      (routings (run step b.site (pre ++ [.setStrategy "Weighted Round Robin"])) mid).length * weight id +
        ∑ j ∈ ids, weight j ∧
    ∀ k : ℕ, ((routings (run step b.site (pre ++ [.setStrategy "Weighted Round Robin"])) mid).length : ℤ) =
        k * ∑ j ∈ ids, weight j →
      (((routings (run step b.site (pre ++ [.setStrategy "Weighted Round Robin"])) mid).map Prod.snd).count (some id) : ℤ)
        = k * weight id := by
  obtain ⟨weights, hweights, ht⟩ : ∃ weights, (WeightedRoundRobin.new weights).weightFor = weight ∧
      (run step b.site (pre ++ [.setStrategy "Weighted Round Robin"])).app.cluster.strategy =
        .weightedRoundRobin (.new weights) := by
    refine ⟨_, ?_, by rw [run_snoc]; rfl⟩
    funext j
    cases j <;> decide
  have hmetrics := routings_metrics mid (run step b.site (pre ++ [.setStrategy "Weighted Round Robin"]))
  have hchoices := routings_answers mid (run step b.site (pre ++ [.setStrategy "Weighted Round Robin"])) hset
  rw [ht, answers_weightedRoundRobin, List.map_map] at hchoices
  generalize routings (run step b.site (pre ++ [.setStrategy "Weighted Round Robin"])) mid = rs at *
  have hlists : ∀ metrics ∈ rs.map (Routing.metrics ∘ Prod.fst), WeightedRoundRobin.Lists ids metrics := by
    intro metrics hm
    obtain ⟨x, hx, rfl⟩ := List.mem_map.1 hm
    obtain ⟨entry, hentry, hr⟩ := hmetrics x hx
    unfold WeightedRoundRobin.Lists
    rw [Function.comp_apply, online_ids hentry hr]
    refine ⟨(by decide : serverIds.Nodup).filter _, Finset.ext fun j => ?_⟩
    rw [List.mem_toFinset, List.mem_filter, decide_eq_true_iff, ← hsame x hx j, measured_iff hentry hr]
    exact and_iff_right (by cases j <;> decide)
  have hpos : 0 < Credit.total ids weight :=
    Finset.sum_pos (fun j _ => by cases j <;> decide) ⟨id, hid⟩
  have hnonneg : ∀ j ∈ ids, 0 ≤ weight j := fun j _ => by cases j <;> decide
  obtain ⟨l, hl, hsched, -⟩ := WeightedRoundRobin.scheduled_run weights (by rwa [hweights]) _ hlists
  rw [hweights] at hsched
  have hlen : rs.length = l.length := by
    have hlength := congrArg List.length (hchoices.trans hl)
    rwa [List.length_map, List.length_map] at hlength
  rw [hchoices, hl, List.count_map_of_injective l some (Option.some_injective ServerId), hlen]
  exact ⟨Credit.count_lt hpos hnonneg hsched hid, fun k hk => Credit.count_eq hpos hnonneg hsched hk hid⟩

/-- Three clients, each with a seat of its own. -/
def threeClients : List Event := [.book 1 "Ann", .book 2 "Bob", .book 3 "Cid"]

/-- Their first attempts. -/
def threeAttempts : List Event :=
  [.attempt 0 (.calm 0 idA) 0, .attempt 1 (.calm 0 idB) 0, .attempt 2 (.calm 0 idA) 0]

theorem round_robin_fair_threeAttempts :
    ((routings (run step Boot.calm.site threeClients) threeAttempts).map Prod.snd).count (some .server3) = 1 := by
  have hon : (routings (run step Boot.calm.site threeClients) threeAttempts).all (fun x => allOnline x.1.metrics) =
      true := by decide +kernel
  refine (round_robin_fair .calm threeClients threeAttempts (by decide) (by simp [threeAttempts])).2
    {.server1, .server2, .server3} (fun x hx id => ?_) (by decide +kernel) .server3 (by decide)
  exact iff_of_true (measured_of_all (List.all_eq_true.1 hon x hx) id) (by cases id <;> decide)

/-- Three more clients, and the first attempts of all six. -/
def sixClients : List Event := threeClients ++ [.book 4 "Dan", .book 5 "Eve", .book 6 "Flo"]

def sixAttempts : List Event :=
  threeAttempts ++ [.attempt 3 (.calm 0 idA) 0, .attempt 4 (.calm 0 idB) 0, .attempt 5 (.calm 0 idA) 0]

/-- Under weighted round robin the six make a whole round, half of it for the server of most weight. -/
theorem weighted_shares_sixAttempts :
    (((routings (run step Boot.calm.site (sixClients ++ [.setStrategy "Weighted Round Robin"])) sixAttempts).map
      Prod.snd).count (some .server1) : ℤ) = 3 := by
  have hon : (routings (run step Boot.calm.site (sixClients ++ [.setStrategy "Weighted Round Robin"]))
      sixAttempts).all (fun x => allOnline x.1.metrics) = true := by decide +kernel
  have hshares := weighted_shares .calm sixClients sixAttempts (by simp [sixAttempts, threeAttempts])
    {.server1, .server2, .server3} (fun x hx id => iff_of_true (measured_of_all (List.all_eq_true.1 hon x hx) id)
      (by cases id <;> decide)) .server1 (by decide)
  exact (hshares.2 1 (by decide +kernel)).trans (by decide)

end Site
end Ticket
